import Codex.Sandbox.RootFacts

/-!
# The semantic signature

Two policies with equal signatures have the same readable, unreadable and writable
roots. Equal readable and unreadable roots give the same reading everywhere. Writing
can still differ in two places: below the target of a `.git` pointer, which is a
default of the one policy and an entry of the other, and below `/tmp` where that is no
directory and a `:slash_tmp` entry only seems to override another.
-/

namespace Codex

open Foundation List

theorem mem_destutter_ne {α : Type} [DecidableEq α] {l : List α} {x : α} :
    x ∈ l.destutter (· ≠ ·) ↔ x ∈ l := by
  have haux : ∀ (l : List α) (a : α), x ∈ l.destutter' (· ≠ ·) a ↔ x ∈ a :: l := by
    intro l
    induction l with
    | nil => simp
    | cons b l ih =>
      intro a
      by_cases hab : a = b
      · subst hab
        rw [destutter'_cons_neg l (by simp), ih a]
        simp
      · rw [destutter'_cons_pos l hab, mem_cons, ih b, ← mem_cons]
  cases l with
  | nil => simp
  | cons a l => rw [destutter_cons']; exact haux l a

namespace FileSystemSandboxPolicy

theorem mem_of_sorted_eq {l l' : List AbsolutePathBuf}
    (h : sortedAbsolutePaths l = sortedAbsolutePaths l') (q : AbsolutePathBuf) :
    q ∈ l ↔ q ∈ l' := by
  have hmem : ∀ k : List AbsolutePathBuf, q ∈ sortedAbsolutePaths k ↔ q ∈ k :=
    fun k => mem_insertionSort _
  rw [← hmem l, h, hmem l']

theorem exists_of_sortedRoots_eq {l l' : List WritableRoot}
    (h : sortedWritableRoots l = sortedWritableRoots l') {root : WritableRoot} (hroot : root ∈ l) :
    ∃ root' ∈ l', root'.root = root.root ∧
      (∀ q, q ∈ root'.readOnlySubpaths ↔ q ∈ root.readOnlySubpaths) ∧
      ∀ m, m ∈ root'.protectedMetadataNames ↔ m ∈ root.protectedMetadataNames := by
  have hin : ({ root with
      readOnlySubpaths := sortedAbsolutePaths root.readOnlySubpaths
      protectedMetadataNames := (sortedTexts root.protectedMetadataNames).destutter (· ≠ ·) } :
        WritableRoot) ∈ sortedWritableRoots l :=
    (mem_insertionSort _).mpr (mem_map.mpr ⟨root, hroot, rfl⟩)
  rw [h] at hin
  obtain ⟨root', hroot', heq⟩ := mem_map.mp ((mem_insertionSort _).mp hin)
  obtain ⟨hr, hro, hnames⟩ := WritableRoot.mk.inj heq
  refine ⟨root', hroot', hr, mem_of_sorted_eq hro, fun m => ?_⟩
  have hmem : ∀ k : List Text, m ∈ (sortedTexts k).destutter (· ≠ ·) ↔ m ∈ k :=
    fun k => mem_destutter_ne.trans (mem_insertionSort _)
  rw [← hmem root'.protectedMetadataNames, hnames, hmem]

/-! ## Entries of full-disk policies -/

section
variable {policy : FileSystemSandboxPolicy} {host : Host} {cwd : Text} {p d : AbsolutePathBuf}

variable (host) in
theorem hasRootAccess_entry {predicate : FileSystemAccessMode → Bool}
    (hcwd : isAbsolute cwd = true) (h : policy.hasRootAccess predicate = true) :
    ∃ entry ∈ policy.resolvedEntriesWithCwd host cwd, entry.path = .root ∧
      predicate entry.access = true := by
  obtain ⟨c, hc⟩ := absolutePath_of_isAbsolute host hcwd
  unfold hasRootAccess at h
  rw [Bool.and_eq_true, any_eq_true] at h
  obtain ⟨-, source, hs, hroot⟩ := h
  rw [Bool.and_eq_true, decide_eq_true_eq] at hroot
  refine ⟨⟨.root, source.access⟩, mem_resolvedEntries.mpr ⟨source, hs, ?_, rfl⟩, rfl, hroot.2⟩
  rw [hroot.1, hc]
  rfl

theorem exists_nearest_of_root (hroot : policy.HasEntryAt host cwd .root) (p : AbsolutePathBuf) :
    ∃ d, policy.NearestEntry host cwd p d := by
  obtain ⟨d, hn, -⟩ := hroot.exists_nearest (p := p) nil_prefix
  exact ⟨d, hn⟩

theorem fullDiskRead_canRead (hkind : policy.kind = .restricted) (hcwd : isAbsolute cwd = true)
    (hfull : policy.hasFullDiskReadAccess = true) (p : AbsolutePathBuf) :
    policy.canReadPathWithCwd host p.display cwd = true := by
  unfold hasFullDiskReadAccess at hfull
  rw [hkind] at hfull
  simp only [Bool.and_eq_true, Bool.not_eq_true'] at hfull
  obtain ⟨entry, he, hpath, -⟩ := hasRootAccess_entry host hcwd hfull.1
  obtain ⟨d, hn⟩ := exists_nearest_of_root ⟨entry, he, hpath⟩ p
  refine (canRead_iff hkind).mpr ⟨d, hn, hn.hasEntryAt, fun e he' _ hnone => ?_⟩
  obtain ⟨source, hs, -, hacc⟩ := mem_resolvedEntries.mp he'
  unfold hasDeniedReadRestrictions at hfull
  rw [hkind, decide_eq_true rfl, Bool.true_and, Bool.eq_false_iff] at hfull
  refine hfull.2 (any_eq_true.mpr ⟨source, hs, ?_⟩)
  exact decide_eq_true (hacc.trans hnone)

theorem eq_root_of_parent_isNone {q : AbsolutePathBuf} (h : q.parent.isNone = true) :
    q = .root := by
  unfold AbsolutePathBuf.parent at h
  split at h
  · rename_i hnil
    exact AbsolutePathBuf.ext hnil
  · cases h

theorem shareTarget_resolves {left right : FileSystemPath} {c : AbsolutePathBuf}
    (hshare : fileSystemPathsShareTarget left right = true)
    (hright : resolveEntryPath host right (some c) = some d) :
    resolveEntryPath host left (some c) = some d ∨
      d = slashTmpPath ∧ host.isDir slashTmpPath = false := by
  cases left with
  | path l =>
    cases right with
    | path r =>
      obtain rfl := of_decide_eq_true hshare
      exact .inl hright
    | globPattern r => cases hshare
    | special value =>
      cases value with
      | root =>
        obtain rfl := eq_root_of_parent_isNone hshare
        exact .inl hright
      | slashTmp =>
        obtain rfl := of_decide_eq_true hshare
        unfold resolveEntryPath resolveFileSystemPath resolveFileSystemSpecialPath at hright
        simp only at hright
        split at hright
        · exact .inl hright
        · cases hright
      | minimal | projectRoots subpath | tmpdir | unknown path subpath => cases hshare
  | globPattern l =>
    cases right with
    | globPattern r => cases hright
    | path r | special value => cases hshare
  | special value =>
    cases right with
    | special value' =>
      obtain rfl := of_decide_eq_true hshare
      exact .inl hright
    | globPattern r => cases hshare
    | path r =>
      cases hright
      cases value with
      | root =>
        obtain rfl := eq_root_of_parent_isNone hshare
        exact .inl rfl
      | slashTmp =>
        obtain rfl := of_decide_eq_true hshare
        cases hdir : host.isDir slashTmpPath with
        | false => exact .inr ⟨rfl, rfl⟩
        | true => exact .inl (if_pos hdir)
      | minimal | projectRoots subpath | tmpdir | unknown path subpath => cases hshare

theorem overridden_of_not_narrows {source : FileSystemSandboxEntry} {c : Option AbsolutePathBuf}
    (hnot : policy.narrowsWrite source = false)
    (hres : resolveEntryPath host source.path c = some d) (hacc : source.access ≠ .write) :
    source.path = .special .root ∧ source.access ≠ .none ∨
      policy.hasSameTargetWriteOverride source = true := by
  have hcan : source.access.canWrite = false := decide_eq_false hacc
  unfold narrowsWrite at hnot
  rw [hcan, if_neg (by decide)] at hnot
  cases hp : source.path with
  | path q =>
    rw [hp] at hnot
    exact .inr (by simpa using hnot)
  | globPattern pattern =>
    rw [hp] at hnot
    cases hnot
  | special value =>
    rw [hp] at hnot hres
    cases value with
    | root => exact .inl ⟨rfl, by simpa using hnot⟩
    | minimal | unknown path subpath => cases hres
    | projectRoots subpath | tmpdir | slashTmp => exact .inr (by simpa using hnot)

theorem override_entry {source : FileSystemSandboxEntry}
    (h : policy.hasSameTargetWriteOverride source = true) : source.access ≠ .none ∧
      ∃ candidate ∈ policy.entries, candidate.access = .write ∧
        fileSystemPathsShareTarget candidate.path source.path = true := by
  obtain ⟨candidate, hc, hcand⟩ := any_eq_true.mp h
  simp only [Bool.and_eq_true, decide_eq_true_eq] at hcand
  obtain ⟨⟨hwrite, hlt⟩, hshare⟩ := hcand
  refine ⟨fun hnone => ?_, candidate, hc, of_decide_eq_true hwrite, hshare⟩
  rw [hnone] at hlt
  exact absurd (FileSystemAccessMode.none_le_iff.mp hlt.le ▸ hlt) (lt_irrefl _)

theorem fullDiskWrite_root (hkind : policy.kind = .restricted)
    (hfull : policy.hasFullDiskWriteAccess = true) : policy.hasRootAccess (·.canWrite) = true ∧
      ∀ source ∈ policy.entries, policy.narrowsWrite source = false := by
  unfold hasFullDiskWriteAccess at hfull
  rw [hkind] at hfull
  simp only [Bool.and_eq_true, Bool.not_eq_true'] at hfull
  obtain ⟨hroot, hnarrow⟩ := hfull
  refine ⟨hroot, fun source hs => Bool.eq_false_iff.mpr fun h => ?_⟩
  unfold hasWriteNarrowingEntries at hnarrow
  rw [hkind, decide_eq_true rfl, Bool.true_and] at hnarrow
  exact Bool.eq_false_iff.mp hnarrow (any_eq_true.mpr ⟨source, hs, h⟩)

theorem fullDiskWrite_writesAt (hkind : policy.kind = .restricted)
    (hcwd : isAbsolute cwd = true) (hfull : policy.hasFullDiskWriteAccess = true)
    (hd : policy.HasEntryAt host cwd d) : policy.ReadsAt host cwd d ∧
      (policy.WritesAt host cwd d ∨ d = slashTmpPath ∧ host.isDir slashTmpPath = false) := by
  obtain ⟨hroot, hnot⟩ := fullDiskWrite_root hkind hfull
  have hover : ∀ source ∈ policy.entries, ∀ path,
      resolveEntryPath host source.path (host.paths.absolutePath cwd) = some path →
      source.access = .write ∨ source.path = .special .root ∧ source.access ≠ .none ∨
        policy.hasSameTargetWriteOverride source = true := by
    intro source hs path hpath
    by_cases hwrite : source.access = .write
    · exact .inl hwrite
    · exact .inr (overridden_of_not_narrows (hnot source hs) hpath hwrite)
  have hno : ∀ entry ∈ policy.resolvedEntriesWithCwd host cwd, entry.path = d →
      entry.access ≠ .none := by
    intro entry he _ hnone
    obtain ⟨source, hs, hpath, hacc⟩ := mem_resolvedEntries.mp he
    have hdeny := hacc.trans hnone
    rcases hover source hs _ hpath with hwrite | ⟨-, hne⟩ | hov
    · rw [hdeny] at hwrite
      cases hwrite
    · exact hne hdeny
    · exact (override_entry hov).1 hdeny
  refine ⟨⟨hd, hno⟩, ?_⟩
  obtain ⟨entry, he, rfl⟩ := hd
  obtain ⟨c, hc⟩ := absolutePath_of_isAbsolute host hcwd
  obtain ⟨source, hs, hres, hacc⟩ := mem_resolvedEntries.mp he
  rcases hover source hs _ hres with hwrite | ⟨hpath, -⟩ | hov
  · exact .inl ⟨⟨entry, he, rfl, hacc.symm.trans hwrite⟩, hno⟩
  · obtain ⟨top, htop, hproot, hwrite⟩ := hasRootAccess_entry host hcwd hroot
    rw [hpath, hc] at hres
    have hd : top.path = entry.path := hproot.trans (Option.some.inj hres)
    exact .inl ⟨⟨top, htop, hd, of_decide_eq_true hwrite⟩, hno⟩
  · obtain ⟨-, candidate, hcand, hwrite, hshare⟩ := override_entry hov
    rw [hc] at hres
    rcases shareTarget_resolves hshare hres with hleft | htmp
    · refine .inl ⟨⟨⟨entry.path, candidate.access⟩, ?_, rfl, hwrite⟩, hno⟩
      exact mem_resolvedEntries.mpr ⟨candidate, hcand, by rw [hc]; exact hleft, rfl⟩
    · exact .inr htmp

/-! ## Full-disk writing -/

variable (policy host cwd) in
/-- The whole disk counts as writable, yet only read entries stand at `/tmp`, and they
decide for the path. -/
def MaskedByTmp (p : AbsolutePathBuf) : Prop :=
  policy.kind = .restricted ∧ policy.hasFullDiskWriteAccess = true ∧
    policy.NearestEntry host cwd p slashTmpPath ∧ ¬ policy.WritesAt host cwd slashTmpPath

theorem canWrite_of_unrestricted (hkind : policy.kind ≠ .restricted) :
    policy.canWritePathWithCwd host p.display cwd = true := by
  have hfull : policy.hasFullDiskWriteAccess = true := by
    unfold hasFullDiskWriteAccess
    cases hk : policy.kind <;> first | rfl | exact absurd hk hkind
  have haccess : policy.resolveAccessWithCwd host p.display cwd = .write := by
    unfold resolveAccessWithCwd
    cases hk : policy.kind <;> first | rfl | exact absurd hk hkind
  unfold canWritePathWithCwd
  rw [haccess, hfull]
  rfl

theorem fullDiskWrite_canWrite_iff (hcwd : isAbsolute cwd = true)
    (hfull : policy.hasFullDiskWriteAccess = true) (p : AbsolutePathBuf) :
    policy.canWritePathWithCwd host p.display cwd = true ↔ ¬ policy.MaskedByTmp host cwd p := by
  by_cases hkind : policy.kind = .restricted
  · have haccess := canWrite_resolveAccess hkind (resolveCandidatePath_display host p cwd)
    have hiff : policy.canWritePathWithCwd host p.display cwd = true ↔
        (policy.resolveAccessWithCwd host p.display cwd).canWrite = true := by
      unfold canWritePathWithCwd
      rw [hfull]
      cases (policy.resolveAccessWithCwd host p.display cwd).canWrite <;> simp
    rw [hiff, haccess]
    constructor
    · rintro ⟨d, hn, hw⟩ ⟨-, -, hn', hno⟩
      obtain rfl := hn.unique hn'
      exact hno hw
    · intro hmask
      obtain ⟨entry, he, hpath, -⟩ :=
        hasRootAccess_entry host hcwd (fullDiskWrite_root hkind hfull).1
      obtain ⟨d, hn⟩ := exists_nearest_of_root ⟨entry, he, hpath⟩ p
      refine ⟨d, hn, ?_⟩
      by_contra hno
      rcases (fullDiskWrite_writesAt hkind hcwd hfull hn.hasEntryAt).2 with hw | ⟨rfl, -⟩
      · exact hno hw
      · exact hmask ⟨hkind, hfull, hn, hno⟩
  · constructor
    · exact fun _ h => hkind h.1
    · exact fun _ => canWrite_of_unrestricted hkind

theorem fullDiskWrite_canRead (hcwd : isAbsolute cwd = true)
    (hfull : policy.hasFullDiskWriteAccess = true) (p : AbsolutePathBuf) :
    policy.canReadPathWithCwd host p.display cwd = true := by
  by_cases hkind : policy.kind = .restricted
  · obtain ⟨entry, he, hpath, -⟩ :=
      hasRootAccess_entry host hcwd (fullDiskWrite_root hkind hfull).1
    obtain ⟨d, hn⟩ := exists_nearest_of_root ⟨entry, he, hpath⟩ p
    exact (canRead_iff hkind).mpr ⟨d, hn, (fullDiskWrite_writesAt hkind hcwd hfull hn.hasEntryAt).1⟩
  · unfold canReadPathWithCwd resolveAccessWithCwd
    cases hk : policy.kind <;> first | rfl | exact absurd hk hkind

/-! ## Equal roots -/

theorem mem_getReadableRoots (hlinks : host.NoSymlinks) (hkind : policy.kind = .restricted)
    (hfull : policy.hasFullDiskReadAccess = false) :
    d ∈ policy.getReadableRootsWithCwd host cwd ↔ policy.ReadsAt host cwd d := by
  have hself : ∀ entry ∈ policy.resolvedEntriesWithCwd host cwd,
      (policy.canReadPathWithCwd host entry.path.display cwd = true ↔
        policy.ReadsAt host cwd entry.path) := by
    intro entry he
    have hentry : policy.HasEntryAt host cwd entry.path := ⟨entry, he, rfl⟩
    rw [canRead_iff hkind]
    constructor
    · rintro ⟨d, hn, hr⟩
      rwa [hentry.nearest_self.unique hn]
    · exact fun hr => ⟨_, hentry.nearest_self, hr⟩
  unfold getReadableRootsWithCwd
  rw [hfull, if_neg (by decide), mem_dedupAbsolutePaths hlinks, mem_map]
  constructor
  · rintro ⟨entry, hmem, rfl⟩
    obtain ⟨hmem, hcan⟩ := mem_filter.mp hmem
    exact (hself entry (mem_filter.mp hmem).1).mp hcan
  · intro hr
    obtain ⟨entry, he, rfl⟩ := hr.1
    refine ⟨entry, mem_filter.mpr ⟨mem_filter.mpr ⟨he, ?_⟩, (hself entry he).mpr hr⟩, rfl⟩
    exact decide_eq_true (hr.2 entry he rfl)

theorem mem_getUnreadableRoots (hlinks : host.NoSymlinks) (hkind : policy.kind = .restricted)
    (hcwd : isAbsolute cwd = true) : d ∈ policy.getUnreadableRootsWithCwd host cwd ↔
      policy.HasEntryAt host cwd d ∧ ¬ policy.ReadsAt host cwd d ∧ d ≠ .root := by
  obtain ⟨c, hc⟩ := absolutePath_of_isAbsolute host hcwd
  have hself : ∀ entry ∈ policy.resolvedEntriesWithCwd host cwd, entry.access = .none →
      policy.canReadPathWithCwd host entry.path.display cwd = false := by
    intro entry he hnone
    refine Bool.eq_false_iff.mpr fun h => ?_
    obtain ⟨d, hn, hr⟩ := (canRead_iff hkind).mp h
    have hentry : policy.HasEntryAt host cwd entry.path := ⟨entry, he, rfl⟩
    exact hr.2 entry he (hentry.nearest_self.unique hn) hnone
  unfold getUnreadableRootsWithCwd
  rw [if_neg (by simp [hkind]), hc]
  simp only [mem_dedupAbsolutePaths hlinks, mem_map, mem_filter, decide_eq_true_eq,
    Bool.not_eq_true', Option.map_some, ne_eq, Option.some.injEq]
  constructor
  · rintro ⟨entry, ⟨⟨⟨he, hnone⟩, -⟩, hne⟩, rfl⟩
    exact ⟨⟨entry, he, rfl⟩, fun hr => hr.2 entry he rfl hnone, Ne.symm hne⟩
  · rintro ⟨hentry, hno, hne⟩
    obtain ⟨entry, he, hpath, hnone⟩ : ∃ entry ∈ policy.resolvedEntriesWithCwd host cwd,
        entry.path = d ∧ entry.access = .none := by
      by_contra hall
      exact hno ⟨hentry, fun entry he hpath hnone => hall ⟨entry, he, hpath, hnone⟩⟩
    refine ⟨entry, ⟨⟨⟨he, hnone⟩, hself entry he hnone⟩, ?_⟩, hpath⟩
    rw [hpath]
    exact Ne.symm hne

theorem restricted_of_not_fullDisk (hfull : policy.hasFullDiskWriteAccess = false) :
    policy.kind = .restricted := by
  unfold hasFullDiskWriteAccess at hfull
  cases hk : policy.kind <;> rw [hk] at hfull <;> first | rfl | cases hfull

end

section
variable {A B : FileSystemSandboxPolicy} {host : Host} {cwd : Text} {p : AbsolutePathBuf}

theorem canRead_of_sameRoots (hA : A.kind = .restricted) (hB : B.kind = .restricted)
    (hreads : ∀ d, A.ReadsAt host cwd d ↔ B.ReadsAt host cwd d)
    (hdenies : ∀ d, A.HasEntryAt host cwd d ∧ ¬ A.ReadsAt host cwd d ∧ d ≠ .root ↔
      B.HasEntryAt host cwd d ∧ ¬ B.ReadsAt host cwd d ∧ d ≠ .root)
    (h : A.canReadPathWithCwd host p.display cwd = true) :
    B.canReadPathWithCwd host p.display cwd = true := by
  obtain ⟨d, hn, hr⟩ := (canRead_iff hA).mp h
  have hrB := (hreads d).mp hr
  obtain ⟨d', hn', hle⟩ := hrB.1.exists_nearest hn.covers
  refine (canRead_iff hB).mpr ⟨d', hn', ?_⟩
  by_contra hno
  -- a denying entry of `B` below `d` would be one of `A`
  have hroot : d' ≠ .root := by
    rintro rfl
    have hd : d = .root := AbsolutePathBuf.eq_of_le_of_le hle nil_prefix
    exact hno (hd ▸ hrB)
  have hentry := ((hdenies d').mpr ⟨hn'.hasEntryAt, hno, hroot⟩)
  have hback := hn.longest hentry.1 hn'.covers
  obtain rfl := AbsolutePathBuf.eq_of_le_of_le hback hle
  exact hentry.2.1 hr

theorem canRead_eq_of_signature (hlinks : host.NoSymlinks) (hcwd : isAbsolute cwd = true)
    (hA : A.kind = .restricted) (hB : B.kind = .restricted)
    (hsame : A.semanticSignature host cwd = B.semanticSignature host cwd) :
    A.canReadPathWithCwd host p.display cwd = B.canReadPathWithCwd host p.display cwd := by
  obtain ⟨hfull, -, -, hread, -, hunread, -⟩ := SemanticSignature.mk.inj hsame
  cases hfA : A.hasFullDiskReadAccess with
  | true =>
    rw [fullDiskRead_canRead hA hcwd hfA, fullDiskRead_canRead hB hcwd (hfull.symm.trans hfA)]
  | false =>
    have hfB := hfull.symm.trans hfA
    have hreads : ∀ d, A.ReadsAt host cwd d ↔ B.ReadsAt host cwd d := by
      intro d
      rw [← mem_getReadableRoots hlinks hA hfA, ← mem_getReadableRoots hlinks hB hfB]
      exact mem_of_sorted_eq hread d
    have hdenies : ∀ d, A.HasEntryAt host cwd d ∧ ¬ A.ReadsAt host cwd d ∧ d ≠ .root ↔
        B.HasEntryAt host cwd d ∧ ¬ B.ReadsAt host cwd d ∧ d ≠ .root := by
      intro d
      rw [← mem_getUnreadableRoots hlinks hA hcwd, ← mem_getUnreadableRoots hlinks hB hcwd]
      exact mem_of_sorted_eq hunread d
    rw [Bool.eq_iff_iff]
    exact ⟨canRead_of_sameRoots hA hB hreads hdenies,
      canRead_of_sameRoots hB hA (fun d => (hreads d).symm) fun d => (hdenies d).symm⟩

/-! ## Writing -/

structure SameRoots (A B : FileSystemSandboxPolicy) (host : Host) (cwd : Text) : Prop where
  writes : ∀ r, A.WritesAt host cwd r → B.WritesAt host cwd r
  readOnly : ∀ r, A.WritesAt host cwd r → ∀ q,
    q ∈ (B.writableRoot host cwd r).readOnlySubpaths →
      q ∈ (A.writableRoot host cwd r).readOnlySubpaths
  names : ∀ r, A.WritesAt host cwd r → ∀ m,
    m ∈ (B.writableRoot host cwd r).protectedMetadataNames →
      m ∈ (A.writableRoot host cwd r).protectedMetadataNames

theorem sameRoots_of_signature (hlinks : host.NoSymlinks)
    (hfA : A.hasFullDiskWriteAccess = false) (hfB : B.hasFullDiskWriteAccess = false)
    (hsame : A.semanticSignature host cwd = B.semanticSignature host cwd) :
    SameRoots A B host cwd := by
  have hA := restricted_of_not_fullDisk hfA
  have hB := restricted_of_not_fullDisk hfB
  obtain ⟨-, -, -, -, hroots, -, -⟩ := SemanticSignature.mk.inj hsame
  have hroot : ∀ r, A.WritesAt host cwd r → B.WritesAt host cwd r ∧
      (∀ q, q ∈ (B.writableRoot host cwd r).readOnlySubpaths ↔
        q ∈ (A.writableRoot host cwd r).readOnlySubpaths) ∧
      ∀ m, m ∈ (B.writableRoot host cwd r).protectedMetadataNames ↔
        m ∈ (A.writableRoot host cwd r).protectedMetadataNames := by
    intro r hw
    have hin := (mem_getWritableRoots hA hfA hlinks).mpr ⟨r, hw, rfl⟩
    obtain ⟨root', hroot', heq, hro, hnames⟩ := exists_of_sortedRoots_eq hroots hin
    obtain ⟨r', hw', rfl⟩ := (mem_getWritableRoots hB hfB hlinks).mp hroot'
    obtain rfl : r' = r := heq
    exact ⟨hw', hro, hnames⟩
  exact ⟨fun r hw => (hroot r hw).1, fun r hw q => ((hroot r hw).2.1 q).mp,
    fun r hw m => ((hroot r hw).2.2 m).mp⟩

theorem metadataRoot_iff_names {policy : FileSystemSandboxPolicy} {d : AbsolutePathBuf}
    (hlinks : host.NoSymlinks) (hkind : policy.kind = .restricted)
    (hfull : policy.hasFullDiskWriteAccess = false) (hn : policy.NearestEntry host cwd p d)
    (hw : policy.WritesAt host cwd d) : policy.metadataRoot host cwd p = some d ↔
      ∃ m ∈ (policy.writableRoot host cwd d).protectedMetadataNames,
        p.componentBelow d = some m := by
  constructor
  · intro hroot
    obtain ⟨-, m, hm, hbelow⟩ := metadataRoot_eq_some hroot
    obtain ⟨hno, hsame⟩ := metadata_below_nearest hn hm hbelow
    refine ⟨m, (mem_protectedMetadataNames hlinks).mpr ⟨hm, ?_⟩, hbelow⟩
    exact (metadataPath_denied hkind hfull hw hm hno).mpr (hsame.symm.trans hroot)
  · rintro ⟨m, hname, hbelow⟩
    obtain ⟨hm, hcan⟩ := (mem_protectedMetadataNames hlinks).mp hname
    obtain ⟨hno, hsame⟩ := metadata_below_nearest hn hm hbelow
    exact hsame.trans ((metadataPath_denied hkind hfull hw hm hno).mp hcan)

variable (A B host cwd) in
/-- `A` allows writing at `p` by an entry whose `.git` file points to `g` further below;
for `A` that makes `g` a default read-only subpath of a root, for `B` it is an entry. -/
def PointerEntry (p : AbsolutePathBuf) : Prop :=
  A.hasFullDiskWriteAccess = false ∧ ∃ r g, A.NearestEntry host cwd p r ∧
    A.WritesAt host cwd r ∧ A.metadataRoot host cwd p ≠ some r ∧
    gitPointer host r = some g ∧ r.Above g ∧ B.NearestEntry host cwd p g

theorem pointerEntry_of_canWrite (hlinks : host.NoSymlinks) (hfA : A.hasFullDiskWriteAccess = false)
    (hfB : B.hasFullDiskWriteAccess = false) (hAB : SameRoots A B host cwd)
    (hBA : SameRoots B A host cwd) (hcan : A.canWritePathWithCwd host p.display cwd = true)
    (hnot : B.canWritePathWithCwd host p.display cwd = false) : PointerEntry A B host cwd p := by
  have hA := restricted_of_not_fullDisk hfA
  have hB := restricted_of_not_fullDisk hfB
  obtain ⟨d, hn, hw, hmeta⟩ := (canWrite_iff hA hfA).mp hcan
  have hnames : ∀ m, p.componentBelow d = some m →
      m ∉ (B.writableRoot host cwd d).protectedMetadataNames := by
    intro m hbelow hm
    exact hmeta ((metadataRoot_iff_names hlinks hA hfA hn hw).mpr ⟨m, hAB.names d hw m hm, hbelow⟩)
  have hwB := hAB.writes d hw
  obtain ⟨d', hn', hle⟩ := hwB.hasEntryAt.exists_nearest hn.covers
  have hne : d ≠ d' := by
    rintro rfl
    refine Bool.eq_false_iff.mp hnot ((canWrite_iff hB hfB).mpr ⟨d, hn', hwB, fun hroot => ?_⟩)
    obtain ⟨m, hm, hbelow⟩ := (metadataRoot_iff_names hlinks hB hfB hn' hwB).mp hroot
    exact hnames m hbelow hm
  have hnoA : ¬ A.HasEntryAt host cwd d' := fun hentry =>
    hne (AbsolutePathBuf.eq_of_le_of_le hle (hn.longest hentry hn'.covers))
  have hnoB : ¬ B.WritesAt host cwd d' := fun hw' => hnoA (hBA.writes d' hw').hasEntryAt
  -- the entry carves into the root of `B`, so it is read only for `A` by default
  have hro := hAB.readOnly d hw d' ((mem_readOnlySubpaths hB hfB hlinks).mpr
    (.inr ⟨hn'.hasEntryAt, hnoB, hle, hne⟩))
  rcases (mem_readOnlySubpaths hA hfA hlinks).mp hro with ⟨hdef, -⟩ | ⟨hentry, -⟩
  · rcases hdef with hptr | ⟨m, hdef, rfl⟩
    · exact ⟨hfA, d, d', hn, hw, hmeta, hptr, ⟨hle, hne⟩, hn'⟩
    · exfalso
      have hbelow : p.componentBelow d = some m := by
        rw [AbsolutePathBuf.componentBelow_eq_some, ← join_metadata_comps host d hdef.mem]
        exact hn'.covers
      refine hnames m hbelow ((mem_protectedMetadataNames hlinks).mpr ⟨hdef.mem, ?_⟩)
      exact Bool.eq_false_iff.mpr fun h => hnoB ((canWrite_entry hB hfB hn'.hasEntryAt).mp h)
  · exact absurd hentry hnoA

theorem PointerEntry.differs (hfB : B.hasFullDiskWriteAccess = false) (hBA : SameRoots B A host cwd)
    (h : PointerEntry A B host cwd p) : A.canWritePathWithCwd host p.display cwd = true ∧
      B.canWritePathWithCwd host p.display cwd = false := by
  obtain ⟨hfA, r, g, hn, hw, hmeta, -, habove, hn'⟩ := h
  refine ⟨(canWrite_iff (restricted_of_not_fullDisk hfA) hfA).mpr ⟨r, hn, hw, hmeta⟩, ?_⟩
  refine Bool.eq_false_iff.mpr fun hcan => ?_
  obtain ⟨d, hnd, hwd, -⟩ := (canWrite_iff (restricted_of_not_fullDisk hfB) hfB).mp hcan
  obtain rfl := hnd.unique hn'
  have hback := hn.longest (hBA.writes d hwd).hasEntryAt hn'.covers
  exact habove.2 (AbsolutePathBuf.eq_of_le_of_le habove.1 hback)

/-- Two policies with equal signatures give the same access to a path exactly if neither
is the victim of a `.git` pointer there, and if `/tmp` masks both or none. -/
theorem sameAccess_iff (hlinks : host.NoSymlinks) (hcwd : isAbsolute cwd = true)
    (hsame : A.isSemanticallyEquivalentTo host B cwd = true) (p : AbsolutePathBuf) :
    (A.canReadPathWithCwd host p.display cwd = B.canReadPathWithCwd host p.display cwd ∧
        A.canWritePathWithCwd host p.display cwd = B.canWritePathWithCwd host p.display cwd) ↔
      ¬ PointerEntry A B host cwd p ∧ ¬ PointerEntry B A host cwd p ∧
        (A.MaskedByTmp host cwd p ↔ B.MaskedByTmp host cwd p) := by
  have hsig : A.semanticSignature host cwd = B.semanticSignature host cwd := of_decide_eq_true hsame
  have hfull : A.hasFullDiskWriteAccess = B.hasFullDiskWriteAccess :=
    congrArg SemanticSignature.hasFullDiskWriteAccess hsig
  cases hfA : A.hasFullDiskWriteAccess with
  | true =>
    have hfB := hfull.symm.trans hfA
    have hnoA : ¬ PointerEntry A B host cwd p := fun h => Bool.false_ne_true (h.1.symm.trans hfA)
    have hnoB : ¬ PointerEntry B A host cwd p := fun h => Bool.false_ne_true (h.1.symm.trans hfB)
    have hwrite : A.canWritePathWithCwd host p.display cwd =
        B.canWritePathWithCwd host p.display cwd ↔
          (A.MaskedByTmp host cwd p ↔ B.MaskedByTmp host cwd p) := by
      rw [Bool.eq_iff_iff, fullDiskWrite_canWrite_iff hcwd hfA,
        fullDiskWrite_canWrite_iff hcwd hfB, not_iff_not]
    rw [fullDiskWrite_canRead hcwd hfA, fullDiskWrite_canRead hcwd hfB, hwrite]
    simp only [hnoA, hnoB, not_false_eq_true, true_and]
  | false =>
    have hfB := hfull.symm.trans hfA
    have hAB := sameRoots_of_signature hlinks hfA hfB hsig
    have hBA := sameRoots_of_signature hlinks hfB hfA hsig.symm
    have hread : A.canReadPathWithCwd host p.display cwd = B.canReadPathWithCwd host p.display cwd :=
      canRead_eq_of_signature hlinks hcwd (restricted_of_not_fullDisk hfA)
        (restricted_of_not_fullDisk hfB) hsig
    have hmask : A.MaskedByTmp host cwd p ↔ B.MaskedByTmp host cwd p := by
      constructor
      · exact fun h => absurd (hfA.symm.trans h.2.1) Bool.false_ne_true
      · exact fun h => absurd (hfB.symm.trans h.2.1) Bool.false_ne_true
    constructor
    · rintro ⟨-, hwrite⟩
      refine ⟨fun h => ?_, fun h => ?_, hmask⟩
      · obtain ⟨hyes, hno⟩ := h.differs hfB hBA
        rw [hwrite, hno] at hyes
        cases hyes
      · obtain ⟨hyes, hno⟩ := h.differs hfA hAB
        rw [← hwrite, hno] at hyes
        cases hyes
    · rintro ⟨hnoA, hnoB, -⟩
      refine ⟨hread, ?_⟩
      by_contra hne
      cases hcA : A.canWritePathWithCwd host p.display cwd with
      | true =>
        have hcB : B.canWritePathWithCwd host p.display cwd = false := by
          cases hcB : B.canWritePathWithCwd host p.display cwd with
          | true => exact absurd (hcA.trans hcB.symm) hne
          | false => rfl
        exact hnoA (pointerEntry_of_canWrite hlinks hfA hfB hAB hBA hcA hcB)
      | false =>
        have hcB : B.canWritePathWithCwd host p.display cwd = true := by
          cases hcB : B.canWritePathWithCwd host p.display cwd with
          | true => rfl
          | false => exact absurd (hcA.trans hcB.symm) hne
        exact hnoB (pointerEntry_of_canWrite hlinks hfB hfA hBA hAB hcB hcA)

end

def gitDirectory : AbsolutePathBuf := ⟨[['w'], ['g', 'd']], by decide⟩

def gitFile : AbsolutePathBuf := ⟨[['w'], dotGit], by decide⟩

def pointerHost : Host :=
  { emptyHost with
    isFile := fun p => p = gitFile
    isDir := fun p => p = gitDirectory
    pathExists := fun p => p = gitDirectory
    readToString := fun _ => some "gitdir: gd".toList }

theorem pointerHost_noSymlinks : pointerHost.NoSymlinks := emptyHost_noSymlinks

def workspaceOnly : FileSystemSandboxPolicy :=
  .ofRestricted [⟨.special .root, .read⟩, ⟨.path workspacePath, .write⟩]

def gitDirectoryReadOnly : FileSystemSandboxPolicy :=
  .ofRestricted [⟨.special .root, .read⟩, ⟨.path workspacePath, .write⟩,
    ⟨.path gitDirectory, .read⟩]

theorem sameAccess_iff_gitDirectory :
    (workspaceOnly.canReadPathWithCwd pointerHost gitDirectory.display ['/'] =
        gitDirectoryReadOnly.canReadPathWithCwd pointerHost gitDirectory.display ['/'] ∧
      workspaceOnly.canWritePathWithCwd pointerHost gitDirectory.display ['/'] =
        gitDirectoryReadOnly.canWritePathWithCwd pointerHost gitDirectory.display ['/']) ↔
      ¬ PointerEntry workspaceOnly gitDirectoryReadOnly pointerHost ['/'] gitDirectory ∧
        ¬ PointerEntry gitDirectoryReadOnly workspaceOnly pointerHost ['/'] gitDirectory ∧
        (workspaceOnly.MaskedByTmp pointerHost ['/'] gitDirectory ↔
          gitDirectoryReadOnly.MaskedByTmp pointerHost ['/'] gitDirectory) :=
  sameAccess_iff pointerHost_noSymlinks rfl (by decide +kernel) gitDirectory

/-- Equal signatures, yet only one of the policies lets the git directory be written. -/
theorem equivalent_policies_differ : pointerHost.NoSymlinks ∧ isAbsolute ['/'] = true ∧
      workspaceOnly.isSemanticallyEquivalentTo pointerHost gitDirectoryReadOnly ['/'] = true ∧
      ¬ (workspaceOnly.canWritePathWithCwd pointerHost gitDirectory.display ['/'] =
        gitDirectoryReadOnly.canWritePathWithCwd pointerHost gitDirectory.display ['/']) :=
  ⟨pointerHost_noSymlinks, rfl, by decide +kernel, by decide +kernel⟩

end FileSystemSandboxPolicy

end Codex
