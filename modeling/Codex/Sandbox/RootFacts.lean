import Codex.Sandbox.Access
import Codex.Sandbox.Roots

/-!
# The writable roots and the policy

Without symlinks a writable root is the path of a write entry that nothing there
denies. Its read-only subpaths are the entries below it that do not allow writing and
the defaults no entry overrides; its protected names are those the policy denies.

The policy decides about a path by its nearest entry, the roots each on their own. A
root above the nearest entry lets the path through unless something between the two
carves it out, so the two disagree in two places: where the nearest entry protects
metadata an outer root knows nothing of, and where only the defaults of the nearest
entry protect it.
-/

namespace Codex

open Foundation List

variable {host : Host} {p : AbsolutePathBuf}

theorem canonicalizePreservingSymlinks_eq (hlinks : host.NoSymlinks) (p : AbsolutePathBuf) :
    canonicalizePreservingSymlinks host p = p := by
  unfold canonicalizePreservingSymlinks
  split
  · rename_i q hq
    rw [hlinks p q hq]
    split <;> rfl
  · rfl

theorem normalizeEffective_eq (hlinks : host.NoSymlinks) (p : AbsolutePathBuf) :
    normalizeEffectiveAbsolutePath host p = p := by
  unfold normalizeEffectiveAbsolutePath
  split
  · rename_i a ha
    obtain ⟨n, -, rfl⟩ := mem_map.mp (mem_reverse.mp (mem_of_find?_eq_some ha))
    rw [canonicalizePreservingSymlinks_eq hlinks]
    apply AbsolutePathBuf.ext
    simp only [AbsolutePathBuf.rebase, length_take]
    rcases Nat.le_total n p.comps.length with h | h
    · rw [Nat.min_eq_left h, take_append_drop]
    · rw [Nat.min_eq_right h, take_of_length_le h, drop_length, append_nil]
  · rfl

theorem mem_dedupAbsolutePaths (hlinks : host.NoSymlinks) {paths : List AbsolutePathBuf}
    {normalize : Bool} {q : AbsolutePathBuf} :
    q ∈ dedupAbsolutePaths host paths normalize ↔ q ∈ paths := by
  have hid : paths.map (normalizeEffectiveAbsolutePath host) = paths := by
    have hfun : normalizeEffectiveAbsolutePath host = id := funext (normalizeEffective_eq hlinks)
    rw [hfun, map_id]
  unfold dedupAbsolutePaths
  rw [mem_eraseDups, hid, ite_self]

theorem textStartsWith_display {base : AbsolutePathBuf} :
    textStartsWith p.display base = true ↔ base.comps <+: p.comps := by
  unfold textStartsWith
  rw [isAbsolute_display, components_display, Bool.true_and, decide_eq_true_iff]

variable {root : WritableRoot}

theorem pathContainsProtected_iff : root.pathContainsProtectedMetadataName p.display = true ↔
      ∃ m ∈ root.protectedMetadataNames, p.componentBelow root.root = some m := by
  have hstart : textStartsWith p.display root.root = p.startsWith root.root := by
    rw [Bool.eq_iff_iff, textStartsWith_display, AbsolutePathBuf.startsWith_iff]
  unfold WritableRoot.pathContainsProtectedMetadataName AbsolutePathBuf.componentBelow
  rw [hstart, components_display]
  cases p.startsWith root.root with
  | false => simp
  | true =>
    simp only [if_true]
    cases (p.comps.drop root.root.comps.length).head? with
    | none => simp
    | some first => simp only [any_eq_true, decide_eq_true_eq, Option.some.injEq]

theorem isPathWritable_iff : root.isPathWritable p.display = true ↔ root.root.comps <+: p.comps ∧
      (∀ q ∈ root.readOnlySubpaths, ¬ q.comps <+: p.comps) ∧
      ∀ m ∈ root.protectedMetadataNames, p.componentBelow root.root ≠ some m := by
  unfold WritableRoot.isPathWritable
  by_cases hstart : textStartsWith p.display root.root = true
  · have hle := textStartsWith_display.mp hstart
    rw [hstart, if_neg (by decide)]
    by_cases hro : root.readOnlySubpaths.any (textStartsWith p.display) = true
    · obtain ⟨q, hq, hqp⟩ := any_eq_true.mp hro
      rw [if_pos hro]
      simp only [Bool.false_eq_true, false_iff]
      exact fun h => h.2.1 q hq (textStartsWith_display.mp hqp)
    · rw [if_neg hro, Bool.not_eq_true', Bool.eq_false_iff, ne_eq, pathContainsProtected_iff]
      constructor
      · intro h
        refine ⟨hle, fun q hq hqp => hro ?_, fun m hm hb => h ⟨m, hm, hb⟩⟩
        exact any_eq_true.mpr ⟨q, hq, textStartsWith_display.mpr hqp⟩
      · rintro ⟨-, -, hnames⟩ ⟨m, hm, hb⟩
        exact hnames m hm hb
  · rw [Bool.eq_false_iff.mpr hstart]
    simp only [Bool.not_false, if_true, Bool.false_eq_true, false_iff]
    exact fun h => hstart (textStartsWith_display.mpr h.1)

/-! ## Defaults -/

def gitPointer (host : Host) (root : AbsolutePathBuf) : Option AbsolutePathBuf :=
  if host.isFile (root.join host.paths.homeDir dotGit) then
    resolveGitdirFromFile host (root.join host.paths.homeDir dotGit)
  else none

def Host.NoGitPointers (host : Host) : Prop := ∀ root, gitPointer host root = none

/-- The metadata below a root that is read only whatever the entries say. -/
def DefaultProtects (host : Host) (cwd : Text) (root : AbsolutePathBuf) (m : Text) : Prop :=
  let path := root.join host.paths.homeDir m
  m = dotGit ∧ (host.isDir path = true ∨ host.isFile path = true) ∨
    m = dotAgents ∧ host.isDir path = true ∨
    m = dotCodex ∧ (host.paths.absolutePath cwd = some root ∨ host.isDir path = true)

theorem DefaultProtects.mem {cwd : Text} {root : AbsolutePathBuf} {m : Text}
    (h : DefaultProtects host cwd root m) : m ∈ protectedMetadataPathNames := by
  rcases h with ⟨rfl, -⟩ | ⟨rfl, -⟩ | ⟨rfl, -⟩ <;> decide

theorem isGitPointerFile_dotGit (host : Host) (root : AbsolutePathBuf) :
    isGitPointerFile host (root.join host.paths.homeDir dotGit) =
      host.isFile (root.join host.paths.homeDir dotGit) := by
  unfold isGitPointerFile
  rw [join_metadata_comps host root (by decide), List.getLast?_concat, decide_eq_true rfl,
    Bool.and_true]

theorem mem_defaultReadOnlySubpaths (hlinks : host.NoSymlinks) {cwd : Text}
    {root q : AbsolutePathBuf} : q ∈ defaultReadOnlySubpathsForWritableRoot host root
        ((host.paths.absolutePath cwd).any fun cwd =>
          normalizeEffectiveAbsolutePath host cwd = root) ↔
      gitPointer host root = some q ∨
        ∃ m, DefaultProtects host cwd root m ∧ q = root.join host.paths.homeDir m := by
  have hcwd : ((host.paths.absolutePath cwd).any fun cwd =>
      normalizeEffectiveAbsolutePath host cwd = root) = true ↔
        host.paths.absolutePath cwd = some root := by
    cases host.paths.absolutePath cwd with
    | none => simp
    | some c => simp [normalizeEffective_eq hlinks]
  unfold defaultReadOnlySubpathsForWritableRoot gitPointer DefaultProtects
  simp only [mem_dedupAbsolutePaths hlinks, mem_append, isGitPointerFile_dotGit,
    Bool.and_self, Bool.or_eq_true, hcwd]
  constructor
  · rintro ((hgit | hagents) | hcodex)
    · split at hgit
      · rename_i hthere
        rcases mem_append.mp hgit with hptr | hdot
        · split at hptr
          · rename_i hfile
            exact .inl (by rw [if_pos hfile]; exact Option.mem_toList.mp hptr)
          · exact absurd hptr not_mem_nil
        · exact .inr ⟨dotGit, .inl ⟨rfl, hthere⟩, mem_singleton.mp hdot⟩
      · exact absurd hgit not_mem_nil
    · split at hagents
      · rename_i hthere
        exact .inr ⟨dotAgents, .inr (.inl ⟨rfl, hthere⟩), mem_singleton.mp hagents⟩
      · exact absurd hagents not_mem_nil
    · split at hcodex
      · rename_i hthere
        exact .inr ⟨dotCodex, .inr (.inr ⟨rfl, hthere⟩), mem_singleton.mp hcodex⟩
      · exact absurd hcodex not_mem_nil
  · rintro (hptr | ⟨m, ⟨rfl, hthere⟩ | ⟨rfl, hthere⟩ | ⟨rfl, hthere⟩, rfl⟩)
    · split at hptr
      · rename_i hfile
        rw [if_pos (.inr hfile), if_pos hfile]
        exact .inl (.inl (mem_append_left _ (Option.mem_toList.mpr hptr)))
      · cases hptr
    · rw [if_pos hthere]
      exact .inl (.inl (mem_append_right _ (mem_singleton.mpr rfl)))
    · exact .inl (.inr (by rw [if_pos hthere]; exact mem_singleton.mpr rfl))
    · exact .inr (by rw [if_pos hthere]; exact mem_singleton.mpr rfl)

def workspacePath : AbsolutePathBuf := ⟨[['w']], by decide⟩

def emptyHost : Host :=
  { paths := ⟨none, none⟩
    tmpdirVar := none
    isDir := fun _ => false
    isFile := fun _ => false
    pathExists := fun _ => false
    readToString := fun _ => none
    symlinkMetadata := fun _ => none
    canonicalize := fun _ => none }

theorem emptyHost_noSymlinks : emptyHost.NoSymlinks := by
  intro p q h
  cases h

theorem emptyHost_noGitPointers : emptyHost.NoGitPointers := fun _ => rfl

variable {r : AbsolutePathBuf}

theorem carveout_eq (hlinks : host.NoSymlinks) {raws : List AbsolutePathBuf}
    (hraws : ∀ raw ∈ raws, raw = r) (entry : ResolvedFileSystemEntry) :
    FileSystemSandboxPolicy.carveout host r raws entry =
      if r.Above entry.path then some entry.path else none := by
  unfold FileSystemSandboxPolicy.carveout
  simp only [normalizeEffective_eq hlinks]
  by_cases hs : entry.path.startsWith r = true
  · have hle := AbsolutePathBuf.startsWith_iff.mp hs
    by_cases heq : entry.path = r
    · have hno : ¬ r.Above entry.path := fun h => h.2 heq.symm
      simp [heq] at hno ⊢
      exact hno
    · have habove : r.Above entry.path := ⟨hle, Ne.symm heq⟩
      cases r.parent.isSome <;> simp [heq, hs, habove]
  · have hno : ¬ r.Above entry.path := fun h => hs (AbsolutePathBuf.startsWith_iff.mpr h.1)
    have hne : entry.path ≠ r := by
      intro h
      exact hs (AbsolutePathBuf.startsWith_iff.mpr (h ▸ prefix_rfl))
    have hraw : raws.findSome? (fun rawRoot =>
        if entry.path.startsWith rawRoot && entry.path ≠ rawRoot then
          some (r.join host.paths.homeDir (entry.path.suffixText rawRoot)) else none) = none := by
      refine List.findSome?_eq_none_iff.mpr fun raw hraw => ?_
      rw [hraws raw hraw, Bool.eq_false_iff.mpr hs]
      rfl
    rw [hraw]
    simp [hne, hs, hno]

/-! ## The roots of a policy -/

namespace FileSystemSandboxPolicy

section
variable {policy : FileSystemSandboxPolicy} {host : Host} {cwd : Text}
  (hkind : policy.kind = .restricted) (hfull : policy.hasFullDiskWriteAccess = false)
  (hlinks : host.NoSymlinks)

omit hkind hfull hlinks

include hkind hfull in
theorem mem_writableEntries : r ∈ policy.writableEntries host cwd ↔ policy.WritesAt host cwd r := by
  constructor
  · intro h
    obtain ⟨entry, he, rfl⟩ := mem_map.mp h
    obtain ⟨he, hcan⟩ := mem_filter.mp he
    exact (canWrite_entry hkind hfull ⟨entry, (mem_filter.mp he).1, rfl⟩).mp hcan
  · intro hw
    have hcan := (canWrite_entry hkind hfull hw.hasEntryAt).mpr hw
    obtain ⟨⟨entry, he, rfl, hwrite⟩, -⟩ := hw
    refine mem_map.mpr ⟨entry, mem_filter.mpr ⟨mem_filter.mpr ⟨he, ?_⟩, hcan⟩, rfl⟩
    exact decide_eq_true hwrite

include hkind hfull hlinks in
theorem mem_getWritableRoots : root ∈ policy.getWritableRootsWithCwd host cwd ↔
      ∃ r, policy.WritesAt host cwd r ∧ policy.writableRoot host cwd r = root := by
  unfold getWritableRootsWithCwd
  rw [hfull, if_neg (by decide), mem_map]
  simp only [mem_dedupAbsolutePaths hlinks, mem_writableEntries hkind hfull]

include hlinks

theorem rawWritableRoots_eq {raws : List AbsolutePathBuf} :
    ∀ raw ∈ raws.filter fun path => normalizeEffectiveAbsolutePath host path = r, raw = r := by
  intro raw hraw
  have heq := of_decide_eq_true (mem_filter.mp hraw).2
  rwa [normalizeEffective_eq hlinks] at heq

theorem mem_protectedMetadataNames {m : Text} :
    m ∈ (policy.writableRoot host cwd r).protectedMetadataNames ↔
      m ∈ protectedMetadataPathNames ∧
        policy.canWritePathWithCwd host (r.join host.paths.homeDir m).display cwd = false := by
  unfold writableRoot protectedMetadataNamesForWritableRoot
  simp only [mem_filter, all_cons, Bool.and_eq_true, all_eq_true, Bool.not_eq_true']
  constructor
  · rintro ⟨hm, hr, -⟩
    exact ⟨hm, hr⟩
  · rintro ⟨hm, hr⟩
    refine ⟨hm, hr, fun q hq => ?_⟩
    rw [rawWritableRoots_eq hlinks q (mem_filter.mpr hq)]
    exact hr

include hkind hfull hlinks in
theorem mem_readOnlySubpaths {r q : AbsolutePathBuf} :
    q ∈ (policy.writableRoot host cwd r).readOnlySubpaths ↔
      ((gitPointer host r = some q ∨
          ∃ m, DefaultProtects host cwd r m ∧ q = r.join host.paths.homeDir m) ∧
        ¬ policy.HasEntryAt host cwd q) ∨
      (policy.HasEntryAt host cwd q ∧ ¬ policy.WritesAt host cwd q ∧ r.Above q) := by
  have hexplicit : ∀ q, hasExplicitResolvedPathEntry (policy.resolvedEntriesWithCwd host cwd) q =
      true ↔ policy.HasEntryAt host cwd q := by
    intro q
    unfold hasExplicitResolvedPathEntry HasEntryAt
    simp only [any_eq_true, decide_eq_true_eq]
  unfold writableRoot
  simp only [mem_dedupAbsolutePaths hlinks, mem_append, mem_filter, mem_filterMap,
    mem_defaultReadOnlySubpaths hlinks, carveout_eq hlinks (rawWritableRoots_eq hlinks)]
  refine or_congr ?_ ?_
  · rw [Bool.not_eq_true', Bool.eq_false_iff, ne_eq, hexplicit]
  · constructor
    · rintro ⟨entry, ⟨⟨he, -⟩, hcan⟩, hq⟩
      split at hq
      · rename_i habove
        cases hq
        refine ⟨⟨entry, he, rfl⟩, fun hw => ?_, habove⟩
        have hyes := (canWrite_entry hkind hfull ⟨entry, he, rfl⟩).mpr hw
        rw [hyes] at hcan
        cases hcan
      · cases hq
    · rintro ⟨hentry, hno, habove⟩
      obtain ⟨entry, he, rfl, hacc⟩ : ∃ entry ∈ policy.resolvedEntriesWithCwd host cwd,
          entry.path = q ∧ entry.access ≠ .write := by
        by_contra hall
        push Not at hall
        obtain ⟨entry, he, hpath⟩ := hentry
        refine hno ⟨⟨entry, he, hpath, hall entry he hpath⟩, fun e he' hp hnone => ?_⟩
        rw [hall e he' hp] at hnone
        cases hnone
      have hcan : policy.canWritePathWithCwd host entry.path.display cwd = false :=
        Bool.eq_false_iff.mpr fun h => hno ((canWrite_entry hkind hfull hentry).mp h)
      refine ⟨entry, ⟨⟨he, ?_⟩, by rw [hcan]; rfl⟩, if_pos habove⟩
      unfold FileSystemAccessMode.canWrite
      rw [decide_eq_false hacc]
      rfl

end

/-! ## Policies and their writable roots -/

section
variable (policy : FileSystemSandboxPolicy) (host : Host) (cwd : Text)

/-- Something below the root `r` keeps `p` from being written: an entry that does not
allow it, or metadata without an entry that the defaults or the policy protect. -/
def Carved (r p : AbsolutePathBuf) : Prop :=
  (∃ q, policy.HasEntryAt host cwd q ∧ ¬ policy.WritesAt host cwd q ∧ r.Above q ∧
    q.comps <+: p.comps) ∨
  ∃ m ∈ protectedMetadataPathNames, p.componentBelow r = some m ∧
    ¬ policy.HasEntryAt host cwd (r.join host.paths.homeDir m) ∧
    (DefaultProtects host cwd r m ∨
      policy.metadataRoot host cwd (r.join host.paths.homeDir m) = some r)

/-- The nearest entry protects the path as metadata, and an outer root does not. -/
def OuterRootAllows (p : AbsolutePathBuf) : Prop :=
  ∃ d, policy.NearestEntry host cwd p d ∧ policy.WritesAt host cwd d ∧
    policy.metadataRoot host cwd p = some d ∧
    ∃ r, policy.WritesAt host cwd r ∧ r.Above d ∧ ¬ policy.Carved host cwd r p

/-- An outer entry is the first to protect the path, so the policy allows it; but the
defaults of the nearest entry and all outer roots do not. -/
def OnlyDefaultsProtect (p : AbsolutePathBuf) : Prop :=
  ∃ d, policy.NearestEntry host cwd p d ∧ policy.WritesAt host cwd d ∧
    policy.metadataRoot host cwd p ≠ some d ∧
    (∃ m, p.componentBelow d = some m ∧ DefaultProtects host cwd d m) ∧
    ∀ r, policy.WritesAt host cwd r → r.Above d → policy.Carved host cwd r p

end

section
variable {policy : FileSystemSandboxPolicy} {host : Host} {cwd : Text} {p d r : AbsolutePathBuf}

theorem carved_nearest (hn : policy.NearestEntry host cwd p d) :
    policy.Carved host cwd d p ↔ ∃ m ∈ protectedMetadataPathNames,
      p.componentBelow d = some m ∧
        (DefaultProtects host cwd d m ∨ policy.metadataRoot host cwd p = some d) := by
  constructor
  · rintro (⟨q, hentry, -, habove, hqp⟩ | ⟨m, hm, hbelow, -, hwhy⟩)
    · have hback := (hn.longest hentry hqp).length_le
      have hlt := habove.length_lt
      omega
    · rw [← (metadata_below_nearest hn hm hbelow).2] at hwhy
      exact ⟨m, hm, hbelow, hwhy⟩
  · rintro ⟨m, hm, hbelow, hwhy⟩
    obtain ⟨hno, hroot⟩ := metadata_below_nearest hn hm hbelow
    rw [hroot] at hwhy
    exact .inr ⟨m, hm, hbelow, hno, hwhy⟩

variable (hkind : policy.kind = .restricted) (hfull : policy.hasFullDiskWriteAccess = false)
  (hlinks : host.NoSymlinks) (hpointers : host.NoGitPointers)

include hkind hfull hlinks hpointers

theorem rootWritable_iff (hw : policy.WritesAt host cwd r) :
    (policy.writableRoot host cwd r).isPathWritable p.display = true ↔
      r.comps <+: p.comps ∧ ¬ policy.Carved host cwd r p := by
  rw [isPathWritable_iff]
  refine and_congr_right fun hle => ?_
  constructor
  · rintro ⟨hro, hnames⟩ (⟨q, hentry, hno, habove, hqp⟩ | ⟨m, hm, hbelow, hno, hwhy⟩)
    · exact hro q ((mem_readOnlySubpaths hkind hfull hlinks).mpr (.inr ⟨hentry, hno, habove⟩)) hqp
    · rcases hwhy with hdef | hroot
      · refine hro (r.join host.paths.homeDir m) ?_ ?_
        · exact (mem_readOnlySubpaths hkind hfull hlinks).mpr (.inl ⟨.inr ⟨m, hdef, rfl⟩, hno⟩)
        · rw [join_metadata_comps host r hm]
          exact AbsolutePathBuf.componentBelow_eq_some.mp hbelow
      · refine hnames m ?_ hbelow
        exact (mem_protectedMetadataNames hlinks).mpr
          ⟨hm, (metadataPath_denied hkind hfull hw hm hno).mpr hroot⟩
  · intro hnot
    refine ⟨fun q hq hqp => ?_, fun m hm hbelow => ?_⟩
    · rcases (mem_readOnlySubpaths hkind hfull hlinks).mp hq with ⟨hdef, hno⟩ | ⟨hentry, hno, habove⟩
      · rcases hdef with hptr | ⟨m, hdef, rfl⟩
        · rw [hpointers r] at hptr
          cases hptr
        · refine hnot (.inr ⟨m, hdef.mem, ?_, hno, .inl hdef⟩)
          rw [join_metadata_comps host r hdef.mem] at hqp
          exact AbsolutePathBuf.componentBelow_eq_some.mpr hqp
      · exact hnot (.inl ⟨q, hentry, hno, habove, hqp⟩)
    · obtain ⟨hmem, hcan⟩ := (mem_protectedMetadataNames hlinks).mp hm
      have hjoin := join_metadata_comps host r hmem
      have hprefix := AbsolutePathBuf.componentBelow_eq_some.mp hbelow
      by_cases hentry : policy.HasEntryAt host cwd (r.join host.paths.homeDir m)
      · refine hnot (.inl ⟨_, hentry, fun hwm => ?_, above_join_metadata host r hmem, ?_⟩)
        · rw [(canWrite_entry hkind hfull hentry).mpr hwm] at hcan
          cases hcan
        · rw [hjoin]
          exact hprefix
      · refine hnot (.inr ⟨m, hmem, hbelow, hentry, .inr ?_⟩)
        exact (metadataPath_denied hkind hfull hw hmem hentry).mp hcan

theorem someRoot_iff : (∃ root ∈ policy.getWritableRootsWithCwd host cwd,
        root.isPathWritable p.display = true) ↔
      ∃ r, policy.WritesAt host cwd r ∧ r.comps <+: p.comps ∧ ¬ policy.Carved host cwd r p := by
  constructor
  · rintro ⟨root, hroot, hok⟩
    obtain ⟨r, hw, rfl⟩ := (mem_getWritableRoots hkind hfull hlinks).mp hroot
    exact ⟨r, hw, (rootWritable_iff hkind hfull hlinks hpointers hw).mp hok⟩
  · rintro ⟨r, hw, hok⟩
    exact ⟨_, (mem_getWritableRoots hkind hfull hlinks).mpr ⟨r, hw, rfl⟩,
      (rootWritable_iff hkind hfull hlinks hpointers hw).mpr hok⟩

/-- The policy and its roots agree about a path exactly unless an outer root lets
through what the nearest entry protects, or the defaults alone protect it. -/
theorem canWrite_iff_someRoot (p : AbsolutePathBuf) :
    (policy.canWritePathWithCwd host p.display cwd = true ↔
        ∃ root ∈ policy.getWritableRootsWithCwd host cwd, root.isPathWritable p.display = true) ↔
      ¬ policy.OuterRootAllows host cwd p ∧ ¬ policy.OnlyDefaultsProtect host cwd p := by
  rw [canWrite_iff hkind hfull, someRoot_iff hkind hfull hlinks hpointers]
  constructor
  · intro hagree
    constructor
    · rintro ⟨d, hn, hw, hroot, r, hwr, habove, hnot⟩
      obtain ⟨d', hn', -, hne⟩ := hagree.mpr ⟨r, hwr, habove.1.trans hn.covers, hnot⟩
      obtain rfl := hn.unique hn'
      exact hne hroot
    · rintro ⟨d, hn, hw, hne, ⟨m, hbelow, hdef⟩, hall⟩
      obtain ⟨r, hwr, hrp, hnot⟩ := hagree.mp ⟨d, hn, hw, hne⟩
      by_cases hrd : r = d
      · subst hrd
        exact hnot ((carved_nearest hn).mpr ⟨m, hdef.mem, hbelow, .inl hdef⟩)
      · exact hnot (hall r hwr ⟨hn.longest hwr.hasEntryAt hrp, hrd⟩)
  · rintro ⟨houter, hdefaults⟩
    constructor
    · rintro ⟨d, hn, hw, hne⟩
      by_cases hcarved : policy.Carved host cwd d p
      · -- the nearest entry's defaults stand in the way, so some outer root must not
        by_contra hno
        obtain ⟨m, hm, hbelow, hwhy⟩ := (carved_nearest hn).mp hcarved
        refine hdefaults ⟨d, hn, hw, hne, ⟨m, hbelow, hwhy.resolve_right hne⟩, ?_⟩
        intro r hwr habove
        by_contra hnot
        exact hno ⟨r, hwr, habove.1.trans hn.covers, hnot⟩
      · exact ⟨d, hw, hn.covers, hcarved⟩
    · rintro ⟨r, hwr, hrp, hnot⟩
      obtain ⟨d, hn, hrd⟩ := hwr.hasEntryAt.exists_nearest hrp
      by_cases heq : r = d
      · subst heq
        refine ⟨r, hn, hwr, fun hroot => ?_⟩
        obtain ⟨-, m, hm, hbelow⟩ := metadataRoot_eq_some hroot
        exact hnot ((carved_nearest hn).mpr ⟨m, hm, hbelow, .inr hroot⟩)
      · have hw : policy.WritesAt host cwd d := by
          by_contra hno
          exact hnot (.inl ⟨d, hn.hasEntryAt, hno, ⟨hrd, heq⟩, hn.covers⟩)
        refine ⟨d, hn, hw, fun hroot => ?_⟩
        exact houter ⟨d, hn, hw, hroot, r, hwr, ⟨hrd, heq⟩, hnot⟩

end

def innerRoot : AbsolutePathBuf := ⟨[['w'], ['s', 'u', 'b']], by decide⟩

def nestedRoots : FileSystemSandboxPolicy :=
  .ofRestricted [⟨.path workspacePath, .write⟩, ⟨.path innerRoot, .write⟩]

def innerMetadata : AbsolutePathBuf := ⟨[['w'], ['s', 'u', 'b'], dotGit, ['x']], by decide⟩

theorem canWrite_iff_someRoot_nested :
    (nestedRoots.canWritePathWithCwd emptyHost innerMetadata.display ['/', 'w'] = true ↔
        ∃ root ∈ nestedRoots.getWritableRootsWithCwd emptyHost ['/', 'w'],
          root.isPathWritable innerMetadata.display = true) ↔
      ¬ nestedRoots.OuterRootAllows emptyHost ['/', 'w'] innerMetadata ∧
        ¬ nestedRoots.OnlyDefaultsProtect emptyHost ['/', 'w'] innerMetadata :=
  canWrite_iff_someRoot rfl (by decide +kernel) emptyHost_noSymlinks emptyHost_noGitPointers
    innerMetadata

/-- The policy denies writing the inner metadata, the outer root allows it. -/
theorem nested_metadata_writable_by_root :
    nestedRoots.kind = .restricted ∧ nestedRoots.hasFullDiskWriteAccess = false ∧
      emptyHost.NoSymlinks ∧ emptyHost.NoGitPointers ∧ isAbsolute ['/', 'w'] = true ∧
      ¬ (nestedRoots.canWritePathWithCwd emptyHost innerMetadata.display ['/', 'w'] = true ↔
        ∃ root ∈ nestedRoots.getWritableRootsWithCwd emptyHost ['/', 'w'],
          root.isPathWritable innerMetadata.display = true) :=
  ⟨rfl, by decide +kernel, emptyHost_noSymlinks, emptyHost_noGitPointers, rfl, by decide +kernel⟩

end FileSystemSandboxPolicy

end Codex
