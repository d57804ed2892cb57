import Codex.Sandbox.FileSystemPolicy

/-!
# Access by the most specific entry

Every entry covers the paths at or below its own. The nearest entry path decides for a
path: it can be written if some entry there is a write entry and none denies, and if
that entry is not the first one to protect metadata above the path.
-/

namespace Codex

open Foundation List Option

/-! ## Paths -/

namespace AbsolutePathBuf

variable {p q r : AbsolutePathBuf}

theorem startsWith_iff {base : AbsolutePathBuf} :
    p.startsWith base = true ↔ base.comps <+: p.comps := decide_eq_true_iff

def Above (r q : AbsolutePathBuf) : Prop := r.comps <+: q.comps ∧ r ≠ q

instance instDecidableAbove (r q : AbsolutePathBuf) : Decidable (Above r q) :=
  inferInstanceAs (Decidable (_ ∧ _))

theorem eq_of_le_of_le (h : p.comps <+: q.comps) (h' : q.comps <+: p.comps) : p = q :=
  ext (h.eq_of_length (le_antisymm h.length_le h'.length_le))

theorem Above.length_lt (h : r.Above q) : r.comps.length < q.comps.length := by
  rcases lt_or_eq_of_le h.1.length_le with hlt | heq
  · exact hlt
  · exact absurd (ext (h.1.eq_of_length heq)) h.2

theorem componentBelow_eq_some {m : Text} :
    p.componentBelow r = some m ↔ r.comps ++ [m] <+: p.comps := by
  unfold componentBelow
  constructor
  · intro h
    split at h
    · rename_i hp
      obtain ⟨t, ht⟩ := startsWith_iff.mp hp
      rw [← ht, drop_left] at h
      cases t with
      | nil => cases h
      | cons c t =>
        cases h
        exact ⟨t, by rw [← ht, List.append_assoc, singleton_append]⟩
    · cases h
  · rintro ⟨t, ht⟩
    have hstart : p.startsWith r = true := by
      refine startsWith_iff.mpr ⟨m :: t, ?_⟩
      rw [← ht, List.append_assoc, singleton_append]
    rw [if_pos hstart, ← ht, List.append_assoc, drop_left]
    rfl

theorem componentBelow_self (p : AbsolutePathBuf) : p.componentBelow p = none := by
  refine eq_none_iff_forall_not_mem.mpr fun m hm => ?_
  have hlen := (componentBelow_eq_some.mp hm).length_le
  rw [length_append, length_singleton] at hlen
  omega

theorem componentBelow_congr (hq : q.comps <+: p.comps)
    (hr : r.comps <+: p.comps → r.comps.length < q.comps.length) :
    p.componentBelow r = q.componentBelow r := by
  ext m
  rw [componentBelow_eq_some, componentBelow_eq_some]
  constructor
  · intro h
    have hlen := hr ((prefix_append _ _).trans h)
    refine prefix_of_prefix_length_le h hq ?_
    rw [length_append, length_singleton]
    omega
  · intro h
    exact h.trans hq

end AbsolutePathBuf

theorem absolutePath_of_isAbsolute (host : Host) {cwd : Text} (hcwd : isAbsolute cwd = true) :
    ∃ c, host.paths.absolutePath cwd = some c := by
  have htilde : cwd.head? ≠ some '~' := by
    rw [of_decide_eq_true hcwd]
    decide
  unfold ProcessPaths.absolutePath
  rw [maybeExpandHomeDirectory_of_not_tilde _ htilde, if_pos hcwd]
  exact ⟨_, rfl⟩

@[simp] theorem resolveCandidatePath_display (host : Host) (p : AbsolutePathBuf) (cwd : Text) :
    resolveCandidatePath host p.display cwd = some p := by
  unfold resolveCandidatePath
  rw [isAbsolute_display, if_pos rfl, ProcessPaths.absolutePath_display]

variable {a : FileSystemAccessMode}

namespace FileSystemAccessMode

theorem le_write_iff : a ≤ .write ↔ a ≠ .none := by
  cases a <;> decide

theorem none_le_iff : .none ≤ a ↔ a = .none := by
  cases a <;> decide

end FileSystemAccessMode

theorem metadataPathName_eq_some {name m : Text} :
    metadataPathName name = some m ↔ name = m ∧ m ∈ protectedMetadataPathNames := by
  unfold metadataPathName
  constructor
  · intro h
    have hm := List.find?_some h
    exact ⟨of_decide_eq_true hm, mem_of_find?_eq_some h⟩
  · rintro ⟨rfl, hmem⟩
    cases hf : protectedMetadataPathNames.find? fun n => name = n with
    | none =>
      have hno := List.find?_eq_none.mp hf name hmem
      exact absurd (decide_eq_true rfl) hno
    | some n =>
      have hn := List.find?_some hf
      rw [← of_decide_eq_true hn]

theorem protected_isComponent {m : Text} (h : m ∈ protectedMetadataPathNames) :
    IsComponent m ∧ m.head? ≠ some '~' := by
  revert m
  decide

theorem join_metadata_comps (host : Host) (r : AbsolutePathBuf) {m : Text}
    (h : m ∈ protectedMetadataPathNames) :
    (r.join host.paths.homeDir m).comps = r.comps ++ [m] :=
  AbsolutePathBuf.join_comps _ _ (protected_isComponent h).1 (protected_isComponent h).2

theorem above_join_metadata (host : Host) (r : AbsolutePathBuf) {m : Text}
    (h : m ∈ protectedMetadataPathNames) : r.Above (r.join host.paths.homeDir m) := by
  have hjoin := join_metadata_comps host r h
  refine ⟨by rw [hjoin]; exact prefix_append _ _, fun heq => ?_⟩
  have hlen := congrArg (fun q : AbsolutePathBuf => q.comps.length) heq
  simp only [hjoin, length_append, length_singleton] at hlen
  omega

namespace FileSystemSandboxPolicy

variable {q : AbsolutePathBuf}

section
variable (policy : FileSystemSandboxPolicy) (host : Host) (cwd : Text)

/-! ## Nearest entries -/

def NearestEntry (p d : AbsolutePathBuf) : Prop :=
  Nearest (fun entry : ResolvedFileSystemEntry => entry.path.comps)
    (policy.resolvedEntriesWithCwd host cwd) p.comps d.comps

def HasEntryAt (d : AbsolutePathBuf) : Prop :=
  ∃ entry ∈ policy.resolvedEntriesWithCwd host cwd, entry.path = d

def WritesAt (d : AbsolutePathBuf) : Prop :=
  (∃ entry ∈ policy.resolvedEntriesWithCwd host cwd, entry.path = d ∧ entry.access = .write) ∧
    ∀ entry ∈ policy.resolvedEntriesWithCwd host cwd, entry.path = d → entry.access ≠ .none

def ReadsAt (d : AbsolutePathBuf) : Prop :=
  policy.HasEntryAt host cwd d ∧
    ∀ entry ∈ policy.resolvedEntriesWithCwd host cwd, entry.path = d → entry.access ≠ .none

def metadataRoot (p : AbsolutePathBuf) : Option AbsolutePathBuf :=
  (((policy.resolvedEntriesWithCwd host cwd).filter (·.access.canWrite)).find? fun entry =>
    ((p.componentBelow entry.path).bind metadataPathName).isSome).map (·.path)

variable {policy host cwd} {p d : AbsolutePathBuf}

theorem WritesAt.hasEntryAt (h : policy.WritesAt host cwd d) : policy.HasEntryAt host cwd d := by
  obtain ⟨⟨entry, he, hpath, -⟩, -⟩ := h
  exact ⟨entry, he, hpath⟩

theorem WritesAt.readsAt (h : policy.WritesAt host cwd d) : policy.ReadsAt host cwd d :=
  ⟨h.hasEntryAt, h.2⟩

section
variable (h : policy.NearestEntry host cwd p d)
include h

theorem NearestEntry.hasEntryAt : policy.HasEntryAt host cwd d := by
  obtain ⟨entry, he, hkey⟩ := h.isKey
  exact ⟨entry, he, AbsolutePathBuf.ext hkey⟩

theorem NearestEntry.longest
    (hq : policy.HasEntryAt host cwd q) (hqp : q.comps <+: p.comps) : q.comps <+: d.comps := by
  obtain ⟨entry, he, rfl⟩ := hq
  exact Nearest.longest h entry he hqp

theorem NearestEntry.unique {d' : AbsolutePathBuf}
    (h' : policy.NearestEntry host cwd p d') : d = d' :=
  AbsolutePathBuf.ext (Nearest.unique h h')

end

theorem HasEntryAt.nearest_self (h : policy.HasEntryAt host cwd d) :
    policy.NearestEntry host cwd d d := by
  obtain ⟨entry, he, rfl⟩ := h
  exact Foundation.nearest_self he

theorem HasEntryAt.exists_nearest (h : policy.HasEntryAt host cwd q) (hqp : q.comps <+: p.comps) :
    ∃ d, policy.NearestEntry host cwd p d ∧ q.comps <+: d.comps := by
  obtain ⟨entry, he, rfl⟩ := h
  obtain ⟨k, hn, hle⟩ :=
    Foundation.exists_nearest (fun e : ResolvedFileSystemEntry => e.path.comps) he hqp
  obtain ⟨entry', he', rfl⟩ := hn.isKey
  exact ⟨entry'.path, hn, hle⟩

end

variable {policy : FileSystemSandboxPolicy} {host : Host} {cwd : Text} {p d : AbsolutePathBuf}

/-! ## Resolved access -/

theorem mem_resolvedEntries {entry : ResolvedFileSystemEntry} :
    entry ∈ policy.resolvedEntriesWithCwd host cwd ↔ ∃ source ∈ policy.entries,
      resolveEntryPath host source.path (host.paths.absolutePath cwd) = some entry.path ∧
        source.access = entry.access := by
  unfold resolvedEntriesWithCwd
  simp only [mem_filterMap, map_eq_some_iff]
  constructor
  · rintro ⟨source, hs, path, hpath, rfl⟩
    exact ⟨source, hs, hpath, rfl⟩
  · rintro ⟨source, hs, hpath, hacc⟩
    exact ⟨source, hs, entry.path, hpath, by rw [hacc]⟩

variable {path : Text} {r : AbsolutePathBuf} {m : Text}

section
variable (hkind : policy.kind = .restricted)
include hkind

variable (hpath : resolveCandidatePath host path cwd = some p)
include hpath

theorem resolveAccess_ruling : policy.resolveAccessWithCwd host path cwd =
      (ruling (fun entry : ResolvedFileSystemEntry => entry.path.comps) (·.access)
        (policy.resolvedEntriesWithCwd host cwd) p.comps).getD .none := by
  unfold resolveAccessWithCwd
  rw [hkind, hpath]
  rfl

theorem resolveAccess_eq_iff (ha : a ≠ .none) : policy.resolveAccessWithCwd host path cwd = a ↔
      ∃ d, policy.NearestEntry host cwd p d ∧
        (∃ entry ∈ policy.resolvedEntriesWithCwd host cwd, entry.path = d ∧ entry.access = a) ∧
        ∀ entry ∈ policy.resolvedEntriesWithCwd host cwd, entry.path = d → entry.access ≤ a := by
  rw [resolveAccess_ruling hkind hpath]
  constructor
  · intro h
    cases hr : ruling (fun entry : ResolvedFileSystemEntry => entry.path.comps) (·.access)
        (policy.resolvedEntriesWithCwd host cwd) p.comps with
    | none =>
      rw [hr] at h
      exact absurd h.symm ha
    | some b =>
      rw [hr] at h
      obtain rfl : b = a := h
      obtain ⟨k, hn, ⟨entry, he, hkey, hval⟩, hle⟩ := ruling_eq_some.mp hr
      subst hkey
      refine ⟨entry.path, hn, ⟨entry, he, rfl, hval⟩, fun e he' hpath' => ?_⟩
      exact hle e he' (congrArg AbsolutePathBuf.comps hpath')
  · rintro ⟨d, hn, ⟨entry, he, rfl, hval⟩, hle⟩
    have hr := ruling_eq_some.mpr ⟨entry.path.comps, hn, ⟨entry, he, rfl, hval⟩,
      fun e he' hkey => hle e he' (AbsolutePathBuf.ext hkey)⟩
    rw [hr]
    rfl

theorem canWrite_resolveAccess : (policy.resolveAccessWithCwd host path cwd).canWrite = true ↔
      ∃ d, policy.NearestEntry host cwd p d ∧ policy.WritesAt host cwd d := by
  unfold FileSystemAccessMode.canWrite
  rw [decide_eq_true_iff, resolveAccess_eq_iff hkind hpath (by decide)]
  unfold WritesAt
  simp only [FileSystemAccessMode.le_write_iff]

theorem canRead_resolveAccess : (policy.resolveAccessWithCwd host path cwd).canRead = true ↔
      ∃ d, policy.NearestEntry host cwd p d ∧ policy.ReadsAt host cwd d := by
  unfold FileSystemAccessMode.canRead
  rw [decide_eq_true_iff]
  constructor
  · intro h
    obtain ⟨d, hn, ⟨entry, he, hpath', hval⟩, hle⟩ :=
      (resolveAccess_eq_iff hkind hpath h).mp rfl
    refine ⟨d, hn, ⟨entry, he, hpath'⟩, fun e he' hp' hnone => ?_⟩
    have hmax := hle e he' hp'
    rw [hnone] at hmax
    exact h (FileSystemAccessMode.none_le_iff.mp hmax)
  · rintro ⟨d, hn, -, hno⟩ hnone
    -- a denied path has either no entry above it or a denying one that is nearest
    rw [resolveAccess_ruling hkind hpath] at hnone
    obtain ⟨entry, he, hkey⟩ := hn.hasEntryAt
    cases hr : ruling (fun entry : ResolvedFileSystemEntry => entry.path.comps) (·.access)
        (policy.resolvedEntriesWithCwd host cwd) p.comps with
    | none =>
      refine ruling_eq_none.mp hr entry he ?_
      rw [hkey]
      exact hn.covers
    | some b =>
      rw [hr] at hnone
      obtain ⟨k, hn', ⟨e, he', hk, hval⟩, -⟩ := ruling_eq_some.mp hr
      have hd : e.path = d := AbsolutePathBuf.ext (hk.trans (hn'.unique hn))
      exact hno e he' hd (hval.trans hnone)

end

/-! ## Metadata -/

theorem findSome_eq_find {α β : Type} (f : α → Option β) (l : List α) :
    l.findSome? f = (l.find? fun x => (f x).isSome).bind f := by
  induction l with
  | nil => rfl
  | cons x l ih =>
    rw [List.findSome?_cons, List.find?_cons]
    cases hx : f x with
    | none => exact ih
    | some y => exact hx.symm

theorem metadataRoot_eq_some (h : policy.metadataRoot host cwd p = some r) :
    (∃ entry ∈ policy.resolvedEntriesWithCwd host cwd, entry.path = r ∧ entry.access = .write) ∧
      ∃ m ∈ protectedMetadataPathNames, p.componentBelow r = some m := by
  obtain ⟨entry, hf, rfl⟩ := map_eq_some_iff.mp h
  obtain ⟨he, hw⟩ := mem_filter.mp (mem_of_find?_eq_some hf)
  have hsome := List.find?_some hf
  obtain ⟨m, hm⟩ := isSome_iff_exists.mp hsome
  obtain ⟨name, hname, hmeta⟩ := bind_eq_some_iff.mp hm
  obtain ⟨rfl, hmem⟩ := metadataPathName_eq_some.mp hmeta
  exact ⟨⟨entry, he, rfl, of_decide_eq_true hw⟩, name, hmem, hname⟩

theorem metadataChild_eq (policy : FileSystemSandboxPolicy) (host : Host) (cwd : Text)
    (p : AbsolutePathBuf) : policy.metadataChildOfWritableRoot host p cwd =
      (policy.metadataRoot host cwd p).bind fun r =>
        ((p.componentBelow r).bind metadataPathName).map fun m =>
          (r.join host.paths.homeDir m, m) := by
  unfold metadataChildOfWritableRoot metadataRoot
  rw [List.head?_filterMap, findSome_eq_find, bind_map]
  simp only [isSome_map, Function.comp_def]

section
variable (hkind : policy.kind = .restricted)
include hkind

theorem metadataDenied_iff
    (hn : policy.NearestEntry host cwd p d) (hw : policy.WritesAt host cwd d) :
    policy.isMetadataWriteDenied host p.display cwd = true ↔
      policy.metadataRoot host cwd p = some d := by
  unfold isMetadataWriteDenied
  rw [if_neg (by simp [hkind])]
  simp only [resolveCandidatePath_display, metadataChild_eq]
  cases hroot : policy.metadataRoot host cwd p with
  | none => simp
  | some r =>
    obtain ⟨hentry, m, hmem, hbelow⟩ := metadataRoot_eq_some hroot
    have hle := AbsolutePathBuf.componentBelow_eq_some.mp hbelow
    have hname : metadataPathName m = some m := metadataPathName_eq_some.mpr ⟨rfl, hmem⟩
    have hjoin := join_metadata_comps host r hmem
    simp only [bind_some, hbelow, hname, map_some, Bool.not_eq_true',
      Option.some.injEq]
    constructor
    · intro hno
      by_contra hne
      -- an outer root leaves the nearest entry as an explicit one
      have hrd : r.comps <+: d.comps := by
        obtain ⟨entry, he, hpath, -⟩ := hentry
        exact hn.longest ⟨entry, he, hpath⟩ ((prefix_append _ _).trans hle)
      have hlt := AbsolutePathBuf.Above.length_lt ⟨hrd, hne⟩
      have hmd : r.comps ++ [m] <+: d.comps := by
        refine prefix_of_prefix_length_le hle hn.covers ?_
        rw [length_append, length_singleton]
        exact hlt
      obtain ⟨⟨entry, he, rfl, hwrite⟩, -⟩ := hw
      refine Bool.eq_false_iff.mp hno (any_eq_true.mpr ⟨entry, he, ?_⟩)
      have htarget : p.startsWith entry.path = true :=
        AbsolutePathBuf.startsWith_iff.mpr hn.covers
      have hinside : entry.path.startsWith (r.join host.paths.homeDir m) = true :=
        AbsolutePathBuf.startsWith_iff.mpr (by rw [hjoin]; exact hmd)
      rw [htarget, hinside, hwrite]
      rfl
    · rintro rfl
      refine Bool.eq_false_iff.mpr fun hexp => ?_
      obtain ⟨entry, he, hall⟩ := any_eq_true.mp hexp
      simp only [Bool.and_eq_true, AbsolutePathBuf.startsWith_iff, hjoin] at hall
      have hup := hn.longest ⟨entry, he, rfl⟩ hall.1.2
      have hlen := (hall.2.trans hup).length_le
      rw [length_append, length_singleton] at hlen
      omega

theorem canWrite_iff (hfull : policy.hasFullDiskWriteAccess = false) :
    policy.canWritePathWithCwd host p.display cwd = true ↔
      ∃ d, policy.NearestEntry host cwd p d ∧ policy.WritesAt host cwd d ∧
        policy.metadataRoot host cwd p ≠ some d := by
  have haccess := canWrite_resolveAccess hkind (resolveCandidatePath_display host p cwd)
  unfold canWritePathWithCwd
  rw [hfull]
  constructor
  · intro h
    split at h
    · cases h
    · rename_i hcan
      obtain ⟨d, hn, hw⟩ := haccess.mp (by simpa using hcan)
      refine ⟨d, hn, hw, fun hroot => ?_⟩
      rw [if_neg (by decide), (metadataDenied_iff hkind hn hw).mpr hroot] at h
      cases h
  · rintro ⟨d, hn, hw, hroot⟩
    have hcan := haccess.mpr ⟨d, hn, hw⟩
    have hden : policy.isMetadataWriteDenied host p.display cwd = false :=
      Bool.eq_false_iff.mpr fun h => hroot ((metadataDenied_iff hkind hn hw).mp h)
    rw [hcan, hden]
    rfl

theorem canRead_iff : policy.canReadPathWithCwd host p.display cwd = true ↔
      ∃ d, policy.NearestEntry host cwd p d ∧ policy.ReadsAt host cwd d :=
  canRead_resolveAccess hkind (resolveCandidatePath_display host p cwd)

theorem canWrite_entry
    (hfull : policy.hasFullDiskWriteAccess = false) (hd : policy.HasEntryAt host cwd d) :
    policy.canWritePathWithCwd host d.display cwd = true ↔ policy.WritesAt host cwd d := by
  rw [canWrite_iff hkind hfull]
  constructor
  · rintro ⟨d', hn, hw, -⟩
    rwa [hd.nearest_self.unique hn]
  · intro hw
    refine ⟨d, hd.nearest_self, hw, fun hroot => ?_⟩
    obtain ⟨-, m, -, hbelow⟩ := metadataRoot_eq_some hroot
    rw [AbsolutePathBuf.componentBelow_self] at hbelow
    cases hbelow

end

theorem metadataRoot_congr (hn : policy.NearestEntry host cwd p d) (hdq : d.Above q)
    (hqp : q.comps <+: p.comps) :
    policy.metadataRoot host cwd p = policy.metadataRoot host cwd q := by
  have hsame : ∀ entry ∈ policy.resolvedEntriesWithCwd host cwd,
      p.componentBelow entry.path = q.componentBelow entry.path := by
    intro entry he
    refine AbsolutePathBuf.componentBelow_congr hqp fun hcov => ?_
    exact lt_of_le_of_lt (hn.longest ⟨entry, he, rfl⟩ hcov).length_le hdq.length_lt
  unfold metadataRoot
  rw [← List.head?_filter, ← List.head?_filter]
  refine congrArg (Option.map _) (congrArg List.head? (filter_congr fun entry he => ?_))
  rw [hsame entry (mem_filter.mp he).1]

theorem metadata_below_nearest (hn : policy.NearestEntry host cwd p d)
    (hm : m ∈ protectedMetadataPathNames) (hbelow : p.componentBelow d = some m) :
    ¬ policy.HasEntryAt host cwd (d.join host.paths.homeDir m) ∧
      policy.metadataRoot host cwd p =
        policy.metadataRoot host cwd (d.join host.paths.homeDir m) := by
  have hle : (d.join host.paths.homeDir m).comps <+: p.comps := by
    rw [join_metadata_comps host d hm]
    exact AbsolutePathBuf.componentBelow_eq_some.mp hbelow
  have habove := above_join_metadata host d hm
  refine ⟨fun hentry => ?_, metadataRoot_congr hn habove hle⟩
  have hback := (hn.longest hentry hle).length_le
  have hlt := habove.length_lt
  omega

theorem nearest_metadata (hr : policy.HasEntryAt host cwd r) (hm : m ∈ protectedMetadataPathNames)
    (hno : ¬ policy.HasEntryAt host cwd (r.join host.paths.homeDir m)) :
    policy.NearestEntry host cwd (r.join host.paths.homeDir m) r := by
  have hjoin := join_metadata_comps host r hm
  have hle : r.comps <+: (r.join host.paths.homeDir m).comps := by
    rw [hjoin]
    exact prefix_append _ _
  obtain ⟨d, hn, hrd⟩ := hr.exists_nearest hle
  have hd : d = r := by
    by_contra hne
    have hlt := AbsolutePathBuf.Above.length_lt ⟨hrd, Ne.symm hne⟩
    have hcov := hn.covers.length_le
    rw [hjoin, length_append, length_singleton] at hcov
    have heq : d.comps = (r.join host.paths.homeDir m).comps := by
      refine hn.covers.eq_of_length ?_
      rw [hjoin, length_append, length_singleton]
      omega
    exact hno (AbsolutePathBuf.ext heq ▸ hn.hasEntryAt)
  rwa [hd] at hn

theorem metadataPath_denied (hkind : policy.kind = .restricted)
    (hfull : policy.hasFullDiskWriteAccess = false) (hw : policy.WritesAt host cwd r)
    (hm : m ∈ protectedMetadataPathNames)
    (hno : ¬ policy.HasEntryAt host cwd (r.join host.paths.homeDir m)) :
    policy.canWritePathWithCwd host (r.join host.paths.homeDir m).display cwd = false ↔
      policy.metadataRoot host cwd (r.join host.paths.homeDir m) = some r := by
  have hn := nearest_metadata hw.hasEntryAt hm hno
  rw [Bool.eq_false_iff, ne_eq, canWrite_iff hkind hfull]
  constructor
  · intro h
    by_contra hne
    exact h ⟨r, hn, hw, hne⟩
  · rintro hroot ⟨d, hn', -, hne⟩
    obtain rfl := hn.unique hn'
    exact hne hroot

end FileSystemSandboxPolicy

end Codex
