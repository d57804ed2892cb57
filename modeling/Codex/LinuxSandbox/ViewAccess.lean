import Codex.LinuxSandbox.ArgsExecution
import Codex.Sandbox.SemanticSignature

/-!
# What the view shows, and the policy

The last mount that covers a path decides whether the host's object there is shown and
can be written. In a root's turn the denied paths come last, before them what is read
only, and before that the root itself; what is denied outside all roots is masked at
the end.

What the view shows of the host the policy lets be read, and what can be written there
the policy lets be written, but for metadata that is no directory. The other way a path
can be written in the view unless a glob denies it or the defaults of its writable root
keep it read only. Below the directory a `.git` file points to nothing is said.
-/

namespace Codex.LinuxSandbox

open Foundation List

noncomputable def shown (S : AbsolutePathBuf → Option Bool) (ms : List Mount) :
    AbsolutePathBuf → Option Bool := stack S (ms.map Mount.displays)

section
variable {host : Host} {S : AbsolutePathBuf → Option Bool} {p : AbsolutePathBuf}

theorem shown_append (S : AbsolutePathBuf → Option Bool) (ms ms' : List Mount) :
    shown S (ms ++ ms') = shown (shown S ms) ms' := by
  unfold shown
  rw [map_append, stack_append]

theorem shown_cons (S : AbsolutePathBuf → Option Bool) (m : Mount) (ms : List Mount) :
    shown S (m :: ms) = shown (m.displays.over S) ms := rfl

theorem shown_flatMap {α : Type} {f : α → List Mount} {C : α → Prop} {V : Option Bool}
    (hf : ∀ a S, shown S (f a) p = overIf (C a) V (S p)) (l : List α) :
    shown S (l.flatMap f) p = overIf (∃ a ∈ l, C a) V (S p) := by
  induction l generalizing S with
  | nil => exact (overIf_neg (by simp)).symm
  | cons a l ih =>
    rw [flatMap_cons, shown_append, ih, hf]
    by_cases hl : ∃ b ∈ l, C b
    · rw [overIf_pos hl, overIf_pos (by simp [hl])]
    · rw [overIf_neg hl]
      refine congrArg (fun c => overIf c V (S p)) ?_
      simp [hl]

end

/-! ## Parts of a plan -/

section
variable {host : Host} {fd : ℕ} {allowed unreadable : List AbsolutePathBuf}
  {readOnly : WritableRoot → List AbsolutePathBuf} {S : AbsolutePathBuf → Option Bool}
  {p q c u : AbsolutePathBuf} {w : WritableRoot} {turns : List WritableRoot}

theorem shown_dirs (S : AbsolutePathBuf → Option Bool) (dirs : List AbsolutePathBuf) :
    shown S (dirs.map .dir) = S := by
  induction dirs with
  | nil => rfl
  | cons d dirs ih =>
    have hsame : (Mount.dir d).displays.over S = S := Layer.clear_over _
    rw [map_cons, shown_cons, hsame]
    exact ih

theorem shown_missing (S : AbsolutePathBuf → Option Bool) (q : AbsolutePathBuf) :
    shown S (missingMounts host allowed q) = S := by
  unfold missingMounts
  split
  · split
    · exact Layer.clear_over _
    · rfl
  · rfl

theorem shown_expose (writable : Bool) (x : AbsolutePathBuf) :
    shown S [.expose writable x] p = overIf (x.comps <+: p.comps) (some writable) (S p) := rfl

theorem shown_readOnly (S : AbsolutePathBuf → Option Bool) (q : AbsolutePathBuf) :
    shown S (readOnlyMounts host allowed q) p =
      overIf (host.pathExists q = true ∧ Within allowed q ∧ q.comps <+: p.comps) (some false)
        (S p) := by
  unfold readOnlyMounts
  cases hq : host.pathExists q with
  | false =>
    rw [overIf_neg (by simp)]
    simp [shown_missing]
  | true =>
    by_cases hwithin : Within allowed q
    · simp [isWithin_iff.mpr hwithin, hwithin, shown_expose]
    · rw [overIf_neg (by simp [hwithin])]
      simp [Bool.eq_false_iff.mpr (mt isWithin_iff.mp hwithin), shown]

theorem shown_denied (htree : host.IsTree) (hp : host.pathExists p = true)
    (S : AbsolutePathBuf → Option Bool) (u : AbsolutePathBuf) :
    shown S (deniedMounts host fd allowed u) p = overIf (u.comps <+: p.comps) none (S p) := by
  unfold deniedMounts
  by_cases hle : u.comps <+: p.comps
  · rw [htree.exists_of_le hle hp, Bool.not_true, if_neg Bool.false_ne_true, overIf_pos hle]
    split
    · exact Layer.over_of_covers hle
    · exact Layer.over_of_covers hle
  · rw [overIf_neg hle]
    split
    · rw [shown_missing]
    · split
      · exact Layer.over_of_not_covers hle
      · exact Layer.over_of_not_covers hle

def Denies (unreadable : List AbsolutePathBuf) (w : WritableRoot) (p : AbsolutePathBuf) : Prop :=
  ∃ u ∈ unreadable, w.root.comps <+: u.comps ∧ u.comps <+: p.comps

/-- Something read only that is bound with the root is at or above the path. -/
def Keeps (host : Host) (allowed : List AbsolutePathBuf)
    (readOnly : WritableRoot → List AbsolutePathBuf) (w : WritableRoot) (p : AbsolutePathBuf) :
    Prop := ∃ q, Kept host allowed readOnly w q ∧ q.comps <+: p.comps

theorem shown_root (htree : host.IsTree) (hp : host.pathExists p = true)
    (S : AbsolutePathBuf → Option Bool) :
    shown S (rootMounts host fd allowed unreadable readOnly w) p =
      overIf (Denies unreadable w p) none
        (overIf (Keeps host allowed readOnly w p) (some false)
          (overIf (w.root.comps <+: p.comps) (some true) (S p))) := by
  have hden : (∃ u ∈ sortByDepth id (unreadable.filter fun path => path.startsWith w.root),
      u.comps <+: p.comps) ↔ Denies unreadable w p := by
    unfold Denies
    simp only [mem_sortByDepth, mem_filter, AbsolutePathBuf.startsWith_iff, and_assoc]
  have hkeep : (∃ q ∈ sortByDepth id (readOnly w), host.pathExists q = true ∧ Within allowed q ∧
      q.comps <+: p.comps) ↔ Keeps host allowed readOnly w p := by
    unfold Keeps Kept
    simp only [mem_sortByDepth, and_assoc]
  unfold rootMounts
  rw [shown_append, shown_dirs, shown_cons, shown_append,
    shown_flatMap (fun u S => shown_denied htree hp S u),
    shown_flatMap (fun q S => shown_readOnly S q)]
  simp only [hden, hkeep]
  rfl

def Touches (host : Host) (allowed unreadable : List AbsolutePathBuf)
    (readOnly : WritableRoot → List AbsolutePathBuf) (w : WritableRoot) (p : AbsolutePathBuf) :
    Prop := Denies unreadable w p ∨ Keeps host allowed readOnly w p ∨ w.root.comps <+: p.comps

theorem shown_root_of_not_touches (htree : host.IsTree) (hp : host.pathExists p = true)
    (h : ¬ Touches host allowed unreadable readOnly w p) :
    shown S (rootMounts host fd allowed unreadable readOnly w) p = S p := by
  unfold Touches at h
  simp only [not_or] at h
  rw [shown_root htree hp, overIf_neg h.1, overIf_neg h.2.1, overIf_neg h.2.2]

theorem shown_roots_cases (htree : host.IsTree) (hp : host.pathExists p = true)
    (S : AbsolutePathBuf → Option Bool) (turns : List WritableRoot) :
    (∃ pre w post S', turns = pre ++ w :: post ∧ Touches host allowed unreadable readOnly w p ∧
        (∀ w' ∈ post, ¬ Touches host allowed unreadable readOnly w' p) ∧
        shown S (turns.flatMap (rootMounts host fd allowed unreadable readOnly)) p =
          shown S' (rootMounts host fd allowed unreadable readOnly w) p) ∨
      (∀ w ∈ turns, ¬ Touches host allowed unreadable readOnly w p) ∧
        shown S (turns.flatMap (rootMounts host fd allowed unreadable readOnly)) p = S p := by
  induction turns using List.reverseRecOn with
  | nil => exact .inr ⟨by simp, rfl⟩
  | append_singleton turns w ih =>
    rw [flatMap_append, flatMap_singleton, shown_append]
    by_cases hw : Touches host allowed unreadable readOnly w p
    · exact .inl ⟨turns, w, [], _, rfl, hw, by simp, rfl⟩
    · rw [shown_root_of_not_touches htree hp hw]
      rcases ih with ⟨pre, w', post, S', rfl, htouch, hpost, hshown⟩ | ⟨hnone, hshown⟩
      · refine .inl ⟨pre, w', post ++ [w], S', by simp, htouch, fun k hk => ?_, hshown⟩
        rcases mem_append.mp hk with hk | hk
        · exact hpost k hk
        · rwa [mem_singleton.mp hk]
      · refine .inr ⟨fun k hk => ?_, hshown⟩
        rcases mem_append.mp hk with hk | hk
        · exact hnone k hk
        · rwa [mem_singleton.mp hk]

end

variable {host : Host} {policy : FileSystemSandboxPolicy} {cwd : Text} {fd : ℕ}
  {expanded : List AbsolutePathBuf} {p q u r d : AbsolutePathBuf} {w : WritableRoot}

/-! ## The paths of the policy -/

theorem mem_sortedPathSet {paths : List AbsolutePathBuf} : q ∈ sortedPathSet paths ↔ q ∈ paths :=
  mem_destutter_ne.trans (mem_insertionSort _)

theorem mem_after {α : Type} {path : α → AbsolutePathBuf} {l pre post : List α} {a b : α}
    (hsplit : sortByDepth path l = pre ++ a :: post) (hb : b ∈ l)
    (habove : (path a).Above (path b)) : b ∈ post := by
  have hmem : b ∈ pre ++ a :: post := by
    rw [← hsplit]
    exact mem_sortByDepth.mpr hb
  have hpair := sortByDepth_pairwise path l
  rw [hsplit] at hpair
  have hlt := habove.length_lt
  rcases mem_append.mp hmem with h | h
  · have hle := (pairwise_append.mp hpair).2.2 b h a mem_cons_self
    unfold pathDepth at hle
    omega
  · rcases mem_cons.mp h with rfl | h
    · exact absurd hlt (lt_irrefl _)
    · exact h

section
variable (htree : host.IsTree)
include htree

variable (hkind : policy.kind = .restricted)
include hkind

theorem mem_getUnreadableRoots
    (habs : isAbsolute cwd = true) : u ∈ policy.getUnreadableRootsWithCwd host cwd ↔ u ≠ .root ∧
      ∃ entry ∈ policy.resolvedEntriesWithCwd host cwd, entry.path = u ∧ entry.access = .none := by
  obtain ⟨c, hc⟩ := absolutePath_of_isAbsolute host habs
  unfold FileSystemSandboxPolicy.getUnreadableRootsWithCwd
  rw [if_neg (not_not.mpr hkind), mem_dedupAbsolutePaths htree.noSymlinks, hc]
  simp only [mem_map, mem_filter, Option.map_some, decide_eq_true_eq, ne_eq,
    Option.some.injEq, Bool.not_eq_true']
  constructor
  · rintro ⟨entry, ⟨⟨⟨he, hacc⟩, -⟩, hroot⟩, rfl⟩
    exact ⟨fun h => hroot h.symm, entry, he, rfl, hacc⟩
  · rintro ⟨hroot, entry, he, rfl, hacc⟩
    refine ⟨entry, ⟨⟨⟨he, hacc⟩, ?_⟩, fun h => hroot h.symm⟩, rfl⟩
    refine Bool.eq_false_iff.mpr fun hread => ?_
    obtain ⟨d, hn, hreads⟩ := (FileSystemSandboxPolicy.canRead_iff hkind).mp hread
    have hentry : policy.HasEntryAt host cwd entry.path := ⟨entry, he, rfl⟩
    rw [hn.unique (FileSystemSandboxPolicy.HasEntryAt.nearest_self ⟨entry, he, rfl⟩)] at hreads
    exact hreads.2 entry he rfl hacc

theorem mem_getReadableRoots
    (h : r ∈ policy.getReadableRootsWithCwd host cwd) : policy.ReadsAt host cwd r := by
  unfold FileSystemSandboxPolicy.getReadableRootsWithCwd at h
  split at h
  · exact absurd h not_mem_nil
  · rw [mem_dedupAbsolutePaths htree.noSymlinks] at h
    obtain ⟨entry, he, rfl⟩ := mem_map.mp h
    obtain ⟨he, hread⟩ := mem_filter.mp he
    have hentry : policy.HasEntryAt host cwd entry.path := ⟨entry, (mem_filter.mp he).1, rfl⟩
    obtain ⟨d, hn, hreads⟩ := (FileSystemSandboxPolicy.canRead_iff hkind).mp hread
    rwa [hn.unique hentry.nearest_self] at hreads

theorem mem_mountedRoots_iff (hfull : policy.hasFullDiskWriteAccess = false) :
    w ∈ mountedWritableRoots host policy cwd ↔ ∃ r, policy.WritesAt host cwd r ∧
      host.pathExists r = true ∧ policy.writableRoot host cwd r = w := by
  unfold mountedWritableRoots
  rw [hfull]
  simp only [Bool.false_eq_true, false_and, and_false, if_false, mem_filter,
    FileSystemSandboxPolicy.mem_getWritableRoots hkind hfull htree.noSymlinks]
  constructor
  · rintro ⟨⟨r, hw, rfl⟩, hthere⟩
    exact ⟨r, hw, hthere, rfl⟩
  · rintro ⟨r, hw, hthere, rfl⟩
    exact ⟨⟨r, hw, rfl⟩, hthere⟩

theorem mem_mountedReadOnly
    (hfull : policy.hasFullDiskWriteAccess = false) {unreadable : List AbsolutePathBuf}
    (hq : q ∈ mountedReadOnlySubpaths host policy cwd unreadable (policy.writableRoot host cwd r)) :
    gitPointer host r = some q ∨
      (∃ m, DefaultProtects host cwd r m ∧ q = r.join host.paths.homeDir m) ∨
      policy.HasEntryAt host cwd q ∧ ¬ policy.WritesAt host cwd q ∧ r.Above q := by
  have hsub : q ∈ (policy.writableRoot host cwd r).readOnlySubpaths :=
    (mem_filter.mp (mem_filter.mp hq).1).1
  rcases (FileSystemSandboxPolicy.mem_readOnlySubpaths hkind hfull htree.noSymlinks).mp hsub with
    ⟨hptr | hdef, -⟩ | hentry
  · exact .inl hptr
  · exact .inr (.inl hdef)
  · exact .inr (.inr hentry)

end

theorem mountedReadOnly_of_mem {unreadable : List AbsolutePathBuf}
    (hq : q ∈ (policy.writableRoot host cwd r).readOnlySubpaths) (hno : q ∉ unreadable)
    (hthere : host.pathExists q = true) :
    q ∈ mountedReadOnlySubpaths host policy cwd unreadable (policy.writableRoot host cwd r) := by
  refine mem_filter.mpr ⟨mem_filter.mpr ⟨hq, decide_eq_true hno⟩, decide_eq_true ?_⟩
  intro hmissing
  obtain ⟨entry, -, hentry⟩ := mem_filterMap.mp hmissing
  split at hentry
  · split at hentry
    · cases hentry
    · dsimp only at hentry
      split at hentry
      · rename_i hgone
        cases hentry
        rw [hthere] at hgone
        cases hgone
      · cases hentry
  · cases hentry

/-! ## Turns -/

/-- The path is not at or below what the `.git` file of a writable root points to. -/
def OffPointers (policy : FileSystemSandboxPolicy) (host : Host) (cwd : Text)
    (p : AbsolutePathBuf) : Prop :=
  ∀ r g, policy.WritesAt host cwd r → gitPointer host r = some g → ¬ g.comps <+: p.comps

structure Situation (policy : FileSystemSandboxPolicy) (host : Host) (cwd : Text)
    (expanded : List AbsolutePathBuf) : Prop where
  tree : host.IsTree
  restricted : policy.kind = .restricted
  notFullWrite : policy.hasFullDiskWriteAccess = false
  absolute : isAbsolute cwd = true
  globs : ∀ q ∈ expanded, host.pathExists q = true ∧ host.isDir q = false

variable (policy host cwd expanded) in
abbrev writePaths : List AbsolutePathBuf :=
  (mountedWritableRoots host policy cwd).map WritableRoot.root

variable (policy host cwd expanded) in
abbrev readOnlyPaths : WritableRoot → List AbsolutePathBuf :=
  mountedReadOnlySubpaths host policy cwd (maskedRoots host policy cwd expanded)

variable (policy host cwd expanded) in
abbrev RootTouches (w : WritableRoot) (p : AbsolutePathBuf) : Prop :=
  Touches host (writePaths host policy cwd) (maskedRoots host policy cwd expanded)
    (readOnlyPaths host policy cwd expanded) w p

section
variable (hs : Situation policy host cwd expanded)
include hs

theorem Situation.keeps_cases
    (h : Keeps host (writePaths host policy cwd) (readOnlyPaths host policy cwd expanded)
      (policy.writableRoot host cwd r) p) :
    (∃ g, gitPointer host r = some g ∧ g.comps <+: p.comps) ∨
      (∃ m, DefaultProtects host cwd r m ∧ p.componentBelow r = some m) ∨
      ∃ q, policy.HasEntryAt host cwd q ∧ ¬ policy.WritesAt host cwd q ∧ r.Above q ∧
        q.comps <+: p.comps := by
  obtain ⟨q, ⟨hq, -, -⟩, hle⟩ := h
  rcases mem_mountedReadOnly hs.tree hs.restricted hs.notFullWrite hq with
    hptr | ⟨m, hdef, rfl⟩ | ⟨hentry, hno, habove⟩
  · exact .inl ⟨q, hptr, hle⟩
  · rw [join_metadata_comps host r hdef.mem] at hle
    exact .inr (.inl ⟨m, hdef, AbsolutePathBuf.componentBelow_eq_some.mpr hle⟩)
  · exact .inr (.inr ⟨q, hentry, hno, habove, hle⟩)

theorem Situation.touches_le
    (hptr : OffPointers policy host cwd p) (hw : policy.WritesAt host cwd r)
    (h : RootTouches host policy cwd expanded (policy.writableRoot host cwd r) p) :
    r.comps <+: p.comps := by
  rcases h with ⟨u, -, hru, hup⟩ | hkeeps | hle
  · exact hru.trans hup
  · rcases hs.keeps_cases hkeeps with ⟨g, hg, hle⟩ | ⟨m, -, hbelow⟩ | ⟨q, -, -, habove, hle⟩
    · exact absurd hle (hptr r g hw hg)
    · exact (prefix_append _ _).trans (AbsolutePathBuf.componentBelow_eq_some.mp hbelow)
    · exact habove.1.trans hle
  · exact hle

theorem Situation.mem_masked : u ∈ maskedRoots host policy cwd expanded ↔
      (u ≠ .root ∧ ∃ entry ∈ policy.resolvedEntriesWithCwd host cwd,
        entry.path = u ∧ entry.access = .none) ∨ u ∈ expanded := by
  unfold maskedRoots
  rw [mem_sortedPathSet, mem_append, mem_getUnreadableRoots hs.tree hs.restricted hs.absolute]

theorem Situation.glob_eq (hu : u ∈ expanded)
    (hp : host.pathExists p = true) (hle : u.comps <+: p.comps) : u = p := by
  refine (AbsolutePathBuf.le_or_above hle).resolve_right fun habove => ?_
  have hdir := hs.tree.isDir_above u p habove hp
  rw [(hs.globs u hu).2] at hdir
  cases hdir

theorem Situation.mem_turns :
    w ∈ sortByDepth WritableRoot.root (mountedWritableRoots host policy cwd) ↔
      ∃ r, policy.WritesAt host cwd r ∧ host.pathExists r = true ∧
        policy.writableRoot host cwd r = w := by
  rw [mem_sortByDepth, mem_mountedRoots_iff hs.tree hs.restricted hs.notFullWrite]

theorem Situation.within_of_writes
    (hw : policy.WritesAt host cwd r) (hr : host.pathExists r = true) :
    r ∈ writePaths host policy cwd := by
  refine mem_map.mpr ⟨policy.writableRoot host cwd r, ?_, rfl⟩
  exact (mem_mountedRoots_iff hs.tree hs.restricted hs.notFullWrite).mpr ⟨r, hw, hr, rfl⟩

theorem Situation.writes_of_writePath
    (hr : r ∈ writePaths host policy cwd) : policy.WritesAt host cwd r := by
  obtain ⟨w, hw, rfl⟩ := mem_map.mp hr
  obtain ⟨r, hwr, -, rfl⟩ := (mem_mountedRoots_iff hs.tree hs.restricted hs.notFullWrite).mp hw
  exact hwr

end

/-! ## What decides -/

variable (policy host cwd expanded fd) in
abbrev policyMounts : List Mount :=
  planMounts host fd (writePaths host policy cwd) (maskedRoots host policy cwd expanded) policy cwd
    (mountedWritableRoots host policy cwd) (readOnlyPaths host policy cwd expanded)

theorem bootstrap_shown {b : Bool}
    (h : shown (fun _ => none) (bootstrapMounts host policy cwd) p = some b) :
    b = false ∧ (policy.hasFullDiskReadAccess = true ∨
      ∃ r ∈ readableRootsToMount host policy cwd, r.comps <+: p.comps) := by
  have hdisk : shown (fun _ => none) wholeDiskMounts p = some b → b = false := by
    intro hb
    have hshown : shown (fun _ => none) wholeDiskMounts p =
        overIf (devPath.comps <+: p.comps) none
          (overIf (AbsolutePathBuf.root.comps <+: p.comps) (some false) none) := rfl
    rw [hshown, overIf_pos (AbsolutePathBuf.root_le p)] at hb
    by_cases hdev : devPath.comps <+: p.comps
    · rw [overIf_pos hdev] at hb
      cases hb
    · rw [overIf_neg hdev] at hb
      exact (Option.some.inj hb).symm
  unfold bootstrapMounts at h
  split at h
  · rename_i hfull
    exact ⟨hdisk h, .inl hfull⟩
  · split at h
    · rename_i hroot
      exact ⟨hdisk h, .inr ⟨.root, hroot, AbsolutePathBuf.root_le p⟩⟩
    · have hground : shown (fun _ => none) [.empty .root, .dev devPath] p = none :=
        stack_keeps (P := fun s => s = none) rfl (by simp [Mount.displays])
      have hexpose : ∀ (x : AbsolutePathBuf) (S : AbsolutePathBuf → Option Bool),
          shown S [.expose false x] p = overIf (x.comps <+: p.comps) (some false) (S p) :=
        fun x S => shown_expose false x
      rw [shown_append, map_eq_flatMap, shown_flatMap hexpose, hground] at h
      by_cases hany : ∃ r ∈ (readableRootsToMount host policy cwd).filter host.pathExists,
          r.comps <+: p.comps
      · rw [overIf_pos hany] at h
        obtain ⟨r, hr, hle⟩ := hany
        exact ⟨(Option.some.inj h).symm, .inr ⟨r, (mem_filter.mp hr).1, hle⟩⟩
      · rw [overIf_neg hany] at h
        cases h

variable (fd) in
theorem Situation.shown_plan (hs : Situation policy host cwd expanded)
    (hp : host.pathExists p = true) : ∃ S, shownAfter (policyMounts host policy cwd fd expanded) p =
        overIf (∃ u ∈ deniedElsewhere (writePaths host policy cwd)
            (maskedRoots host policy cwd expanded), u.comps <+: p.comps) none
          (shown S ((sortByDepth WritableRoot.root (mountedWritableRoots host policy cwd)).flatMap
            (rootMounts host fd (writePaths host policy cwd) (maskedRoots host policy cwd expanded)
              (readOnlyPaths host policy cwd expanded))) p) ∧
      S p = overIf (∃ u ∈ deniedAncestors (writePaths host policy cwd)
          (maskedRoots host policy cwd expanded), u.comps <+: p.comps) none
        (shown (fun _ => none) (bootstrapMounts host policy cwd) p) := by
  refine ⟨shown (shown (fun _ => none) (bootstrapMounts host policy cwd))
    ((sortByDepth id (deniedAncestors (writePaths host policy cwd)
      (maskedRoots host policy cwd expanded))).flatMap
        (deniedMounts host fd (writePaths host policy cwd))), ?_, ?_⟩
  · have hplan : shownAfter (policyMounts host policy cwd fd expanded) =
        shown (fun _ => none) (policyMounts host policy cwd fd expanded) := rfl
    rw [hplan]
    unfold policyMounts planMounts
    rw [shown_append, shown_append, shown_append,
      shown_flatMap (fun u S => shown_denied hs.tree hp S u)]
    simp only [mem_sortByDepth]
  · rw [shown_flatMap (fun u S => shown_denied hs.tree hp S u)]
    simp only [mem_sortByDepth]

theorem Situation.shown_cases (hs : Situation policy host cwd expanded)
    (hp : host.pathExists p = true) {b : Bool}
    (h : shownAfter (policyMounts host policy cwd fd expanded) p = some b) :
    (¬ ∃ u ∈ deniedElsewhere (writePaths host policy cwd) (maskedRoots host policy cwd expanded),
        u.comps <+: p.comps) ∧
      ((∃ r, policy.WritesAt host cwd r ∧ host.pathExists r = true ∧
          RootTouches host policy cwd expanded (policy.writableRoot host cwd r) p ∧
          (∀ r', policy.WritesAt host cwd r' → host.pathExists r' = true → r.Above r' →
            ¬ RootTouches host policy cwd expanded (policy.writableRoot host cwd r') p) ∧
          ¬ Denies (maskedRoots host policy cwd expanded) (policy.writableRoot host cwd r) p ∧
          (b = true → r.comps <+: p.comps ∧ ¬ Keeps host (writePaths host policy cwd)
            (readOnlyPaths host policy cwd expanded) (policy.writableRoot host cwd r) p)) ∨
        (∀ r, policy.WritesAt host cwd r → host.pathExists r = true →
            ¬ RootTouches host policy cwd expanded (policy.writableRoot host cwd r) p) ∧
          (¬ ∃ u ∈ deniedAncestors (writePaths host policy cwd)
            (maskedRoots host policy cwd expanded), u.comps <+: p.comps) ∧
          shown (fun _ => none) (bootstrapMounts host policy cwd) p = some b) := by
  obtain ⟨S, hplan, hS⟩ := hs.shown_plan fd hp
  rw [hplan] at h
  by_cases helse : ∃ u ∈ deniedElsewhere (writePaths host policy cwd)
      (maskedRoots host policy cwd expanded), u.comps <+: p.comps
  · rw [overIf_pos helse] at h
    cases h
  rw [overIf_neg helse] at h
  refine ⟨helse, ?_⟩
  rcases shown_roots_cases hs.tree hp S (sortByDepth WritableRoot.root
    (mountedWritableRoots host policy cwd)) with
    ⟨pre, w, post, S', hsplit, htouch, hpost, hshown⟩ | ⟨hnone, hshown⟩
  · rw [hshown, shown_root hs.tree hp] at h
    have hw : w ∈ sortByDepth WritableRoot.root (mountedWritableRoots host policy cwd) := by
      rw [hsplit]
      simp
    obtain ⟨r, hwr, hr, rfl⟩ := hs.mem_turns.mp hw
    refine .inl ⟨r, hwr, hr, htouch, fun r' hwr' hr' habove => ?_, ?_, ?_⟩
    · have hin := mem_sortByDepth.mp (hs.mem_turns.mpr ⟨r', hwr', hr', rfl⟩)
      exact hpost _ (mem_after hsplit hin habove)
    · intro hden
      rw [overIf_pos hden] at h
      cases h
    · rintro rfl
      by_cases hden : Denies (maskedRoots host policy cwd expanded)
          (policy.writableRoot host cwd r) p
      · rw [overIf_pos hden] at h
        cases h
      by_cases hkeep : Keeps host (writePaths host policy cwd)
          (readOnlyPaths host policy cwd expanded) (policy.writableRoot host cwd r) p
      · rw [overIf_neg hden, overIf_pos hkeep] at h
        cases h
      refine ⟨?_, hkeep⟩
      rcases htouch with h' | h' | h'
      · exact absurd h' hden
      · exact absurd h' hkeep
      · exact h'
  · rw [hshown, hS] at h
    refine .inr ⟨fun r hwr hr => hnone _ (hs.mem_turns.mpr ⟨r, hwr, hr, rfl⟩), ?_⟩
    by_cases hfirst : ∃ u ∈ deniedAncestors (writePaths host policy cwd)
        (maskedRoots host policy cwd expanded), u.comps <+: p.comps
    · rw [overIf_pos hfirst] at h
      cases h
    · rw [overIf_neg hfirst] at h
      exact ⟨hfirst, h⟩

end Codex.LinuxSandbox
