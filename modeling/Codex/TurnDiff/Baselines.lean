import Codex.TurnDiff.Tracker
import Mathlib.Data.Set.Basic

/-!
# Baselines of a turn

What the tracker knows is a relation between baselines and current paths. A patch whose
moves go to paths that are free adds a baseline for each file first seen and moves entries
along, whatever the order of its changes; then every file of before the turn that was
touched has its one baseline.
-/

namespace Codex.TurnDiff

open Foundation TurnDiffTracker List Function

abbrev Changes : Type := List (AbsolutePathBuf × FileChange)

abbrev Tracked : Type := Set (BaselineFileInfo × AbsolutePathBuf)

/-! ## What a patch names -/

def Names (changes : Changes) (path : AbsolutePathBuf) : Prop :=
  ∃ change, (path, change) ∈ changes

def MovesTo (changes : Changes) (path dest : AbsolutePathBuf) : Prop :=
  ∃ unifiedDiff, (path, FileChange.update unifiedDiff (some dest)) ∈ changes

def Lands (changes : Changes) (path path' : AbsolutePathBuf) : Prop :=
  MovesTo changes path path' ∨ (∀ dest, ¬MovesTo changes path dest) ∧ path' = path

def Touches (changes : Changes) (path : AbsolutePathBuf) : Prop :=
  Names changes path ∨ ∃ source, MovesTo changes source path

def IsCurrent (tracked : Tracked) (path : AbsolutePathBuf) : Prop :=
  ∃ info, (info, path) ∈ tracked

/-- Each move goes to a path where there is no file, that is not tracked, that the patch
does not change and that nothing else is moved to. A file may be moved onto itself. -/
def MovesClear (disk : Disk) (tracked : Tracked) (changes : Changes) : Prop :=
  ∀ path dest, MovesTo changes path dest → dest ≠ path →
    ¬Names changes dest ∧ disk dest = none ∧ ¬IsCurrent tracked dest ∧
      ∀ path', MovesTo changes path' dest → path' = path

theorem MovesTo.names {changes : Changes} {path dest : AbsolutePathBuf}
    (h : MovesTo changes path dest) : Names changes path := by
  obtain ⟨unifiedDiff, hmem⟩ := h
  exact ⟨_, hmem⟩

theorem eq_of_nodup_keys {changes : Changes} (hnodup : (changes.map Prod.fst).Nodup)
    {path : AbsolutePathBuf} {change change' : FileChange} (h : (path, change) ∈ changes)
    (h' : (path, change') ∈ changes) : change = change' :=
  congrArg Prod.snd (inj_on_of_nodup_map hnodup h h' rfl)

theorem MovesTo.unique {changes : Changes} (hnodup : (changes.map Prod.fst).Nodup)
    {path dest dest' : AbsolutePathBuf} (h : MovesTo changes path dest)
    (h' : MovesTo changes path dest') : dest = dest' := by
  obtain ⟨unifiedDiff, hmem⟩ := h
  obtain ⟨unifiedDiff', hmem'⟩ := h'
  cases eq_of_nodup_keys hnodup hmem hmem'
  rfl

theorem Lands.unique {changes : Changes} (hnodup : (changes.map Prod.fst).Nodup)
    {path dest dest' : AbsolutePathBuf} (h : Lands changes path dest)
    (h' : Lands changes path dest') : dest = dest' := by
  rcases h with hmove | ⟨hstay, rfl⟩
  · rcases h' with hmove' | ⟨hstay', -⟩
    · exact hmove.unique hnodup hmove'
    · exact absurd hmove (hstay' dest)
  · rcases h' with hmove' | ⟨-, rfl⟩
    · exact absurd hmove' (hstay dest')
    · rfl

theorem exists_lands (changes : Changes) (path : AbsolutePathBuf) :
    ∃ path', Lands changes path path' := by
  by_cases h : ∃ dest, MovesTo changes path dest
  · obtain ⟨dest, hmove⟩ := h
    exact ⟨dest, .inl hmove⟩
  · exact ⟨path, .inr ⟨fun dest hmove => h ⟨dest, hmove⟩, rfl⟩⟩

/-! ## The patch as a step of the relation -/

section
variable (blobOid : AbsolutePathBuf → DiskFile → Text) (disk : Disk)

def seen (changes : Changes) (tracked : Tracked) : Tracked :=
  {x | x ∈ tracked ∨
    Names changes x.2 ∧ ¬IsCurrent tracked x.2 ∧ x.1 = baselineInfo blobOid disk x.2}

def announce (changes : Changes) (tracked : Tracked) : Tracked :=
  {x | ∃ path, (x.1, path) ∈ seen blobOid disk changes tracked ∧ Lands changes path x.2}

end

section
variable {blobOid : AbsolutePathBuf → DiskFile → Text} {disk disk' before : Disk}
  {tracked : Tracked} {changes : Changes} {touched : Set AbsolutePathBuf}

theorem isCurrent_seen {path : AbsolutePathBuf} :
    IsCurrent (seen blobOid disk changes tracked) path ↔
      IsCurrent tracked path ∨ Names changes path := by
  constructor
  · rintro ⟨info, hold | ⟨hnames, -⟩⟩
    · exact .inl ⟨info, hold⟩
    · exact .inr hnames
  · intro h
    by_cases hcurrent : IsCurrent tracked path
    · obtain ⟨info, hmem⟩ := hcurrent
      exact ⟨info, .inl hmem⟩
    · exact ⟨baselineInfo blobOid disk path, .inr ⟨h.resolve_left hcurrent, hcurrent, rfl⟩⟩

theorem MovesClear.lands_injective (h : MovesClear disk tracked changes)
    {path path' dest : AbsolutePathBuf}
    (hseen : IsCurrent (seen blobOid disk changes tracked) path)
    (hseen' : IsCurrent (seen blobOid disk changes tracked) path')
    (hlands : Lands changes path dest) (hlands' : Lands changes path' dest) : path = path' := by
  have hfree : ∀ {path path' : AbsolutePathBuf},
      IsCurrent (seen blobOid disk changes tracked) path' → MovesTo changes path path' →
        path' = path := by
    intro path path' hseen' hmove
    by_contra hne
    obtain ⟨hnames, -, hcurrent, -⟩ := h path path' hmove hne
    rcases isCurrent_seen.mp hseen' with hold | hnew
    · exact hcurrent hold
    · exact hnames hnew
  rcases hlands with hmove | ⟨-, rfl⟩
  · rcases hlands' with hmove' | ⟨-, rfl⟩
    · by_cases hself : dest = path
      · rw [hself] at hmove'
        exact hfree hseen hmove'
      · exact ((h path dest hmove hself).2.2.2 path' hmove').symm
    · exact (hfree hseen' hmove).symm
  · rcases hlands' with hmove' | ⟨-, rfl⟩
    · exact hfree hseen hmove'
    · rfl

/-! ## The invariant -/

/-- What holds of the relation in a turn, of the paths that its patches touched. -/
structure Sound (blobOid : AbsolutePathBuf → DiskFile → Text) (before disk : Disk)
    (tracked : Tracked) (touched : Set AbsolutePathBuf) : Prop where
  current : ∀ info info' path, (info, path) ∈ tracked → (info', path) ∈ tracked → info = info'
  path_touched : ∀ info path, (info, path) ∈ tracked → info.path ∈ touched ∧ path ∈ touched
  untouched : ∀ path, path ∉ touched → disk path = before path
  away : ∀ path ∈ touched, ¬IsCurrent tracked path → disk path = none
  baseline : ∀ path ∈ touched, ∀ file, before path = some file →
    ∃! x, x ∈ tracked ∧ x.1 = presentInfo blobOid path file

theorem sound_new (before : Disk) : Sound blobOid before before ∅ ∅ where
  current := fun _ _ _ h => absurd h (Set.notMem_empty _)
  path_touched := fun _ _ h => absurd h (Set.notMem_empty _)
  untouched := fun _ _ => rfl
  away := fun _ h => absurd h (Set.notMem_empty _)
  baseline := fun _ h => absurd h (Set.notMem_empty _)

theorem path_baselineInfo (path : AbsolutePathBuf) :
    (baselineInfo blobOid disk path).path = path := by
  unfold baselineInfo
  split <;> rfl

theorem existsUnique_announce {info : BaselineFileInfo} (hnodup : (changes.map Prod.fst).Nodup)
    (h : ∃! x, x ∈ seen blobOid disk changes tracked ∧ x.1 = info) :
    ∃! x, x ∈ announce blobOid disk changes tracked ∧ x.1 = info := by
  obtain ⟨⟨info', path⟩, ⟨hseen, rfl⟩, hunique⟩ := h
  obtain ⟨path', hlands⟩ := exists_lands changes path
  refine ⟨(info', path'), ⟨⟨path, hseen, hlands⟩, rfl⟩, ?_⟩
  rintro ⟨info'', path''⟩ ⟨⟨source, hsource, hlands'⟩, hsame⟩
  subst hsame
  cases hunique (info'', source) ⟨hsource, rfl⟩
  rw [hlands.unique hnodup hlands']

theorem Sound.announce (h : Sound blobOid before disk tracked touched)
    (hclear : MovesClear disk tracked changes) (hnodup : (changes.map Prod.fst).Nodup)
    (hframe : ∀ path, ¬Touches changes path → disk' path = disk path)
    (hmoved : ∀ path dest, MovesTo changes path dest → dest ≠ path → disk' path = none) :
    Sound blobOid before disk' (announce blobOid disk changes tracked)
      (touched ∪ {path | Touches changes path}) := by
  have hseen_unique : ∀ info info' path, (info, path) ∈ seen blobOid disk changes tracked →
      (info', path) ∈ seen blobOid disk changes tracked → info = info' := by
    rintro info info' path (hold | ⟨-, hcurrent, hnew⟩) (hold' | ⟨-, hcurrent', hnew'⟩)
    · exact h.current info info' path hold hold'
    · exact absurd ⟨info, hold⟩ hcurrent'
    · exact absurd ⟨info', hold'⟩ hcurrent
    · exact hnew.trans hnew'.symm
  refine ⟨?_, ?_, ?_, ?_, ?_⟩
  · rintro info info' dest ⟨path, hseen, hlands⟩ ⟨path', hseen', hlands'⟩
    obtain rfl := hclear.lands_injective ⟨info, hseen⟩ ⟨info', hseen'⟩ hlands hlands'
    exact hseen_unique info info' path hseen hseen'
  · rintro info dest ⟨path, hseen, hlands⟩
    have hpath : info.path ∈ touched ∪ {path | Touches changes path} ∧
        path ∈ touched ∪ {path | Touches changes path} := by
      rcases hseen with hold | ⟨hnames, -, hinfo⟩
      · exact ⟨.inl (h.path_touched info path hold).1, .inl (h.path_touched info path hold).2⟩
      · dsimp only at hnames hinfo
        rw [hinfo, path_baselineInfo]
        exact ⟨.inr (.inl hnames), .inr (.inl hnames)⟩
    refine ⟨hpath.1, ?_⟩
    rcases hlands with hmove | ⟨-, hsame⟩
    · exact .inr (.inr ⟨path, hmove⟩)
    · dsimp only at hsame
      rw [hsame]
      exact hpath.2
  · intro path hpath
    rw [hframe path fun htouches => hpath (.inr htouches)]
    exact h.untouched path fun htouched => hpath (.inl htouched)
  · intro path hpath hcurrent
    -- a file that was seen there has been moved away, and none has come
    have hgone : ∀ source, IsCurrent (seen blobOid disk changes tracked) source →
        ¬Lands changes source path := by
      rintro source ⟨info, hseen⟩ hlands
      exact hcurrent ⟨info, source, hseen, hlands⟩
    by_cases hnames : Names changes path
    · have hstay := hgone path (isCurrent_seen.mpr (.inr hnames))
      obtain ⟨dest, hlands⟩ := exists_lands changes path
      rcases hlands with hmove | ⟨hnone, rfl⟩
      · refine hmoved path dest hmove fun hsame => hstay (.inl ?_)
        rwa [hsame] at hmove
      · exact absurd (.inr ⟨hnone, rfl⟩) hstay
    · have hnowhere : ¬Touches changes path := by
        rintro (hnames' | ⟨source, hmove⟩)
        · exact hnames hnames'
        · exact hgone source (isCurrent_seen.mpr (.inr hmove.names)) (.inl hmove)
      have hstays : Lands changes path path :=
        .inr ⟨fun dest hmove => hnames hmove.names, rfl⟩
      rw [hframe path hnowhere]
      refine h.away path (hpath.resolve_right hnowhere) fun hold => ?_
      exact hgone path (isCurrent_seen.mpr (.inl hold)) hstays
  · intro path hpath file hfile
    apply existsUnique_announce hnodup
    by_cases htouched : path ∈ touched
    · obtain ⟨x, ⟨hmem, hinfo⟩, hunique⟩ := h.baseline path htouched file hfile
      refine ⟨x, ⟨.inl hmem, hinfo⟩, ?_⟩
      rintro y ⟨hold | ⟨-, hcurrent, hnew⟩, hinfo'⟩
      · exact hunique y ⟨hold, hinfo'⟩
      · -- the path of the baseline has no file any more
        have hsame : y.2 = path := by
          have hpaths := congrArg BaselineFileInfo.path (hnew.symm.trans hinfo')
          rwa [path_baselineInfo] at hpaths
        rw [hsame] at hcurrent hnew
        have hnone := h.away path htouched hcurrent
        rw [hnew, baselineInfo, hnone] at hinfo'
        cases congrArg BaselineFileInfo.oid hinfo'
    · have hdisk : disk path = some file := (h.untouched path htouched).trans hfile
      have hnames : Names changes path := by
        rcases hpath.resolve_left htouched with hnames | ⟨source, hmove⟩
        · exact hnames
        · by_cases hself : path = source
          · rw [hself]
            exact hmove.names
          · have hfree := (hclear source path hmove hself).2.1
            rw [hdisk] at hfree
            cases hfree
      have hcurrent : ¬IsCurrent tracked path := by
        rintro ⟨info, hmem⟩
        exact htouched (h.path_touched info path hmem).2
      have hinfo : baselineInfo blobOid disk path = presentInfo blobOid path file := by
        rw [baselineInfo, hdisk]
      refine ⟨(presentInfo blobOid path file, path), ⟨.inr ⟨hnames, hcurrent, hinfo.symm⟩, rfl⟩, ?_⟩
      rintro ⟨info, path'⟩ ⟨hold | ⟨-, -, hnew⟩, rfl⟩
      · exact absurd (h.path_touched _ path' hold).1 htouched
      · have hpaths := congrArg BaselineFileInfo.path hnew
        rw [path_baselineInfo] at hpaths
        dsimp only at hpaths
        rw [← hpaths]
        rfl

end

/-! ## The patch on disk -/

variable {changes changes' : Changes}

theorem movesTo_append {path dest : AbsolutePathBuf} : MovesTo (changes ++ changes') path dest ↔
      MovesTo changes path dest ∨ MovesTo changes' path dest := by
  simp [MovesTo, exists_or]

theorem names_append {path : AbsolutePathBuf} :
    Names (changes ++ changes') path ↔ Names changes path ∨ Names changes' path := by
  simp [Names, exists_or]

variable {change : FileChange}

theorem movesTo_singleton {path path' dest : AbsolutePathBuf} :
    MovesTo [(path, change)] path' dest ↔
      path' = path ∧ ∃ unifiedDiff, change = .update unifiedDiff (some dest) := by
  simp only [MovesTo, mem_singleton, Prod.mk.injEq]
  constructor
  · rintro ⟨unifiedDiff, rfl, rfl⟩
    exact ⟨rfl, unifiedDiff, rfl⟩
  · rintro ⟨rfl, unifiedDiff, rfl⟩
    exact ⟨unifiedDiff, rfl, rfl⟩

theorem names_singleton {path path' : AbsolutePathBuf} :
    Names [(path, change)] path' ↔ path' = path := by
  simp [Names]

section
variable {patched : Text → List UInt8 → List UInt8} {disk : Disk} {changes : Changes}

theorem applyChange_frame {change : AbsolutePathBuf × FileChange} {path : AbsolutePathBuf}
    (h : ¬Touches [change] path) : applyChange patched disk change path = disk path := by
  obtain ⟨source, change⟩ := change
  have hsource : path ≠ source := fun hsame => h (.inl (names_singleton.mpr hsame))
  have hwrite : ∀ (disk : Disk) content, disk.write source content path = disk path :=
    fun disk content => update_of_ne hsource _ _
  have hremove : ∀ disk : Disk, disk.remove source path = disk path :=
    fun disk => update_of_ne hsource _ _
  unfold applyChange
  cases change with
  | add content => exact hwrite disk _
  | delete content => exact hremove disk
  | update unifiedDiff movePath =>
    cases hfile : disk source with
    | none => rfl
    | some file =>
      cases movePath with
      | none => exact hwrite disk _
      | some dest =>
        have hdest : path ≠ dest := by
          rintro rfl
          exact h (.inr ⟨source, movesTo_singleton.mpr ⟨rfl, unifiedDiff, rfl⟩⟩)
        dsimp only
        rw [hremove]
        exact update_of_ne hdest _ _

theorem touches_cons {change : AbsolutePathBuf × FileChange} {path : AbsolutePathBuf} :
    Touches (change :: changes) path ↔ Touches [change] path ∨ Touches changes path := by
  have hcons : change :: changes = [change] ++ changes := rfl
  rw [hcons]
  simp only [Touches, names_append, movesTo_append, exists_or]
  tauto

theorem applyPatch_frame {path : AbsolutePathBuf} (h : ¬Touches changes path) :
    applyPatch patched disk changes path = disk path := by
  unfold applyPatch
  induction changes generalizing disk with
  | nil => rfl
  | cons change changes ih =>
    rw [touches_cons, not_or] at h
    rw [foldl_cons, ih h.2, applyChange_frame h.1]

theorem applyPatch_moved {path dest : AbsolutePathBuf} (hnodup : (changes.map Prod.fst).Nodup)
    (hmove : MovesTo changes path dest) (hfree : ∀ source, ¬MovesTo changes source path) :
    applyPatch patched disk changes path = none := by
  obtain ⟨unifiedDiff, hmem⟩ := hmove
  obtain ⟨older, newer, rfl⟩ := append_of_mem hmem
  unfold applyPatch
  rw [foldl_append, foldl_cons]
  have hnewer : ¬Touches newer path := by
    rintro (⟨change, hchange⟩ | ⟨source, unifiedDiff', hchange⟩)
    · rw [map_append, map_cons, nodup_append, nodup_cons] at hnodup
      exact hnodup.2.1.1 (mem_map.mpr ⟨_, hchange, rfl⟩)
    · exact hfree source ⟨unifiedDiff', by simp [hchange]⟩
  generalize older.foldl (applyChange patched) disk = disk'
  have hframe := @applyPatch_frame patched
    (applyChange patched disk' (path, .update unifiedDiff (some dest))) newer path hnewer
  unfold applyPatch at hframe
  rw [hframe]
  cases hfile : disk' path with
  | none => simp only [applyChange, hfile]
  | some file =>
    simp only [applyChange, hfile]
    exact update_self _ _ _

end

/-! ## The tracker as the relation -/

namespace TurnDiffTracker

variable {blobOid : AbsolutePathBuf → DiskFile → Text} {disk : Disk} {t : TurnDiffTracker}

def tracked (t : TurnDiffTracker) : Tracked :=
  {x | ∃ i, t.baselineFileInfo.lookup i = some x.1 ∧ t.tempNameToCurrentPath.lookup i = some x.2}

/-- The maps belong together: names and current paths are one to one. -/
structure Linked (t : TurnDiffTracker) : Prop where
  external : ∀ path i, t.externalToTempName.lookup path = some i ↔
    t.tempNameToCurrentPath.lookup i = some path
  baseline : ∀ i path, t.tempNameToCurrentPath.lookup i = some path →
    ∃ info, t.baselineFileInfo.lookup i = some info
  placed : ∀ i info, t.baselineFileInfo.lookup i = some info →
    ∃ path, t.tempNameToCurrentPath.lookup i = some path
  drawn : ∀ i path, t.tempNameToCurrentPath.lookup i = some path → i < t.drawn

theorem Linked.isCurrent_iff (h : t.Linked) {path : AbsolutePathBuf} :
    IsCurrent t.tracked path ↔ ∃ i, t.externalToTempName.lookup path = some i := by
  constructor
  · rintro ⟨info, i, -, hcurrent⟩
    exact ⟨i, (h.external path i).mpr hcurrent⟩
  · rintro ⟨i, hexternal⟩
    have hcurrent := (h.external path i).mp hexternal
    obtain ⟨info, hinfo⟩ := h.baseline i path hcurrent
    exact ⟨info, i, hinfo, hcurrent⟩

theorem linked_new : new.Linked :=
  ⟨fun _ _ => ⟨fun h => (nomatch h), fun h => (nomatch h)⟩, fun _ _ h => (nomatch h),
    fun _ _ h => (nomatch h), fun _ _ h => (nomatch h)⟩

theorem tracked_new : new.tracked = ∅ := by
  ext x
  constructor
  · rintro ⟨i, hinfo, -⟩
    cases hinfo
  · exact fun h => absurd h (Set.notMem_empty x)

theorem Linked.ensureTracked (h : t.Linked) (path : AbsolutePathBuf) :
    (ensureTracked blobOid disk t path).Linked := by
  unfold TurnDiffTracker.ensureTracked
  split
  · exact h
  · next hnone =>
    have hdrawn : ∀ path', t.tempNameToCurrentPath.lookup t.drawn ≠ some path' :=
      fun path' hcurrent => Nat.lt_irrefl _ (h.drawn _ _ hcurrent)
    refine ⟨fun path' i => ?_, fun i path' hcurrent => ?_, fun i info hinfo => ?_,
      fun i path' hcurrent => ?_⟩
    · rw [lookup_insert_ite, lookup_insert_ite]
      by_cases hpath : path' = path
      · subst hpath
        by_cases hi : i = t.drawn
        · simp [hi]
        · have hother : t.tempNameToCurrentPath.lookup i ≠ some path' := by
            intro hcurrent
            rw [(h.external path' i).mpr hcurrent] at hnone
            cases hnone
          simp [hi, hother, eq_comm]
      · by_cases hi : i = t.drawn
        · have hother : t.externalToTempName.lookup path' ≠ some i := by
            intro hexternal
            rw [hi] at hexternal
            exact hdrawn path' ((h.external path' _).mp hexternal)
          rw [if_neg hpath, if_pos hi]
          exact ⟨fun hexternal => absurd hexternal hother,
            fun hsame => absurd (Option.some.inj hsame).symm hpath⟩
        · simp [hpath, hi, h.external]
    · dsimp only at hcurrent ⊢
      rw [lookup_insert_ite] at hcurrent ⊢
      split at hcurrent
      · next hi => exact ⟨baselineInfo blobOid disk path, by rw [if_pos hi]⟩
      · next hi =>
        rw [if_neg hi]
        exact h.baseline i path' hcurrent
    · dsimp only at hinfo ⊢
      rw [lookup_insert_ite] at hinfo ⊢
      split at hinfo
      · next hi => exact ⟨path, by rw [if_pos hi]⟩
      · next hi =>
        rw [if_neg hi]
        exact h.placed i info hinfo
    · dsimp only at hcurrent ⊢
      rw [lookup_insert_ite] at hcurrent
      split at hcurrent
      · omega
      · have hlt := h.drawn i path' hcurrent
        omega

theorem lookup_ensureTracked (path : AbsolutePathBuf) :
    ∃ i, (ensureTracked blobOid disk t path).externalToTempName.lookup path = some i := by
  unfold TurnDiffTracker.ensureTracked
  split
  · next i hi => exact ⟨i, hi⟩
  · exact ⟨t.drawn, by simp⟩

theorem tracked_ensureTracked (h : t.Linked) (path : AbsolutePathBuf) (change : FileChange) :
    (ensureTracked blobOid disk t path).tracked =
      seen blobOid disk [(path, change)] t.tracked := by
  ext ⟨info, path'⟩
  simp only [seen, Set.mem_ofPred_eq, names_singleton]
  unfold TurnDiffTracker.ensureTracked
  split
  · next i hi =>
    constructor
    · exact .inl
    · rintro (hold | ⟨rfl, hcurrent, -⟩)
      · exact hold
      · exact absurd (h.isCurrent_iff.mpr ⟨i, hi⟩) hcurrent
  · next hnone =>
    have hcurrent : ¬IsCurrent t.tracked path := by
      intro hcurrent
      obtain ⟨i, hi⟩ := h.isCurrent_iff.mp hcurrent
      rw [hi] at hnone
      cases hnone
    constructor
    · rintro ⟨i, hinfo, hpath⟩
      dsimp only at hinfo hpath
      rw [lookup_insert_ite] at hinfo hpath
      split at hpath
      · next hi =>
        rw [if_pos hi] at hinfo
        cases hinfo
        cases hpath
        exact .inr ⟨rfl, hcurrent, rfl⟩
      · next hi =>
        rw [if_neg hi] at hinfo
        exact .inl ⟨i, hinfo, hpath⟩
    · rintro (⟨i, hinfo, hpath⟩ | ⟨rfl, -, rfl⟩)
      · have hne : i ≠ t.drawn := Nat.ne_of_lt (h.drawn i path' hpath)
        refine ⟨i, ?_, ?_⟩
        · rw [lookup_insert_ite, if_neg hne]
          exact hinfo
        · rw [lookup_insert_ite, if_neg hne]
          exact hpath
      · exact ⟨t.drawn, by simp, by simp⟩

theorem Linked.trackMove (h : t.Linked) {path dest : AbsolutePathBuf} {i : ℕ}
    (hi : t.externalToTempName.lookup path = some i)
    (hfree : dest = path ∨ t.externalToTempName.lookup dest = none) :
    (t.trackMove path dest).Linked := by
  have hcurrent := (h.external path i).mp hi
  have hother : ∀ j path', j ≠ i → t.tempNameToCurrentPath.lookup j = some path' →
      path' ≠ dest ∧ path' ≠ path := by
    intro j path' hj hpath'
    have hne : path' ≠ path := by
      rintro rfl
      rw [(h.external path' j).mpr hpath'] at hi
      exact hj (Option.some.inj hi)
    refine ⟨?_, hne⟩
    rintro rfl
    rcases hfree with rfl | hnone
    · exact hne rfl
    · rw [(h.external path' j).mpr hpath'] at hnone
      cases hnone
  have hmove : t.trackMove path dest =
      { t with
        tempNameToCurrentPath := t.tempNameToCurrentPath.insert i dest
        externalToTempName := (t.externalToTempName.erase path).insert dest i } := by
    unfold TurnDiffTracker.trackMove
    rw [hi]
  rw [hmove]
  refine ⟨fun path' j => ?_, fun j path' hpath' => ?_, fun j info hinfo => ?_,
    fun j path' hpath' => ?_⟩
  · rw [lookup_insert_ite, lookup_insert_ite, lookup_erase_ite]
    by_cases hj : j = i
    · subst hj
      by_cases hdest : path' = dest
      · simp [hdest]
      · rw [if_neg hdest, if_pos rfl]
        constructor
        · intro hexternal
          split at hexternal
          · cases hexternal
          · next hpath =>
            have hsame := (h.external path' j).mp hexternal
            rw [hcurrent] at hsame
            exact absurd (Option.some.inj hsame).symm hpath
        · exact fun hsame => absurd (Option.some.inj hsame).symm hdest
    · rw [if_neg hj]
      constructor
      · intro hexternal
        split at hexternal
        · exact absurd (Option.some.inj hexternal).symm hj
        · split at hexternal
          · cases hexternal
          · exact (h.external path' j).mp hexternal
      · intro hpath'
        obtain ⟨hdest, hpath⟩ := hother j path' hj hpath'
        rw [if_neg hdest, if_neg hpath]
        exact (h.external path' j).mpr hpath'
  · dsimp only at hpath' ⊢
    rw [lookup_insert_ite] at hpath'
    split at hpath'
    · next hj =>
      rw [hj]
      exact h.baseline i path hcurrent
    · exact h.baseline j path' hpath'
  · dsimp only at hinfo ⊢
    rw [lookup_insert_ite]
    split
    · exact ⟨dest, rfl⟩
    · exact h.placed j info hinfo
  · dsimp only at hpath' ⊢
    rw [lookup_insert_ite] at hpath'
    split at hpath'
    · next hj =>
      rw [hj]
      exact h.drawn i path hcurrent
    · exact h.drawn j path' hpath'

theorem tracked_trackMove (h : t.Linked) {path dest : AbsolutePathBuf} {i : ℕ}
    {unifiedDiff : Text} (hi : t.externalToTempName.lookup path = some i) :
    (t.trackMove path dest).tracked =
      {x | ∃ path', (x.1, path') ∈ t.tracked ∧
        Lands [(path, .update unifiedDiff (some dest))] path' x.2} := by
  have hcurrent := (h.external path i).mp hi
  have hmoves : ∀ path' dest', MovesTo [(path, .update unifiedDiff (some dest))] path' dest' ↔
      path' = path ∧ dest' = dest := by
    intro path' dest'
    rw [movesTo_singleton]
    simp [eq_comm]
  ext ⟨info, path'⟩
  simp only [Lands, hmoves, Set.mem_ofPred_eq]
  unfold TurnDiffTracker.trackMove
  rw [hi]
  constructor
  · rintro ⟨j, hinfo, hpath'⟩
    rw [lookup_insert_ite] at hpath'
    split at hpath'
    · next hj =>
      subst hj
      cases hpath'
      exact ⟨path, ⟨j, hinfo, hcurrent⟩, .inl ⟨rfl, rfl⟩⟩
    · next hj =>
      refine ⟨path', ⟨j, hinfo, hpath'⟩, .inr ⟨fun dest' hmove => ?_, rfl⟩⟩
      rw [hmove.1] at hpath'
      rw [(h.external path j).mpr hpath'] at hi
      exact hj (Option.some.inj hi)
  · rintro ⟨source, ⟨j, hinfo, hsource⟩, ⟨rfl, rfl⟩ | ⟨hstay, rfl⟩⟩
    · have hj : j = i := by
        rw [(h.external source j).mpr hsource] at hi
        exact Option.some.inj hi
      subst hj
      exact ⟨j, hinfo, by simp⟩
    · refine ⟨j, hinfo, ?_⟩
      have hj : j ≠ i := by
        rintro rfl
        rw [hcurrent] at hsource
        exact hstay dest ⟨(Option.some.inj hsource).symm, rfl⟩
      dsimp only at hsource ⊢
      rw [lookup_insert_ite, if_neg hj]
      exact hsource

/-! ## The patch as a whole -/

theorem announce_of_stay {changes : Changes} {tracked : Tracked}
    (h : ∀ path dest, ¬MovesTo changes path dest) :
    announce blobOid disk changes tracked = seen blobOid disk changes tracked := by
  ext ⟨info, path⟩
  constructor
  · rintro ⟨source, hseen, hmove | ⟨-, hsame⟩⟩
    · exact absurd hmove (h source path)
    · dsimp only at hseen hsame
      rwa [hsame]
  · exact fun hseen => ⟨path, hseen, .inr ⟨h path, rfl⟩⟩

theorem trackChange_spec (h : t.Linked) {path : AbsolutePathBuf}
    (hfree : ∀ dest, MovesTo [(path, change)] path dest →
      dest = path ∨ ¬IsCurrent t.tracked dest) :
    (trackChange blobOid disk t (path, change)).Linked ∧
      (trackChange blobOid disk t (path, change)).tracked =
        announce blobOid disk [(path, change)] t.tracked := by
  have hlinked := @Linked.ensureTracked blobOid disk t h path
  have htracked := @tracked_ensureTracked blobOid disk t h path change
  have hstay : (∀ dest, ¬MovesTo [(path, change)] path dest) →
      (ensureTracked blobOid disk t path).tracked =
        announce blobOid disk [(path, change)] t.tracked := by
    intro hnone
    rw [htracked, announce_of_stay fun source dest hmove => ?_]
    obtain ⟨rfl, -⟩ := movesTo_singleton.mp hmove
    exact hnone dest hmove
  cases change with
  | add content | delete content =>
    exact ⟨hlinked, hstay fun dest hmove => by simpa using (movesTo_singleton.mp hmove).2⟩
  | update unifiedDiff movePath =>
    cases movePath with
    | none =>
      exact ⟨hlinked, hstay fun dest hmove => by simpa using (movesTo_singleton.mp hmove).2⟩
    | some dest =>
      obtain ⟨i, hi⟩ := @lookup_ensureTracked blobOid disk t path
      refine ⟨hlinked.trackMove hi ?_, ?_⟩
      · by_cases hself : dest = path
        · exact .inl hself
        · right
          have hcurrent :=
            (hfree dest (movesTo_singleton.mpr ⟨rfl, unifiedDiff, rfl⟩)).resolve_left hself
          rw [Option.eq_none_iff_forall_ne_some]
          intro j hj
          have hseen := hlinked.isCurrent_iff.mpr ⟨j, hj⟩
          rw [htracked, isCurrent_seen, names_singleton] at hseen
          rcases hseen with hold | hsame
          · exact hcurrent hold
          · exact hself hsame
      · have hmove := @tracked_trackMove _ hlinked path dest i unifiedDiff hi
        rw [htracked] at hmove
        exact hmove

theorem announce_append {changes : Changes} {tracked : Tracked} {path : AbsolutePathBuf}
    (hnames : ¬Names changes path) (hmoves : ∀ source, ¬MovesTo changes source path) :
    announce blobOid disk (changes ++ [(path, change)]) tracked =
      announce blobOid disk [(path, change)] (announce blobOid disk changes tracked) := by
  have hstay : Lands changes path path := .inr ⟨fun dest hmove => hnames hmove.names, rfl⟩
  have honly : ∀ source, Lands changes source path → source = path := by
    rintro source (hmove | ⟨-, hsame⟩)
    · exact absurd hmove (hmoves source)
    · exact hsame.symm
  have hcurrent : IsCurrent (announce blobOid disk changes tracked) path ↔
      IsCurrent tracked path := by
    constructor
    · rintro ⟨info, source, hseen, hlands⟩
      obtain rfl := honly source hlands
      rcases hseen with hold | ⟨hnew, -⟩
      · exact ⟨info, hold⟩
      · exact absurd hnew hnames
    · rintro ⟨info, hold⟩
      exact ⟨info, path, .inl hold, hstay⟩
  -- elsewhere the last change leaves everything where it was
  have hlast : ∀ source dest, source ≠ path →
      (Lands (changes ++ [(path, change)]) source dest ↔ Lands changes source dest) := by
    intro source dest hne
    have hmove : ∀ dest, MovesTo (changes ++ [(path, change)]) source dest ↔
        MovesTo changes source dest := by
      intro dest
      rw [movesTo_append, movesTo_singleton]
      simp [hne]
    simp only [Lands, hmove]
  have hfirst : ∀ dest, Lands (changes ++ [(path, change)]) path dest ↔
      Lands [(path, change)] path dest := by
    intro dest
    have hmove : ∀ dest, MovesTo (changes ++ [(path, change)]) path dest ↔
        MovesTo [(path, change)] path dest := by
      intro dest
      rw [movesTo_append]
      exact or_iff_right fun hmove => hnames hmove.names
    simp only [Lands, hmove]
  have haway : ∀ source, source ≠ path → Lands [(path, change)] source source := by
    intro source hne
    exact .inr ⟨fun dest hmove => hne (movesTo_singleton.mp hmove).1, rfl⟩
  ext ⟨info, dest⟩
  constructor
  · rintro ⟨source, hseen, hlands⟩
    by_cases hsource : source = path
    · subst hsource
      refine ⟨source, ?_, (hfirst dest).mp hlands⟩
      rcases hseen with hold | ⟨-, hnew, hinfo⟩
      · exact .inl ⟨source, .inl hold, hstay⟩
      · exact .inr ⟨names_singleton.mpr rfl, fun h => hnew (hcurrent.mp h), hinfo⟩
    · have hlands' := (hlast source dest hsource).mp hlands
      have hdest : dest ≠ path := by
        rintro rfl
        exact hsource (honly source hlands')
      refine ⟨dest, .inl ⟨source, ?_, hlands'⟩, haway dest hdest⟩
      rcases hseen with hold | ⟨hnew, hnot, hinfo⟩
      · exact .inl hold
      · rw [names_append, names_singleton] at hnew
        exact .inr ⟨hnew.resolve_right hsource, hnot, hinfo⟩
  · rintro ⟨middle, hmiddle, hlands⟩
    rcases hmiddle with ⟨source, hseen, hlands'⟩ | ⟨hnew, hnot, hinfo⟩
    · have hseen' : (info, source) ∈ seen blobOid disk (changes ++ [(path, change)]) tracked := by
        rcases hseen with hold | ⟨hold, hnot, hinfo⟩
        · exact .inl hold
        · exact .inr ⟨names_append.mpr (.inl hold), hnot, hinfo⟩
      by_cases hmid : middle = path
      · subst hmid
        obtain rfl := honly source hlands'
        exact ⟨source, hseen', (hfirst dest).mpr hlands⟩
      · have hsource : source ≠ path := by
          rintro rfl
          rcases hlands' with hmove | ⟨-, hsame⟩
          · exact hnames hmove.names
          · exact hmid hsame
        rcases hlands with hmove | ⟨-, rfl⟩
        · exact absurd (movesTo_singleton.mp hmove).1 hmid
        · exact ⟨source, hseen', (hlast source dest hsource).mpr hlands'⟩
    · obtain rfl := names_singleton.mp hnew
      refine ⟨middle, .inr ⟨names_append.mpr (.inr hnew), ?_, hinfo⟩, (hfirst dest).mpr hlands⟩
      exact fun hold => hnot (hcurrent.mpr hold)

theorem onPatchBegin_spec (h : t.Linked) {changes : Changes}
    (hnodup : (changes.map Prod.fst).Nodup) (hclear : MovesClear disk t.tracked changes) :
    (onPatchBegin blobOid disk t changes).Linked ∧
      (onPatchBegin blobOid disk t changes).tracked = announce blobOid disk changes t.tracked := by
  induction changes using List.reverseRecOn with
  | nil =>
    refine ⟨h, ?_⟩
    rw [announce_of_stay fun _ _ hmove => by simp [MovesTo] at hmove]
    ext x
    simp [seen, Names, onPatchBegin]
  | append_singleton changes change ih =>
    obtain ⟨path, change⟩ := change
    rw [map_append, map_singleton, nodup_append] at hnodup
    have hnames : ¬Names changes path := by
      rintro ⟨change', hmem⟩
      exact hnodup.2.2 path (mem_map.mpr ⟨_, hmem, rfl⟩) path (mem_singleton.mpr rfl) rfl
    have hmoves : ∀ source, ¬MovesTo changes source path := by
      intro source hmove
      have hne : path ≠ source := by
        rintro rfl
        exact hnames hmove.names
      refine (hclear source path (movesTo_append.mpr (.inl hmove)) hne).1 ?_
      exact names_append.mpr (.inr (names_singleton.mpr rfl))
    have hearlier : MovesClear disk t.tracked changes := by
      intro source dest hmove hne
      obtain ⟨hnot, hdisk, hcurrent, hunique⟩ :=
        hclear source dest (movesTo_append.mpr (.inl hmove)) hne
      exact ⟨fun hnamed => hnot (names_append.mpr (.inl hnamed)), hdisk, hcurrent,
        fun source' hmove' => hunique source' (movesTo_append.mpr (.inl hmove'))⟩
    obtain ⟨hlinked, htracked⟩ := ih hnodup.1 hearlier
    have hfold : onPatchBegin blobOid disk t (changes ++ [(path, change)]) =
        trackChange blobOid disk (onPatchBegin blobOid disk t changes) (path, change) := by
      unfold onPatchBegin
      rw [foldl_append]
      rfl
    rw [hfold, announce_append hnames hmoves, ← htracked]
    apply trackChange_spec hlinked
    intro dest hmove
    by_cases hself : dest = path
    · exact .inl hself
    · right
      obtain ⟨hnot, -, hcurrent, hunique⟩ :=
        hclear path dest (movesTo_append.mpr (.inr hmove)) hself
      rw [htracked]
      rintro ⟨info, source, hseen, hmove' | ⟨-, hsame⟩⟩
      · have hsource := hunique source (movesTo_append.mpr (.inl hmove'))
        subst hsource
        exact hnames hmove'.names
      · subst hsame
        rcases hseen with hold | ⟨hnew, -⟩
        · exact hcurrent ⟨info, hold⟩
        · exact hnot (names_append.mpr (.inl hnew))

end TurnDiffTracker

/-! ## A whole turn -/

theorem names_perm (h : changes.Perm changes') : Names changes = Names changes' := by
  funext path
  exact propext (exists_congr fun _ => h.mem_iff)

theorem movesTo_perm (h : changes.Perm changes') : MovesTo changes = MovesTo changes' := by
  funext path dest
  exact propext (exists_congr fun _ => h.mem_iff)

namespace TurnState

variable {blobOid : AbsolutePathBuf → DiskFile → Text}
  {patched : Text → List UInt8 → List UInt8} {s : TurnState} {before : Disk}

def Clear (s : TurnState) (e : PatchEvent) : Prop :=
  MovesClear s.disk s.tracker.tracked e.changes

theorem step_spec (h : s.tracker.Linked) {e : PatchEvent} (hclear : s.Clear e) :
    (step blobOid patched s e).tracker.Linked ∧
      (step blobOid patched s e).tracker.tracked =
        announce blobOid s.disk e.changes s.tracker.tracked := by
  have hnodup : (e.visited.map Prod.fst).Nodup := (e.perm.map Prod.fst).nodup_iff.mpr e.nodup
  have hvisited : MovesClear s.disk s.tracker.tracked e.visited := by
    unfold MovesClear
    rw [movesTo_perm e.perm, names_perm e.perm]
    exact hclear
  have hspec := @onPatchBegin_spec blobOid s.disk s.tracker h e.visited hnodup hvisited
  refine ⟨hspec.1, hspec.2.trans ?_⟩
  unfold announce seen Lands
  rw [movesTo_perm e.perm, names_perm e.perm]

theorem run_snoc_eq (events : List PatchEvent) (e : PatchEvent) :
    run blobOid patched before (events ++ [e]) =
      step blobOid patched (run blobOid patched before events) e := by
  unfold run
  rw [foldl_append]
  rfl

def AllClear (blobOid : AbsolutePathBuf → DiskFile → Text)
    (patched : Text → List UInt8 → List UInt8) (before : Disk) (events : List PatchEvent) : Prop :=
  ∀ earlier e, earlier ++ [e] <+: events → (run blobOid patched before earlier).Clear e

variable {events : List PatchEvent}

theorem AllClear.earlier {e : PatchEvent} (h : AllClear blobOid patched before (events ++ [e])) :
    AllClear blobOid patched before events :=
  fun earlier e' hpre => h earlier e' (hpre.trans (prefix_append events [e]))

theorem run_linked (h : AllClear blobOid patched before events) :
    (run blobOid patched before events).tracker.Linked := by
  induction events using List.reverseRecOn with
  | nil => exact linked_new
  | append_singleton events e ih =>
    rw [run_snoc_eq]
    exact (step_spec (ih h.earlier) (h events e (prefix_refl _))).1

theorem run_sound (h : AllClear blobOid patched before events) :
    Sound blobOid before (run blobOid patched before events).disk
      (run blobOid patched before events).tracker.tracked
      {path | ∃ e ∈ events, Touches e.changes path} := by
  induction events using List.reverseRecOn with
  | nil =>
    have hnone : {path | ∃ e ∈ ([] : List PatchEvent), Touches e.changes path} = ∅ := by
      simp
    rw [hnone]
    have htracked : (run blobOid patched before []).tracker.tracked = ∅ := tracked_new
    rw [htracked]
    exact sound_new before
  | append_singleton events e ih =>
    have hclear := h events e (prefix_refl _)
    have htouched : {path | ∃ e' ∈ events ++ [e], Touches e'.changes path} =
        {path | ∃ e' ∈ events, Touches e'.changes path} ∪ {path | Touches e.changes path} := by
      ext path
      simp [or_and_right, exists_or]
    rw [run_snoc_eq, (step_spec (run_linked h.earlier) hclear).2, htouched]
    apply (ih h.earlier).announce hclear e.nodup
    · exact fun path hpath => applyPatch_frame hpath
    · intro path dest hmove hne
      refine applyPatch_moved e.nodup hmove fun source hsource => ?_
      by_cases hself : path = source
      · rw [← hself] at hsource
        exact hne (hmove.unique e.nodup hsource)
      · exact (hclear source path hsource hself).1 hmove.names

theorem run_order {events events' : List PatchEvent}
    (hsame : events'.map PatchEvent.changes = events.map PatchEvent.changes)
    (h : AllClear blobOid patched before events) :
    (run blobOid patched before events').disk = (run blobOid patched before events).disk ∧
      (run blobOid patched before events').tracker.Linked ∧
        (run blobOid patched before events').tracker.tracked =
          (run blobOid patched before events).tracker.tracked := by
  induction events using List.reverseRecOn generalizing events' with
  | nil =>
    obtain rfl := map_eq_nil_iff.mp hsame
    exact ⟨rfl, linked_new, rfl⟩
  | append_singleton events e ih =>
    rw [map_append, map_singleton] at hsame
    obtain ⟨earlier, last, rfl, hearlier, hlast⟩ := map_eq_append_iff.mp hsame
    obtain ⟨e', rfl, hchanges⟩ := map_eq_singleton_iff.mp hlast
    obtain ⟨hdisk, hlinked, htracked⟩ := ih hearlier h.earlier
    have hclear := h events e (prefix_refl _)
    have hclear' : (run blobOid patched before earlier).Clear e' := by
      unfold Clear
      rw [hdisk, htracked, hchanges]
      exact hclear
    obtain ⟨hlinked', htracked'⟩ := step_spec hlinked hclear'
    rw [run_snoc_eq, run_snoc_eq]
    refine ⟨?_, hlinked', ?_⟩
    · unfold step
      rw [hdisk, hchanges]
    · rw [htracked', (step_spec (run_linked h.earlier) hclear).2, hdisk, htracked, hchanges]

theorem baselines_complete {events : List PatchEvent}
    (h : AllClear blobOid patched before events) :
    (∀ events', events'.map PatchEvent.changes = events.map PatchEvent.changes →
      (run blobOid patched before events').tracker.tracked =
        (run blobOid patched before events).tracker.tracked) ∧
    (∀ path file, before path = some file → (∃ e ∈ events, Touches e.changes path) →
      ∃! i, (run blobOid patched before events).tracker.baselineFileInfo.lookup i =
        some (presentInfo blobOid path file)) ∧
    ∀ i j path,
      (run blobOid patched before events).tracker.tempNameToCurrentPath.lookup i = some path →
        (run blobOid patched before events).tracker.tempNameToCurrentPath.lookup j = some path →
          i = j := by
  have hlinked := run_linked h
  have honly : ∀ i j path,
      (run blobOid patched before events).tracker.tempNameToCurrentPath.lookup i = some path →
        (run blobOid patched before events).tracker.tempNameToCurrentPath.lookup j = some path →
          i = j := by
    intro i j path hi hj
    have hexternal := (hlinked.external path i).mpr hi
    rw [(hlinked.external path j).mpr hj] at hexternal
    exact (Option.some.inj hexternal).symm
  refine ⟨fun events' hsame => (run_order hsame h).2.2, fun path file hfile htouched => ?_, honly⟩
  obtain ⟨x, ⟨⟨i, hinfo, hcurrent⟩, hx⟩, hunique⟩ :=
    (run_sound h).baseline path htouched file hfile
  rw [hx] at hinfo
  refine ⟨i, hinfo, fun j hj => ?_⟩
  obtain ⟨path', hpath'⟩ := hlinked.placed j _ hj
  have hsame := hunique (presentInfo blobOid path file, path') ⟨⟨j, hj, hpath'⟩, rfl⟩
  rw [← hsame] at hcurrent
  exact honly j i path' hpath' hcurrent

def pathA : AbsolutePathBuf := ⟨["a".toList], by decide⟩

def pathB : AbsolutePathBuf := ⟨["b".toList], by decide⟩

def pathC : AbsolutePathBuf := ⟨["c".toList], by decide⟩

def twoFiles : Disk := fun path =>
  if path = pathA then some ⟨[65], .regular⟩
  else if path = pathB then some ⟨[66], .regular⟩ else none

def moveAway : PatchEvent :=
  ⟨[(pathA, .update [] (some pathC))], [(pathA, .update [] (some pathC))], by decide, .refl _⟩

theorem baselines_complete_moveAway :
    ∃! i, (run (fun _ _ => []) (fun _ content => content) twoFiles
      [moveAway]).tracker.baselineFileInfo.lookup i =
        some (presentInfo (fun _ _ => []) pathA ⟨[65], .regular⟩) := by
  have hclear : AllClear (fun _ _ => []) (fun _ content => content) twoFiles [moveAway] := by
    intro earlier e hpre path dest hmove hne
    obtain ⟨rfl, rfl⟩ : earlier = [] ∧ e = moveAway := by
      cases earlier with
      | nil =>
        obtain ⟨rest, hrest⟩ := hpre
        cases hrest
        exact ⟨rfl, rfl⟩
      | cons first earlier =>
        have hlen := hpre.length_le
        simp at hlen
    obtain ⟨rfl, _, hchange⟩ := movesTo_singleton.mp hmove
    cases hchange
    refine ⟨fun hnames => hne (names_singleton.mp hnames), by decide, ?_, fun path' hmove' => ?_⟩
    · have hnone : (run (fun _ _ => []) (fun _ content => content) twoFiles []).tracker.tracked =
          ∅ := tracked_new
      rw [hnone]
      rintro ⟨info, hmem⟩
      exact Set.notMem_empty _ hmem
    · exact (movesTo_singleton.mp hmove').1
  refine (baselines_complete hclear).2.1 pathA ⟨[65], .regular⟩ (by decide) ?_
  exact ⟨moveAway, mem_singleton.mpr rfl, .inl ⟨_, mem_singleton.mpr rfl⟩⟩

/-- A file is moved onto another that the same patch changes, visited in either order. -/
def moveOnto : Changes := [(pathA, .update [] (some pathB)), (pathB, .update [] none)]

def sourceFirst : PatchEvent := ⟨moveOnto, moveOnto, by decide, .refl _⟩

def destFirst : PatchEvent := ⟨moveOnto, moveOnto.reverse, by decide, reverse_perm _⟩

theorem moved_onto_loses_baseline :
    (∀ i, (run (fun _ _ => []) (fun _ content => content) twoFiles
        [sourceFirst]).tracker.baselineFileInfo.lookup i ≠
          some (presentInfo (fun _ _ => []) pathB ⟨[66], .regular⟩)) ∧
      (run (fun _ _ => []) (fun _ content => content) twoFiles
          [destFirst]).tracker.baselineFileInfo.lookup 0 =
        some (presentInfo (fun _ _ => []) pathB ⟨[66], .regular⟩) ∧
      ∀ i ∈ [0, 1], (run (fun _ _ => []) (fun _ content => content) twoFiles
        [destFirst]).tracker.tempNameToCurrentPath.lookup i = some pathB := by
  refine ⟨fun i hi => ?_, by decide +kernel, by decide +kernel⟩
  have hbaseline : (run (fun _ _ => []) (fun _ content => content) twoFiles
      [sourceFirst]).tracker.baselineFileInfo =
        (∅ : Table ℕ BaselineFileInfo).insert 0
          (presentInfo (fun _ _ => []) pathA ⟨[65], .regular⟩) := by rfl
  rw [hbaseline, lookup_insert_ite] at hi
  split at hi
  · revert hi
    decide
  · cases hi

end TurnState

end Codex.TurnDiff
