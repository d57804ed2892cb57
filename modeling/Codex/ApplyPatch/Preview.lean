import Codex.ApplyPatch.Invocation

/-!
# When the preview of a patch is its effect

The preview computes every hunk against the file system as it was and keys the
changes by source path; the hunks are then applied one after another. The two
agree when no hunk meets what another one did to the same path in a way the
preview cannot see (`PreviewSafe`); `preview_eq_effect` is by induction over the
hunks, with the changes previewed so far describing the files written so far.
-/

namespace Codex

open Foundation Function

def ApplyPatchFileChange.movePath : ApplyPatchFileChange → Option AbsolutePathBuf
  | .update _ movePath _ => movePath
  | _ => none

def ChangeHolds (G : FileMap) (p : AbsolutePathBuf) : ApplyPatchFileChange → Prop
  | .add content => G p = some content
  | .delete _ => G p = none
  | .update _ none newContent => G p = some newContent
  | .update _ (some dest) newContent => G dest = some newContent ∧ G p = none

structure Described (changes : ChangeMap) (F G : FileMap) : Prop where
  holds : ∀ p change, changes p = some change → ChangeHolds G p change
  frame : ∀ q, changes q = none → (∀ p change, changes p = some change → change.movePath ≠ some q) →
    G q = F q

section
variable (homeDir : Option Text) (cwd : AbsolutePathBuf)

def PreviewIsEffect (hunks : List Hunk) (changes : ChangeMap) (F : FileMap) : Prop :=
  ∃ affected G,
    applyHunksToFiles mapFileSystem.toExecutorFileSystem homeDir cwd hunks F = (.ok affected, G) ∧
      Described changes F G

/-! ## Hunks that do not interfere -/

def Hunk.target : Hunk → Option AbsolutePathBuf
  | .updateFile _ movePath _ => movePath.map (cwd.join homeDir)
  | _ => none

def Hunk.Touches (hunk : Hunk) (q : AbsolutePathBuf) : Prop :=
  hunk.resolvePath homeDir cwd = q ∨ hunk.target homeDir cwd = some q

instance (hunk : Hunk) (q : AbsolutePathBuf) : Decidable (hunk.Touches homeDir cwd q) :=
  inferInstanceAs (Decidable (_ ∨ _))

def Hunk.isUpdate : Hunk → Bool
  | .updateFile _ _ _ => true
  | _ => false

def Hunk.isDelete : Hunk → Bool
  | .deleteFile _ => true
  | _ => false

/-- A hunk and a later one: an update reads a file that the earlier hunk left
alone, nothing else happens to a move's destination, and a move's source is not
named again. -/
structure Separate (earlier later : Hunk) : Prop where
  reads : later.isUpdate = true → ¬ earlier.Touches homeDir cwd (later.resolvePath homeDir cwd)
  target_earlier : ∀ d, earlier.target homeDir cwd = some d → ¬ later.Touches homeDir cwd d
  target_later : ∀ d, later.target homeDir cwd = some d → ¬ earlier.Touches homeDir cwd d
  moved : earlier.target homeDir cwd ≠ none →
    later.resolvePath homeDir cwd ≠ earlier.resolvePath homeDir cwd

def lastFor (hunks : List Hunk) (q : AbsolutePathBuf) : Option Hunk :=
  (hunks.filter fun h => h.resolvePath homeDir cwd = q).getLast?

structure PreviewSafe (hunks : List Hunk) : Prop where
  nonempty : hunks ≠ []
  separate : hunks.Pairwise (Separate homeDir cwd)
  moves : ∀ h ∈ hunks, h.target homeDir cwd ≠ some (h.resolvePath homeDir cwd)
  deletes : ∀ before h after, hunks = before ++ h :: after → h.isDelete = true →
    ∀ e, lastFor homeDir cwd before (h.resolvePath homeDir cwd) = some e → e.isDelete = false

theorem lastFor_concat (hunks : List Hunk) (h : Hunk) (q : AbsolutePathBuf) :
    lastFor homeDir cwd (hunks ++ [h]) q =
      if h.resolvePath homeDir cwd = q then some h else lastFor homeDir cwd hunks q := by
  unfold lastFor
  by_cases hq : h.resolvePath homeDir cwd = q
  · simp [hq]
  · simp [hq]

theorem lastFor_some {hunks : List Hunk} {q : AbsolutePathBuf} {h : Hunk}
    (hl : lastFor homeDir cwd hunks q = some h) : h ∈ hunks ∧ h.resolvePath homeDir cwd = q := by
  have hm := List.mem_of_getLast? hl
  simpa using hm

/-! ## One hunk -/

def ChangeOf (h : Hunk) (change : ApplyPatchFileChange) : Prop :=
  change.movePath = h.target homeDir cwd ∧
    ((∃ content, change = .delete content) → h.isDelete = true)

structure Agrees (F : FileMap) (done : List Hunk) (changes : ChangeMap) (G : FileMap) : Prop where
  described : Described changes F G
  keyed : ∀ p change, changes p = some change →
    ∃ h, lastFor homeDir cwd done p = some h ∧ ChangeOf homeDir cwd h change

variable {homeDir cwd} in
theorem Agrees.untouched {F G : FileMap} {done : List Hunk} {changes : ChangeMap}
    (h : Agrees homeDir cwd F done changes G) {q : AbsolutePathBuf}
    (hq : ∀ e ∈ done, ¬ e.Touches homeDir cwd q) :
    changes q = none ∧ (∀ p change, changes p = some change → change.movePath ≠ some q) ∧
      G q = F q := by
  have hkey : changes q = none := by
    cases hc : changes q with
    | none => rfl
    | some change =>
      obtain ⟨e, he, -⟩ := h.keyed q change hc
      obtain ⟨hm, hr⟩ := lastFor_some homeDir cwd he
      exact absurd (.inl hr) (hq e hm)
  have hdest : ∀ p change, changes p = some change → change.movePath ≠ some q := by
    intro p change hc hmove
    obtain ⟨e, he, hof⟩ := h.keyed p change hc
    obtain ⟨hm, -⟩ := lastFor_some homeDir cwd he
    exact hq e hm (.inr (by rw [← hof.1, hmove]))
  exact ⟨hkey, hdest, h.described.frame q hkey hdest⟩

theorem ChangeHolds.congr {G G' : FileMap} {p : AbsolutePathBuf} {change : ApplyPatchFileChange}
    (h : ChangeHolds G p change) (hp : G' p = G p)
    (hd : ∀ d, change.movePath = some d → G' d = G d) : ChangeHolds G' p change := by
  cases change with
  | add content | delete content => exact hp.trans h
  | update diff movePath newContent =>
    cases movePath with
    | none => exact hp.trans h
    | some d => exact ⟨(hd d rfl).trans h.1, hp.trans h.2⟩

theorem Described.insert {changes : ChangeMap} {F G G' : FileMap} {p : AbsolutePathBuf}
    {change : ApplyPatchFileChange} (h : Described changes F G) (hnew : ChangeHolds G' p change)
    (hsame : ∀ q, q ≠ p → change.movePath ≠ some q → G' q = G q)
    (hkeys : ∀ k c, k ≠ p → changes k = some c →
      change.movePath ≠ some k ∧ ∀ d, c.movePath = some d → d ≠ p ∧ change.movePath ≠ some d)
    (hold : ∀ c, changes p = some c → c.movePath = none) :
    Described (changes.insert p change) F G' := by
  constructor
  · intro k c hc
    by_cases hk : k = p
    · subst hk
      rw [ChangeMap.insert, update_self, Option.some.injEq] at hc
      rw [← hc]
      exact hnew
    · rw [ChangeMap.insert, update_of_ne hk] at hc
      obtain ⟨h1, h2⟩ := hkeys k c hk hc
      refine (h.holds k c hc).congr (hsame k hk h1) ?_
      intro d hd
      exact hsame d (h2 d hd).1 (h2 d hd).2
  · intro q hq hdest
    have hqp : q ≠ p := by
      rintro rfl
      simp [ChangeMap.insert] at hq
    have hp := hdest p change (by simp [ChangeMap.insert])
    rw [ChangeMap.insert, update_of_ne hqp] at hq
    rw [hsame q hqp hp]
    refine h.frame q hq ?_
    intro k c hc
    by_cases hk : k = p
    · subst hk
      rw [hold c hc]
      simp
    · exact hdest k c (by rw [ChangeMap.insert, update_of_ne hk, hc])

/-! ## The map file system -/

section
variable {G : FileMap} {p : AbsolutePathBuf} {t : Text}

theorem map_writeRetry (contents : Text) :
    writeFileWithMissingParentRetry mapFileSystem.toExecutorFileSystem p contents G =
      (.ok (), Function.update G p (some contents)) := rfl

theorem map_removeFile (h : G p = some t) :
    removeFile mapFileSystem.toExecutorFileSystem p G = (.ok (), Function.update G p none) := by
  refine Eff.bind_eq_ok.mpr ⟨⟨false⟩, G, map_metadata G p h, ?_⟩
  simpa using map_remove G p h

theorem map_derive {chunks : List UpdateFileChunk} {patch : AppliedPatch} (h : G p = some t)
    (hd : deriveFromText t p chunks = .ok patch) :
    deriveNewContentsFromChunks mapFileSystem.toExecutorFileSystem p chunks G = (.ok patch, G) := by
  refine Eff.bind_eq_ok.mpr ⟨t, G, Eff.mapError_eq_ok.mpr (map_read G p h), ?_⟩
  simp [hd]

end

variable {unifiedDiff : UnifiedDiff} {F F' : FileMap} {change : ApplyPatchFileChange}

theorem previewHunk_delete {path : PathBuf}
    (h : previewHunk mapFileSystem.toExecutorFileSystem homeDir unifiedDiff cwd
      (.deleteFile path) F = (.ok change, F')) :
    F' = F ∧ ∃ t, F (resolvePathAgainstBase homeDir path cwd) = some t ∧ change = .delete t := by
  obtain ⟨t, F₁, h1, h2⟩ := Eff.bind_eq_ok.mp h
  obtain ⟨rfl, ht⟩ := mapFileSystem.read_ok (Eff.mapError_eq_ok.mp h1)
  obtain ⟨hc, rfl⟩ := Prod.mk.inj h2
  exact ⟨rfl, t, ht, (Except.ok.inj hc).symm⟩

theorem previewHunk_update {path : PathBuf} {movePath : Option PathBuf}
    {chunks : List UpdateFileChunk}
    (h : previewHunk mapFileSystem.toExecutorFileSystem homeDir unifiedDiff cwd
      (.updateFile path movePath chunks) F = (.ok change, F')) :
    F' = F ∧ ∃ t patch diff, F (resolvePathAgainstBase homeDir path cwd) = some t ∧
      deriveFromText t (resolvePathAgainstBase homeDir path cwd) chunks = .ok patch ∧
      change = .update diff (movePath.map (cwd.join homeDir)) patch.newContents := by
  obtain ⟨u, F₁, h1, h2⟩ := Eff.bind_eq_ok.mp h
  obtain ⟨patch, F₂, h3, h4⟩ := Eff.bind_eq_ok.mp h1
  obtain ⟨rfl, t, ht, hd⟩ := deriveNewContentsFromChunks_ok mapFileSystem h3
  obtain ⟨hu, rfl⟩ := Prod.mk.inj h4
  cases hu
  obtain ⟨hc, rfl⟩ := Prod.mk.inj h2
  exact ⟨rfl, t, patch, _, ht, hd, (Except.ok.inj hc).symm⟩

theorem applyHunk_agrees {G : FileMap} {done : List Hunk} {changes : ChangeMap} {h : Hunk}
    (hag : Agrees homeDir cwd F done changes G)
    (hprev : previewHunk mapFileSystem.toExecutorFileSystem homeDir unifiedDiff cwd h F =
      (.ok change, F')) (hsep : ∀ e ∈ done, Separate homeDir cwd e h)
    (hmove : h.target homeDir cwd ≠ some (h.resolvePath homeDir cwd))
    (hdel : h.isDelete = true → ∀ e,
      lastFor homeDir cwd done (h.resolvePath homeDir cwd) = some e → e.isDelete = false)
    (affected : AffectedPaths) : F' = F ∧ ∃ affected' G',
      applyHunk mapFileSystem.toExecutorFileSystem homeDir cwd affected h G = (.ok affected', G') ∧
        Agrees homeDir cwd F (done ++ [h])
          (changes.insert (h.resolvePath homeDir cwd) change) G' := by
  have hold : ∀ c, changes (h.resolvePath homeDir cwd) = some c → c.movePath = none := by
    intro c hc
    obtain ⟨e, he, hof⟩ := hag.keyed _ c hc
    obtain ⟨hm, hr⟩ := lastFor_some homeDir cwd he
    by_contra hne
    exact (hsep e hm).moved (by rw [← hof.1]; exact hne) hr.symm
  have hagree : ∀ G', ChangeOf homeDir cwd h change →
      ChangeHolds G' (h.resolvePath homeDir cwd) change →
      (∀ q, q ≠ h.resolvePath homeDir cwd → change.movePath ≠ some q → G' q = G q) →
      Agrees homeDir cwd F (done ++ [h])
        (changes.insert (h.resolvePath homeDir cwd) change) G' := by
    intro G' hof hnew hsame
    constructor
    · refine hag.described.insert hnew hsame ?_ hold
      intro k c hk hc
      obtain ⟨e, he, hofe⟩ := hag.keyed k c hc
      obtain ⟨hm, hr⟩ := lastFor_some homeDir cwd he
      constructor
      · intro ht
        rw [hof.1] at ht
        exact (hsep e hm).target_later k ht (.inl hr)
      · intro d hd
        rw [hofe.1] at hd
        have hno := (hsep e hm).target_earlier d hd
        exact ⟨fun e' => hno (.inl e'.symm), fun e' => hno (.inr (by rw [← hof.1]; exact e'))⟩
    · intro k c hc
      rw [lastFor_concat]
      by_cases hk : h.resolvePath homeDir cwd = k
      · rw [ChangeMap.insert, ← hk, update_self, Option.some.injEq] at hc
        exact ⟨h, by rw [if_pos hk], by rw [← hc]; exact hof⟩
      · rw [ChangeMap.insert, update_of_ne (Ne.symm hk)] at hc
        rw [if_neg hk]
        exact hag.keyed k c hc
  have huntouched : h.isUpdate = true →
      G (h.resolvePath homeDir cwd) = F (h.resolvePath homeDir cwd) := by
    intro hu
    exact (hag.untouched fun e he => (hsep e he).reads hu).2.2
  cases h with
  | addFile path contents =>
    obtain ⟨hc, rfl⟩ := Prod.mk.inj hprev
    cases hc
    refine ⟨rfl, _, _, rfl, hagree _ ⟨rfl, ?_⟩ ?_ ?_⟩
    · rintro ⟨content, e⟩
      simp at e
    · exact update_self _ _ _
    · intro q hq _
      exact update_of_ne hq _ _
  | deleteFile path =>
    obtain ⟨rfl, t, ht, rfl⟩ := previewHunk_delete homeDir cwd hprev
    have hpresent : ∃ u, G (resolvePathAgainstBase homeDir path cwd) = some u := by
      cases hc : changes (resolvePathAgainstBase homeDir path cwd) with
      | some c =>
        obtain ⟨e, he, hof⟩ := hag.keyed _ c hc
        have hholds := hag.described.holds _ c hc
        have hnd := hdel rfl e he
        have hnm := hold c hc
        cases c with
        | add content => exact ⟨content, hholds⟩
        | delete content => exact absurd (hof.2 ⟨content, rfl⟩) (by simp [hnd])
        | update diff movePath newContent =>
          obtain rfl : movePath = none := hnm
          exact ⟨newContent, hholds⟩
      | none =>
        refine ⟨t, (hag.described.frame _ hc ?_).trans ht⟩
        intro k c hk hmv
        obtain ⟨e, he, hof⟩ := hag.keyed k c hk
        obtain ⟨hm, -⟩ := lastFor_some homeDir cwd he
        exact (hsep e hm).target_earlier _ (hof.1.symm.trans hmv) (.inl rfl)
    obtain ⟨u, hu⟩ := hpresent
    refine ⟨rfl, _, _, Eff.bind_eq_ok.mpr
      ⟨(), _, Eff.mapError_eq_ok.mpr (map_removeFile hu), rfl⟩, hagree _ ⟨rfl, fun _ => rfl⟩ ?_ ?_⟩
    · exact update_self _ _ _
    · intro q hq _
      exact update_of_ne hq _ _
  | updateFile path movePath chunks =>
    obtain ⟨rfl, t, patch, diff, ht, hd, rfl⟩ := previewHunk_update homeDir cwd hprev
    have hG := (huntouched rfl).trans ht
    have hderive := Eff.mapError_eq_ok (f := ApplyFailure.derive).mpr (map_derive hG hd)
    cases movePath with
    | none =>
      refine ⟨rfl, _, _, Eff.bind_eq_ok.mpr ⟨patch, G, hderive, Eff.bind_eq_ok.mpr
        ⟨(), _, Eff.mapError_eq_ok.mpr (map_write G _ _), rfl⟩⟩, hagree _ ⟨rfl, ?_⟩ ?_ ?_⟩
      · rintro ⟨content, e⟩
        simp at e
      · exact update_self _ _ _
      · intro q hq _
        exact update_of_ne hq _ _
    | some dest =>
      have hne : cwd.join homeDir dest ≠ resolvePathAgainstBase homeDir path cwd := by
        intro e
        exact hmove (congrArg some e)
      have hstill : Function.update G (cwd.join homeDir dest) (some patch.newContents)
          (resolvePathAgainstBase homeDir path cwd) = some t := by
        rw [update_of_ne hne.symm]
        exact hG
      refine ⟨rfl, _, _, Eff.bind_eq_ok.mpr ⟨patch, G, hderive, Eff.bind_eq_ok.mpr
        ⟨(), _, map_writeRetry _, Eff.bind_eq_ok.mpr
          ⟨(), _, Eff.mapError_eq_ok.mpr (map_removeFile hstill), rfl⟩⟩⟩,
        hagree _ ⟨rfl, ?_⟩ ⟨?_, ?_⟩ ?_⟩
      · rintro ⟨content, e⟩
        simp at e
      · exact (update_of_ne hne _ _).trans (update_self _ _ _)
      · exact update_self _ _ _
      · intro q hq hqd
        rw [update_of_ne hq]
        refine update_of_ne ?_ _ _
        rintro rfl
        exact hqd rfl

theorem applyHunksLoop_agrees (hunks : List Hunk) {done : List Hunk} {changes changes' : ChangeMap}
    {G : FileMap} (hag : Agrees homeDir cwd F done changes G)
    (hprev : previewChanges mapFileSystem.toExecutorFileSystem homeDir unifiedDiff cwd hunks
      changes F = (.ok changes', F')) (hsep : (done ++ hunks).Pairwise (Separate homeDir cwd))
    (hmove : ∀ h ∈ hunks, h.target homeDir cwd ≠ some (h.resolvePath homeDir cwd))
    (hdel : ∀ before h after, done ++ hunks = before ++ h :: after → h.isDelete = true →
      ∀ e, lastFor homeDir cwd before (h.resolvePath homeDir cwd) = some e → e.isDelete = false)
    (affected : AffectedPaths) :
    ∃ affected' G', applyHunksLoop mapFileSystem.toExecutorFileSystem homeDir cwd hunks affected G =
        (.ok affected', G') ∧ Agrees homeDir cwd F (done ++ hunks) changes' G' := by
  induction hunks generalizing done changes G affected with
  | nil =>
    obtain ⟨hc, -⟩ := Prod.mk.inj hprev
    cases hc
    exact ⟨affected, G, rfl, by rw [List.append_nil]; exact hag⟩
  | cons h hunks ih =>
    obtain ⟨change, F₁, h1, h2⟩ := Eff.bind_eq_ok.mp hprev
    have hearlier : ∀ e ∈ done, Separate homeDir cwd e h := by
      intro e he
      exact (List.pairwise_append.mp hsep).2.2 e he h (by simp)
    obtain ⟨rfl, affected₁, G₁, happly, hag₁⟩ := applyHunk_agrees homeDir cwd hag h1 hearlier
      (hmove h (by simp)) (hdel done h hunks rfl) affected
    have hassoc : done ++ h :: hunks = (done ++ [h]) ++ hunks := by simp
    obtain ⟨affected', G', hloop, hag'⟩ := ih hag₁ h2 (by rw [← hassoc]; exact hsep)
      (fun e he => hmove e (List.mem_cons_of_mem _ he)) (by rw [← hassoc]; exact hdel) affected₁
    exact ⟨affected', G', Eff.bind_eq_ok.mpr ⟨_, _, happly, hloop⟩, by rw [hassoc]; exact hag'⟩

theorem agrees_start (F : FileMap) : Agrees homeDir cwd F [] (fun _ => none) F :=
  ⟨⟨fun _ _ h => by simp at h, fun _ _ _ => rfl⟩, fun _ _ h => by simp at h⟩

end

section
variable {homeDir : Option Text} {unifiedDiff : UnifiedDiff} {extract : HeredocExtractor}
  {argv : List Text} {cwd : AbsolutePathBuf} {F F' : FileMap} {action : ApplyPatchAction}
  {args : ApplyPatchArgs}

theorem verified_body (hargs : maybeParseApplyPatch extract argv = .body args)
    (h : maybeParseApplyPatchVerified mapFileSystem.toExecutorFileSystem homeDir unifiedDiff extract
      argv cwd F = (.body action, F')) :
    previewChanges mapFileSystem.toExecutorFileSystem homeDir unifiedDiff action.cwd args.hunks
      (fun _ => none) F = (.ok action.changes, F') := by
  unfold maybeParseApplyPatchVerified at h
  split at h
  · simp at h
  · rw [hargs] at h
    dsimp only at h
    split at h
    · rename_i changes F₁ hp
      obtain ⟨rfl, rfl⟩ := h
      exact hp
    · simp at h

/-- Where the hunks do not interfere, applying them makes the previewed changes. -/
theorem preview_eq_effect (hargs : maybeParseApplyPatch extract argv = .body args)
    (h : maybeParseApplyPatchVerified mapFileSystem.toExecutorFileSystem homeDir unifiedDiff extract
      argv cwd F = (.body action, F')) (hsafe : PreviewSafe homeDir action.cwd args.hunks) :
    PreviewIsEffect homeDir action.cwd args.hunks action.changes F := by
  obtain ⟨affected, G, hloop, hag⟩ := applyHunksLoop_agrees homeDir action.cwd args.hunks
    (agrees_start homeDir action.cwd F) (verified_body hargs h) hsafe.separate hsafe.moves
    hsafe.deletes ⟨[], [], []⟩
  refine ⟨affected, G, ?_, hag.described⟩
  rw [applyHunksToFiles, if_neg hsafe.nonempty]
  exact hloop

end

/-! ## An added file and a move -/

def noHeredoc : HeredocExtractor := fun _ => .error .commandDidNotStartWithApplyPatch

def noDiff : UnifiedDiff := fun _ _ _ => []

def twoLineFiles : FileMap := fun p => if p = fileA then some "1\n2\n".toList else none

def addAndMovePatch : Text :=
  "*** Begin Patch\n*** Add File: b\n+x\n*** Update File: a\n*** Move to: c\n@@\n-1\n+one\n*** End Patch".toList

def addAndMoveArgs : ApplyPatchArgs :=
  ⟨addAndMovePatch, [.addFile ['b'] ['x', '\n'],
    .updateFile ['a'] (some ['c']) [⟨none, [['1']], ["one".toList], false⟩]], none⟩

def addAndMoveAction : ApplyPatchAction :=
  ⟨ChangeMap.insert (ChangeMap.insert (fun _ => none) (workDir.join none ['b']) (.add ['x', '\n']))
    fileA (.update [] (some (workDir.join none ['c'])) "one\n2\n".toList), addAndMovePatch, workDir⟩

theorem addAndMove_safe : PreviewSafe none workDir addAndMoveArgs.hunks where
  nonempty := by decide
  separate := by
    refine List.pairwise_pair.mpr ⟨fun _ => by decide, ?_, ?_, by decide⟩
    · intro d hd
      exact absurd hd (by simp [Hunk.target])
    · intro d hd
      obtain rfl : workDir.join none ['c'] = d := by simpa [Hunk.target] using hd
      decide
  moves := by decide
  deletes := by
    intro before h after e hd
    have hno : ∀ h ∈ addAndMoveArgs.hunks, h.isDelete = false := by decide
    have hmem : h ∈ addAndMoveArgs.hunks := by
      rw [e]
      simp
    rw [hno h hmem] at hd
    simp at hd

theorem preview_eq_effect_addAndMove :
    PreviewIsEffect none addAndMoveAction.cwd addAndMoveArgs.hunks addAndMoveAction.changes
      twoLineFiles := by
  have hargs : maybeParseApplyPatch noHeredoc ["apply_patch".toList, addAndMovePatch] =
      .body addAndMoveArgs := by decide
  have hbody : maybeParseApplyPatchVerified mapFileSystem.toExecutorFileSystem none noDiff noHeredoc
      ["apply_patch".toList, addAndMovePatch] workDir twoLineFiles =
        (.body addAndMoveAction, twoLineFiles) := rfl
  exact preview_eq_effect hargs hbody addAndMove_safe

def twoUpdatesPatch : Text :=
  "*** Begin Patch\n*** Update File: a\n@@\n-1\n+one\n*** Update File: a\n@@\n-2\n+two\n*** End Patch".toList

def twoUpdatesArgs : ApplyPatchArgs :=
  ⟨twoUpdatesPatch, [.updateFile ['a'] none [⟨none, [['1']], ["one".toList], false⟩],
    .updateFile ['a'] none [⟨none, [['2']], ["two".toList], false⟩]], none⟩

def twoUpdatesAction : ApplyPatchAction :=
  ⟨ChangeMap.insert (ChangeMap.insert (fun _ => none) fileA (.update [] none "one\n2\n".toList))
    fileA (.update [] none "1\ntwo\n".toList), twoUpdatesPatch, workDir⟩

/-- The second update is previewed without the first one, which is applied before it. -/
theorem two_updates_differ :
    maybeParseApplyPatch noHeredoc ["apply_patch".toList, twoUpdatesPatch] =
      .body twoUpdatesArgs ∧
    maybeParseApplyPatchVerified mapFileSystem.toExecutorFileSystem none noDiff noHeredoc
      ["apply_patch".toList, twoUpdatesPatch] workDir twoLineFiles =
        (.body twoUpdatesAction, twoLineFiles) ∧
    ¬ PreviewIsEffect none twoUpdatesAction.cwd twoUpdatesArgs.hunks twoUpdatesAction.changes
      twoLineFiles := by
  refine ⟨by decide, rfl, ?_⟩
  rintro ⟨affected, G, happly, hdescribed⟩
  have hpreview := hdescribed.holds fileA (.update [] none "1\ntwo\n".toList) (by decide)
  have hG : (applyHunksToFiles mapFileSystem.toExecutorFileSystem none twoUpdatesAction.cwd
      twoUpdatesArgs.hunks twoLineFiles).2 fileA = G fileA := by
    rw [happly]
  have heffect : G fileA = some "one\ntwo\n".toList := by
    rw [← hG]
    decide
  rw [ChangeHolds, heffect] at hpreview
  exact absurd hpreview (by decide)

end Codex
