import Codex.Session.CheckpointReplay

/-!
# Settings of the last turn

A rollout of finished turns with rollback markers between them is a stack of user
turns. The settings the reverse scan finds are those of the newest turn on that
stack that recorded a turn context, and stopping early does not change them.
-/

namespace Codex

open Foundation List

/-! ## Finished turns -/

def InTurn (turnId : Text) : RolloutItem → Prop
  | .responseItem _ => True
  | .turnContext item => item.turnId = none ∨ item.turnId = some turnId
  | .eventMsg .userMessage => True
  | .eventMsg .other => True
  | .sessionMeta => True
  | _ => False

def RolloutItem.context : RolloutItem → Option TurnContextItem
  | .turnContext item => some item
  | _ => none

inductive TurnEnding where
  | complete
  | aborted
  | abortedWithoutId

def TurnEnding.event (turnId : Text) : TurnEnding → EventMsg
  | .complete => .turnComplete turnId
  | .aborted => .turnAborted (some turnId)
  | .abortedWithoutId => .turnAborted none

structure Turn where
  turnId : Text
  body : List RolloutItem
  ending : TurnEnding
  body_inTurn : ∀ item ∈ body, InTurn turnId item
  one_context : (body.filterMap (·.context)).length ≤ 1

def Turn.items (t : Turn) : List RolloutItem :=
  .eventMsg (.turnStarted t.turnId) :: (t.body ++ [.eventMsg (t.ending.event t.turnId)])

def Turn.context (t : Turn) : Option TurnContextItem := t.body.findSome? (·.context)

inductive RolloutBlock where
  | turn (t : Turn)
  | rolledBack (numTurns : Nat)

def RolloutBlock.items : RolloutBlock → List RolloutItem
  | .turn t => t.items
  | .rolledBack numTurns => [.eventMsg (.threadRolledBack numTurns)]

/-- Turns and markers; the items are a slice, so a `usize` counts them. -/
structure TurnLog where
  blocks : List RolloutBlock
  fits : (blocks.flatMap (·.items)).length < 2 ^ 64

def TurnLog.items (log : TurnLog) : List RolloutItem := log.blocks.flatMap (·.items)

section
variable (ctx : ReplayContext)

def RolloutItem.isUserTurn : RolloutItem → Bool
  | .eventMsg .userMessage => true
  | .responseItem item => isUserTurnBoundary ctx.formats item
  | _ => false

def Turn.isUserTurn (t : Turn) : Bool := t.body.any (·.isUserTurn ctx)

def RolloutBlock.ops : RolloutBlock → List (StackOp Turn)
  | .turn t => if t.isUserTurn ctx then [.push t] else []
  | .rolledBack numTurns => [.pop numTurns]

def TurnLog.survivingTurns (log : TurnLog) : List Turn :=
  stackOf (log.blocks.flatMap (·.ops ctx))

variable {s : ReverseReplay} {turnId : Text} {outer : ReverseReplay}
  {context : Option TurnContextItem} {full : List RolloutItem}

def ReverseReplay.metadata (s : ReverseReplay) :
    Option PreviousTurnSettings × TurnReferenceContextItem :=
  (s.close.previousTurnSettings, s.close.referenceContextItem)

/-! ## One turn -/

def referenceOf : Option TurnContextItem → TurnReferenceContextItem
  | some item => .latest item
  | none => .neverSet

/-- Inside a turn: outside the segment nothing has changed since `outer`, and the
segment is that of the items read. -/
structure InTurnState (turnId : Text) (outer : ReverseReplay) (user : Bool)
    (context : Option TurnContextItem) (s : ReverseReplay) : Prop where
  outside : { s with activeSegment := none } = outer
  segment : ∃ id, (id = none ∨ id = some turnId) ∧
    s.activeSegment.getD .default =
      ⟨id, user, context.map (·.previousTurnSettings), referenceOf context, none⟩

theorem InTurnState.update {user user' : Bool} {context' : Option TurnContextItem}
    (h : InTurnState turnId outer user context s) (f : ActiveReplaySegment → ActiveReplaySegment)
    (hf : ∀ id, id = none ∨ id = some turnId → ∃ id', (id' = none ∨ id' = some turnId) ∧
      f ⟨id, user, context.map (·.previousTurnSettings), referenceOf context, none⟩ =
        ⟨id', user', context'.map (·.previousTurnSettings), referenceOf context', none⟩) :
    InTurnState turnId outer user' context' (s.updateSegment f) := by
  obtain ⟨id, hid, hseg⟩ := h.segment
  obtain ⟨id', hid', hf'⟩ := hf id hid
  refine ⟨h.outside, id', hid', ?_⟩
  rw [← hf', ← hseg]
  rfl

theorem noteTurnId_inTurn {itemId id : Option Text} (hitem : itemId = none ∨ itemId = some turnId)
    (hid : id = none ∨ id = some turnId) : id.or itemId = none ∨ id.or itemId = some turnId := by
  rcases hid with rfl | rfl
  · exact hitem
  · exact .inr rfl

theorem inTurn_compatible {itemId id : Option Text} (hitem : itemId = none ∨ itemId = some turnId)
    (hid : id = none ∨ id = some turnId) : turnIdsAreCompatible id itemId = true := by
  rcases hid with rfl | rfl
  · rfl
  · rcases hitem with rfl | rfl
    · rfl
    · simp [turnIdsAreCompatible]

theorem inTurn_ending (turnId : Text) (ending : TurnEnding) (newer : List RolloutItem)
    (h : outer.activeSegment = none) : InTurnState turnId outer false none
      (reverseStep ctx newer (.eventMsg (ending.event turnId)) outer) := by
  have hstart : InTurnState turnId outer false none outer := by
    refine ⟨?_, none, .inl rfl, by rw [h]; rfl⟩
    rw [← h]
  have hid : InTurnState turnId outer false none
      (outer.updateSegment (·.noteTurnId (some turnId))) :=
    hstart.update _ fun id hid => ⟨_, noteTurnId_inTurn (.inr rfl) hid, rfl⟩
  cases ending with
  | complete => exact hid
  | aborted =>
    simp only [TurnEnding.event, reverseStep, h]
    exact hid
  | abortedWithoutId =>
    simp only [TurnEnding.event, reverseStep, h]
    exact hstart

theorem inTurn_item {user : Bool} (h : InTurnState turnId outer user context s)
    (newer : List RolloutItem) {item : RolloutItem} (hitem : InTurn turnId item)
    (hone : item.context.isSome → context = none) :
    InTurnState turnId outer (item.isUserTurn ctx || user) (item.context.or context)
      (reverseStep ctx newer item s) := by
  cases item with
  | sessionMeta => exact h
  | compacted compacted => exact absurd hitem (fun hf => hf)
  | responseItem item =>
    refine h.update (fun seg => { seg with
      countsAsUserTurn := seg.countsAsUserTurn || isUserTurnBoundary ctx.formats item })
      fun id hid => ⟨id, hid, ?_⟩
    simp [RolloutItem.isUserTurn, RolloutItem.context, Bool.or_comm]
  | turnContext item =>
    have hnone : context = none := hone rfl
    subst hnone
    refine h.update _ fun id hid => ⟨id.or item.turnId, noteTurnId_inTurn hitem hid, ?_⟩
    have hcompat := inTurn_compatible hitem (noteTurnId_inTurn hitem hid)
    simp only [ActiveReplaySegment.noteTurnContext, ActiveReplaySegment.noteTurnId, hcompat, if_true]
    rfl
  | eventMsg event =>
    cases event with
    | userMessage =>
      exact h.update (fun seg => { seg with countsAsUserTurn := true }) fun id hid => ⟨id, hid, rfl⟩
    | other => exact h
    | threadRolledBack n | turnStarted id | turnComplete id
    | turnAborted id => exact absurd hitem (fun hf => hf)

theorem inTurn_body (body tail : List RolloutItem) (hbody : ∀ item ∈ body, InTurn turnId item)
    (hone : (body.filterMap (·.context)).length ≤ 1)
    (h : InTurnState turnId outer false none (backward (reverseStep ctx) (.start full) tail)) :
    InTurnState turnId outer (body.any (·.isUserTurn ctx)) (body.findSome? (·.context))
      (backward (reverseStep ctx) (.start full) (body ++ tail)) := by
  induction body with
  | nil => exact h
  | cons item body ih =>
    have hrest : (body.filterMap (·.context)).length ≤ 1 := by
      rw [filterMap_cons] at hone
      cases hc : item.context with
      | none => simpa [hc] using hone
      | some c =>
        simp only [hc, length_cons] at hone
        omega
    have hs := ih (fun i hi => hbody i (mem_cons_of_mem _ hi)) hrest
    have hnone : item.context.isSome → body.findSome? (·.context) = none := by
      intro hsome
      obtain ⟨c, hc⟩ := Option.isSome_iff_exists.mp hsome
      rw [filterMap_cons] at hone
      simp only [hc, length_cons] at hone
      have hempty : body.filterMap (·.context) = [] := length_eq_zero_iff.mp (by omega)
      rw [← List.head?_filterMap, hempty]
      rfl
    have hstep := inTurn_item ctx hs (body ++ tail) (hbody item mem_cons_self) hnone
    have hfind : (item :: body).findSome? (·.context) =
        item.context.or (body.findSome? (·.context)) := by
      rw [List.findSome?_cons]
      cases item.context <;> rfl
    rw [any_cons, hfind]
    exact hstep

theorem finalize_default (s : ReverseReplay) : finalizeActiveSegment .default s = s := by
  unfold finalizeActiveSegment ActiveReplaySegment.default
  split
  · rfl
  · simp

theorem backward_turn (t : Turn) {tail : List RolloutItem}
    (h : (backward (reverseStep ctx) (.start full) tail).activeSegment = none) :
    ∃ id, backward (reverseStep ctx) (.start full) (t.items ++ tail) =
      finalizeActiveSegment
        ⟨id, t.isUserTurn ctx, t.context.map (·.previousTurnSettings), referenceOf t.context, none⟩
        (backward (reverseStep ctx) (.start full) tail) := by
  have hbody := inTurn_body ctx t.body (.eventMsg (t.ending.event t.turnId) :: tail) t.body_inTurn
    t.one_context (inTurn_ending ctx t.turnId t.ending tail h)
  have hitems : t.items ++ tail = .eventMsg (.turnStarted t.turnId) ::
      (t.body ++ .eventMsg (t.ending.event t.turnId) :: tail) := by
    simp [Turn.items]
  rw [hitems]
  obtain ⟨hout, id, hid, hseg⟩ := hbody
  refine ⟨id, ?_⟩
  rw [← hout]
  show reverseStep ctx _ _ (backward (reverseStep ctx) (.start full)
    (t.body ++ .eventMsg (t.ending.event t.turnId) :: tail)) = _
  generalize backward (reverseStep ctx) (.start full)
    (t.body ++ .eventMsg (t.ending.event t.turnId) :: tail) = s at hseg
  unfold Turn.isUserTurn Turn.context
  rw [← hseg]
  cases hs : s.activeSegment with
  | none =>
    simp only [reverseStep, hs, Option.getD_none, finalize_default]
    rw [← hs]
  | some seg =>
    rw [hs] at hseg
    have hseg' : seg.turnId = id := congrArg (·.turnId) hseg
    have hcompat : turnIdsAreCompatible seg.turnId (some t.turnId) = true := by
      rw [hseg']
      exact inTurn_compatible (.inr rfl) hid
    simp only [reverseStep, hs, hcompat, if_true, Option.getD_some]

/-! ## The whole log -/

/-- Between turns the scan holds what a backward reader of the stack has kept. -/
structure Collected (r : BackwardReader Turn) (s : ReverseReplay) : Prop where
  idle : s.activeSegment = none
  pending : s.pendingRollbackTurns = r.pending
  settings : s.previousTurnSettings = (r.kept.findSome? (·.context)).map (·.previousTurnSettings)
  reference : s.referenceContextItem = referenceOf (r.kept.findSome? (·.context))

theorem findSome?_concat_context (kept : List Turn) (t : Turn) :
    (kept ++ [t]).findSome? (·.context) = (kept.findSome? (·.context)).or t.context := by
  simp

theorem collected_turn {r : BackwardReader Turn} (h : Collected r s) (t : Turn) (id : Option Text)
    (user : Bool) : Collected (if user then r.step saturatingAdd (.push t) else r)
      (finalizeActiveSegment
        ⟨id, user, t.context.map (·.previousTurnSettings), referenceOf t.context, none⟩ s) := by
  obtain ⟨hidle, hpending, hsettings, href⟩ := h
  unfold finalizeActiveSegment BackwardReader.step
  cases user with
  | false =>
    have hcleared : referenceOf t.context ≠ .cleared := by
      cases t.context <;> exact nofun
    by_cases hp : 0 < s.pendingRollbackTurns
    · rw [if_pos hp]
      exact ⟨hidle, hpending, hsettings, href⟩
    · rw [if_neg hp]
      refine ⟨hidle, hpending, ?_, ?_⟩
      · simpa using hsettings
      · simpa [hcleared] using href
  | true =>
    simp only [if_true]
    by_cases hp : 0 < s.pendingRollbackTurns
    · rw [if_pos hp, if_neg (by omega)]
      exact ⟨hidle, by rw [hpending], hsettings, href⟩
    · rw [if_neg hp, if_pos (by omega)]
      refine ⟨hidle, hpending, ?_, ?_⟩
      · simp only [findSome?_concat_context, hsettings]
        cases r.kept.findSome? (·.context) <;> simp
      · simp only [findSome?_concat_context, href]
        cases r.kept.findSome? (·.context) <;> simp [referenceOf]

theorem collected_blocks (full : List RolloutItem) (blocks : List RolloutBlock) :
    Collected (readBackward saturatingAdd (blocks.flatMap (·.ops ctx)))
      (backward (reverseStep ctx) (.start full) (blocks.flatMap (·.items))) := by
  induction blocks with
  | nil => exact ⟨rfl, rfl, rfl, rfl⟩
  | cons block blocks ih =>
    rw [flatMap_cons, flatMap_cons]
    cases block with
    | rolledBack numTurns =>
      exact ⟨ih.idle, congrArg (fun pending => saturatingAdd pending numTurns) ih.pending,
        ih.settings, ih.reference⟩
    | turn t =>
      obtain ⟨id, hturn⟩ := backward_turn ctx t ih.idle
      have hops : readBackward saturatingAdd
          ((RolloutBlock.turn t).ops ctx ++ blocks.flatMap (·.ops ctx)) =
            if t.isUserTurn ctx then
              (readBackward saturatingAdd (blocks.flatMap (·.ops ctx))).step saturatingAdd (.push t)
            else readBackward saturatingAdd (blocks.flatMap (·.ops ctx)) := by
        cases hu : t.isUserTurn ctx with
        | true =>
          have hop : (RolloutBlock.turn t).ops ctx = [.push t] := if_pos hu
          rw [hop]
          rfl
        | false =>
          have hop : (RolloutBlock.turn t).ops ctx = [] := if_neg (by rw [hu]; exact Bool.false_ne_true)
          rw [hop]
          rfl
      rw [hops]
      show Collected _ (backward (reverseStep ctx) (.start full) (t.items ++ _))
      rw [hturn]
      exact collected_turn ih t id _

theorem inTurn_not_compacted {item : RolloutItem} (h : InTurn turnId item)
    (compacted : CompactedItem) : item ≠ .compacted compacted := by
  rintro rfl
  exact h

theorem log_noCompaction (log : TurnLog) : NoCompaction log.items := by
  intro item hitem compacted
  obtain ⟨block, -, hmem⟩ := mem_flatMap.mp hitem
  cases block with
  | rolledBack n =>
    rw [mem_singleton.mp hmem]
    exact nofun
  | turn t =>
    rcases mem_cons.mp hmem with rfl | hmem
    · exact nofun
    · rcases mem_append.mp hmem with hmem | hmem
      · exact inTurn_not_compacted (t.body_inTurn item hmem) compacted
      · rw [mem_singleton.mp hmem]
        exact nofun

theorem newestCheckpoint_of_noCompaction {items : List RolloutItem} (h : NoCompaction items) :
    newestCheckpoint items = none := by
  induction items with
  | nil => rfl
  | cons item items ih =>
    have hrest := ih fun i hi => h i (mem_cons_of_mem _ hi)
    unfold newestCheckpoint
    rw [hrest]
    cases item with
    | compacted compacted => exact absurd rfl (h _ mem_cons_self compacted)
    | sessionMeta | responseItem item | turnContext item | eventMsg event => rfl

theorem scan_of_noCompaction (full : List RolloutItem) {newer : List RolloutItem} (h : NoCompaction newer) :
    (backward (reverseStep ctx) (.start full) newer).baseReplacementHistory = none ∧
      (backward (reverseStep ctx) (.start full) newer).rolloutSuffix = full := by
  obtain ⟨-, hs⟩ := scan_state ctx full newer
  have hn := newestCheckpoint_of_noCompaction h
  cases hs with
  | absent _ _ hb _ hs => exact ⟨hb, hs⟩
  | inProgress base hn' _ _ _ | single base rb hn' _ _ _ | several found hn' _ _ =>
    rw [hn] at hn'
    cases hn'

theorem not_settled_of_noCompaction {newer : List RolloutItem} (h : NoCompaction newer) :
    (backward (reverseStep ctx) (.start full) newer).settled = false := by
  unfold ReverseReplay.settled
  rw [(scan_of_noCompaction ctx full h).1]
  rfl

theorem replay_flag_of_noCompaction {items : List RolloutItem} (h : NoCompaction items)
    (r : ContextManager × Bool) : (items.foldl (replayItem ctx) r).2 = r.2 := by
  induction items generalizing r with
  | nil => rfl
  | cons item items ih =>
    rw [foldl_cons, ih fun i hi => h i (mem_cons_of_mem _ hi)]
    cases item with
    | compacted compacted => exact absurd rfl (h _ mem_cons_self compacted)
    | sessionMeta | responseItem item | turnContext item => rfl
    | eventMsg event => cases event <;> rfl

theorem materialize_reference (h : NoCompaction s.rolloutSuffix)
    (href : s.referenceContextItem = referenceOf context) :
    (s.materialize ctx).referenceContextItem = context := by
  unfold ReverseReplay.materialize replayFrom
  simp only [replay_flag_of_noCompaction ctx h, href]
  cases context <;> rfl

theorem ops_length_le (blocks : List RolloutBlock) :
    (blocks.flatMap (·.ops ctx)).length ≤ (blocks.flatMap (·.items)).length := by
  induction blocks with
  | nil => exact Nat.le_refl _
  | cons block blocks ih =>
    have hblock : (block.ops ctx).length ≤ block.items.length := by
      cases block with
      | rolledBack n => exact Nat.le_refl _
      | turn t =>
        have hitems : 1 ≤ (RolloutBlock.turn t).items.length := Nat.succ_le_succ (Nat.zero_le _)
        simp only [RolloutBlock.ops]
        split
        · exact hitems
        · exact Nat.zero_le _
    rw [flatMap_cons, flatMap_cons, length_append, length_append]
    exact Nat.add_le_add hblock ih

theorem saturatingAdd_addsUpTo : AddsUpTo (2 ^ 64 - 1) saturatingAdd := by
  intro a b
  unfold saturatingAdd
  omega

/-- The settings found are those of the newest surviving user turn that recorded a
context, and reading on to the oldest item gives the same reconstruction. -/
theorem reconstructed_metadata (log : TurnLog) :
    let result := reconstructHistoryFromRollout ctx log.items
    let context := (log.survivingTurns ctx).findSome? (·.context)
    result.previousTurnSettings = context.map (·.previousTurnSettings) ∧
      result.referenceContextItem = context ∧
      result = (reverseReplayAll ctx log.items).materialize ctx := by
  have hno := log_noCompaction log
  have hnever : backwardUntil (reverseStep ctx) ReverseReplay.settled (.start log.items) log.items =
      (backward (reverseStep ctx) (.start log.items) log.items, false) := by
    refine backwardUntil_of_never ?_
    intro older newer hsplit
    refine not_settled_of_noCompaction ctx fun item hitem => hno item ?_
    rw [hsplit]
    exact mem_append_right _ hitem
  have hall : reverseReplay ctx log.items = reverseReplayAll ctx log.items := by
    unfold reverseReplay reverseReplayAll
    rw [hnever]
  obtain ⟨hidle, -, hsettings, href⟩ := collected_blocks ctx log.items log.blocks
  have hkept : (readBackward saturatingAdd (log.blocks.flatMap (·.ops ctx))).kept =
      log.survivingTurns ctx := by
    refine readBackward_kept saturatingAdd_addsUpTo _ ?_
    have hlen := ops_length_le ctx log.blocks
    have hfits := log.fits
    omega
  rw [hkept] at hsettings href
  have hclose : reverseReplayAll ctx log.items =
      backward (reverseStep ctx) (.start log.items) log.items := by
    unfold reverseReplayAll ReverseReplay.close
    rw [show (backward (reverseStep ctx) (.start log.items) log.items).activeSegment = none from hidle]
  have hsuffix := (scan_of_noCompaction ctx log.items hno).2
  unfold reconstructHistoryFromRollout
  rw [hall]
  refine ⟨?_, ?_, rfl⟩
  · rw [hclose]
    exact hsettings
  · rw [hclose]
    refine materialize_reference ctx ?_ href
    rw [hsuffix]
    exact hno

end

def recordedContext : TurnContextItem := ⟨some ['1'], "model".toList, none, []⟩

def turnWithContext : Turn where
  turnId := ['1']
  body := [.eventMsg .userMessage, .turnContext recordedContext]
  ending := .complete
  body_inTurn := by simp [InTurn, recordedContext]
  one_context := by decide

def turnWithoutContext : Turn where
  turnId := ['2']
  body := [.eventMsg .userMessage]
  ending := .complete
  body_inTurn := by simp [InTurn]
  one_context := by decide

def contextThenNone : TurnLog :=
  ⟨[.turn turnWithContext, .turn turnWithoutContext], by decide⟩

theorem settings_from_older_turn :
    ((contextThenNone.survivingTurns plainContext).head?.map (·.turnId)) = some ['2'] ∧
      ((contextThenNone.survivingTurns plainContext).head?.bind (·.context)) = none ∧
      (reconstructHistoryFromRollout plainContext contextThenNone.items).previousTurnSettings =
        some recordedContext.previousTurnSettings ∧
      (reconstructHistoryFromRollout plainContext contextThenNone.items).referenceContextItem =
        some recordedContext := by
  decide

end Codex
