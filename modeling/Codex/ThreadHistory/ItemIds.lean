import Codex.Foundation.Numbering
import Codex.ThreadHistory.Builder

/-!
# The numbers of items

The items of all turns are a log of blocks, and each handler is a few steps of numbering.
Ids that come with the rollout must not look like numbered ones.
-/

namespace Codex.ThreadHistory

open Foundation List

def itemNumber (id : Text) : Option ℕ :=
  if id.take 5 = "item-".toList then
    let index := Nat.ofDigitChars 10 (id.drop 5) 0
    if decimal index = id.drop 5 then some index else none
  else none

theorem itemNumber_itemId (index : ℕ) : itemNumber (itemId index) = some index := by
  have hdrop : (itemId index).drop 5 = decimal index := rfl
  have hvalue : Nat.ofDigitChars 10 (decimal index) 0 = index := Nat.ofDigitChars_ten_toDigits
  unfold itemNumber
  rw [if_pos (by rfl)]
  rw [hdrop, hvalue, if_pos rfl]

theorem itemNumber_eq_some {id : Text} {index : ℕ} :
    itemNumber id = some index ↔ id = itemId index := by
  constructor
  · intro h
    unfold itemNumber at h
    split at h
    · next htake =>
      dsimp only at h
      split at h
      · next hdigits =>
        cases h
        rw [itemId, hdigits, ← htake, take_append_drop]
      · cases h
    · cases h
  · rintro rfl
    exact itemNumber_itemId index

theorem itemNumber_uuid (uuid : Uuid) : itemNumber uuid.text = none := by
  cases h : itemNumber uuid.text with
  | none => rfl
  | some index =>
    have hvalid := uuid.valid
    rw [itemNumber_eq_some.mp h] at hvalid
    cases hvalid

/-! ## The log of all items -/

def Turn.marks (turn : Turn) : List (Option ℕ) := turn.items.map fun item => itemNumber item.id

theorem Turn.marks_abort (completedAt durationMs : Option ℤ) (turn : Turn) :
    (turn.abort completedAt durationMs).marks = turn.marks := rfl

theorem Turn.marks_complete (completedAt durationMs : Option ℤ) (turn : Turn) :
    (turn.complete completedAt durationMs).marks = turn.marks := rfl

def Unnumbered (items items' : List ThreadItem) : Prop :=
  items'.map (fun item => itemNumber item.id) = items.map (fun item => itemNumber item.id) ∨
    items'.map (fun item => itemNumber item.id) =
      items.map (fun item => itemNumber item.id) ++ [none]

theorem unnumbered_append {item : ThreadItem} (items : List ThreadItem)
    (hid : itemNumber item.id = none) : Unnumbered items (items ++ [item]) :=
  .inr (by simp [hid])

theorem unnumbered_upsertTurnItem {item : ThreadItem} (items : List ThreadItem)
    (hid : itemNumber item.id = none) : Unnumbered items (upsertTurnItem items item) := by
  unfold upsertTurnItem
  split
  · next i hi =>
    left
    obtain ⟨hlt, hfound, -⟩ := List.findIdx?_eq_some_iff_getElem.mp hi
    have hsame : items[i].id = item.id := of_decide_eq_true hfound
    rw [map_set, ← hsame, ← getElem_map (fun item : ThreadItem => itemNumber item.id)]
    · exact set_getElem_self _
    · simpa using hlt
  · exact unnumbered_append items hid

namespace ThreadHistoryBuilder

open Numbering

variable {b : ThreadHistoryBuilder} {fresh : Fresh}

def allTurns (b : ThreadHistoryBuilder) : List Turn :=
  b.turns ++ b.currentTurn.toList.map PendingTurn.toTurn

def numbering (b : ThreadHistoryBuilder) : Numbering :=
  ⟨b.allTurns.map Turn.marks, b.nextItemIndex⟩

theorem numbering_of_current {turn : PendingTurn} (h : b.currentTurn = some turn) :
    b.numbering = ⟨b.turns.map Turn.marks ++ [turn.marks], b.nextItemIndex⟩ := by
  simp [numbering, allTurns, h]

theorem numbering_of_none (h : b.currentTurn = none) :
    b.numbering = ⟨b.turns.map Turn.marks, b.nextItemIndex⟩ := by
  simp [numbering, allTurns, h]

theorem steps_setItems {turn : PendingTurn} {items : List ThreadItem}
    (h : b.currentTurn = some turn) (hitems : Unnumbered turn.items items) :
    Steps b.numbering (b.setItems turn items).numbering := by
  have hset : (b.setItems turn items).numbering =
      ⟨b.turns.map Turn.marks ++ [items.map fun item => itemNumber item.id], b.nextItemIndex⟩ := by
    simp [numbering, allTurns, setItems, Turn.marks]
  rw [numbering_of_current h, hset]
  rcases hitems with hsame | hadded
  · rw [hsame]
    exact .refl
  · rw [hadded]
    exact .single (.insert _ _ _ _)

theorem newTurn_items (id : Option Text) : (newTurn fresh b id).items = [] := rfl

theorem steps_ensureTurn (fresh : Fresh) (b : ThreadHistoryBuilder) :
    (ensureTurn fresh b).1.currentTurn = some (ensureTurn fresh b).2 ∧
      Steps b.numbering (ensureTurn fresh b).1.numbering := by
  unfold ensureTurn
  cases h : b.currentTurn with
  | some turn => exact ⟨h, .refl⟩
  | none =>
    refine ⟨rfl, ?_⟩
    have hmarks : (newTurn fresh b none).marks = [] := by
      rw [Turn.marks, newTurn_items, map_nil]
    rw [numbering_of_none h, numbering_of_current rfl, hmarks]
    exact .single (.openBlock _ _)

theorem steps_finishCurrentTurn (b : ThreadHistoryBuilder) :
    b.finishCurrentTurn.currentTurn = none ∧ Steps b.numbering b.finishCurrentTurn.numbering := by
  unfold finishCurrentTurn
  cases h : b.currentTurn with
  | none => exact ⟨h, .refl⟩
  | some turn =>
    dsimp only
    rw [numbering_of_current h]
    split
    · next hempty =>
      refine ⟨rfl, ?_⟩
      have hmarks : turn.marks = [] := by simp [Turn.marks, hempty.1]
      rw [hmarks, numbering_of_none rfl]
      exact .single (.discard _ _)
    · refine ⟨rfl, ?_⟩
      rw [numbering_of_none rfl]
      simp only [map_append, map_cons, map_nil]
      exact .refl

theorem steps_push {item : ThreadItem} (hid : itemNumber item.id = none) :
    Steps b.numbering (push fresh b item).numbering := by
  obtain ⟨hcurrent, hsteps⟩ := steps_ensureTurn fresh b
  exact hsteps.trans (steps_setItems hcurrent (unnumbered_append _ hid))

theorem steps_upsertItemInCurrentTurn {item : ThreadItem} (hid : itemNumber item.id = none) :
    Steps b.numbering (upsertItemInCurrentTurn fresh b item).numbering := by
  obtain ⟨hcurrent, hsteps⟩ := steps_ensureTurn fresh b
  exact hsteps.trans (steps_setItems hcurrent (unnumbered_upsertTurnItem _ hid))

theorem ensureTurn_nextItemId (fresh : Fresh) (b : ThreadHistoryBuilder) :
    ensureTurn fresh b.nextItemId.1 =
      ({ (ensureTurn fresh b).1 with nextItemIndex := b.nextItemIndex + 1 },
        (ensureTurn fresh b).2) := by
  obtain ⟨turns, currentTurn, nextItemIndex, currentRolloutIndex, nextRolloutIndex⟩ := b
  cases currentTurn <;> rfl

theorem ensureTurn_nextItemIndex (fresh : Fresh) (b : ThreadHistoryBuilder) :
    (ensureTurn fresh b).1.nextItemIndex = b.nextItemIndex := by
  unfold ensureTurn
  cases b.currentTurn <;> rfl

theorem steps_pushNumbered {item : Text → ThreadItem} (hid : ∀ id, (item id).id = id) :
    Steps b.numbering (pushNumbered fresh b item).numbering := by
  obtain ⟨hcurrent, hsteps⟩ := steps_ensureTurn fresh b
  have hnumber := itemNumber_itemId b.nextItemIndex
  have hpush : (pushNumbered fresh b item).numbering =
      ⟨(ensureTurn fresh b).1.turns.map Turn.marks ++
          [(ensureTurn fresh b).2.marks ++ [some b.nextItemIndex]], b.nextItemIndex + 1⟩ := by
    unfold pushNumbered push
    dsimp only
    rw [ensureTurn_nextItemId, numbering_of_current rfl]
    simp [Turn.marks, setItems, nextItemId, hid, hnumber]
  rw [numbering_of_current hcurrent, ensureTurn_nextItemIndex] at hsteps
  rw [hpush]
  exact hsteps.tail (.number _ _ _)

theorem numbering_mapCurrentTurn {f : Turn → Turn} (hf : ∀ turn, (f turn).marks = turn.marks) :
    (b.mapCurrentTurn f).numbering = b.numbering := by
  unfold numbering allTurns mapCurrentTurn
  cases b.currentTurn with
  | none => rfl
  | some turn => simp [hf]

theorem steps_modifyTurn {i : ℕ} {f : Turn → Turn} (hi : i < b.turns.length)
    (hf : ∀ turn, Unnumbered turn.items (f turn).items) :
    Steps b.numbering ({ b with turns := b.turns.modify i f } : ThreadHistoryBuilder).numbering := by
  obtain ⟨older, turn, newer, hturns, -, hmodify⟩ := exists_of_modify f hi
  unfold numbering allTurns
  rw [hmodify, hturns]
  simp only [List.append_assoc, cons_append, map_append, map_cons]
  rcases hf turn with hsame | hadded
  · have hmarks : (f turn).marks = turn.marks := hsame
    rw [hmarks]
  · have hmarks : (f turn).marks = turn.marks ++ [none] := hadded
    rw [hmarks]
    exact .single (.insert _ _ _ _)

variable {turnId : Text}

theorem steps_mapFinishedTurn {f : Turn → Turn} {b' : ThreadHistoryBuilder}
    (hf : ∀ turn, (f turn).marks = turn.marks) (h : b.mapFinishedTurn turnId f = some b') :
    Steps b.numbering b'.numbering := by
  obtain ⟨i, hi, rfl⟩ := Option.map_eq_some_iff.mp h
  obtain ⟨hlt, -⟩ := List.findIdx?_eq_some_iff_getElem.mp hi
  exact steps_modifyTurn hlt fun turn => .inl (hf turn)

theorem steps_upsertItemInFinishedTurn {item : ThreadItem} (hid : itemNumber item.id = none) :
    Steps b.numbering (b.upsertItemInFinishedTurn turnId item).numbering := by
  unfold upsertItemInFinishedTurn
  split
  · next i hi =>
    obtain ⟨hlt, -⟩ := List.findIdx?_eq_some_iff_getElem.mp hi
    exact steps_modifyTurn hlt fun turn => unnumbered_upsertTurnItem turn.items hid
  · exact .refl

theorem steps_upsertItemInTurnId {item : ThreadItem} (hid : itemNumber item.id = none) :
    Steps b.numbering (b.upsertItemInTurnId turnId item).numbering := by
  unfold upsertItemInTurnId
  split
  · next turn hcurrent =>
    split
    · exact steps_setItems hcurrent (unnumbered_upsertTurnItem turn.items hid)
    · exact steps_upsertItemInFinishedTurn hid
  · exact steps_upsertItemInFinishedTurn hid

theorem steps_upsertItem {item : ThreadItem} (hid : itemNumber item.id = none) :
    Steps b.numbering (upsertItem fresh b turnId item).numbering := by
  unfold upsertItem
  split
  · exact steps_upsertItemInCurrentTurn hid
  · exact steps_upsertItemInTurnId hid

/-! ## The handlers -/

theorem steps_handleUserMessage (message : Text) (images : Option (List Text))
    (textElements : List TextElement) (localImages : List Text) : Steps b.numbering
      (handleUserMessage fresh b message images textElements localImages).numbering := by
  -- an implicit turn is closed first
  have hpush : ∃ b', Steps b.numbering b'.numbering ∧
      handleUserMessage fresh b message images textElements localImages =
        pushNumbered fresh b'
          (.userMessage · (buildUserInputs message images textElements localImages)) := by
    unfold handleUserMessage
    cases hcurrent : b.currentTurn with
    | none =>
      refine ⟨b, .refl, ?_⟩
      unfold pushNumbered push
      dsimp only
      rw [ensureTurn_nextItemId]
      simp [ensureTurn, hcurrent, nextItemId, setItems]
    | some turn =>
      dsimp only
      split
      · obtain ⟨hnone, hsteps⟩ := steps_finishCurrentTurn b
        refine ⟨b.finishCurrentTurn, hsteps, ?_⟩
        unfold pushNumbered push
        dsimp only
        rw [ensureTurn_nextItemId]
        simp [ensureTurn, hnone, nextItemId, setItems]
      · refine ⟨b, .refl, ?_⟩
        unfold pushNumbered push
        dsimp only
        rw [ensureTurn_nextItemId]
        simp [ensureTurn, hcurrent, nextItemId, setItems]
  obtain ⟨b', hsteps, hpush⟩ := hpush
  rw [hpush]
  exact hsteps.trans (steps_pushNumbered fun _ => rfl)

theorem steps_handleReasoning (text : Text) (add : List Text × List Text → List Text × List Text) :
    Steps b.numbering (handleReasoning fresh b text add).numbering := by
  obtain ⟨hcurrent, hsteps⟩ := steps_ensureTurn fresh b
  unfold handleReasoning
  split
  · exact .refl
  · dsimp only
    split
    · next id summary content hlast =>
      refine hsteps.trans (steps_setItems hcurrent (.inl ?_))
      have hitems := dropLast_append_getLast? _ hlast
      conv_rhs => rw [← hitems]
      simp [ThreadItem.id]
    · exact hsteps.trans (steps_pushNumbered fun _ => rfl)

theorem steps_handleItem {item : TurnItem}
    (hid : ∀ id text, item = .plan id text → itemNumber id = none) :
    Steps b.numbering (b.handleItem turnId item).numbering := by
  cases item with
  | plan id text =>
    by_cases htext : text = []
    · simp only [handleItem, if_pos htext]
      exact .refl
    · simp only [handleItem, if_neg htext]
      exact @steps_upsertItemInTurnId b turnId (.plan id text) (hid id text rfl)
  | other => exact .refl

theorem steps_handleGuardianAssessment {payload : GuardianAssessmentEvent}
    (hid : ∀ id ∈ payload.targetItemId, itemNumber id = none) :
    Steps b.numbering (handleGuardianAssessment fresh b payload).numbering := by
  have hshow : ∀ {status item}, buildItemFromGuardianEvent payload status = some item →
      Steps b.numbering (upsertItem fresh b payload.turnId item).numbering := by
    intro status item hitem
    apply steps_upsertItem
    unfold buildItemFromGuardianEvent at hitem
    split at hitem
    · obtain ⟨id, htarget, rfl⟩ := Option.map_eq_some_iff.mp hitem
      exact hid id htarget
    · obtain ⟨id, htarget, rfl⟩ := Option.map_eq_some_iff.mp hitem
      exact hid id htarget
    · cases hitem
  unfold handleGuardianAssessment
  cases payload.status with
  | approved => exact .refl
  | _ =>
    dsimp only
    split
    · next hitem => exact hshow hitem
    · exact .refl

theorem numbering_handleError (message : Text) (codexErrorInfo : Option CodexErrorInfo) :
    (b.handleError message codexErrorInfo).numbering = b.numbering := by
  unfold handleError
  split
  · cases hcurrent : b.currentTurn with
    | none => rfl
    | some turn =>
      rw [numbering_of_current hcurrent, numbering_of_current rfl]
      rfl
  · rfl

theorem steps_handleTurnAborted (turnId : Option Text) (completedAt durationMs : Option ℤ) :
    Steps b.numbering (b.handleTurnAborted turnId completedAt durationMs).numbering := by
  have hactive : Steps b.numbering
      (b.mapCurrentTurn (Turn.abort completedAt durationMs)).numbering := by
    rw [numbering_mapCurrentTurn (Turn.marks_abort completedAt durationMs)]
  unfold handleTurnAborted
  split
  · split
    · exact hactive
    · cases hfinished : b.mapFinishedTurn _ (Turn.abort completedAt durationMs) with
      | none => exact hactive
      | some b' =>
        exact steps_mapFinishedTurn (Turn.marks_abort completedAt durationMs) hfinished
  · exact hactive

theorem steps_handleTurnStarted (turnId : Text) (startedAt : Option ℤ) :
    Steps b.numbering (handleTurnStarted fresh b turnId startedAt).numbering := by
  obtain ⟨hnone, hsteps⟩ := steps_finishCurrentTurn b
  refine hsteps.tail ?_
  rw [numbering_of_none hnone, numbering_of_current rfl]
  exact .openBlock _ _

theorem steps_handleTurnComplete (turnId : Text) (completedAt durationMs : Option ℤ) :
    Steps b.numbering (b.handleTurnComplete turnId completedAt durationMs).numbering := by
  have hactive : Steps b.numbering
      (b.mapCurrentTurn (Turn.complete completedAt durationMs)).finishCurrentTurn.numbering := by
    have hfinish := (steps_finishCurrentTurn
      (b.mapCurrentTurn (Turn.complete completedAt durationMs))).2
    rwa [numbering_mapCurrentTurn (Turn.marks_complete completedAt durationMs)] at hfinish
  unfold handleTurnComplete
  split
  · exact hactive
  · cases hfinished : b.mapFinishedTurn turnId (Turn.complete completedAt durationMs) with
    | none => exact hactive
    | some b' =>
      exact steps_mapFinishedTurn (Turn.marks_complete completedAt durationMs) hfinished

theorem steps_handleCompacted : Steps b.numbering (handleCompacted fresh b).numbering := by
  obtain ⟨hcurrent, hsteps⟩ := steps_ensureTurn fresh b
  have hsame : (handleCompacted fresh b).numbering = (ensureTurn fresh b).1.numbering := by
    rw [numbering_of_current hcurrent, numbering_of_current rfl]
    rfl
  rw [hsame]
  exact hsteps

theorem size_marks (turns : List Turn) :
    size (turns.map Turn.marks) = (turns.map fun turn => turn.items.length).sum := by
  induction turns with
  | nil => rfl
  | cons turn turns ih => simp [ih, Turn.marks]

theorem steps_handleThreadRollback (numTurns : ℕ) :
    Steps b.numbering (b.handleThreadRollback numTurns).numbering := by
  obtain ⟨hnone, hsteps⟩ := steps_finishCurrentTurn b
  refine hsteps.tail ?_
  have hcut : ∃ kept lost, b.finishCurrentTurn.turns = kept ++ lost ∧
      (b.handleThreadRollback numTurns).numbering =
        ⟨kept.map Turn.marks, (kept.map fun turn => turn.items.length).sum + 1⟩ := by
    unfold handleThreadRollback
    dsimp only
    split
    · exact ⟨[], _, rfl, numbering_of_none hnone⟩
    · exact ⟨_, _, (take_append_drop _ _).symm, numbering_of_none hnone⟩
  obtain ⟨kept, lost, hturns, hrollback⟩ := hcut
  rw [hrollback, numbering_of_none hnone, hturns, map_append, ← size_marks]
  exact .cut _ _ _

end ThreadHistoryBuilder

/-! ## Recorded ids -/

def CollabEvent.callId : CollabEvent → Text
  | .agentSpawnBegin callId _ _ => callId
  | .agentSpawnEnd callId _ _ _ _ => callId
  | .agentInteractionBegin callId _ _ _ => callId
  | .agentInteractionEnd callId _ _ _ _ => callId
  | .waitingBegin callId _ _ => callId
  | .waitingEnd callId _ _ => callId
  | .closeBegin callId _ _ => callId
  | .closeEnd callId _ _ _ => callId
  | .resumeBegin callId _ _ => callId
  | .resumeEnd callId _ _ _ => callId

def EventMsg.callId : EventMsg → Option Text
  | .webSearchBegin callId => some callId
  | .webSearchEnd callId _ _ => some callId
  | .execCommandBegin callId _ => some callId
  | .execCommandEnd callId _ _ _ _ => some callId
  | .applyPatchApprovalRequest callId _ => some callId
  | .patchApplyBegin callId _ => some callId
  | .patchApplyEnd callId _ _ => some callId
  | .dynamicToolCallRequest callId _ _ _ => some callId
  | .dynamicToolCallResponse callId _ _ _ _ => some callId
  | .mcpToolCallBegin callId _ _ => some callId
  | .mcpToolCallEnd callId _ _ _ => some callId
  | .viewImageToolCall callId _ => some callId
  | .imageGenerationBegin callId => some callId
  | .imageGenerationEnd callId _ _ _ => some callId
  | .collab payload => some payload.callId
  | _ => none

def TurnItem.id : TurnItem → Option Text
  | .plan id _ => some id
  | .other => none

def RolloutItem.callId : RolloutItem → Option Text
  | .eventMsg event => event.callId
  | _ => none

def RolloutItem.itemId (fromXmlStr : Text → Option HookPromptFragment) :
    RolloutItem → Option Text
  | .eventMsg (.guardianAssessment payload) => payload.targetItemId
  | .eventMsg (.itemStarted _ item) => item.id
  | .eventMsg (.itemCompleted _ item) => item.id
  | .responseItem (.message id role content _) =>
    if role = USER ∧
        (content.mapM (ThreadHistoryBuilder.hookPromptFragment fromXmlStr)).getD [] ≠ [] then
      id
    else none
  | _ => none

/-- No id that comes with the item looks like a numbered one. -/
structure RolloutItem.Foreign (fromXmlStr : Text → Option HookPromptFragment)
    (item : RolloutItem) : Prop where
  call : ∀ id ∈ item.callId, itemNumber id = none
  shown : ∀ id ∈ item.itemId fromXmlStr, itemNumber id = none

theorem id_collabItem (payload : CollabEvent) : (collabItem payload).id = payload.callId := by
  cases payload <;> rfl

theorem id_mcpToolCallEndItem (callId server tool : Text) (result : Except Text (Option Bool)) :
    (mcpToolCallEndItem callId server tool result).id = callId := by
  cases result <;> rfl

namespace ThreadHistoryBuilder

open Numbering

variable {b : ThreadHistoryBuilder} {fresh : Fresh} {fromXmlStr : Text → Option HookPromptFragment}

theorem steps_handleEvent {event : EventMsg}
    (h : (RolloutItem.eventMsg event).Foreign fromXmlStr) :
    Steps b.numbering (handleEvent fresh b event).numbering := by
  have hcall := h.call
  have hshown := h.shown
  cases event with
  | userMessage message images textElements localImages =>
    exact steps_handleUserMessage message images textElements localImages
  | agentMessage message phase =>
    simp only [handleEvent, handleAgentMessage]
    split
    · exact .refl
    · exact steps_pushNumbered fun _ => rfl
  | agentReasoning text | agentReasoningRawContent text => exact steps_handleReasoning text _
  | webSearchBegin callId
  | webSearchEnd callId query action => exact steps_upsertItemInCurrentTurn (hcall callId rfl)
  | execCommandBegin callId turnId => exact steps_upsertItemInTurnId (hcall callId rfl)
  | execCommandEnd callId turnId status aggregatedOutput exitCode =>
    exact steps_upsertItemInTurnId (hcall callId rfl)
  | guardianAssessment payload => exact steps_handleGuardianAssessment hshown
  | applyPatchApprovalRequest callId turnId => exact steps_upsertItem (hcall callId rfl)
  | patchApplyBegin callId turnId => exact steps_upsertItem (hcall callId rfl)
  | patchApplyEnd callId turnId status => exact steps_upsertItem (hcall callId rfl)
  | dynamicToolCallRequest callId turnId namespace_ tool => exact steps_upsertItem (hcall callId rfl)
  | dynamicToolCallResponse callId turnId namespace_ tool success =>
    exact steps_upsertItem (hcall callId rfl)
  | mcpToolCallBegin callId server tool =>
    exact steps_upsertItemInCurrentTurn (hcall callId rfl)
  | mcpToolCallEnd callId server tool result =>
    apply steps_upsertItemInCurrentTurn
    rw [id_mcpToolCallEndItem]
    exact hcall callId rfl
  | viewImageToolCall callId path
  | imageGenerationBegin callId => exact steps_upsertItemInCurrentTurn (hcall callId rfl)
  | imageGenerationEnd callId status revisedPrompt result =>
    exact steps_upsertItemInCurrentTurn (hcall callId rfl)
  | collab payload =>
    apply steps_upsertItemInCurrentTurn
    rw [id_collabItem]
    exact hcall payload.callId rfl
  | contextCompacted | enteredReviewMode userFacingHint
  | exitedReviewMode overallExplanation => exact steps_pushNumbered fun _ => rfl
  | itemStarted turnId item | itemCompleted turnId item =>
    apply steps_handleItem
    rintro id text rfl
    exact hshown id rfl
  | error message codexErrorInfo =>
    simp only [handleEvent]
    rw [numbering_handleError]
  | threadRolledBack numTurns => exact steps_handleThreadRollback numTurns
  | turnAborted turnId completedAt durationMs =>
    exact steps_handleTurnAborted turnId completedAt durationMs
  | turnStarted turnId startedAt => exact steps_handleTurnStarted turnId startedAt
  | turnComplete turnId completedAt durationMs =>
    exact steps_handleTurnComplete turnId completedAt durationMs
  | other => exact .refl

theorem steps_handleResponseItem {item : ResponseItem}
    (h : (RolloutItem.responseItem item).Foreign fromXmlStr) :
    Steps b.numbering (handleResponseItem fromXmlStr fresh b item).numbering := by
  unfold handleResponseItem
  split
  · next id role content phase =>
    split
    · next hrole =>
      split
      · next id' fragments hparse =>
        apply steps_push
        unfold parseHookPromptMessage at hparse
        split at hparse
        · next parsed hparsed =>
          split at hparse
          · cases hparse
          · next hfragments =>
            cases hparse
            cases id with
            | none => exact itemNumber_uuid fresh.hookPromptId
            | some id =>
              apply h.shown
              simp [RolloutItem.itemId, hrole, hparsed, hfragments, ThreadItem.id]
        · cases hparse
      · exact .refl
    · exact .refl
  · exact .refl

theorem steps_handleRolloutItem {item : RolloutItem} (h : item.Foreign fromXmlStr) :
    Steps b.numbering (handleRolloutItem fromXmlStr fresh b item).numbering := by
  have hindex : b.numbering = ({ b with
      currentRolloutIndex := b.nextRolloutIndex
      nextRolloutIndex := b.nextRolloutIndex + 1 } : ThreadHistoryBuilder).numbering := rfl
  rw [hindex]
  cases item with
  | eventMsg event => exact steps_handleEvent h
  | compacted payload => exact steps_handleCompacted
  | responseItem item => exact steps_handleResponseItem h
  | turnContext | sessionMeta => exact .refl

def replay (fromXmlStr : Text → Option HookPromptFragment) (items : List (Fresh × RolloutItem)) :
    ThreadHistoryBuilder :=
  items.foldl (fun b item => handleRolloutItem fromXmlStr item.1 b item.2) new

theorem sound_replay {items : List (Fresh × RolloutItem)}
    (h : ∀ item ∈ items, item.2.Foreign fromXmlStr) :
    (replay fromXmlStr items).numbering.Sound := by
  unfold replay
  induction items using List.reverseRecOn with
  | nil => exact sound_new
  | append_singleton items item ih =>
    rw [foldl_append]
    refine (ih fun item' hitem => h item' (mem_append_left _ hitem)).steps ?_
    exact steps_handleRolloutItem (h item (by simp))

def itemNumbers (b : ThreadHistoryBuilder) : List ℕ :=
  b.allTurns.flatMap fun turn => turn.items.filterMap fun item => itemNumber item.id

theorem numbers_numbering (b : ThreadHistoryBuilder) : numbers b.numbering.blocks = b.itemNumbers := by
  unfold itemNumbers numbering
  induction b.allTurns with
  | nil => rfl
  | cons turn turns ih =>
    rw [map_cons, numbers_cons, ih, flatMap_cons, Turn.marks]
    simp [List.reduceOption, filterMap_map]

theorem numbered_items_distinct {items : List (Fresh × RolloutItem)}
    (h : ∀ item ∈ items, item.2.Foreign fromXmlStr) : (replay fromXmlStr items).itemNumbers.Nodup ∧
      ∀ turn ∈ (replay fromXmlStr items).allTurns, ∀ item ∈ turn.items, ∀ index,
        item.id = itemId index → index < (replay fromXmlStr items).nextItemIndex := by
  have hsound := sound_replay h
  have hnodup := hsound.nodup
  have hbelow := hsound.below
  rw [numbers_numbering] at hnodup hbelow
  refine ⟨hnodup, fun turn hturn item hitem index hid => hbelow index ?_⟩
  refine mem_flatMap.mpr ⟨turn, hturn, mem_filterMap.mpr ⟨item, hitem, ?_⟩⟩
  rw [hid]
  exact itemNumber_itemId index

/-! A turn is rolled back after a late item has come into the one before. -/

def lateItem : List (Fresh × RolloutItem) :=
  [.turnStarted "a".toList none, .userMessage "1".toList none [] [],
    .turnComplete "a".toList none none, .turnStarted "b".toList none,
    .userMessage "2".toList none [] [], .execCommandEnd "call".toList "a".toList .completed [] 0,
    .threadRolledBack 1, .turnStarted "c".toList none, .userMessage "3".toList none [] []].map
    fun event => (⟨⟨[], rfl⟩, ⟨[], rfl⟩⟩, .eventMsg event)

theorem numbered_items_distinct_lateItem : (replay (fun _ => none) lateItem).itemNumbers = [1, 3] ∧
      (replay (fun _ => none) lateItem).itemNumbers.Nodup := by
  refine ⟨by decide +kernel, (numbered_items_distinct ?_).1⟩
  have hcalls : ∀ item ∈ lateItem, item.2.callId = none ∨ item.2.callId = some "call".toList := by
    simp [lateItem, RolloutItem.callId, EventMsg.callId]
  have hshown : ∀ item ∈ lateItem, item.2.itemId (fun _ => none) = none := by
    simp [lateItem, RolloutItem.itemId]
  refine fun item hitem => ⟨fun id hid => ?_, fun id hid => ?_⟩
  · rcases hcalls item hitem with hnone | hcall
    · rw [hnone] at hid
      cases hid
    · rw [hcall] at hid
      cases hid
      rfl
  · rw [hshown item hitem] at hid
    cases hid

def numberedPlan : List (Fresh × RolloutItem) :=
  [.turnStarted "a".toList none, .itemCompleted "a".toList (.plan "item-1".toList "Plan".toList),
    .agentMessage "Done".toList none].map
    fun event => (⟨⟨[], rfl⟩, ⟨[], rfl⟩⟩, .eventMsg event)

theorem recorded_plan_numbered : (∀ item ∈ numberedPlan, item.2.callId = none) ∧
      (replay (fun _ => none) numberedPlan).itemNumbers = [1, 1] := by
  refine ⟨?_, by decide +kernel⟩
  simp [numberedPlan, RolloutItem.callId, EventMsg.callId]

end ThreadHistoryBuilder

end Codex.ThreadHistory
