import Codex.Foundation.Slots
import Codex.ThreadHistory.ItemIds

/-!
# User messages in the turns of a thread

A user message is shown in the turn that is open. The other items of a turn leave the user
messages of all turns alone, as long as no id that comes with them looks like a numbered one.
-/

namespace Codex.ThreadHistory

open Foundation List Option

/-! ## Messages of a turn -/

def ThreadItem.userMessage? : ThreadItem → Option (Text × List UserInput)
  | .userMessage id content => some (id, content)
  | _ => none

def userMessages (items : List ThreadItem) : List (Text × List UserInput) :=
  items.filterMap ThreadItem.userMessage?

def Turn.userMessages (turn : Turn) : List (Text × List UserInput) :=
  ThreadHistory.userMessages turn.items

def Numbered (messages : List (Text × List UserInput)) : Prop :=
  ∀ m ∈ messages, (itemNumber m.1).isSome

variable {item : ThreadItem}

theorem userMessages_snoc (items : List ThreadItem) (hitem : item.userMessage? = none) :
    userMessages (items ++ [item]) = userMessages items := by
  simp [userMessages, hitem]

theorem userMessage?_id {m : Text × List UserInput} (h : item.userMessage? = some m) :
    item.id = m.1 := by
  cases item <;> cases h
  rfl

theorem filterMap_set_none {α β : Type} {f : α → Option β} {l : List α} {i : ℕ} {a : α}
    (hlt : i < l.length) (hold : f l[i] = none) (hnew : f a = none) :
    (l.set i a).filterMap f = l.filterMap f := by
  induction l generalizing i with
  | nil => rfl
  | cons x l ih =>
    cases i with
    | zero =>
      rw [getElem_cons_zero] at hold
      simp [hold, hnew]
    | succ i =>
      simp only [set_cons_succ, filterMap_cons, ih (Nat.lt_of_succ_lt_succ hlt) hold]

theorem userMessages_upsert {items : List ThreadItem} (hitem : item.userMessage? = none)
    (hid : itemNumber item.id = none) (hnumbered : Numbered (userMessages items)) :
    userMessages (upsertTurnItem items item) = userMessages items := by
  unfold upsertTurnItem
  split
  · next i hi =>
    obtain ⟨hlt, hfound, -⟩ := List.findIdx?_eq_some_iff_getElem.mp hi
    have hsame : items[i].id = item.id := of_decide_eq_true hfound
    -- the item that is replaced has no number, so it is no user message
    have hold : items[i].userMessage? = none := by
      cases hm : items[i].userMessage? with
      | none => rfl
      | some m =>
        have hmem : m ∈ userMessages items := mem_filterMap.mpr ⟨items[i], getElem_mem hlt, hm⟩
        have hnum := hnumbered m hmem
        rw [← userMessage?_id hm, hsame, hid] at hnum
        cases hnum
    exact filterMap_set_none hlt hold hitem
  · exact userMessages_snoc items hitem

def PendingTurn.shown (turn : PendingTurn) : Text × Bool × List (Text × List UserInput) :=
  (turn.id, turn.openedExplicitly, turn.toTurn.userMessages)

namespace ThreadHistoryBuilder

variable {b b' : ThreadHistoryBuilder} {fresh : Fresh} {turn : PendingTurn}

structure KeepsMessages (b b' : ThreadHistoryBuilder) : Prop where
  turns : b'.turns.map Turn.userMessages = b.turns.map Turn.userMessages
  current : b'.currentTurn.map PendingTurn.shown = b.currentTurn.map PendingTurn.shown

theorem KeepsMessages.refl : KeepsMessages b b := ⟨rfl, rfl⟩

def NumberedMessages (b : ThreadHistoryBuilder) : Prop :=
  ∀ turn ∈ b.allTurns, Numbered turn.userMessages

theorem NumberedMessages.current (h : b.NumberedMessages) (hturn : b.currentTurn = some turn) :
    Numbered turn.toTurn.userMessages := by
  refine h turn.toTurn (mem_append_right _ ?_)
  rw [hturn]
  exact mem_singleton_self _

theorem NumberedMessages.finished (h : b.NumberedMessages) {t : Turn} (ht : t ∈ b.turns) :
    Numbered t.userMessages := h t (mem_append_left _ ht)

theorem numberedMessages_iff : b.NumberedMessages ↔
    (∀ messages ∈ b.turns.map Turn.userMessages, Numbered messages) ∧
      ∀ shown ∈ b.currentTurn.map PendingTurn.shown, Numbered shown.2.2 := by
  constructor
  · intro h
    refine ⟨fun messages hm => ?_, fun shown hs => ?_⟩
    · obtain ⟨t, ht, rfl⟩ := mem_map.mp hm
      exact h.finished ht
    · obtain ⟨t, ht, rfl⟩ := map_eq_some_iff.mp hs
      exact h.current ht
  · rintro ⟨hturns, hcurrent⟩ t ht
    obtain ht | ht := mem_append.mp ht
    · exact hturns _ (mem_map_of_mem ht)
    · obtain ⟨p, hp, rfl⟩ := mem_map.mp ht
      exact hcurrent _ (by rw [mem_toList.mp hp]; rfl)

theorem KeepsMessages.numbered (h : KeepsMessages b b') (hb : b.NumberedMessages) :
    b'.NumberedMessages := by
  rw [numberedMessages_iff, h.turns, h.current]
  exact numberedMessages_iff.mp hb

/-! ## The handlers -/

theorem keeps_setItems {items : List ThreadItem} (hturn : b.currentTurn = some turn)
    (hitems : userMessages items = userMessages turn.items) :
    KeepsMessages b (b.setItems turn items) := by
  refine ⟨rfl, ?_⟩
  rw [hturn]
  simp only [setItems, map_some, PendingTurn.shown, Turn.userMessages, hitems]

theorem ensureTurn_of_current (hturn : b.currentTurn = some turn) :
    ensureTurn fresh b = (b, turn) := by
  unfold ensureTurn
  rw [hturn]

variable {item : ThreadItem} {f : Turn → Turn} {turnId : Text}

section
variable (hturn : b.currentTurn = some turn)
include hturn

theorem keeps_push (hitem : item.userMessage? = none) : KeepsMessages b (push fresh b item) := by
  unfold push
  rw [ensureTurn_of_current hturn]
  exact keeps_setItems hturn (userMessages_snoc turn.items hitem)

theorem keeps_pushNumbered {item : Text → ThreadItem}
    (hitem : ∀ id, (item id).userMessage? = none) :
    KeepsMessages b (pushNumbered fresh b item) := by
  have hpush := @keeps_push b.nextItemId.1 fresh turn _ hturn (hitem (itemId b.nextItemIndex))
  exact ⟨hpush.turns, hpush.current⟩

theorem keeps_upsertItemInCurrentTurn (hb : b.NumberedMessages)
    (hitem : item.userMessage? = none) (hid : itemNumber item.id = none) :
    KeepsMessages b (upsertItemInCurrentTurn fresh b item) := by
  unfold upsertItemInCurrentTurn
  rw [ensureTurn_of_current hturn]
  exact keeps_setItems hturn (userMessages_upsert hitem hid (hb.current hturn))

end

theorem keeps_modify {i : ℕ} (hf : ∀ t ∈ b.turns, (f t).userMessages = t.userMessages) :
    KeepsMessages b { b with turns := b.turns.modify i f } :=
  ⟨map_modify_same hf i, rfl⟩

theorem keeps_upsertItemInFinishedTurn (hb : b.NumberedMessages) (hitem : item.userMessage? = none)
    (hid : itemNumber item.id = none) :
    KeepsMessages b (b.upsertItemInFinishedTurn turnId item) := by
  unfold upsertItemInFinishedTurn
  split
  · exact keeps_modify fun t ht => userMessages_upsert hitem hid (hb.finished ht)
  · exact .refl

theorem keeps_upsertItemInTurnId (hb : b.NumberedMessages) (hitem : item.userMessage? = none)
    (hid : itemNumber item.id = none) : KeepsMessages b (b.upsertItemInTurnId turnId item) := by
  unfold upsertItemInTurnId
  split
  · next turn hturn =>
    split
    · exact keeps_setItems hturn (userMessages_upsert hitem hid (hb.current hturn))
    · exact keeps_upsertItemInFinishedTurn hb hitem hid
  · exact keeps_upsertItemInFinishedTurn hb hitem hid

theorem keeps_upsertItem (hturn : b.currentTurn = some turn) (hb : b.NumberedMessages)
    (hitem : item.userMessage? = none) (hid : itemNumber item.id = none) :
    KeepsMessages b (upsertItem fresh b turnId item) := by
  unfold upsertItem
  split
  · exact keeps_upsertItemInCurrentTurn hturn hb hitem hid
  · exact keeps_upsertItemInTurnId hb hitem hid

theorem keeps_handleReasoning (hturn : b.currentTurn = some turn) (text : Text)
    (add : List Text × List Text → List Text × List Text) :
    KeepsMessages b (handleReasoning fresh b text add) := by
  unfold handleReasoning
  split
  · exact .refl
  · rw [ensureTurn_of_current hturn]
    dsimp only
    split
    · next id summary content hlast =>
      refine keeps_setItems hturn ?_
      have hitems := dropLast_append_getLast? _ hlast
      conv_rhs => rw [← hitems]
      rw [userMessages_snoc _ rfl, userMessages_snoc _ rfl]
    · exact keeps_pushNumbered hturn fun _ => rfl

theorem keeps_handleItem {item : TurnItem} (hb : b.NumberedMessages)
    (hid : ∀ id ∈ item.id, itemNumber id = none) : KeepsMessages b (b.handleItem turnId item) := by
  cases item with
  | other => exact .refl
  | plan id text =>
    have hplan : itemNumber (ThreadItem.plan id text).id = none := hid id rfl
    simp only [handleItem]
    split
    · exact .refl
    · exact keeps_upsertItemInTurnId hb rfl hplan

theorem keeps_handleGuardianAssessment {payload : GuardianAssessmentEvent}
    (hturn : b.currentTurn = some turn) (hb : b.NumberedMessages)
    (hid : ∀ id ∈ payload.targetItemId, itemNumber id = none) :
    KeepsMessages b (handleGuardianAssessment fresh b payload) := by
  have hshow : ∀ {status item}, buildItemFromGuardianEvent payload status = some item →
      KeepsMessages b (upsertItem fresh b payload.turnId item) := by
    intro status item hitem
    unfold buildItemFromGuardianEvent at hitem
    split at hitem
    · obtain ⟨id, htarget, rfl⟩ := map_eq_some_iff.mp hitem
      exact keeps_upsertItem hturn hb rfl (hid id htarget)
    · obtain ⟨id, htarget, rfl⟩ := map_eq_some_iff.mp hitem
      exact keeps_upsertItem hturn hb rfl (hid id htarget)
    · cases hitem
  unfold handleGuardianAssessment
  cases payload.status with
  | approved => exact .refl
  | _ =>
    dsimp only
    split
    · next hitem => exact hshow hitem
    · exact .refl

theorem keeps_handleError (message : Text) (codexErrorInfo : Option CodexErrorInfo) :
    KeepsMessages b (b.handleError message codexErrorInfo) := by
  unfold handleError
  split
  · cases hturn : b.currentTurn with
    | none => exact .refl
    | some turn =>
      refine ⟨rfl, ?_⟩
      rw [hturn]
      rfl
  · exact .refl

theorem keeps_mapCurrentTurn (hid : ∀ t, (f t).id = t.id)
    (hf : ∀ t, (f t).userMessages = t.userMessages) : KeepsMessages b (b.mapCurrentTurn f) := by
  refine ⟨rfl, ?_⟩
  unfold mapCurrentTurn
  cases b.currentTurn with
  | none => rfl
  | some turn => simp [PendingTurn.shown, hid, hf]

theorem keeps_mapFinishedTurn (hf : ∀ t, (f t).userMessages = t.userMessages)
    (h : b.mapFinishedTurn turnId f = some b') : KeepsMessages b b' := by
  obtain ⟨i, -, rfl⟩ := map_eq_some_iff.mp h
  exact keeps_modify fun t _ => hf t

theorem keeps_handleTurnAborted (turnId : Option Text) (completedAt durationMs : Option ℤ) :
    KeepsMessages b (b.handleTurnAborted turnId completedAt durationMs) := by
  have habort : ∀ t, (Turn.abort completedAt durationMs t).userMessages = t.userMessages :=
    fun _ => rfl
  have hactive : KeepsMessages b (b.mapCurrentTurn (Turn.abort completedAt durationMs)) :=
    keeps_mapCurrentTurn (fun _ => rfl) habort
  unfold handleTurnAborted
  split
  · split
    · exact hactive
    · cases hfinished : b.mapFinishedTurn _ (Turn.abort completedAt durationMs) with
      | none => exact hactive
      | some b' => exact keeps_mapFinishedTurn habort hfinished
  · exact hactive

theorem keeps_handleCompacted (hturn : b.currentTurn = some turn) :
    KeepsMessages b (handleCompacted fresh b) := by
  unfold handleCompacted
  rw [ensureTurn_of_current hturn]
  refine ⟨rfl, ?_⟩
  rw [hturn]
  rfl

/-! ## Items in a turn -/

end ThreadHistoryBuilder

def EventMsg.inTurn : EventMsg → Bool
  | .threadRolledBack _ => false
  | .turnStarted _ _ => false
  | .turnComplete _ _ _ => false
  | _ => true

def RolloutItem.inTurn : RolloutItem → Bool
  | .eventMsg event => event.inTurn
  | _ => true

def RolloutItem.shownContent : RolloutItem → Option (List UserInput)
  | .eventMsg (.userMessage message images textElements localImages) =>
    some (buildUserInputs message images textElements localImages)
  | _ => none

namespace ThreadHistoryBuilder

variable {b b' : ThreadHistoryBuilder} {fresh : Fresh} {turn : PendingTurn}
  {fromXmlStr : Text → Option HookPromptFragment}

theorem keeps_handleEvent {event : EventMsg} (hturn : b.currentTurn = some turn)
    (hb : b.NumberedMessages) (h : (RolloutItem.eventMsg event).Foreign fromXmlStr)
    (hin : event.inTurn = true) (hmessage : (RolloutItem.eventMsg event).shownContent = none) :
    KeepsMessages b (handleEvent fresh b event) := by
  have hcall := h.call
  have hshown := h.shown
  cases event with
  | userMessage message images textElements localImages => cases hmessage
  | threadRolledBack numTurns | turnStarted turnId startedAt
  | turnComplete turnId completedAt durationMs => cases hin
  | agentMessage message phase =>
    simp only [handleEvent, handleAgentMessage]
    split
    · exact .refl
    · exact keeps_pushNumbered hturn fun _ => rfl
  | agentReasoning text =>
    simp only [handleEvent, handleAgentReasoning]
    exact keeps_handleReasoning hturn text _
  | agentReasoningRawContent text =>
    simp only [handleEvent, handleAgentReasoningRawContent]
    exact keeps_handleReasoning hturn text _
  | webSearchBegin callId | webSearchEnd callId query action =>
    exact keeps_upsertItemInCurrentTurn hturn hb rfl (hcall callId rfl)
  | execCommandBegin callId turnId => exact keeps_upsertItemInTurnId hb rfl (hcall callId rfl)
  | execCommandEnd callId turnId status aggregatedOutput exitCode =>
    exact keeps_upsertItemInTurnId hb rfl (hcall callId rfl)
  | guardianAssessment payload => exact keeps_handleGuardianAssessment hturn hb hshown
  | applyPatchApprovalRequest callId turnId =>
    exact keeps_upsertItem hturn hb rfl (hcall callId rfl)
  | patchApplyBegin callId turnId
  | patchApplyEnd callId turnId status => exact keeps_upsertItem hturn hb rfl (hcall callId rfl)
  | dynamicToolCallRequest callId turnId namespace_ tool
  | dynamicToolCallResponse callId turnId namespace_ tool success =>
    exact keeps_upsertItem hturn hb rfl (hcall callId rfl)
  | mcpToolCallBegin callId server tool =>
    exact keeps_upsertItemInCurrentTurn hturn hb rfl (hcall callId rfl)
  | mcpToolCallEnd callId server tool result =>
    refine keeps_upsertItemInCurrentTurn hturn hb (by cases result <;> rfl) ?_
    rw [id_mcpToolCallEndItem]
    exact hcall callId rfl
  | viewImageToolCall callId path | imageGenerationBegin callId
  | imageGenerationEnd callId status revisedPrompt result =>
    exact keeps_upsertItemInCurrentTurn hturn hb rfl (hcall callId rfl)
  | collab payload =>
    refine keeps_upsertItemInCurrentTurn hturn hb (by cases payload <;> rfl) ?_
    rw [id_collabItem]
    exact hcall payload.callId rfl
  | contextCompacted => exact keeps_pushNumbered hturn fun _ => rfl
  | enteredReviewMode userFacingHint | exitedReviewMode overallExplanation =>
    simp only [handleEvent]
    exact keeps_pushNumbered hturn fun _ => rfl
  | itemStarted turnId item | itemCompleted turnId item => exact keeps_handleItem hb hshown
  | error message codexErrorInfo => exact keeps_handleError message codexErrorInfo
  | turnAborted turnId completedAt durationMs =>
    exact keeps_handleTurnAborted turnId completedAt durationMs
  | other => exact .refl

theorem keeps_handleResponseItem (hturn : b.currentTurn = some turn) (item : ResponseItem) :
    KeepsMessages b (handleResponseItem fromXmlStr fresh b item) := by
  unfold handleResponseItem
  split
  · split
    · split
      · exact keeps_push hturn rfl
      · exact .refl
    · exact .refl
  · exact .refl

/-! ## From turn to turn -/

structure OpenTurn (b : ThreadHistoryBuilder) (turnId : Text)
    (finished : List (List (Text × List UserInput))) (messages : List (Text × List UserInput)) :
    Prop where
  turns : b.turns.map Turn.userMessages = finished
  current : b.currentTurn.map PendingTurn.shown = some (turnId, true, messages)
  numbered : b.NumberedMessages

structure BetweenTurns (b : ThreadHistoryBuilder)
    (finished : List (List (Text × List UserInput))) : Prop where
  turns : b.turns.map Turn.userMessages = finished
  current : b.currentTurn = none
  numbered : ∀ messages ∈ finished, Numbered messages

variable {turnId : Text} {finished : List (List (Text × List UserInput))}
  {messages : List (Text × List UserInput)}

theorem OpenTurn.exists_current (h : OpenTurn b turnId finished messages) :
    ∃ turn, b.currentTurn = some turn ∧ turn.id = turnId ∧ turn.openedExplicitly = true ∧
      turn.toTurn.userMessages = messages := by
  obtain ⟨turn, hturn, hshown⟩ := map_eq_some_iff.mp h.current
  simp only [PendingTurn.shown, Prod.mk.injEq] at hshown
  exact ⟨turn, hturn, hshown⟩

theorem KeepsMessages.inTurn (hkeeps : KeepsMessages b b') (h : OpenTurn b turnId finished messages) :
    OpenTurn b' turnId finished messages :=
  ⟨hkeeps.turns.trans h.turns, hkeeps.current.trans h.current, hkeeps.numbered h.numbered⟩

theorem OpenTurn.moved (h : OpenTurn b turnId finished messages) (current next : ℕ) :
    OpenTurn { b with currentRolloutIndex := current, nextRolloutIndex := next } turnId finished
      messages := ⟨h.turns, h.current, h.numbered⟩

theorem BetweenTurns.moved (h : BetweenTurns b finished) (current next : ℕ) :
    BetweenTurns { b with currentRolloutIndex := current, nextRolloutIndex := next } finished :=
  ⟨h.turns, h.current, h.numbered⟩

theorem inTurn_handleUserMessage (h : OpenTurn b turnId finished messages) (message : Text)
    (images : Option (List Text)) (textElements : List TextElement) (localImages : List Text) :
    OpenTurn (handleUserMessage fresh b message images textElements localImages) turnId finished
      (messages ++ [(itemId b.nextItemIndex,
        buildUserInputs message images textElements localImages)]) := by
  obtain ⟨turn, hturn, hid, hexplicit, hmessages⟩ := h.exists_current
  have hpush : handleUserMessage fresh b message images textElements localImages =
      b.nextItemId.1.setItems turn (turn.items ++ [.userMessage (itemId b.nextItemIndex)
        (buildUserInputs message images textElements localImages)]) := by
    unfold handleUserMessage
    simp [hturn, hexplicit, nextItemId]
  have hshown : userMessages (turn.items ++ [.userMessage (itemId b.nextItemIndex)
      (buildUserInputs message images textElements localImages)]) =
        messages ++ [(itemId b.nextItemIndex,
          buildUserInputs message images textElements localImages)] := by
    rw [← hmessages]
    simp [userMessages, Turn.userMessages, ThreadItem.userMessage?]
  rw [hpush]
  refine ⟨h.turns, ?_, ?_⟩
  · simp only [setItems, map_some, PendingTurn.shown, Turn.userMessages, hshown, hid, hexplicit]
  · rw [numberedMessages_iff]
    refine ⟨(numberedMessages_iff.mp h.numbered).1, ?_⟩
    simp only [setItems, map_some, PendingTurn.shown, Turn.userMessages, hshown,
      mem_some_iff, forall_eq']
    intro m hm
    obtain hm | hm := mem_append.mp hm
    · rw [← hmessages] at hm
      exact h.numbered.current hturn m hm
    · rw [mem_singleton.mp hm, itemNumber_itemId]
      rfl

theorem inTurn_handleRolloutItem {item : RolloutItem} (h : OpenTurn b turnId finished messages)
    (hforeign : item.Foreign fromXmlStr) (hin : item.inTurn = true) :
    ∃ messages', OpenTurn (handleRolloutItem fromXmlStr fresh b item) turnId finished messages' ∧
      messages'.map Prod.snd = messages.map Prod.snd ++ item.shownContent.toList := by
  unfold handleRolloutItem
  generalize hb' : ({ b with
      currentRolloutIndex := b.nextRolloutIndex
      nextRolloutIndex := b.nextRolloutIndex + 1 } : ThreadHistoryBuilder) = b'
  have h' : OpenTurn b' turnId finished messages := hb' ▸ h.moved _ _
  obtain ⟨turn, hturn, -⟩ := h'.exists_current
  have hkept : ∀ {b''}, KeepsMessages b' b'' → item.shownContent = none →
      ∃ messages', OpenTurn b'' turnId finished messages' ∧
        messages'.map Prod.snd = messages.map Prod.snd ++ item.shownContent.toList := by
    intro b'' hkeeps hnone
    refine ⟨messages, hkeeps.inTurn h', ?_⟩
    rw [hnone, toList_none, append_nil]
  cases item with
  | compacted payload => exact hkept (keeps_handleCompacted hturn) rfl
  | responseItem item => exact hkept (keeps_handleResponseItem hturn item) rfl
  | turnContext | sessionMeta => exact hkept .refl rfl
  | eventMsg event =>
    cases hcontent : (RolloutItem.eventMsg event).shownContent with
    | none => exact hcontent ▸ hkept (keeps_handleEvent hturn h'.numbered hforeign hin hcontent) hcontent
    | some content =>
      cases event <;> cases hcontent
      exact ⟨_, inTurn_handleUserMessage h' _ _ _ _, by simp⟩

theorem inTurn_handleTurnStarted (h : BetweenTurns b finished) (turnId : Text)
    (startedAt : Option ℤ) :
    OpenTurn (handleTurnStarted fresh b turnId startedAt) turnId finished [] := by
  have hsame : b.finishCurrentTurn = b := by
    unfold finishCurrentTurn
    rw [h.current]
  unfold handleTurnStarted
  rw [hsame]
  refine ⟨h.turns, rfl, ?_⟩
  rw [numberedMessages_iff]
  refine ⟨fun messages hm => h.numbered messages (h.turns ▸ hm), fun shown hshown => ?_⟩
  cases hshown
  exact fun m hm => absurd hm not_mem_nil

theorem betweenTurns_handleTurnComplete (h : OpenTurn b turnId finished messages)
    (completedAt durationMs : Option ℤ) :
    BetweenTurns (b.handleTurnComplete turnId completedAt durationMs) (finished ++ [messages]) := by
  obtain ⟨turn, hturn, hid, hexplicit, hmessages⟩ := h.exists_current
  have hcurrent : b.isCurrentTurn turnId = true := by
    simp [isCurrentTurn, hturn, hid]
  have hfinished : b.handleTurnComplete turnId completedAt durationMs =
      { b with
        turns := b.turns ++ [turn.toTurn.complete completedAt durationMs]
        currentTurn := none } := by
    unfold handleTurnComplete
    rw [if_pos hcurrent]
    simp [mapCurrentTurn, finishCurrentTurn, hturn, hexplicit]
  have hsame : (turn.toTurn.complete completedAt durationMs).userMessages = messages := hmessages
  rw [hfinished]
  refine ⟨by simp [h.turns, hsame], rfl, fun ms hms => ?_⟩
  obtain hms | hms := mem_append.mp hms
  · exact (numberedMessages_iff.mp h.numbered).1 ms (h.turns ▸ hms)
  · rw [mem_singleton.mp hms, ← hmessages]
    exact h.numbered.current hturn

theorem betweenTurns_handleThreadRollback (h : BetweenTurns b finished) (numTurns : ℕ) :
    BetweenTurns (b.handleThreadRollback numTurns) (finished.rdrop numTurns) := by
  have hsame : b.finishCurrentTurn = b := by
    unfold finishCurrentTurn
    rw [h.current]
  have hturns : (b.handleThreadRollback numTurns).turns = b.turns.rdrop numTurns := by
    unfold handleThreadRollback List.rdrop
    dsimp only
    rw [hsame]
    split
    · next hle => rw [Nat.sub_eq_zero_of_le hle, take_zero]
    · rfl
  refine ⟨?_, ?_, fun ms hms => h.numbered ms (mem_of_mem_take hms)⟩
  · rw [hturns, ← h.turns, List.rdrop, List.rdrop, map_take, length_map]
  · unfold handleThreadRollback
    rw [hsame]
    exact h.current

end ThreadHistoryBuilder

end Codex.ThreadHistory
