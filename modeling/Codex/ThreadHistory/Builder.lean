import Codex.ThreadHistory.Items

/-!
# The builder of a thread's history

Rollout items are read one by one into finished turns and the turn that is open. Events of
a call go to the turn they name, whichever it is, or to the open turn; items without an id
of their own are numbered. A rollback drops the last turns and counts the items left.
-/

namespace Codex.ThreadHistory

open Foundation

structure ThreadHistoryBuilder where
  turns : List Turn
  currentTurn : Option PendingTurn
  nextItemIndex : ℕ
  currentRolloutIndex : ℕ
  nextRolloutIndex : ℕ

structure Fresh where
  turnId : Uuid
  hookPromptId : Uuid

def itemId (index : ℕ) : Text := "item-".toList ++ decimal index

def upsertTurnItem (items : List ThreadItem) (item : ThreadItem) : List ThreadItem :=
  match items.findIdx? (fun existingItem => decide (existingItem.id = item.id)) with
  | some i => items.set i item
  | none => items ++ [item]

def buildUserInputs (message : Text) (images : Option (List Text))
    (textElements : List TextElement) (localImages : List Text) : List UserInput :=
  (if trim message = [] then [] else [.text message textElements]) ++
    (images.getD []).map .image ++ localImages.map .localImage

def REVIEW_FALLBACK_MESSAGE : Text := "Reviewer failed to output a response.".toList

def renderReviewOutputText (overallExplanation : Text) : Text :=
  let explanation := trim overallExplanation
  if explanation = [] then REVIEW_FALLBACK_MESSAGE else explanation

def CodexErrorInfo.affectsTurnStatus : CodexErrorInfo → Bool
  | .threadRollbackFailed => false
  | .activeTurnNotSteerable => false
  | .other => true

/-! ## Items of calls -/

def ExecCommandStatus.shown : ExecCommandStatus → CommandExecutionStatus
  | .completed => .completed
  | .failed => .failed
  | .declined => .declined

def CorePatchApplyStatus.shown : CorePatchApplyStatus → PatchApplyStatus
  | .completed => .completed
  | .failed => .failed
  | .declined => .declined

def buildCommandExecutionBeginItem (callId : Text) : ThreadItem :=
  .commandExecution callId .inProgress none none

def buildCommandExecutionEndItem (callId : Text) (status : ExecCommandStatus)
    (aggregatedOutput : Text) (exitCode : ℤ) : ThreadItem :=
  .commandExecution callId status.shown
    (if aggregatedOutput = [] then none else some aggregatedOutput) (some exitCode)

def buildItemFromGuardianEvent (assessment : GuardianAssessmentEvent)
    (status : CommandExecutionStatus) : Option ThreadItem :=
  match assessment.action with
  | .command => assessment.targetItemId.map (.commandExecution · status none none)
  | .execve => assessment.targetItemId.map (.commandExecution · status none none)
  | _ => none

def dynamicToolCallRequestItem (callId : Text) (namespace_ : Option Text) (tool : Text) :
    ThreadItem :=
  .dynamicToolCall callId namespace_ tool .inProgress none

def dynamicToolCallResponseItem (callId : Text) (namespace_ : Option Text) (tool : Text)
    (success : Bool) : ThreadItem :=
  .dynamicToolCall callId namespace_ tool (if success then .completed else .failed) (some success)

def mcpToolCallEndItem (callId server tool : Text) : Except Text (Option Bool) → ThreadItem
  | .ok isError =>
    .mcpToolCall callId server tool (if isError.getD false then .failed else .completed) none
  | .error message => .mcpToolCall callId server tool .failed (some message)

def AgentStatus.lost : AgentStatus → Bool
  | .errored _ => true
  | .notFound => true
  | _ => false

def collabStatus (failed : Bool) : CollabAgentToolCallStatus :=
  if failed then .failed else .completed

def collabItem : CollabEvent → ThreadItem
  | .agentSpawnBegin callId sender prompt =>
    .collabAgentToolCall callId .spawnAgent .inProgress sender [] (some prompt) []
  | .agentSpawnEnd callId sender newThreadId prompt status =>
    .collabAgentToolCall callId .spawnAgent
      (collabStatus (status.lost || newThreadId.isNone)) sender newThreadId.toList
      (some prompt) (newThreadId.toList.map (·, status))
  | .agentInteractionBegin callId sender receiver prompt =>
    .collabAgentToolCall callId .sendInput .inProgress sender [receiver] (some prompt) []
  | .agentInteractionEnd callId sender receiver prompt status =>
    .collabAgentToolCall callId .sendInput (collabStatus status.lost) sender
      [receiver] (some prompt) [(receiver, status)]
  | .waitingBegin callId sender receivers =>
    .collabAgentToolCall callId .wait .inProgress sender receivers none []
  | .waitingEnd callId sender statuses =>
    .collabAgentToolCall callId .wait
      (collabStatus (statuses.any fun entry => entry.2.lost)) sender
      ((statuses.map Prod.fst).mergeSort fun a b => !decide (b < a)) none statuses
  | .closeBegin callId sender receiver =>
    .collabAgentToolCall callId .closeAgent .inProgress sender [receiver] none []
  | .closeEnd callId sender receiver status =>
    .collabAgentToolCall callId .closeAgent (collabStatus status.lost) sender
      [receiver] none [(receiver, status)]
  | .resumeBegin callId sender receiver =>
    .collabAgentToolCall callId .resumeAgent .inProgress sender [receiver] none []
  | .resumeEnd callId sender receiver status =>
    .collabAgentToolCall callId .resumeAgent (collabStatus status.lost) sender
      [receiver] none [(receiver, status)]

def Turn.abort (completedAt durationMs : Option ℤ) (turn : Turn) : Turn :=
  { turn with status := .interrupted, completedAt := completedAt, durationMs := durationMs }

def Turn.complete (completedAt durationMs : Option ℤ) (turn : Turn) : Turn :=
  { turn with
    status :=
      if turn.status = .completed ∨ turn.status = .inProgress then .completed else turn.status
    completedAt := completedAt
    durationMs := durationMs }

namespace ThreadHistoryBuilder

def new : ThreadHistoryBuilder := ⟨[], none, 1, 0, 0⟩

/-! ## Turns -/

def newTurn (fresh : Fresh) (b : ThreadHistoryBuilder) (id : Option Text) : PendingTurn where
  id := id.getD
    (if b.nextRolloutIndex = 0 then fresh.turnId.text
      else "rollout-".toList ++ decimal b.currentRolloutIndex)
  items := []
  error := none
  status := .completed
  startedAt := none
  completedAt := none
  durationMs := none
  openedExplicitly := false
  sawCompaction := false
  rolloutStartIndex := b.currentRolloutIndex

def finishCurrentTurn (b : ThreadHistoryBuilder) : ThreadHistoryBuilder :=
  match b.currentTurn with
  | some turn =>
    if turn.items = [] ∧ turn.openedExplicitly = false ∧ turn.sawCompaction = false then
      { b with currentTurn := none }
    else { b with turns := b.turns ++ [turn.toTurn], currentTurn := none }
  | none => b

def ensureTurn (fresh : Fresh) (b : ThreadHistoryBuilder) : ThreadHistoryBuilder × PendingTurn :=
  match b.currentTurn with
  | some turn => (b, turn)
  | none =>
    let turn := newTurn fresh b none
    ({ b with currentTurn := some turn }, turn)

def setItems (b : ThreadHistoryBuilder) (turn : PendingTurn) (items : List ThreadItem) :
    ThreadHistoryBuilder :=
  { b with currentTurn := some { turn with items := items } }

def nextItemId (b : ThreadHistoryBuilder) : ThreadHistoryBuilder × Text :=
  ({ b with nextItemIndex := b.nextItemIndex + 1 }, itemId b.nextItemIndex)

def push (fresh : Fresh) (b : ThreadHistoryBuilder) (item : ThreadItem) :
    ThreadHistoryBuilder :=
  let (b, turn) := ensureTurn fresh b
  b.setItems turn (turn.items ++ [item])

def pushNumbered (fresh : Fresh) (b : ThreadHistoryBuilder) (item : Text → ThreadItem) :
    ThreadHistoryBuilder :=
  let (b, id) := b.nextItemId
  push fresh b (item id)

def upsertItemInCurrentTurn (fresh : Fresh) (b : ThreadHistoryBuilder) (item : ThreadItem) :
    ThreadHistoryBuilder :=
  let (b, turn) := ensureTurn fresh b
  b.setItems turn (upsertTurnItem turn.items item)

def upsertItemInFinishedTurn (b : ThreadHistoryBuilder) (turnId : Text) (item : ThreadItem) :
    ThreadHistoryBuilder :=
  match b.turns.findIdx? (fun turn => decide (turn.id = turnId)) with
  | some i =>
    { b with
      turns := b.turns.modify i fun turn =>
        { turn with items := upsertTurnItem turn.items item } }
  | none => b

def upsertItemInTurnId (b : ThreadHistoryBuilder) (turnId : Text) (item : ThreadItem) :
    ThreadHistoryBuilder :=
  match b.currentTurn with
  | some turn =>
    if turn.id = turnId then b.setItems turn (upsertTurnItem turn.items item)
    else b.upsertItemInFinishedTurn turnId item
  | none => b.upsertItemInFinishedTurn turnId item

def upsertItem (fresh : Fresh) (b : ThreadHistoryBuilder) (turnId : Text) (item : ThreadItem) :
    ThreadHistoryBuilder :=
  if turnId = [] then upsertItemInCurrentTurn fresh b item else b.upsertItemInTurnId turnId item

/-! ## Messages -/

def handleUserMessage (fresh : Fresh) (b : ThreadHistoryBuilder) (message : Text)
    (images : Option (List Text)) (textElements : List TextElement) (localImages : List Text) :
    ThreadHistoryBuilder :=
  let b :=
    match b.currentTurn with
    | some turn =>
      if turn.openedExplicitly = false ∧ ¬(turn.sawCompaction = true ∧ turn.items = []) then
        b.finishCurrentTurn
      else b
    | none => b
  let turn := b.currentTurn.getD (newTurn fresh b none)
  let (b, id) := b.nextItemId
  b.setItems turn
    (turn.items ++ [.userMessage id (buildUserInputs message images textElements localImages)])

def handleAgentMessage (fresh : Fresh) (b : ThreadHistoryBuilder) (text : Text)
    (phase : Option MessagePhase) : ThreadHistoryBuilder :=
  if text = [] then b else pushNumbered fresh b (.agentMessage · text phase)

def handleReasoning (fresh : Fresh) (b : ThreadHistoryBuilder) (text : Text)
    (add : List Text × List Text → List Text × List Text) : ThreadHistoryBuilder :=
  if text = [] then b
  else
    let (b, turn) := ensureTurn fresh b
    match turn.items.getLast? with
    | some (.reasoning id summary content) =>
      let reasoning := add (summary, content)
      b.setItems turn (turn.items.dropLast ++ [.reasoning id reasoning.1 reasoning.2])
    | _ =>
      let reasoning := add ([], [])
      pushNumbered fresh b (.reasoning · reasoning.1 reasoning.2)

def handleAgentReasoning (fresh : Fresh) (b : ThreadHistoryBuilder) (text : Text) :
    ThreadHistoryBuilder :=
  handleReasoning fresh b text fun reasoning => (reasoning.1 ++ [text], reasoning.2)

def handleAgentReasoningRawContent (fresh : Fresh) (b : ThreadHistoryBuilder) (text : Text) :
    ThreadHistoryBuilder :=
  handleReasoning fresh b text fun reasoning => (reasoning.1, reasoning.2 ++ [text])

/-- Started and completed items are shown alike; of them only plans are. -/
def handleItem (b : ThreadHistoryBuilder) (turnId : Text) : TurnItem → ThreadHistoryBuilder
  | .plan id text => if text = [] then b else b.upsertItemInTurnId turnId (.plan id text)
  | .other => b

def handleGuardianAssessment (fresh : Fresh) (b : ThreadHistoryBuilder)
    (payload : GuardianAssessmentEvent) : ThreadHistoryBuilder :=
  let show_ (status : CommandExecutionStatus) : ThreadHistoryBuilder :=
    match buildItemFromGuardianEvent payload status with
    | some item => upsertItem fresh b payload.turnId item
    | none => b
  match payload.status with
  | .inProgress => show_ .inProgress
  | .denied => show_ .declined
  | .aborted => show_ .declined
  | .timedOut => show_ .failed
  | .approved => b

/-! ## The course of turns -/

def handleError (b : ThreadHistoryBuilder) (message : Text)
    (codexErrorInfo : Option CodexErrorInfo) : ThreadHistoryBuilder :=
  if codexErrorInfo.all CodexErrorInfo.affectsTurnStatus then
    match b.currentTurn with
    | some turn =>
      { b with currentTurn := some { turn with status := .failed, error := some message } }
    | none => b
  else b

def mapCurrentTurn (b : ThreadHistoryBuilder) (f : Turn → Turn) : ThreadHistoryBuilder :=
  { b with currentTurn := b.currentTurn.map fun turn => { turn with toTurn := f turn.toTurn } }

def mapFinishedTurn (b : ThreadHistoryBuilder) (turnId : Text) (f : Turn → Turn) :
    Option ThreadHistoryBuilder :=
  (b.turns.findIdx? fun turn => decide (turn.id = turnId)).map fun i =>
    { b with turns := b.turns.modify i f }

def isCurrentTurn (b : ThreadHistoryBuilder) (turnId : Text) : Bool :=
  b.currentTurn.any fun turn => turn.id = turnId

def handleTurnAborted (b : ThreadHistoryBuilder) (turnId : Option Text)
    (completedAt durationMs : Option ℤ) : ThreadHistoryBuilder :=
  let active := b.mapCurrentTurn (Turn.abort completedAt durationMs)
  match turnId with
  | some turnId =>
    if b.isCurrentTurn turnId then active
    else (b.mapFinishedTurn turnId (Turn.abort completedAt durationMs)).getD active
  | none => active

def handleTurnStarted (fresh : Fresh) (b : ThreadHistoryBuilder) (turnId : Text)
    (startedAt : Option ℤ) : ThreadHistoryBuilder :=
  let b := b.finishCurrentTurn
  { b with
    currentTurn := some
      { newTurn fresh b (some turnId) with
        status := .inProgress
        startedAt := startedAt
        openedExplicitly := true } }

def handleTurnComplete (b : ThreadHistoryBuilder) (turnId : Text)
    (completedAt durationMs : Option ℤ) : ThreadHistoryBuilder :=
  let active := (b.mapCurrentTurn (Turn.complete completedAt durationMs)).finishCurrentTurn
  if b.isCurrentTurn turnId then active
  else (b.mapFinishedTurn turnId (Turn.complete completedAt durationMs)).getD active

def handleCompacted (fresh : Fresh) (b : ThreadHistoryBuilder) : ThreadHistoryBuilder :=
  let (b, turn) := ensureTurn fresh b
  { b with currentTurn := some { turn with sawCompaction := true } }

/-- Memory holds fewer than `i64::MAX` items, so the count never saturates. -/
def handleThreadRollback (b : ThreadHistoryBuilder) (numTurns : ℕ) : ThreadHistoryBuilder :=
  let b := b.finishCurrentTurn
  let turns :=
    if b.turns.length ≤ numTurns then [] else b.turns.take (b.turns.length - numTurns)
  let itemCount := (turns.map fun turn => turn.items.length).sum
  { b with turns := turns, nextItemIndex := itemCount + 1 }

/-! ## Rollout items -/

def handleEvent (fresh : Fresh) (b : ThreadHistoryBuilder) : EventMsg → ThreadHistoryBuilder
  | .userMessage message images textElements localImages =>
    handleUserMessage fresh b message images textElements localImages
  | .agentMessage message phase => handleAgentMessage fresh b message phase
  | .agentReasoning text => handleAgentReasoning fresh b text
  | .agentReasoningRawContent text => handleAgentReasoningRawContent fresh b text
  | .webSearchBegin callId => upsertItemInCurrentTurn fresh b (.webSearch callId [] none)
  | .webSearchEnd callId query action =>
    upsertItemInCurrentTurn fresh b (.webSearch callId query (some action))
  | .execCommandBegin callId turnId =>
    b.upsertItemInTurnId turnId (buildCommandExecutionBeginItem callId)
  | .execCommandEnd callId turnId status aggregatedOutput exitCode =>
    b.upsertItemInTurnId turnId
      (buildCommandExecutionEndItem callId status aggregatedOutput exitCode)
  | .guardianAssessment payload => handleGuardianAssessment fresh b payload
  | .applyPatchApprovalRequest callId turnId =>
    upsertItem fresh b turnId (.fileChange callId .inProgress)
  | .patchApplyBegin callId turnId => upsertItem fresh b turnId (.fileChange callId .inProgress)
  | .patchApplyEnd callId turnId status =>
    upsertItem fresh b turnId (.fileChange callId status.shown)
  | .dynamicToolCallRequest callId turnId namespace_ tool =>
    upsertItem fresh b turnId (dynamicToolCallRequestItem callId namespace_ tool)
  | .dynamicToolCallResponse callId turnId namespace_ tool success =>
    upsertItem fresh b turnId (dynamicToolCallResponseItem callId namespace_ tool success)
  | .mcpToolCallBegin callId server tool =>
    upsertItemInCurrentTurn fresh b (.mcpToolCall callId server tool .inProgress none)
  | .mcpToolCallEnd callId server tool result =>
    upsertItemInCurrentTurn fresh b (mcpToolCallEndItem callId server tool result)
  | .viewImageToolCall callId path => upsertItemInCurrentTurn fresh b (.imageView callId path)
  | .imageGenerationBegin callId =>
    upsertItemInCurrentTurn fresh b (.imageGeneration callId [] none [])
  | .imageGenerationEnd callId status revisedPrompt result =>
    upsertItemInCurrentTurn fresh b (.imageGeneration callId status revisedPrompt result)
  | .collab payload => upsertItemInCurrentTurn fresh b (collabItem payload)
  | .contextCompacted => pushNumbered fresh b .contextCompaction
  | .enteredReviewMode userFacingHint =>
    pushNumbered fresh b
      (.enteredReviewMode · (userFacingHint.getD "Review requested.".toList))
  | .exitedReviewMode overallExplanation =>
    pushNumbered fresh b
      (.exitedReviewMode ·
        ((overallExplanation.map renderReviewOutputText).getD REVIEW_FALLBACK_MESSAGE))
  | .itemStarted turnId item => b.handleItem turnId item
  | .itemCompleted turnId item => b.handleItem turnId item
  | .error message codexErrorInfo => b.handleError message codexErrorInfo
  | .threadRolledBack numTurns => b.handleThreadRollback numTurns
  | .turnAborted turnId completedAt durationMs => b.handleTurnAborted turnId completedAt durationMs
  | .turnStarted turnId startedAt => handleTurnStarted fresh b turnId startedAt
  | .turnComplete turnId completedAt durationMs =>
    b.handleTurnComplete turnId completedAt durationMs
  | .other => b

def hookPromptFragment (fromXmlStr : Text → Option HookPromptFragment) :
    ContentItem → Option HookPromptFragment
  | .inputText text =>
    (fromXmlStr (trim text)).filter fun fragment => trim fragment.hookRunId ≠ []
  | _ => none

def parseHookPromptMessage (fromXmlStr : Text → Option HookPromptFragment) (fresh : Fresh)
    (id : Option Text) (content : List ContentItem) :
    Option (Text × List HookPromptFragment) :=
  match content.mapM (hookPromptFragment fromXmlStr) with
  | some fragments =>
    if fragments = [] then none else some (id.getD fresh.hookPromptId.text, fragments)
  | none => none

def handleResponseItem (fromXmlStr : Text → Option HookPromptFragment) (fresh : Fresh)
    (b : ThreadHistoryBuilder) : ResponseItem → ThreadHistoryBuilder
  | .message id role content _ =>
    if role = USER then
      match parseHookPromptMessage fromXmlStr fresh id content with
      | some (id, fragments) => push fresh b (.hookPrompt id fragments)
      | none => b
    else b
  | _ => b

def handleRolloutItem (fromXmlStr : Text → Option HookPromptFragment) (fresh : Fresh)
    (b : ThreadHistoryBuilder) (item : RolloutItem) : ThreadHistoryBuilder :=
  let b :=
    { b with
      currentRolloutIndex := b.nextRolloutIndex
      nextRolloutIndex := b.nextRolloutIndex + 1 }
  match item with
  | .eventMsg event => handleEvent fresh b event
  | .compacted _ => handleCompacted fresh b
  | .responseItem item => handleResponseItem fromXmlStr fresh b item
  | .turnContext => b
  | .sessionMeta => b

def finish (b : ThreadHistoryBuilder) : List Turn := b.finishCurrentTurn.turns

end ThreadHistoryBuilder

end Codex.ThreadHistory
