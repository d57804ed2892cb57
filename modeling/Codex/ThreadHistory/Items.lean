import Codex.Session.RolloutReconstruction
import Codex.Foundation.Decimal
import Codex.Foundation.Lines

/-!
# Items of a thread and the events they come from

The thread that a client sees is a list of turns, each a list of items. Events of the
rollout carry ids of their own, for calls and for what is shown under its own id; the other
items are given one. What an event holds for display alone is left out.
-/

namespace Codex.ThreadHistory

open Foundation

/-! ## Items -/

/-- Written in hexadecimal digits and dashes. -/
structure Uuid where
  text : Text
  valid : text.all (fun c => c.isDigit || ('a' ≤ c && c ≤ 'f') || c = '-') = true

structure TextElement where
  start : ℕ
  stop : ℕ
  placeholder : Option Text
deriving DecidableEq

inductive UserInput where
  | text (text : Text) (textElements : List TextElement)
  | image (url : Text)
  | localImage (path : Text)
deriving DecidableEq

structure HookPromptFragment where
  text : Text
  hookRunId : Text
deriving DecidableEq

inductive CommandExecutionStatus where
  | inProgress
  | completed
  | failed
  | declined
deriving DecidableEq

inductive PatchApplyStatus where
  | inProgress
  | completed
  | failed
  | declined
deriving DecidableEq

inductive McpToolCallStatus where
  | inProgress
  | completed
  | failed
deriving DecidableEq

inductive DynamicToolCallStatus where
  | inProgress
  | completed
  | failed
deriving DecidableEq

inductive CollabAgentTool where
  | spawnAgent
  | sendInput
  | resumeAgent
  | wait
  | closeAgent
deriving DecidableEq

inductive CollabAgentToolCallStatus where
  | inProgress
  | completed
  | failed
deriving DecidableEq

inductive AgentStatus where
  | pendingInit
  | running
  | interrupted
  | completed (message : Option Text)
  | errored (message : Text)
  | shutdown
  | notFound
deriving DecidableEq

inductive ThreadItem where
  | userMessage (id : Text) (content : List UserInput)
  | hookPrompt (id : Text) (fragments : List HookPromptFragment)
  | agentMessage (id text : Text) (phase : Option MessagePhase)
  | plan (id text : Text)
  | reasoning (id : Text) (summary content : List Text)
  | commandExecution (id : Text) (status : CommandExecutionStatus) (aggregatedOutput : Option Text)
      (exitCode : Option ℤ)
  | fileChange (id : Text) (status : PatchApplyStatus)
  | mcpToolCall (id server tool : Text) (status : McpToolCallStatus) (error : Option Text)
  | dynamicToolCall (id : Text) (namespace_ : Option Text) (tool : Text)
      (status : DynamicToolCallStatus) (success : Option Bool)
  | collabAgentToolCall (id : Text) (tool : CollabAgentTool) (status : CollabAgentToolCallStatus)
      (senderThreadId : Text) (receiverThreadIds : List Text) (prompt : Option Text)
      (agentsStates : List (Text × AgentStatus))
  | webSearch (id query : Text) (action : Option Text)
  | imageView (id path : Text)
  | imageGeneration (id status : Text) (revisedPrompt : Option Text) (result : Text)
  | enteredReviewMode (id review : Text)
  | exitedReviewMode (id review : Text)
  | contextCompaction (id : Text)
deriving DecidableEq

def ThreadItem.id : ThreadItem → Text
  | .userMessage id _ => id
  | .hookPrompt id _ => id
  | .agentMessage id _ _ => id
  | .plan id _ => id
  | .reasoning id _ _ => id
  | .commandExecution id _ _ _ => id
  | .fileChange id _ => id
  | .mcpToolCall id _ _ _ _ => id
  | .dynamicToolCall id _ _ _ _ => id
  | .collabAgentToolCall id _ _ _ _ _ _ => id
  | .webSearch id _ _ => id
  | .imageView id _ => id
  | .imageGeneration id _ _ _ => id
  | .enteredReviewMode id _ => id
  | .exitedReviewMode id _ => id
  | .contextCompaction id => id

/-! ## Events -/

inductive TurnItem where
  | plan (id text : Text)
  | other
deriving DecidableEq

inductive GuardianAssessmentStatus where
  | inProgress
  | approved
  | denied
  | timedOut
  | aborted
deriving DecidableEq

inductive GuardianAssessmentAction where
  | command
  | execve
  | applyPatch
  | networkAccess
  | mcpToolCall
  | requestPermissions
deriving DecidableEq

structure GuardianAssessmentEvent where
  targetItemId : Option Text
  turnId : Text
  status : GuardianAssessmentStatus
  action : GuardianAssessmentAction
deriving DecidableEq

inductive ExecCommandStatus where
  | completed
  | failed
  | declined
deriving DecidableEq

inductive CorePatchApplyStatus where
  | completed
  | failed
  | declined
deriving DecidableEq

inductive CodexErrorInfo where
  | threadRollbackFailed
  | activeTurnNotSteerable
  | other
deriving DecidableEq

/-- A call of one agent tool. The thread it is about is known when the call begins, except
for a new one, and a wait is about several. -/
inductive CollabEvent where
  | agentSpawnBegin (callId senderThreadId prompt : Text)
  | agentSpawnEnd (callId senderThreadId : Text) (newThreadId : Option Text) (prompt : Text)
      (status : AgentStatus)
  | agentInteractionBegin (callId senderThreadId receiverThreadId prompt : Text)
  | agentInteractionEnd (callId senderThreadId receiverThreadId prompt : Text)
      (status : AgentStatus)
  | waitingBegin (callId senderThreadId : Text) (receiverThreadIds : List Text)
  | waitingEnd (callId senderThreadId : Text) (statuses : List (Text × AgentStatus))
  | closeBegin (callId senderThreadId receiverThreadId : Text)
  | closeEnd (callId senderThreadId receiverThreadId : Text) (status : AgentStatus)
  | resumeBegin (callId senderThreadId receiverThreadId : Text)
  | resumeEnd (callId senderThreadId receiverThreadId : Text) (status : AgentStatus)
deriving DecidableEq

/-- `other` are the events that change nothing here. -/
inductive EventMsg where
  | userMessage (message : Text) (images : Option (List Text)) (textElements : List TextElement)
      (localImages : List Text)
  | agentMessage (message : Text) (phase : Option MessagePhase)
  | agentReasoning (text : Text)
  | agentReasoningRawContent (text : Text)
  | webSearchBegin (callId : Text)
  | webSearchEnd (callId query action : Text)
  | execCommandBegin (callId turnId : Text)
  | execCommandEnd (callId turnId : Text) (status : ExecCommandStatus) (aggregatedOutput : Text)
      (exitCode : ℤ)
  | guardianAssessment (payload : GuardianAssessmentEvent)
  | applyPatchApprovalRequest (callId turnId : Text)
  | patchApplyBegin (callId turnId : Text)
  | patchApplyEnd (callId turnId : Text) (status : CorePatchApplyStatus)
  | dynamicToolCallRequest (callId turnId : Text) (namespace_ : Option Text) (tool : Text)
  | dynamicToolCallResponse (callId turnId : Text) (namespace_ : Option Text) (tool : Text)
      (success : Bool)
  | mcpToolCallBegin (callId server tool : Text)
  | mcpToolCallEnd (callId server tool : Text) (result : Except Text (Option Bool))
  | viewImageToolCall (callId path : Text)
  | imageGenerationBegin (callId : Text)
  | imageGenerationEnd (callId status : Text) (revisedPrompt : Option Text) (result : Text)
  | collab (payload : CollabEvent)
  | contextCompacted
  | enteredReviewMode (userFacingHint : Option Text)
  | exitedReviewMode (overallExplanation : Option Text)
  | itemStarted (turnId : Text) (item : TurnItem)
  | itemCompleted (turnId : Text) (item : TurnItem)
  | error (message : Text) (codexErrorInfo : Option CodexErrorInfo)
  | threadRolledBack (numTurns : ℕ)
  | turnAborted (turnId : Option Text) (completedAt durationMs : Option ℤ)
  | turnStarted (turnId : Text) (startedAt : Option ℤ)
  | turnComplete (turnId : Text) (completedAt durationMs : Option ℤ)
  | other

inductive RolloutItem where
  | eventMsg (event : EventMsg)
  | compacted (payload : CompactedItem)
  | responseItem (item : ResponseItem)
  | turnContext
  | sessionMeta

inductive TurnStatus where
  | completed
  | interrupted
  | failed
  | inProgress
deriving DecidableEq

structure Turn where
  id : Text
  items : List ThreadItem
  error : Option Text
  status : TurnStatus
  startedAt : Option ℤ
  completedAt : Option ℤ
  durationMs : Option ℤ
deriving DecidableEq

structure PendingTurn extends Turn where
  openedExplicitly : Bool
  sawCompaction : Bool
  rolloutStartIndex : ℕ
deriving DecidableEq

end Codex.ThreadHistory
