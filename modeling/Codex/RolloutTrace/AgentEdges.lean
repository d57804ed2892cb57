import Codex.RolloutTrace.Reconcile

/-!
# Interaction edges of agents

A message to another agent is announced by the runtime events of the sender's tool call. Its
edge is linked to the item of the recipient's thread that shows the message: either the
announcement finds an item no edge is linked to, or the edge waits for a sighting.
-/

namespace Codex.RolloutTrace

open Foundation

inductive ToolCallKind where
  | execCommand
  | writeStdin
  | applyPatch
  | mcp
  | web
  | imageGeneration
  | spawnAgent
  | assignAgentTask
  | sendMessage
  | waitAgent
  | closeAgent
  | other
deriving DecidableEq

inductive InteractionEdgeKind where
  | spawnAgent
  | assignAgentTask
  | sendMessage
  | agentResult
  | closeAgent
deriving DecidableEq

inductive TraceAnchor where
  | toolCall (toolCallId : Text)
  | conversationItem (itemId : Text)
  | thread (threadId : Text)
deriving DecidableEq

/-- What an edge delivers: the fields that two announcements must agree in. -/
structure AgentDelivery where
  edgeId : Text
  kind : InteractionEdgeKind
  source : TraceAnchor
  targetThreadId : Text
  messageContent : Text
  unresolvedSpawnThreadId : Option Text
deriving DecidableEq

structure PendingAgentInteractionEdge extends AgentDelivery where
  startedAtUnixMs : ℤ
  endedAtUnixMs : Option ℤ
  carriedRawPayloadIds : List Text
deriving DecidableEq

structure InteractionEdge where
  edgeId : Text
  kind : InteractionEdgeKind
  source : TraceAnchor
  target : TraceAnchor
  startedAtUnixMs : ℤ
  endedAtUnixMs : Option ℤ
  carriedItemIds : List Text
  carriedRawPayloadIds : List Text
deriving DecidableEq

structure AgentThread where
  agentPath : Text
  conversationItemIds : List Text
deriving DecidableEq

structure AgentToolCall where
  kind : ToolCallKind
  startedAtUnixMs : ℤ
  rawInvocationPayloadId : Option Text
  rawRuntimePayloadIds : List Text
  rawResultPayloadId : Option Text
deriving DecidableEq

structure InterAgentCommunication where
  recipient : Text
  content : Text
deriving DecidableEq

/-- What the agent edges depend on. `announced` are the deliveries announced so far. -/
structure AgentTrace where
  threads : Entries AgentThread
  conversationItems : Entries ConversationItem
  nextConversationItemOrdinal : ℕ
  toolCalls : Entries AgentToolCall
  interactionEdges : Entries InteractionEdge
  pendingAgentInteractionEdges : List PendingAgentInteractionEdge
  announced : List AgentDelivery

def pushUnique (items : List Text) (item : Text) : List Text :=
  if item ∈ items then items else items ++ [item]

def extendUnique (items newItems : List Text) : List Text := newItems.foldl pushUnique items

def toolEdgeId (toolCallId : Text) : Text := "edge:tool:".toList ++ toolCallId

def laterEnd : Option ℤ → Option ℤ → Option ℤ
  | some existing, some new => some (max existing new)
  | none, new => new
  | existing, none => existing

def conflictingEndpoints (edgeId : Text) : Failure :=
  .bail ("interaction edge ".toList ++ edgeId ++
    " was observed with conflicting endpoints".toList)

def conflictingDelivery (edgeId : Text) : Failure :=
  .bail ("pending interaction edge ".toList ++ edgeId ++
    " was observed with conflicting delivery data".toList)

namespace AgentTrace

section
variable (parse : Text → Option InterAgentCommunication) (s : AgentTrace)

def interAgentMessageFields (item : ConversationItem) : Option (Text × Text) :=
  if item.role = .assistant ∧ item.kind = .message then
    match item.body with
    | [.text text] => (parse text).map fun communication =>
      (communication.recipient, communication.content)
    | _ => none
  else none

def interAgentMessageItem (itemId : Text) : Option (Text × Text) := do
  let item ← getEntry itemId s.conversationItems
  let (recipientAgentPath, messageContent) ← interAgentMessageFields parse item
  let thread ← getEntry item.threadId s.threads
  if recipientAgentPath = thread.agentPath then some (item.threadId, messageContent) else none

def isInteractionEdgeTargetItem (itemId : Text) : Bool :=
  s.interactionEdges.any fun e => e.2.target = .conversationItem itemId

def findUnlinkedInterAgentMessageItem (threadId messageContent : Text) : Option Text := do
  let thread ← getEntry threadId s.threads
  thread.conversationItemIds.find? fun itemId =>
    !s.isInteractionEdgeTargetItem itemId &&
      (s.interAgentMessageItem parse itemId).any fun message => message.2 = messageContent

/-! ## Edges -/

def upsertInteractionEdge (edge : InteractionEdge) : Reduced AgentTrace :=
  match getEntry edge.edgeId s.interactionEdges with
  | some existing =>
    if existing.kind ≠ edge.kind ∨ existing.source ≠ edge.source ∨
        existing.target ≠ edge.target then
      .error (conflictingEndpoints edge.edgeId)
    else .ok { s with
      interactionEdges := setEntry edge.edgeId
        { existing with
          startedAtUnixMs := min existing.startedAtUnixMs edge.startedAtUnixMs
          endedAtUnixMs := laterEnd existing.endedAtUnixMs edge.endedAtUnixMs
          carriedItemIds := extendUnique existing.carriedItemIds edge.carriedItemIds
          carriedRawPayloadIds :=
            extendUnique existing.carriedRawPayloadIds edge.carriedRawPayloadIds }
        s.interactionEdges }
  | none =>
    .ok { s with interactionEdges := setEntry edge.edgeId edge s.interactionEdges }

def upsertAgentInteractionEdgeForItem (pending : PendingAgentInteractionEdge)
    (targetItemId : Text) : Reduced AgentTrace :=
  s.upsertInteractionEdge
    ⟨pending.edgeId, pending.kind, pending.source, .conversationItem targetItemId,
      pending.startedAtUnixMs, pending.endedAtUnixMs, [targetItemId],
      pending.carriedRawPayloadIds⟩

def resolvePendingAgentEdgesForItem (itemId : Text) : Reduced AgentTrace :=
  match s.interAgentMessageItem parse itemId with
  | none => .ok s
  | some (threadId, messageContent) =>
    let waits (pending : PendingAgentInteractionEdge) : Bool :=
      pending.targetThreadId = threadId && pending.messageContent = messageContent
    match s.pendingAgentInteractionEdges.find? waits with
    | none => .ok s
    | some pending =>
      AgentTrace.upsertAgentInteractionEdgeForItem
        { s with
          pendingAgentInteractionEdges := s.pendingAgentInteractionEdges.eraseP waits }
        pending itemId

def mergePending (existing pending : PendingAgentInteractionEdge) : PendingAgentInteractionEdge :=
  { existing with
    startedAtUnixMs := min existing.startedAtUnixMs pending.startedAtUnixMs
    endedAtUnixMs := laterEnd existing.endedAtUnixMs pending.endedAtUnixMs
    carriedRawPayloadIds :=
      extendUnique existing.carriedRawPayloadIds pending.carriedRawPayloadIds }

def queueOrResolveAgentInteractionEdge (pending : PendingAgentInteractionEdge) :
    Reduced AgentTrace :=
  match s.findUnlinkedInterAgentMessageItem parse pending.targetThreadId pending.messageContent with
  | some itemId => s.upsertAgentInteractionEdgeForItem pending itemId
  | none =>
    let same (existing : PendingAgentInteractionEdge) : Bool := existing.edgeId = pending.edgeId
    match s.pendingAgentInteractionEdges.find? same with
    | some existing =>
      if existing.toAgentDelivery ≠ pending.toAgentDelivery then
        .error (conflictingDelivery pending.edgeId)
      else .ok { s with
        pendingAgentInteractionEdges :=
          s.pendingAgentInteractionEdges.modify
            (s.pendingAgentInteractionEdges.findIdx same)
            fun existing => mergePending existing pending }
    | none =>
      .ok { s with
        pendingAgentInteractionEdges := s.pendingAgentInteractionEdges ++ [pending] }

/-! ## Announcements -/

def announce (pending : PendingAgentInteractionEdge) : Reduced AgentTrace := do
  let s' ← s.queueOrResolveAgentInteractionEdge parse pending
  return { s' with
    announced :=
      if pending.toAgentDelivery ∈ s'.announced then s'.announced
      else s'.announced ++ [pending.toAgentDelivery] }

def agentToolPayloadIds (toolCall : AgentToolCall) : List Text :=
  extendUnique (extendUnique (extendUnique [] toolCall.rawInvocationPayloadId.toList)
    toolCall.rawRuntimePayloadIds) toolCall.rawResultPayloadId.toList

def messageDelivery (toolCallId : Text) (kind : InteractionEdgeKind)
    (targetThreadId messageContent : Text) : AgentDelivery :=
  ⟨toolEdgeId toolCallId, kind, .toolCall toolCallId, targetThreadId, messageContent, none⟩

def queueMessageAgentInteraction (toolCallId : Text) (toolCall : AgentToolCall)
    (kind : InteractionEdgeKind) (targetThreadId messageContent : Text)
    (endedAtUnixMs : Option ℤ) : Reduced AgentTrace :=
  s.announce parse ⟨messageDelivery toolCallId kind targetThreadId messageContent,
    toolCall.startedAtUnixMs, endedAtUnixMs, agentToolPayloadIds toolCall⟩

/-- The kinds whose runtime events announce a message. -/
def messageEdgeKind : ToolCallKind → Option InteractionEdgeKind
  | .assignAgentTask => some .assignAgentTask
  | .sendMessage => some .sendMessage
  | _ => none

/-- A runtime event of a tool call: its payload is kept, and a message announced. `end` has a
time, `begin` has none. -/
def observeToolRuntime (toolCallId runtimePayloadId receiverThreadId prompt : Text)
    (endedAtUnixMs : Option ℤ) : Reduced AgentTrace :=
  match getEntry toolCallId s.toolCalls with
  | none =>
    bail ((if endedAtUnixMs = none then "tool runtime start referenced unknown call "
      else "tool runtime end referenced unknown call ").toList ++ toolCallId)
  | some toolCall =>
    let toolCall := { toolCall with
      rawRuntimePayloadIds := pushUnique toolCall.rawRuntimePayloadIds runtimePayloadId }
    let s := { s with toolCalls := setEntry toolCallId toolCall s.toolCalls }
    match messageEdgeKind toolCall.kind with
    | none => .ok s
    | some kind =>
      s.queueMessageAgentInteraction parse toolCallId toolCall kind receiverThreadId prompt
        endedAtUnixMs

def storeItem (threadId : Text) (thread : AgentThread) (codexTurnId : Option Text)
    (firstSeenAtUnixMs : ℤ) (n : NormalizedConversationItem) (producedBy : List ProducerRef) :
    AgentTrace :=
  let itemId := conversationItemId s.nextConversationItemOrdinal
  { s with
    conversationItems := setEntry itemId
      ⟨itemId, threadId, codexTurnId, firstSeenAtUnixMs, n.role, n.channel, n.kind, n.body,
        n.callId, producedBy⟩ s.conversationItems
    nextConversationItemOrdinal := s.nextConversationItemOrdinal + 1
    threads := setEntry threadId
      { thread with conversationItemIds := thread.conversationItemIds ++ [itemId] } s.threads }

/-- A payload shows an item for the first time. -/
def materialise (threadId : Text) (codexTurnId : Option Text) (firstSeenAtUnixMs : ℤ)
    (n : NormalizedConversationItem) (producedBy : List ProducerRef) : Reduced AgentTrace :=
  match getEntry threadId s.threads with
  | none => bail ("trace event referenced unknown thread ".toList ++ threadId)
  | some thread =>
    (s.storeItem threadId thread codexTurnId firstSeenAtUnixMs n
      producedBy).resolvePendingAgentEdgesForItem parse
        (conversationItemId s.nextConversationItemOrdinal)

def resight (itemId : Text) : Reduced AgentTrace :=
  if (getEntry itemId s.conversationItems).isNone then
    bail ("conversation item ".toList ++ itemId ++
      " was referenced before it was created".toList)
  else s.resolvePendingAgentEdgesForItem parse itemId

end

/-- What a replay meets. `announced` is the end of a spawn or the result of an agent, whose
edges are announced once. -/
inductive Event where
  | threadStarted (threadId agentPath : Text)
  | toolCallStarted (toolCallId : Text) (toolCall : AgentToolCall)
  | itemAppeared (threadId : Text) (codexTurnId : Option Text) (firstSeenAtUnixMs : ℤ)
      (item : NormalizedConversationItem) (producedBy : List ProducerRef)
  | itemShownAgain (itemId : Text)
  | runtimeBegin (toolCallId runtimePayloadId receiverThreadId prompt : Text)
  | runtimeEnd (toolCallId runtimePayloadId receiverThreadId prompt : Text) (wallTimeUnixMs : ℤ)
  | announced (pending : PendingAgentInteractionEdge)

def step (parse : Text → Option InterAgentCommunication) (s : AgentTrace) :
    Event → Reduced AgentTrace
  | .threadStarted threadId agentPath =>
    if (getEntry threadId s.threads).isSome then
      bail ("duplicate thread start for ".toList ++ threadId)
    else .ok { s with threads := setEntry threadId ⟨agentPath, []⟩ s.threads }
  | .toolCallStarted toolCallId toolCall =>
    if (getEntry toolCallId s.toolCalls).isSome then
      bail ("duplicate tool call start for ".toList ++ toolCallId)
    else .ok { s with toolCalls := setEntry toolCallId toolCall s.toolCalls }
  | .itemAppeared threadId codexTurnId firstSeenAtUnixMs item producedBy =>
    s.materialise parse threadId codexTurnId firstSeenAtUnixMs item producedBy
  | .itemShownAgain itemId => s.resight parse itemId
  | .runtimeBegin toolCallId runtimePayloadId receiverThreadId prompt =>
    s.observeToolRuntime parse toolCallId runtimePayloadId receiverThreadId prompt none
  | .runtimeEnd toolCallId runtimePayloadId receiverThreadId prompt wallTimeUnixMs =>
    s.observeToolRuntime parse toolCallId runtimePayloadId receiverThreadId prompt
      (some wallTimeUnixMs)
  | .announced pending => s.announce parse pending

def new : AgentTrace := ⟨[], [], 1, [], [], [], []⟩

end AgentTrace

end Codex.RolloutTrace
