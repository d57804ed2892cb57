import Codex.Foundation.Table
import Codex.RolloutTrace.Replay
import Mathlib.Data.List.Sort

/-!
# Code cells

A code cell starts once the conversation item that asks for it is there. A start that comes
before waits, and so do the events of its lifecycle; both are taken up when a request, a
response or a compaction brings the item.
-/

namespace Codex.RolloutTrace

open Foundation

inductive CodeCellRuntimeStatus where
  | starting
  | running
  | yielded
  | completed
  | failed
  | terminated
deriving DecidableEq

structure ExecutionWindow where
  startedAtUnixMs : ℤ
  startedSeq : ℕ
  endedAtUnixMs : Option ℤ
  endedSeq : Option ℕ
  status : ExecutionStatus
deriving DecidableEq

structure CodeCell where
  codeCellId : Text
  modelVisibleCallId : Text
  threadId : Text
  codexTurnId : Text
  sourceItemId : Text
  outputItemIds : List Text
  runtimeCellId : Option Text
  execution : ExecutionWindow
  runtimeStatus : CodeCellRuntimeStatus
  initialResponseAtUnixMs : Option ℤ
  initialResponseSeq : Option ℕ
  yieldedAtUnixMs : Option ℤ
  yieldedSeq : Option ℕ
  sourceJs : Text
deriving DecidableEq

structure StartedCodeCell where
  codeCellId : Text
  runtimeCellId : Text
  modelVisibleCallId : Text
  sourceJs : Text
deriving DecidableEq

structure PendingCodeCellStart where
  seq : ℕ
  wallTimeUnixMs : ℤ
  threadId : Text
  codexTurnId : Option Text
  started : StartedCodeCell
deriving DecidableEq

inductive PendingCodeCellLifecycleEventKind where
  | initialResponse (runtimeCellId : Text) (status : CodeCellRuntimeStatus)
  | ended (status : CodeCellRuntimeStatus)
deriving DecidableEq

structure PendingCodeCellLifecycleEvent where
  seq : ℕ
  wallTimeUnixMs : ℤ
  kind : PendingCodeCellLifecycleEventKind
deriving DecidableEq

/-- The rest of the graph, as far as it is about code cells. -/
structure CodeCells where
  codeCells : Entries CodeCell
  codeCellIdsByRuntime : Table (Text × Text) Text
  pendingCodeCellStarts : Entries PendingCodeCellStart
  pendingCodeCellLifecycleEvents : Entries (List PendingCodeCellLifecycleEvent)

def CodeCells.empty : CodeCells := ⟨[], ∅, [], []⟩

def executionStatusForCodeCell : CodeCellRuntimeStatus → ExecutionStatus
  | .starting | .running | .yielded => .running
  | .completed => .completed
  | .failed => .failed
  | .terminated => .cancelled

def reducedCodeCellIdForModelVisibleCall (modelVisibleCallId : Text) : Text :=
  "code_cell:".toList ++ modelVisibleCallId

/-! ## Lifecycle -/

def CodeCell.respond (cell : CodeCell) (seq : ℕ) (wallTimeUnixMs : ℤ) (runtimeCellId : Text)
    (status : CodeCellRuntimeStatus) : CodeCell :=
  { cell with
    runtimeCellId := some runtimeCellId
    initialResponseAtUnixMs := cell.initialResponseAtUnixMs.or (some wallTimeUnixMs)
    initialResponseSeq :=
      if cell.initialResponseAtUnixMs.isNone then some seq else cell.initialResponseSeq
    yieldedAtUnixMs := if status = .yielded then some wallTimeUnixMs else cell.yieldedAtUnixMs
    yieldedSeq := if status = .yielded then some seq else cell.yieldedSeq
    runtimeStatus := status }

def CodeCell.finish (cell : CodeCell) (seq : ℕ) (wallTimeUnixMs : ℤ)
    (status : CodeCellRuntimeStatus) : CodeCell :=
  { cell with
    initialResponseAtUnixMs := cell.initialResponseAtUnixMs.or (some wallTimeUnixMs)
    initialResponseSeq :=
      if cell.initialResponseAtUnixMs.isNone then some seq else cell.initialResponseSeq
    execution := { cell.execution with
      endedAtUnixMs := some wallTimeUnixMs
      endedSeq := some seq
      status := executionStatusForCodeCell status }
    runtimeStatus := status }

namespace CodeCells

def recordCodeCellInitialResponse (g : CodeCells) (seq : ℕ) (wallTimeUnixMs : ℤ)
    (codeCellId runtimeCellId : Text) (status : CodeCellRuntimeStatus) : Reduced CodeCells :=
  match getEntry codeCellId g.codeCells with
  | none => bail ("code cell initial response referenced unknown cell ".toList ++ codeCellId)
  | some cell =>
    let cell := cell.respond seq wallTimeUnixMs runtimeCellId status
    .ok { g with codeCells := setEntry codeCellId cell g.codeCells }

def endCodeCell (g : CodeCells) (seq : ℕ) (wallTimeUnixMs : ℤ) (codeCellId : Text)
    (status : CodeCellRuntimeStatus) : Reduced CodeCells :=
  match getEntry codeCellId g.codeCells with
  | none => bail ("code cell end referenced unknown cell ".toList ++ codeCellId)
  | some cell =>
    let cell := cell.finish seq wallTimeUnixMs status
    .ok { g with codeCells := setEntry codeCellId cell g.codeCells }

def queueOf (g : CodeCells) (codeCellId : Text) : List PendingCodeCellLifecycleEvent :=
  (getEntry codeCellId g.pendingCodeCellLifecycleEvents).getD []

def queueCodeCellLifecycleEvent (g : CodeCells) (codeCellId : Text)
    (event : PendingCodeCellLifecycleEvent) : CodeCells :=
  let events := (g.queueOf codeCellId ++ [event]).insertionSort fun e e' => e.seq ≤ e'.seq
  { g with
    pendingCodeCellLifecycleEvents := setEntry codeCellId events g.pendingCodeCellLifecycleEvents }

def recordOrQueueCodeCellInitialResponse (g : CodeCells) (seq : ℕ) (wallTimeUnixMs : ℤ)
    (codeCellId runtimeCellId : Text) (status : CodeCellRuntimeStatus) : Reduced CodeCells :=
  if (getEntry codeCellId g.codeCells).isNone then
    if (getEntry codeCellId g.pendingCodeCellStarts).isSome then
      .ok (g.queueCodeCellLifecycleEvent codeCellId
        ⟨seq, wallTimeUnixMs, .initialResponse runtimeCellId status⟩)
    else bail ("code cell initial response referenced unknown cell ".toList ++ codeCellId)
  else g.recordCodeCellInitialResponse seq wallTimeUnixMs codeCellId runtimeCellId status

def endOrQueueCodeCell (g : CodeCells) (seq : ℕ) (wallTimeUnixMs : ℤ) (codeCellId : Text)
    (status : CodeCellRuntimeStatus) : Reduced CodeCells :=
  if (getEntry codeCellId g.codeCells).isNone then
    if (getEntry codeCellId g.pendingCodeCellStarts).isSome then
      .ok (g.queueCodeCellLifecycleEvent codeCellId ⟨seq, wallTimeUnixMs, .ended status⟩)
    else bail ("code cell end referenced unknown cell ".toList ++ codeCellId)
  else g.endCodeCell seq wallTimeUnixMs codeCellId status

def applyLifecycleEvent (codeCellId : Text) (g : CodeCells) (event : PendingCodeCellLifecycleEvent) :
    Reduced CodeCells :=
  match event.kind with
  | .initialResponse runtimeCellId status =>
    g.recordCodeCellInitialResponse event.seq event.wallTimeUnixMs codeCellId runtimeCellId status
  | .ended status => g.endCodeCell event.seq event.wallTimeUnixMs codeCellId status

def flushPendingCodeCellLifecycleEvents (g : CodeCells) (codeCellId : Text) : Reduced CodeCells :=
  match getEntry codeCellId g.pendingCodeCellLifecycleEvents with
  | none => .ok g
  | some events =>
    events.foldlM (applyLifecycleEvent codeCellId)
      { g with
        pendingCodeCellLifecycleEvents := removeEntry codeCellId g.pendingCodeCellLifecycleEvents }

def interruptedStatus : ExecutionStatus → Option CodeCellRuntimeStatus
  | .running => none
  | .completed => none
  | .failed => some .failed
  | .cancelled => some .terminated
  | .aborted => some .terminated

def terminateRunningCodeCellsForTurnEnd (g : CodeCells) (seq : ℕ) (wallTimeUnixMs : ℤ)
    (codexTurnId : Text) (turnStatus : ExecutionStatus) : CodeCells :=
  match interruptedStatus turnStatus with
  | none => g
  | some runtimeStatus =>
    { g with
      codeCells := mapEntries (fun cell : CodeCell =>
        if cell.codexTurnId = codexTurnId ∧ cell.execution.status = .running then
          cell.finish seq wallTimeUnixMs runtimeStatus
        else cell) g.codeCells }

def recordRuntimeCodeCellId (g : CodeCells) (threadId runtimeCellId codeCellId : Text) :
    Reduced CodeCells :=
  match g.codeCellIdsByRuntime.lookup (threadId, runtimeCellId) with
  | some existing =>
    if existing = codeCellId then .ok g
    else
      bail ("runtime code cell ".toList ++ runtimeCellId ++ " in thread ".toList ++ threadId ++
        " mapped to both ".toList ++ existing ++ " and ".toList ++ codeCellId)
  | none =>
    .ok { g with
      codeCellIdsByRuntime := g.codeCellIdsByRuntime.insert (threadId, runtimeCellId) codeCellId }

def codeCellIdForRuntimeCellId (g : CodeCells) (threadId runtimeCellId eventName : Text) :
    Reduced Text :=
  match g.codeCellIdsByRuntime.lookup (threadId, runtimeCellId) with
  | some codeCellId => .ok codeCellId
  | none =>
    bail (eventName ++ " referenced unknown runtime cell ".toList ++ runtimeCellId ++
      " in thread ".toList ++ threadId)

def attachModelVisibleCodeCellItem (g : CodeCells) (itemId : Text) (callId : Option Text)
    (kind : ConversationItemKind) : CodeCells × List (Text × ProducerRef) :=
  match callId with
  | none => (g, [])
  | some callId =>
    if kind ≠ .customToolCallOutput then (g, [])
    else
      let codeCellId := reducedCodeCellIdForModelVisibleCall callId
      match getEntry codeCellId g.codeCells with
      | none => (g, [])
      | some cell =>
        let outputItemIds :=
          if itemId ∈ cell.outputItemIds then cell.outputItemIds
          else cell.outputItemIds ++ [itemId]
        let cell := { cell with outputItemIds }
        ({ g with codeCells := setEntry codeCellId cell g.codeCells },
          [(itemId, .codeCell codeCellId)])

end CodeCells

/-! ## Starts -/

namespace Reducer

def modelVisibleCodeCellItemIds (r : Reducer CodeCells) (threadId callId : Text)
    (kind : ConversationItemKind) : List Text :=
  (r.conversationItems.filter fun e => e.2.threadId = threadId && e.2.callId = some callId &&
    e.2.kind = kind).map fun e => e.2.itemId

def sourceItemIdForPendingCodeCell (r : Reducer CodeCells) (pending : PendingCodeCellStart) :
    Option Text :=
  (r.modelVisibleCodeCellItemIds pending.threadId pending.started.modelVisibleCallId
    .customToolCall).head?

def validateCodeCellTurn (r : Reducer CodeCells) (threadId codexTurnId : Text) : Reduced Unit :=
  if (getEntry threadId r.threads).isNone then
    bail ("code cell start referenced unknown thread ".toList ++ threadId)
  else do
    let owner ← r.turnThread codexTurnId
      "code cell start referenced unknown Codex turn ".toList
    if owner ≠ threadId then
      bail ("code cell start used thread ".toList ++ threadId ++ ", but Codex turn ".toList ++
        codexTurnId ++ " belongs to ".toList ++ owner)
    else return ()

def sourceItemIdForCodeCellStart (r : Reducer CodeCells)
    (threadId codeCellId modelVisibleCallId : Text) : Reduced Text :=
  match (r.modelVisibleCodeCellItemIds threadId modelVisibleCallId .customToolCall).head? with
  | some sourceItemId => .ok sourceItemId
  | none =>
    bail ("code cell ".toList ++ codeCellId ++ " referenced model-visible call ".toList ++
      modelVisibleCallId ++ ", but no custom tool call item was observed".toList)

def startedCell (pending : PendingCodeCellStart) (codexTurnId sourceItemId : Text)
    (outputItemIds : List Text) : CodeCell where
  codeCellId := pending.started.codeCellId
  modelVisibleCallId := pending.started.modelVisibleCallId
  threadId := pending.threadId
  codexTurnId
  sourceItemId
  outputItemIds
  runtimeCellId := some pending.started.runtimeCellId
  execution := ⟨pending.wallTimeUnixMs, pending.seq, none, none, .running⟩
  runtimeStatus := .starting
  initialResponseAtUnixMs := none
  initialResponseSeq := none
  yieldedAtUnixMs := none
  yieldedSeq := none
  sourceJs := pending.started.sourceJs

def startCodeCell (r : Reducer CodeCells) (pending : PendingCodeCellStart) :
    Reduced (CodeCells × List (Text × ProducerRef)) :=
  let codeCellId := pending.started.codeCellId
  if (getEntry codeCellId r.graph.codeCells).isSome then
    bail ("duplicate code cell start for ".toList ++ codeCellId)
  else
    match pending.codexTurnId with
    | none =>
      bail ("code cell start ".toList ++ codeCellId ++ " did not include a Codex turn id".toList)
    | some codexTurnId => do
      r.validateCodeCellTurn pending.threadId codexTurnId
      let sourceItemId ← r.sourceItemIdForCodeCellStart pending.threadId codeCellId
        pending.started.modelVisibleCallId
      let outputItemIds := r.modelVisibleCodeCellItemIds pending.threadId
        pending.started.modelVisibleCallId .customToolCallOutput
      let cell := startedCell pending codexTurnId sourceItemId outputItemIds
      let g : CodeCells := { r.graph with codeCells := setEntry codeCellId cell r.graph.codeCells }
      let g ← g.flushPendingCodeCellLifecycleEvents codeCellId
      return (g, outputItemIds.map fun itemId => (itemId, .codeCell codeCellId))

def startOrQueueCodeCell (r : Reducer CodeCells) (pending : PendingCodeCellStart) :
    Reduced (CodeCells × List (Text × ProducerRef)) :=
  let codeCellId := pending.started.codeCellId
  if (r.sourceItemIdForPendingCodeCell pending).isNone then
    if (getEntry codeCellId r.graph.codeCells).isSome ||
        (getEntry codeCellId r.graph.pendingCodeCellStarts).isSome then
      bail ("duplicate code cell start for ".toList ++ codeCellId)
    else
      .ok ({ r.graph with
        pendingCodeCellStarts := setEntry codeCellId pending r.graph.pendingCodeCellStarts }, [])
  else r.startCodeCell pending

def flushStart (r : Reducer CodeCells) (state : CodeCells × List (Text × ProducerRef))
    (codeCellId : Text) : Reduced (CodeCells × List (Text × ProducerRef)) :=
  match getEntry codeCellId state.1.pendingCodeCellStarts with
  | none => .ok state
  | some pending => do
    let (g, links) ← startCodeCell
      { r with
        graph := { state.1 with
          pendingCodeCellStarts := removeEntry codeCellId state.1.pendingCodeCellStarts } }
      pending
    return (g, state.2 ++ links)

def flushPendingCodeCellStarts (r : Reducer CodeCells) :
    Reduced (CodeCells × List (Text × ProducerRef)) :=
  let readyIds := (r.graph.pendingCodeCellStarts.filter fun e =>
    (r.sourceItemIdForPendingCodeCell e.2).isSome).map Prod.fst
  readyIds.foldlM r.flushStart (r.graph, [])

def codeCellEventThreadId (r : Reducer CodeCells) (threadId codexTurnId : Option Text)
    (runtimeCellId eventName : Text) : Reduced Text :=
  match threadId, codexTurnId with
  | some threadId, _ => .ok threadId
  | none, none =>
    bail (eventName ++ " ".toList ++ runtimeCellId ++ " did not include a thread id".toList)
  | none, some codexTurnId =>
    r.turnThread codexTurnId (eventName ++ " ".toList ++ runtimeCellId ++
      " referenced unknown Codex turn ".toList)

end Reducer

/-- What is linked to an item besides code cells only gives it producers. -/
abbrev OtherLinks : Type :=
  Reducer CodeCells → Text → Option Text → ConversationItemKind →
    Reduced (List (Text × ProducerRef))

def codeCellLinking (otherLinks : OtherLinks) : Linking CodeCells where
  attach r itemId callId kind := do
    let links ← otherLinks r itemId callId kind
    let (g, links') := r.graph.attachModelVisibleCodeCellItem itemId callId kind
    return (g, links ++ links')
  flush := Reducer.flushPendingCodeCellStarts

/-! ## Events -/

/-- The events of a trace with code cells. `other` is one that touches nothing but the
producers of items and the graph outside of code cells. -/
inductive RolloutEvent where
  | threadStarted (threadId : Text)
  | codexTurnStarted (codexTurnId threadId : Text)
  | codexTurnEnded (seq : ℕ) (wallTimeUnixMs : ℤ) (threadId : Option Text) (codexTurnId : Text)
      (status : ExecutionStatus)
  | inferenceStarted (wallTimeUnixMs : ℤ) (started : StartedInferenceCall)
  | inferenceCompleted (wallTimeUnixMs : ℤ) (inferenceCallId : Text) (responseId : Option Text)
      (responsePayload : RawPayload)
  | inferenceFailed (wallTimeUnixMs : ℤ) (inferenceCallId : Text)
      (partialResponsePayload : Option RawPayload)
  | inferenceCancelled (wallTimeUnixMs : ℤ) (inferenceCallId : Text)
      (partialResponsePayload : Option RawPayload)
  | compactionInstalled (wallTimeUnixMs : ℤ) (threadId codexTurnId compactionId : Text)
      (checkpointPayload : RawPayload)
  | codeCellStarted (seq : ℕ) (wallTimeUnixMs : ℤ) (threadId codexTurnId : Option Text)
      (runtimeCellId modelVisibleCallId sourceJs : Text)
  | codeCellInitialResponse (seq : ℕ) (wallTimeUnixMs : ℤ) (threadId codexTurnId : Option Text)
      (runtimeCellId : Text) (status : CodeCellRuntimeStatus)
  | codeCellEnded (seq : ℕ) (wallTimeUnixMs : ℤ) (threadId codexTurnId : Option Text)
      (runtimeCellId : Text) (status : CodeCellRuntimeStatus)
  | other (act : Reducer CodeCells → Reduced (List (Text × ProducerRef)))

namespace Reducer

def endCodexTurnWithCells (r : Reducer CodeCells) (seq : ℕ) (wallTimeUnixMs : ℤ)
    (threadId : Option Text) (codexTurnId : Text) (status : ExecutionStatus) :
    Reduced (Reducer CodeCells) :=
  match threadId, getEntry codexTurnId r.codexTurns with
  | some eventThreadId, some owner =>
    if owner ≠ eventThreadId then
      bail ("codex turn end for ".toList ++ codexTurnId ++ " used thread ".toList ++
        eventThreadId ++ ", but the turn belongs to ".toList ++ owner)
    else close
  | _, _ => close
where
  close : Reduced (Reducer CodeCells) := do
    let r' ← r.endCodexTurn codexTurnId status
    return { r' with
      graph := r'.graph.terminateRunningCodeCellsForTurnEnd seq wallTimeUnixMs codexTurnId status }

def startCodeCellEvent (r : Reducer CodeCells) (seq : ℕ) (wallTimeUnixMs : ℤ)
    (threadId codexTurnId : Option Text) (runtimeCellId modelVisibleCallId sourceJs : Text) :
    Reduced (Reducer CodeCells) := do
  let threadId ← r.codeCellEventThreadId threadId codexTurnId runtimeCellId
    "code cell start".toList
  let codeCellId := reducedCodeCellIdForModelVisibleCall modelVisibleCallId
  let g ← r.graph.recordRuntimeCodeCellId threadId runtimeCellId codeCellId
  let links ← ({ r with graph := g } : Reducer CodeCells).startOrQueueCodeCell
    ⟨seq, wallTimeUnixMs, threadId, codexTurnId,
      ⟨codeCellId, runtimeCellId, modelVisibleCallId, sourceJs⟩⟩
  return r.linked links

def codeCellOfEvent (r : Reducer CodeCells) (threadId codexTurnId : Option Text)
    (runtimeCellId eventName : Text) : Reduced Text := do
  let threadId ← r.codeCellEventThreadId threadId codexTurnId runtimeCellId eventName
  r.graph.codeCellIdForRuntimeCellId threadId runtimeCellId eventName

variable (jsonText : JsonText) (otherLinks : OtherLinks)

def applyRolloutEvent (r : Reducer CodeCells) : RolloutEvent → Reduced (Reducer CodeCells)
  | .threadStarted threadId => r.startThread threadId
  | .codexTurnStarted codexTurnId threadId => r.startCodexTurn codexTurnId threadId
  | .codexTurnEnded seq wallTimeUnixMs threadId codexTurnId status =>
    r.endCodexTurnWithCells seq wallTimeUnixMs threadId codexTurnId status
  | .inferenceStarted wallTimeUnixMs started =>
    r.startInferenceCall jsonText (codeCellLinking otherLinks) wallTimeUnixMs started
  | .inferenceCompleted wallTimeUnixMs inferenceCallId responseId responsePayload =>
    r.completeInferenceCall jsonText (codeCellLinking otherLinks) wallTimeUnixMs inferenceCallId
      .completed responseId (some responsePayload)
  | .inferenceFailed wallTimeUnixMs inferenceCallId partialResponsePayload =>
    r.completeInferenceCall jsonText (codeCellLinking otherLinks) wallTimeUnixMs inferenceCallId
      .failed none partialResponsePayload
  | .inferenceCancelled wallTimeUnixMs inferenceCallId partialResponsePayload =>
    r.completeInferenceCall jsonText (codeCellLinking otherLinks) wallTimeUnixMs inferenceCallId
      .cancelled none partialResponsePayload
  | .compactionInstalled wallTimeUnixMs threadId codexTurnId compactionId checkpointPayload =>
    r.reduceCompactionInstalledEvent jsonText (codeCellLinking otherLinks) wallTimeUnixMs threadId
      codexTurnId compactionId checkpointPayload
  | .codeCellStarted seq wallTimeUnixMs threadId codexTurnId runtimeCellId modelVisibleCallId
      sourceJs =>
    r.startCodeCellEvent seq wallTimeUnixMs threadId codexTurnId runtimeCellId modelVisibleCallId
      sourceJs
  | .codeCellInitialResponse seq wallTimeUnixMs threadId codexTurnId runtimeCellId status => do
    let codeCellId ← r.codeCellOfEvent threadId codexTurnId runtimeCellId
      "code cell initial response".toList
    let g ← r.graph.recordOrQueueCodeCellInitialResponse seq wallTimeUnixMs codeCellId
      runtimeCellId status
    return { r with graph := g }
  | .codeCellEnded seq wallTimeUnixMs threadId codexTurnId runtimeCellId status => do
    let codeCellId ← r.codeCellOfEvent threadId codexTurnId runtimeCellId "code cell end".toList
    let g ← r.graph.endOrQueueCodeCell seq wallTimeUnixMs codeCellId status
    return { r with graph := g }
  | .other act => do
    let links ← act r
    return r.linked (r.graph, links)

end Reducer

/-- The reducer, and of each turn that was interrupted the cells and calls that had been
started when it ended. -/
structure TurnHistory where
  reducer : Reducer CodeCells
  abandonedCells : List (Text × Text)
  abandonedCalls : List Text

namespace TurnHistory

def new : TurnHistory := ⟨Reducer.new .empty, [], []⟩

def keysWhere {α : Type} (p : α → Bool) (l : Entries α) : List Text :=
  (l.map Prod.fst).filter fun k => (getEntry k l).any p

def cellsOf (r : Reducer CodeCells) (codexTurnId : Text) : List Text :=
  keysWhere (fun cell => cell.codexTurnId = codexTurnId) r.graph.codeCells ++
    keysWhere (fun pending => pending.codexTurnId = some codexTurnId) r.graph.pendingCodeCellStarts

def callsOf (r : Reducer CodeCells) (codexTurnId : Text) : List Text :=
  keysWhere (fun call => call.codexTurnId = codexTurnId) r.inferenceCalls

def interrupts : RolloutEvent → Option Text
  | .codexTurnEnded _ _ _ codexTurnId status =>
    if (CodeCells.interruptedStatus status).isSome then some codexTurnId else none
  | _ => none

def step (jsonText : JsonText) (otherLinks : OtherLinks) (s : TurnHistory) (event : RolloutEvent) :
    Reduced TurnHistory := do
  let reducer ← s.reducer.applyRolloutEvent jsonText otherLinks event
  match interrupts event with
  | none => return { s with reducer }
  | some codexTurnId =>
    return ⟨reducer, (cellsOf s.reducer codexTurnId).map (codexTurnId, ·) ++ s.abandonedCells,
      callsOf s.reducer codexTurnId ++ s.abandonedCalls⟩

end TurnHistory

end Codex.RolloutTrace
