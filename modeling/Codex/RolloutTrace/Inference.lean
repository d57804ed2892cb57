import Codex.RolloutTrace.Reconcile

/-!
# Inference calls

The reduction of inference requests and responses, of the turn end that closes calls, and
of installed compactions.
-/

namespace Codex.RolloutTrace

open Foundation

/-- The fields of a request payload: its items and the response it continues. -/
structure RequestPayload where
  items : List NormalizedConversationItem
  previousResponseId : Option Text

structure StartedInferenceCall where
  inferenceCallId : Text
  threadId : Text
  codexTurnId : Text
  requestPayload : RawPayload

structure ReducedCompactionCheckpoint where
  inputItemIds : List Text
  markerItemId : Text
  replacementItemIds : List Text

def requestPayload (jsonText : JsonText) (payload : RawPayload) : Reduced RequestPayload := do
  let json ← payload.json
  match json.get "input".toList with
  | none => bail ("inference request payload ".toList ++ payload.rawPayloadId ++
      " did not contain input".toList)
  | some input =>
    match input.asArray with
    | none => bail ("inference request payload ".toList ++ payload.rawPayloadId ++
        " had non-array input".toList)
    | some requestItems =>
      let items ← normalizeModelItems jsonText requestItems payload.rawPayloadId
      return ⟨items, strField json "previous_response_id"⟩

def requiredArray (json : Json) (key : String) (rawPayloadId : Text) : Reduced (List Json) :=
  match (json.get key.toList).bind Json.asArray with
  | some items => .ok items
  | none => bail ("compaction checkpoint payload ".toList ++ rawPayloadId ++
      " did not contain array ".toList ++ key.toList)

def closedStatus : ExecutionStatus → Option ExecutionStatus
  | .running => none
  | .completed => some .cancelled
  | .cancelled => some .cancelled
  | .failed => some .failed
  | .aborted => some .aborted

namespace Reducer
variable {G : Type} (jsonText : JsonText) (linking : Linking G)

/-! ## Requests -/

def previousItems (r : Reducer G) (threadId previousResponseId : Text) : Option (List Text) :=
  (r.inferenceCalls.find? fun e => e.2.threadId = threadId &&
    e.2.upstreamRequestId = some previousResponseId).map fun e =>
      e.2.requestItemIds ++ e.2.responseItemIds

def comparedSnapshot (r : Reducer G) (threadId : Text) : List Text :=
  (getEntry threadId r.pendingCompactionReplacementItemIds).getD (r.snapshotOf threadId)

def reconcileRequest (r : Reducer G) (wallTimeUnixMs : ℤ)
    (inferenceCallId threadId codexTurnId : Text) (request : RequestPayload) :
    Reduced (Reducer G × List Text) :=
  match request.previousResponseId with
  | some previousResponseId =>
    match r.previousItems threadId previousResponseId with
    | none => bail ("incremental inference request ".toList ++ inferenceCallId ++
        " referenced unknown previous_response_id ".toList ++ previousResponseId)
    | some itemIds => do
      let (r, deltaItemIds) ← r.reconcileConversationItems linking request.items
        ⟨threadId, codexTurnId, wallTimeUnixMs, [], itemIds.length, .appendOnly, none⟩
      return (r, itemIds ++ deltaItemIds)
  | none => r.reconcileConversationItems linking request.items
      ⟨threadId, codexTurnId, wallTimeUnixMs, [], 0, .fullSnapshot,
        getEntry threadId r.pendingCompactionReplacementItemIds⟩

def installSnapshot (r : Reducer G) (threadId : Text) (full : Bool) (itemIds : List Text) :
    Reducer G :=
  { r with
    pendingCompactionReplacementItemIds :=
      if full then removeEntry threadId r.pendingCompactionReplacementItemIds
      else r.pendingCompactionReplacementItemIds
    threadConversationSnapshots := setEntry threadId itemIds r.threadConversationSnapshots }

def reduceInferenceRequest (r : Reducer G) (wallTimeUnixMs : ℤ)
    (inferenceCallId threadId codexTurnId : Text) (payload : RawPayload) :
    Reduced (Reducer G × List Text) := do
  let request ← requestPayload jsonText payload
  let (r, requestItemIds) ←
    r.reconcileRequest linking wallTimeUnixMs inferenceCallId threadId codexTurnId request
  let r ← r.appendThreadConversationItems threadId requestItemIds
  return (r.installSnapshot threadId request.previousResponseId.isNone requestItemIds,
    requestItemIds)

def turnThread (r : Reducer G) (codexTurnId : Text) (unknown : Text) : Reduced Text :=
  match getEntry codexTurnId r.codexTurns with
  | some threadId => .ok threadId
  | none => bail (unknown ++ codexTurnId)

def putCall (r : Reducer G) (inferenceCallId : Text) (call : InferenceCall) : Reducer G :=
  { r with inferenceCalls := setEntry inferenceCallId call r.inferenceCalls }

def startInferenceCall (r : Reducer G) (wallTimeUnixMs : ℤ) (started : StartedInferenceCall) :
    Reduced (Reducer G) := do
  let start := "inference start ".toList ++ started.inferenceCallId
  if (getEntry started.inferenceCallId r.inferenceCalls).isSome then
    bail ("duplicate inference start for ".toList ++ started.inferenceCallId)
  else
    let owner ← r.turnThread started.codexTurnId (start ++ " referenced unknown codex turn ".toList)
    if owner ≠ started.threadId then
      bail (start ++ " used thread ".toList ++ started.threadId ++ ", but codex turn ".toList ++
        started.codexTurnId ++ " belongs to ".toList ++ owner)
    else
      let (r, requestItemIds) ← r.reduceInferenceRequest jsonText linking wallTimeUnixMs
        started.inferenceCallId started.threadId started.codexTurnId started.requestPayload
      return r.putCall started.inferenceCallId
        ⟨started.threadId, started.codexTurnId, .running, none, requestItemIds, []⟩

/-! ## Responses -/

def extendSnapshot (r : Reducer G) (threadId : Text) (itemIds : List Text) : Reducer G :=
  { r with
    threadConversationSnapshots :=
      setEntry threadId (r.snapshotOf threadId ++ itemIds) r.threadConversationSnapshots }

def reduceInferenceResponse (r : Reducer G) (wallTimeUnixMs : ℤ) (inferenceCallId : Text)
    (payload : RawPayload) : Reduced (Reducer G × List Text) := do
  let json ← payload.json
  match (json.get "output_items".toList).bind Json.asArray with
  | none => bail ("inference response payload ".toList ++ payload.rawPayloadId ++
      " did not contain output_items".toList)
  | some outputItems =>
    match getEntry inferenceCallId r.inferenceCalls with
    | none => bail ("inference response referenced unknown call ".toList ++ inferenceCallId)
    | some call =>
      let items ← normalizeModelItems jsonText outputItems payload.rawPayloadId
      let (r, responseItemIds) ← r.reconcileConversationItems linking items
        ⟨call.threadId, call.codexTurnId, wallTimeUnixMs, [.inference inferenceCallId],
          (r.snapshotOf call.threadId).length, .appendOnly, none⟩
      let r ← r.appendThreadConversationItems call.threadId responseItemIds
      return (r.extendSnapshot call.threadId responseItemIds, responseItemIds)

def reduceResponseIfAny (r : Reducer G) (wallTimeUnixMs : ℤ) (inferenceCallId : Text) :
    Option RawPayload → Reduced (Reducer G × Option (List Text))
  | none => .ok (r, none)
  | some payload => do
    let (r, itemIds) ← r.reduceInferenceResponse jsonText linking wallTimeUnixMs inferenceCallId
      payload
    return (r, some itemIds)

def InferenceCall.completed (call : InferenceCall) (status : ExecutionStatus)
    (responseId : Option Text) (responseItemIds : Option (List Text)) : InferenceCall :=
  { call with
    status := if call.status = .running then status else call.status
    upstreamRequestId := if call.status = .running then responseId else call.upstreamRequestId
    responseItemIds := responseItemIds.getD call.responseItemIds }

def completeInferenceCall (r : Reducer G) (wallTimeUnixMs : ℤ) (inferenceCallId : Text)
    (status : ExecutionStatus) (responseId : Option Text) (responsePayload : Option RawPayload) :
    Reduced (Reducer G) :=
  if (getEntry inferenceCallId r.inferenceCalls).isNone then
    bail ("inference completion referenced unknown call ".toList ++ inferenceCallId)
  else do
    let (r, responseItemIds) ←
      r.reduceResponseIfAny jsonText linking wallTimeUnixMs inferenceCallId responsePayload
    match getEntry inferenceCallId r.inferenceCalls with
    | none => bail ("inference call ".toList ++ inferenceCallId ++
        " disappeared during response reduction".toList)
    | some call =>
      return r.putCall inferenceCallId (InferenceCall.completed call status responseId responseItemIds)

/-! ## Turn ends and compactions -/

def closeRunningInferenceCallsForTurnEnd (r : Reducer G) (codexTurnId : Text)
    (turnStatus : ExecutionStatus) : Reducer G :=
  match closedStatus turnStatus with
  | none => r
  | some status =>
    { r with
      inferenceCalls := mapEntries (fun call =>
        if call.codexTurnId = codexTurnId ∧ call.status = .running then
          { call with status := status }
        else call) r.inferenceCalls }

def reduceCompactionCheckpoint (r : Reducer G) (wallTimeUnixMs : ℤ)
    (threadId codexTurnId compactionId : Text) (payload : RawPayload) :
    Reduced (Reducer G × ReducedCompactionCheckpoint) := do
  let json ← payload.json
  let inputHistory ← requiredArray json "input_history" payload.rawPayloadId
  let replacementHistory ← requiredArray json "replacement_history" payload.rawPayloadId
  let inputItems ← normalizeModelItems jsonText inputHistory payload.rawPayloadId
  let replacementItems ← normalizeModelItems jsonText replacementHistory payload.rawPayloadId
  let (r, inputItemIds) ← r.reconcileDetachedConversationItems linking inputItems
    ⟨threadId, codexTurnId, wallTimeUnixMs, [], r.snapshotOf threadId⟩
  let (r, markerItemId) := r.createFor threadId codexTurnId wallTimeUnixMs
    [.compaction compactionId] ⟨.assistant, none, .compactionMarker, [], none⟩
  let (r, replacementItemIds) ← r.reconcileDetachedConversationItems linking replacementItems
    ⟨threadId, codexTurnId, wallTimeUnixMs, [.compaction compactionId], []⟩
  let r ← r.appendThreadConversationItems threadId inputItemIds
  let r ← r.appendThreadConversationItems threadId [markerItemId]
  let r ← r.appendThreadConversationItems threadId replacementItemIds
  return (r, ⟨inputItemIds, markerItemId, replacementItemIds⟩)

def reduceCompactionInstalledEvent (r : Reducer G) (wallTimeUnixMs : ℤ)
    (threadId codexTurnId compactionId : Text) (payload : RawPayload) : Reduced (Reducer G) := do
  if compactionId ∈ r.compactions then
    bail ("duplicate compaction install for ".toList ++ compactionId)
  else
    let _ ← r.threadItemIds threadId
    let install := "compaction install ".toList ++ compactionId
    let owner ← r.turnThread codexTurnId (install ++ " referenced unknown codex turn ".toList)
    if owner ≠ threadId then
      bail (install ++ " used thread ".toList ++ threadId ++ ", but codex turn ".toList ++
        codexTurnId ++ " belongs to ".toList ++ owner)
    else
      let (r, checkpoint) ← r.reduceCompactionCheckpoint jsonText linking wallTimeUnixMs threadId
        codexTurnId compactionId payload
      return { r with
        pendingCompactionReplacementItemIds :=
          setEntry threadId checkpoint.replacementItemIds r.pendingCompactionReplacementItemIds
        compactions := r.compactions ++ [compactionId] }

end Reducer

end Codex.RolloutTrace
