import Codex.RolloutTrace.Replay

/-!
# What sightings do to the rest of the graph

Reconciling items changes the rest of the graph only through `Linking`: a relation that each
link keeps is kept by every request, response and compaction. Of the calls, requests add one
and responses end one.
-/

namespace Codex.RolloutTrace

open Foundation

variable {G : Type} {linking : Linking G} {R : G → G → Prop}

variable (linking R) in
structure Linking.Within : Prop where
  refl : ∀ g, R g g
  trans : ∀ {g g' g''}, R g g' → R g' g'' → R g g''
  attach : ∀ {r itemId callId kind links}, linking.attach r itemId callId kind = .ok links →
    R r.graph links.1
  flush : ∀ {r links}, linking.flush r = .ok links → R r.graph links.1

namespace Reducer
variable {r r' : Reducer G} {jsonText : JsonText} {wallTimeUnixMs : ℤ} {ids : List Text}

variable (R r r') in
structure Moves : Prop where
  graph : R r.graph r'.graph
  calls : r'.inferenceCalls = r.inferenceCalls

theorem Moves.trans {r'' : Reducer G} (hw : linking.Within R) (h : Moves R r r')
    (h' : Moves R r' r'') : Moves R r r'' :=
  ⟨hw.trans h.graph h'.graph, h'.calls.trans h.calls⟩

theorem addProducer_same (r : Reducer G) (link : Text × ProducerRef) :
    (r.addProducer link).graph = r.graph ∧ (r.addProducer link).inferenceCalls = r.inferenceCalls := by
  unfold addProducer
  split
  · exact ⟨rfl, rfl⟩
  · exact ⟨rfl, rfl⟩

theorem linked_same (r : Reducer G) (links : G × List (Text × ProducerRef)) :
    (r.linked links).graph = links.1 ∧ (r.linked links).inferenceCalls = r.inferenceCalls := by
  have hfold : ∀ (l : List (Text × ProducerRef)) (u : Reducer G),
      (l.foldl addProducer u).graph = u.graph ∧
        (l.foldl addProducer u).inferenceCalls = u.inferenceCalls := by
    intro l
    induction l with
    | nil => exact fun u => ⟨rfl, rfl⟩
    | cons link l ih =>
      intro u
      obtain ⟨hgraph, hcalls⟩ := addProducer_same u link
      obtain ⟨hgraph', hcalls'⟩ := ih (u.addProducer link)
      exact ⟨hgraph'.trans hgraph, hcalls'.trans hcalls⟩
  exact hfold links.2 { r with graph := links.1 }

theorem moves_linked {links : G × List (Text × ProducerRef)} (h : R r.graph links.1) :
    Moves R r (r.linked links) := by
  obtain ⟨hgraph, hcalls⟩ := linked_same r links
  exact ⟨hgraph ▸ h, hcalls⟩

theorem moves_same (hw : linking.Within R) (hgraph : r'.graph = r.graph)
    (hcalls : r'.inferenceCalls = r.inferenceCalls) : Moves R r r' :=
  ⟨hgraph ▸ hw.refl r.graph, hcalls⟩

/-! ## Items -/

variable {i : Text} {n : NormalizedConversationItem} {context : ReconcileItems}
  {state state' : Reducer G × List Text} {items : List NormalizedConversationItem}
  {threadId inferenceCallId codexTurnId : Text} {payload : RawPayload}

section
variable (hw : linking.Within R)
include hw

theorem moves_update {producedBy : List ProducerRef}
    (h : r.updateConversationItemFromSighting i n producedBy = .ok r') : Moves R r r' := by
  unfold updateConversationItemFromSighting at h
  split at h
  · cases h
  · split at h
    · split at h
      · cases h
        exact moves_same hw rfl rfl
      · cases h
    · cases h
      exact moves_same hw rfl rfl

theorem moves_sight {producedBy : List ProducerRef}
    (h : r.sight linking i n producedBy = .ok r') : Moves R r r' := by
  obtain ⟨u, hu, h⟩ := bind_ok_iff.mp h
  obtain ⟨links, hlinks, h⟩ := bind_ok_iff.mp h
  cases h
  exact (moves_update hw hu).trans hw (moves_linked (hw.attach hlinks))

theorem moves_identified {previous used : List Text}
    (h : Identified r context previous used n r' i) : Moves R r r' := by
  cases h with
  | keeps _ _ | takes _ _ | creates _ _ => exact moves_same hw rfl rfl

theorem moves_reconcileItem {previous : List Text}
    (h : reconcileItem linking context previous state n = .ok state') :
    Moves R state.1 state'.1 := by
  obtain ⟨_, -, h⟩ := bind_ok_iff.mp h
  obtain ⟨_, -, h⟩ := bind_ok_iff.mp h
  obtain ⟨⟨v, i⟩, hidentify, h⟩ := bind_ok_iff.mp h
  obtain ⟨u, hsight, h⟩ := bind_ok_iff.mp h
  cases h
  exact (moves_identified hw (identified hidentify)).trans hw (moves_sight hw hsight)

theorem moves_detachedItem {context : DetachedReconcileItems}
    (h : reconcileDetachedItem linking context state n = .ok state') :
    Moves R state.1 state'.1 := by
  obtain ⟨r, used⟩ := state
  obtain ⟨_, -, h⟩ := bind_ok_iff.mp h
  obtain ⟨_, -, h⟩ := bind_ok_iff.mp h
  obtain ⟨u, hsight, h⟩ := bind_ok_iff.mp h
  cases h
  split at hsight
  · exact moves_sight hw hsight
  · have hcreated : Moves R r (r.createFor context.threadId context.codexTurnId
        context.wallTimeUnixMs context.producedBy n).1 := moves_same hw rfl rfl
    exact hcreated.trans hw (moves_sight hw hsight)

theorem moves_fold
    {f : Reducer G × List Text → NormalizedConversationItem → Reduced (Reducer G × List Text)}
    (hf : ∀ state n state', f state n = .ok state' → Moves R state.1 state'.1)
    (h : items.foldlM f state = .ok state') : Moves R state.1 state'.1 :=
  run_keeps (I := fun s => Moves R state.1 s.1) (fun u n v hu hv => hu.trans hw (hf u n v hv))
    (moves_same hw rfl rfl) h

theorem moves_reconcile
    (h : r.reconcileConversationItems linking items context = .ok (r', ids)) : Moves R r r' := by
  obtain ⟨⟨v, all⟩, hitems, h⟩ := bind_ok_iff.mp h
  obtain ⟨links, hlinks, h⟩ := bind_ok_iff.mp h
  cases h
  exact (moves_fold hw (fun _ _ _ => moves_reconcileItem hw) hitems).trans hw
    (moves_linked (hw.flush hlinks))

theorem moves_detached {context : DetachedReconcileItems}
    (h : r.reconcileDetachedConversationItems linking items context = .ok (r', ids)) :
    Moves R r r' := by
  obtain ⟨⟨v, all⟩, hitems, h⟩ := bind_ok_iff.mp h
  obtain ⟨links, hlinks, h⟩ := bind_ok_iff.mp h
  cases h
  exact (moves_fold hw (fun _ _ _ => moves_detachedItem hw) hitems).trans hw
    (moves_linked (hw.flush hlinks))

end

/-! ## Calls and compactions -/

variable (hw : linking.Within R)
include hw

theorem moves_append
    (h : r.appendThreadConversationItems threadId ids = .ok r') : Moves R r r' := by
  obtain ⟨l, rfl⟩ := appendThread_ok h
  exact moves_same hw rfl rfl

theorem moves_reconcileRequest {request : RequestPayload}
    (h : r.reconcileRequest linking wallTimeUnixMs inferenceCallId threadId codexTurnId request =
      .ok (r', ids)) : Moves R r r' := by
  unfold reconcileRequest at h
  split at h
  · split at h
    · cases h
    · obtain ⟨⟨v, delta⟩, hdelta, h⟩ := bind_ok_iff.mp h
      cases h
      exact moves_reconcile hw hdelta
  · exact moves_reconcile hw h

theorem moves_request
    (h : r.reduceInferenceRequest jsonText linking wallTimeUnixMs inferenceCallId threadId
      codexTurnId payload = .ok (r', ids)) : Moves R r r' := by
  obtain ⟨request, u, v, -, hreconcile, happend, rfl⟩ := reduceInferenceRequest_ok h
  have hv := (moves_reconcileRequest hw hreconcile).trans hw (moves_append hw happend)
  exact hv.trans hw (moves_same hw rfl rfl)

theorem moves_response
    (h : r.reduceInferenceResponse jsonText linking wallTimeUnixMs inferenceCallId payload =
      .ok (r', ids)) : Moves R r r' := by
  obtain ⟨_, _, call, items, u, v, -, -, -, -, hreconcile, happend, rfl⟩ :=
    reduceInferenceResponse_ok h
  have hv := (moves_reconcile hw hreconcile).trans hw (moves_append hw happend)
  exact hv.trans hw (moves_same hw rfl rfl)

theorem moves_responseIfAny {payload : Option RawPayload} {ids : Option (List Text)}
    (h : r.reduceResponseIfAny jsonText linking wallTimeUnixMs inferenceCallId payload =
      .ok (r', ids)) : Moves R r r' := by
  cases payload with
  | none =>
    cases h
    exact moves_same hw rfl rfl
  | some payload =>
    obtain ⟨⟨v, itemIds⟩, hv, h⟩ := bind_ok_iff.mp h
    cases h
    exact moves_response hw hv

theorem moves_compaction {compactionId : Text}
    (h : r.reduceCompactionInstalledEvent jsonText linking wallTimeUnixMs threadId codexTurnId
      compactionId payload = .ok r') : Moves R r r' := by
  obtain ⟨_, _, _, _, u, inputIds, v, ids, threadIds, -, -, hu, hv, rfl⟩ := compactionInstalled_ok h
  have hmarker : Moves R u (u.createMarker threadId codexTurnId wallTimeUnixMs compactionId) :=
    moves_same hw rfl rfl
  exact (((moves_detached hw hu).trans hw hmarker).trans hw (moves_detached hw hv)).trans hw
    (moves_same hw rfl rfl)

theorem moves_startCall {started : StartedInferenceCall}
    (h : r.startInferenceCall jsonText linking wallTimeUnixMs started = .ok r') :
    R r.graph r'.graph ∧ getEntry started.inferenceCallId r.inferenceCalls = none ∧
      ∃ call, r'.inferenceCalls = setEntry started.inferenceCallId call r.inferenceCalls := by
  obtain ⟨hnew, u, ids, hrequest, rfl⟩ := startInferenceCall_ok h
  have hu := moves_request hw hrequest
  refine ⟨hu.graph, hnew, ⟨started.threadId, started.codexTurnId, .running, none, ids, []⟩, ?_⟩
  unfold putCall
  rw [hu.calls]

theorem moves_completeCall {status : ExecutionStatus}
    {responseId : Option Text} {payload : Option RawPayload}
    (h : r.completeInferenceCall jsonText linking wallTimeUnixMs inferenceCallId status responseId
      payload = .ok r') :
    R r.graph r'.graph ∧ ∃ call ids, getEntry inferenceCallId r.inferenceCalls = some call ∧
      r'.inferenceCalls = setEntry inferenceCallId
        (InferenceCall.completed call status responseId ids) r.inferenceCalls := by
  obtain ⟨u, call, ids, hresponse, hcall, rfl⟩ := completeInferenceCall_ok h
  have hu := moves_responseIfAny hw hresponse
  rw [hu.calls] at hcall
  refine ⟨hu.graph, call, ids, hcall, ?_⟩
  unfold putCall
  rw [hu.calls]

end Reducer

end Codex.RolloutTrace
