import Codex.RolloutTrace.Growth

/-!
# Replaying a trace

A trace is replayed event by event. In every state a replay reaches, the ids in snapshots,
in pending replacement histories and in calls are those of stored items of their thread,
and the next id is not in use.
-/

namespace Codex.RolloutTrace

open Foundation List

/-- The events of a trace. `other` is one that touches nothing but the rest of the graph
and the producers of items. -/
inductive TraceEvent (G : Type) where
  | threadStarted (threadId : Text)
  | codexTurnStarted (codexTurnId threadId : Text)
  | codexTurnEnded (codexTurnId : Text) (status : ExecutionStatus)
  | inferenceStarted (wallTimeUnixMs : ℤ) (started : StartedInferenceCall)
  | inferenceCompleted (wallTimeUnixMs : ℤ) (inferenceCallId : Text) (responseId : Option Text)
      (responsePayload : RawPayload)
  | inferenceFailed (wallTimeUnixMs : ℤ) (inferenceCallId : Text)
      (partialResponsePayload : Option RawPayload)
  | inferenceCancelled (wallTimeUnixMs : ℤ) (inferenceCallId : Text)
      (partialResponsePayload : Option RawPayload)
  | compactionInstalled (wallTimeUnixMs : ℤ) (threadId codexTurnId compactionId : Text)
      (checkpointPayload : RawPayload)
  | other (act : Reducer G → Reduced (G × List (Text × ProducerRef)))

namespace Reducer
variable {G : Type}

def new (g : G) : Reducer G := ⟨[], 1, [], [], [], [], [], [], g⟩

def startThread (r : Reducer G) (threadId : Text) : Reduced (Reducer G) :=
  if (getEntry threadId r.threads).isSome then
    bail ("duplicate thread start for ".toList ++ threadId)
  else .ok { r with threads := setEntry threadId [] r.threads }

def startCodexTurn (r : Reducer G) (codexTurnId threadId : Text) : Reduced (Reducer G) := do
  if (getEntry codexTurnId r.codexTurns).isSome then
    bail ("duplicate codex turn start for ".toList ++ codexTurnId)
  else
    let _ ← r.threadItemIds threadId
    return { r with codexTurns := setEntry codexTurnId threadId r.codexTurns }

def endCodexTurn (r : Reducer G) (codexTurnId : Text) (status : ExecutionStatus) :
    Reduced (Reducer G) :=
  if (getEntry codexTurnId r.codexTurns).isNone then
    bail ("codex turn end referenced unknown turn ".toList ++ codexTurnId)
  else .ok (r.closeRunningInferenceCallsForTurnEnd codexTurnId status)

section
variable (jsonText : JsonText) (linking : Linking G)

def applyEvent (r : Reducer G) : TraceEvent G → Reduced (Reducer G)
  | .threadStarted threadId => r.startThread threadId
  | .codexTurnStarted codexTurnId threadId => r.startCodexTurn codexTurnId threadId
  | .codexTurnEnded codexTurnId status => r.endCodexTurn codexTurnId status
  | .inferenceStarted wallTimeUnixMs started =>
    r.startInferenceCall jsonText linking wallTimeUnixMs started
  | .inferenceCompleted wallTimeUnixMs inferenceCallId responseId responsePayload =>
    r.completeInferenceCall jsonText linking wallTimeUnixMs inferenceCallId .completed responseId
      (some responsePayload)
  | .inferenceFailed wallTimeUnixMs inferenceCallId partialResponsePayload =>
    r.completeInferenceCall jsonText linking wallTimeUnixMs inferenceCallId .failed none
      partialResponsePayload
  | .inferenceCancelled wallTimeUnixMs inferenceCallId partialResponsePayload =>
    r.completeInferenceCall jsonText linking wallTimeUnixMs inferenceCallId .cancelled none
      partialResponsePayload
  | .compactionInstalled wallTimeUnixMs threadId codexTurnId compactionId checkpointPayload =>
    r.reduceCompactionInstalledEvent jsonText linking wallTimeUnixMs threadId codexTurnId
      compactionId checkpointPayload
  | .other act => do
    let links ← act r
    return r.linked links

def replay (r : Reducer G) (events : List (TraceEvent G)) : Reduced (Reducer G) :=
  events.foldlM (applyEvent jsonText linking) r

end

/-! ## Well-formed states -/

def Stores (r : Reducer G) (t i : Text) : Prop :=
  ∃ x, getEntry i r.conversationItems = some x ∧ x.threadId = t

def StoresAll (r : Reducer G) (ids : Entries (List Text)) : Prop :=
  ∀ {t l}, getEntry t ids = some l → ∀ i ∈ l, r.Stores t i

structure WellFormed (r : Reducer G) : Prop where
  fresh : r.Fresh
  snapshots : r.StoresAll r.threadConversationSnapshots
  pending : r.StoresAll r.pendingCompactionReplacementItemIds
  calls : ∀ e ∈ r.inferenceCalls, ∀ i ∈ e.2.requestItemIds ++ e.2.responseItemIds,
    r.Stores e.2.threadId i

variable {r r' : Reducer G} {t : Text}

theorem wellFormed_new (g : G) : (new g).WellFormed := by
  refine ⟨fun _ _ => rfl, ?_, ?_, ?_⟩
  · intro t l h
    cases h
  · intro t l h
    cases h
  · intro e he
    cases he

variable {i : Text} {prev used : List Text} {n : NormalizedConversationItem}
  {context : ReconcileItems} {ids : List Text} {items : List NormalizedConversationItem}
  {linking : Linking G} {wallTimeUnixMs : ℤ} {inferenceCallId codexTurnId : Text}
  {jsonText : JsonText} {payload : RawPayload}

theorem Stores.has (h : r.Stores t i) : r.Has i := by
  obtain ⟨x, hx, -⟩ := h
  exact ⟨x, hx⟩

theorem Grown.stores {t' : Text} (h : Grown t' r r') (hi : r.Stores t i) : r'.Stores t i := by
  obtain ⟨x, hx, rfl⟩ := hi
  obtain ⟨x', hx', hgrew⟩ := h.items hx
  exact ⟨x', hx', hgrew.thread⟩

theorem Grown.wellFormed {t' : Text} (h : Grown t' r r') (hr : r.WellFormed) : r'.WellFormed := by
  refine ⟨h.fresh hr.fresh, ?_, ?_, ?_⟩
  · rw [h.snapshots]
    exact fun hl i hi => h.stores (hr.snapshots hl i hi)
  · rw [h.pending]
    exact fun hl i hi => h.stores (hr.pending hl i hi)
  · rw [h.calls]
    exact fun e he i hi => h.stores (hr.calls e he i hi)

theorem WellFormed.snapshotOf (hr : r.WellFormed) (t : Text) : ∀ i ∈ r.snapshotOf t, r.Stores t i := by
  unfold Reducer.snapshotOf
  cases h : getEntry t r.threadConversationSnapshots with
  | none => simp
  | some l => exact hr.snapshots h

theorem WellFormed.comparedSnapshot (hr : r.WellFormed) (t : Text) :
    ∀ i ∈ r.comparedSnapshot t, r.Stores t i := by
  unfold Reducer.comparedSnapshot
  cases h : getEntry t r.pendingCompactionReplacementItemIds with
  | none => exact hr.snapshotOf t
  | some l => exact hr.pending h

theorem storesAll_set {ids : Entries (List Text)} {l : List Text} (h : r.StoresAll ids)
    (hl : ∀ i ∈ l, r.Stores t i) : r.StoresAll (setEntry t l ids) := by
  intro t' l' h'
  rw [getEntry_set] at h'
  split at h'
  · rename_i heq
    cases h'
    rw [heq]
    exact hl
  · exact h h'

theorem storesAll_remove {ids : Entries (List Text)} (h : r.StoresAll ids) :
    r.StoresAll (removeEntry t ids) := by
  intro t' l' h'
  rw [getEntry_remove] at h'
  split at h'
  · cases h'
  · exact h h'

/-! ## Ids that a reconciliation returns -/

theorem stores_createFor (r : Reducer G) (codexTurnId : Text) (wallTimeUnixMs : ℤ)
    (producedBy : List ProducerRef) (n : NormalizedConversationItem) :
    (r.createFor t codexTurnId wallTimeUnixMs producedBy n).1.Stores t
      (r.createFor t codexTurnId wallTimeUnixMs producedBy n).2 :=
  ⟨_, getEntry_set_self _ _ _, rfl⟩

theorem stores_find (hprev : ∀ i ∈ prev, r.Stores t i)
    (h : r.findMatchingSnapshotItem prev used n = some i) :
    r.Stores t i := hprev i (mem_of_find?_eq_some h)

theorem Identified.stores (h : Identified r context prev used n r' i)
    (hprev : ∀ i ∈ prev, r.Stores context.threadId i) : r'.Stores context.threadId i := by
  cases h with
  | keeps hat _ => exact hprev i (mem_of_getElem? hat)
  | takes _ hfound => exact stores_find hprev hfound
  | creates => exact stores_createFor r _ _ _ n

theorem ReconcilesAll.stores (h : ReconcilesAll context prev used items r ids r')
    (hprev : ∀ i ∈ prev, r.Stores context.threadId i) :
    ∀ i ∈ ids, r'.Stores context.threadId i := by
  intro i hi
  obtain ⟨k, hk⟩ := mem_iff_getElem?.mp hi
  have hlt : k < items.length := by
    rw [← h.length]
    exact (List.getElem?_eq_some_iff.mp hk).1
  obtain ⟨u, v, hu, -, -, hone, hv⟩ := h.each (List.getElem?_eq_getElem hlt) hk
  obtain ⟨w, hw, hgrown⟩ := hone.identified
  exact hv.stores (hgrown.stores (hw.stores fun j hj => hu.stores (hprev j hj)))

theorem reconcile_stores (hr : r.Fresh)
    (hprev : ∀ i ∈ context.snapshotOverride.getD (r.snapshotOf context.threadId),
      r.Stores context.threadId i)
    (h : r.reconcileConversationItems linking items context = .ok (r', ids)) :
    Grown context.threadId r r' ∧ ∀ i ∈ ids, r'.Stores context.threadId i :=
  have hall := reconcileConversationItems_spec hr h
  ⟨hall.grown, hall.stores hprev⟩

theorem detachedItem_spec {context : DetachedReconcileItems} (hr : r.Fresh)
    (hcandidates : ∀ i ∈ context.candidates, r.Stores context.threadId i)
    (h : reconcileDetachedItem linking context (r, used) n = .ok (r', ids)) :
    Grown context.threadId r r' ∧ ∃ i, ids = used ++ [i] ∧ r'.Stores context.threadId i := by
  obtain ⟨_, -, h⟩ := bind_ok_iff.mp h
  obtain ⟨_, -, h⟩ := bind_ok_iff.mp h
  obtain ⟨u, hsight, h⟩ := bind_ok_iff.mp h
  cases h
  cases hfound : r.findMatchingSnapshotItem context.candidates used n with
  | some i =>
    simp only [hfound] at hsight ⊢
    have hfits := List.find?_some hfound
    simp only [Bool.and_eq_true] at hfits
    obtain ⟨hgrown, -⟩ := sight_spec (t := context.threadId) hfits.2 hsight
    exact ⟨hgrown, i, rfl, hgrown.stores (stores_find hcandidates hfound)⟩
  | none =>
    simp only [hfound] at hsight ⊢
    obtain ⟨hgrown, -⟩ := sight_spec (t := context.threadId)
      (itemMatches_createFor r _ _ _ n) hsight
    exact ⟨(grown_createFor hr _ _ _ n).trans hgrown, _, rfl,
      hgrown.stores (stores_createFor r _ _ _ n)⟩

theorem detached_stores {context : DetachedReconcileItems} (hr : r.Fresh)
    (hcandidates : ∀ i ∈ context.candidates, r.Stores context.threadId i)
    (h : r.reconcileDetachedConversationItems linking items context = .ok (r', ids)) :
    Grown context.threadId r r' ∧ ∀ i ∈ ids, r'.Stores context.threadId i := by
  have hfold : ∀ {u v : Reducer G} {used all : List Text}, u.Fresh →
      (∀ i ∈ context.candidates, u.Stores context.threadId i) →
      (∀ i ∈ used, u.Stores context.threadId i) →
      items.foldlM (reconcileDetachedItem linking context) (u, used) = .ok (v, all) →
      Grown context.threadId u v ∧ ∀ i ∈ all, v.Stores context.threadId i := by
    clear h
    induction items with
    | nil =>
      intro u v used all _ _ hused hrun
      cases hrun
      exact ⟨.refl _ _, hused⟩
    | cons n items ih =>
      intro u v used all hu hcand hused hrun
      obtain ⟨⟨w, used'⟩, hitem, hrun⟩ := bind_ok_iff.mp hrun
      obtain ⟨hgrown, i, rfl, hi⟩ := detachedItem_spec hu hcand hitem
      have hused' : ∀ j ∈ used ++ [i], w.Stores context.threadId j := by
        intro j hj
        rcases mem_append.mp hj with hmem | hmem
        · exact hgrown.stores (hused j hmem)
        · rw [mem_singleton.mp hmem]
          exact hi
      obtain ⟨hgrown', hall⟩ := ih (hgrown.fresh hu) (fun j hj => hgrown.stores (hcand j hj))
        hused' hrun
      exact ⟨hgrown.trans hgrown', hall⟩
  obtain ⟨⟨v, all⟩, hitems, h⟩ := bind_ok_iff.mp h
  obtain ⟨links, -, h⟩ := bind_ok_iff.mp h
  cases h
  obtain ⟨hgrown, hall⟩ := hfold hr hcandidates (by simp) hitems
  have hlinked := grown_linked (t := context.threadId) v links
  exact ⟨hgrown.trans hlinked, fun i hi => hlinked.stores (hall i hi)⟩

/-! ## Every event keeps states well formed -/

theorem previousItems_stores (hr : r.WellFormed) {previousResponseId : Text}
    (h : r.previousItems t previousResponseId = some ids) : ∀ i ∈ ids, r.Stores t i := by
  obtain ⟨e, he, rfl⟩ := Option.map_eq_some_iff.mp h
  have hfits := List.find?_some he
  simp only [Bool.and_eq_true, decide_eq_true_eq] at hfits
  rw [← hfits.1]
  exact hr.calls e (mem_of_find?_eq_some he)

theorem reconcileRequest_stores {request : RequestPayload} (hr : r.WellFormed)
    (h : r.reconcileRequest linking wallTimeUnixMs inferenceCallId t codexTurnId request =
      .ok (r', ids)) : Grown t r r' ∧ ∀ i ∈ ids, r'.Stores t i := by
  unfold reconcileRequest at h
  cases hprevious : request.previousResponseId with
  | none =>
    simp only [hprevious] at h
    refine reconcile_stores hr.fresh ?_ h
    exact hr.comparedSnapshot t
  | some previousResponseId =>
    simp only [hprevious] at h
    split at h
    · cases h
    · rename_i itemIds hitems
      obtain ⟨⟨v, delta⟩, hdelta, h⟩ := bind_ok_iff.mp h
      cases h
      obtain ⟨hgrown, hids⟩ := reconcile_stores hr.fresh (by exact hr.snapshotOf t) hdelta
      refine ⟨hgrown, fun i hi => ?_⟩
      rcases mem_append.mp hi with hmem | hmem
      · exact hgrown.stores (previousItems_stores hr hitems i hmem)
      · exact hids i hmem

theorem appendThread_ok (h : r.appendThreadConversationItems t ids = .ok r') :
    ∃ l, r' = { r with threads := setEntry t l r.threads } := by
  obtain ⟨l, -, h⟩ := bind_ok_iff.mp h
  cases h
  exact ⟨_, rfl⟩

theorem appendThread_wellFormed (hr : r.WellFormed)
    (h : r.appendThreadConversationItems t ids = .ok r') :
    r'.WellFormed ∧ r'.conversationItems = r.conversationItems ∧
      r'.inferenceCalls = r.inferenceCalls := by
  obtain ⟨l, rfl⟩ := appendThread_ok h
  exact ⟨⟨hr.fresh, hr.snapshots, hr.pending, hr.calls⟩, rfl, rfl⟩

theorem stores_of_items (h : r'.conversationItems = r.conversationItems) (hi : r.Stores t i) :
    r'.Stores t i := by
  obtain ⟨x, hx, rfl⟩ := hi
  exact ⟨x, by rw [h, hx], rfl⟩

theorem reduceInferenceRequest_ok
    (h : r.reduceInferenceRequest jsonText linking wallTimeUnixMs inferenceCallId t codexTurnId
      payload = .ok (r', ids)) : ∃ request u v, requestPayload jsonText payload = .ok request ∧
      r.reconcileRequest linking wallTimeUnixMs inferenceCallId t codexTurnId request =
        .ok (u, ids) ∧
      u.appendThreadConversationItems t ids = .ok v ∧
      r' = v.installSnapshot t request.previousResponseId.isNone ids := by
  obtain ⟨request, hrequest, h⟩ := bind_ok_iff.mp h
  obtain ⟨⟨u, itemIds⟩, hreconcile, h⟩ := bind_ok_iff.mp h
  obtain ⟨v, happend, h⟩ := bind_ok_iff.mp h
  cases h
  exact ⟨request, u, v, hrequest, hreconcile, happend, rfl⟩

theorem reduceInferenceRequest_wellFormed (hr : r.WellFormed)
    (h : r.reduceInferenceRequest jsonText linking wallTimeUnixMs inferenceCallId t codexTurnId
      payload = .ok (r', ids)) : r'.WellFormed ∧ ∀ i ∈ ids, r'.Stores t i := by
  obtain ⟨request, u, v, -, hreconcile, happend, rfl⟩ := reduceInferenceRequest_ok h
  obtain ⟨hgrown, hids⟩ := reconcileRequest_stores hr hreconcile
  obtain ⟨hv, hitems, -⟩ := appendThread_wellFormed (hgrown.wellFormed hr) happend
  have hstored : ∀ i ∈ ids, v.Stores t i := fun i hi => stores_of_items hitems (hids i hi)
  refine ⟨⟨hv.fresh, storesAll_set hv.snapshots hstored, ?_, hv.calls⟩, hstored⟩
  simp only [installSnapshot]
  split
  · exact storesAll_remove hv.pending
  · exact hv.pending

theorem putCall_wellFormed {call : InferenceCall} (hr : r.WellFormed)
    (h : ∀ i ∈ call.requestItemIds ++ call.responseItemIds, r.Stores call.threadId i) :
    (r.putCall inferenceCallId call).WellFormed := by
  refine ⟨hr.fresh, hr.snapshots, hr.pending, ?_⟩
  intro e he
  obtain rfl | hmem := mem_setEntry he
  · exact h
  · exact hr.calls e hmem

theorem startInferenceCall_ok {started : StartedInferenceCall}
    (h : r.startInferenceCall jsonText linking wallTimeUnixMs started = .ok r') :
    getEntry started.inferenceCallId r.inferenceCalls = none ∧
      ∃ u ids, r.reduceInferenceRequest jsonText linking wallTimeUnixMs started.inferenceCallId
        started.threadId started.codexTurnId started.requestPayload = .ok (u, ids) ∧
      r' = u.putCall started.inferenceCallId
        ⟨started.threadId, started.codexTurnId, .running, none, ids, []⟩ := by
  simp only [startInferenceCall] at h
  split at h
  · cases h
  · rename_i hnew
    obtain ⟨owner, -, h⟩ := bind_ok_iff.mp h
    split at h
    · cases h
    · obtain ⟨⟨u, ids⟩, hrequest, h⟩ := bind_ok_iff.mp h
      cases h
      exact ⟨by simpa using hnew, u, ids, hrequest, rfl⟩

theorem startInferenceCall_wellFormed {started : StartedInferenceCall} (hr : r.WellFormed)
    (h : r.startInferenceCall jsonText linking wallTimeUnixMs started = .ok r') :
    r'.WellFormed := by
  obtain ⟨-, u, ids, hrequest, rfl⟩ := startInferenceCall_ok h
  obtain ⟨hu, hids⟩ := reduceInferenceRequest_wellFormed hr hrequest
  exact putCall_wellFormed hu (by simpa using hids)

theorem reduceInferenceResponse_ok
    (h : r.reduceInferenceResponse jsonText linking wallTimeUnixMs inferenceCallId payload =
      .ok (r', ids)) : ∃ json outputItems call items u v, payload.json = .ok json ∧
      (json.get "output_items".toList).bind Json.asArray = some outputItems ∧
      getEntry inferenceCallId r.inferenceCalls = some call ∧
      normalizeModelItems jsonText outputItems payload.rawPayloadId = .ok items ∧
      r.reconcileConversationItems linking items
        ⟨call.threadId, call.codexTurnId, wallTimeUnixMs, [.inference inferenceCallId],
          (r.snapshotOf call.threadId).length, .appendOnly, none⟩ = .ok (u, ids) ∧
      u.appendThreadConversationItems call.threadId ids = .ok v ∧
      r' = v.extendSnapshot call.threadId ids := by
  obtain ⟨json, hjson, h⟩ := bind_ok_iff.mp h
  split at h
  · cases h
  · rename_i outputItems houtput
    split at h
    · cases h
    · rename_i call hcall
      obtain ⟨items, hitems, h⟩ := bind_ok_iff.mp h
      obtain ⟨⟨u, itemIds⟩, hreconcile, h⟩ := bind_ok_iff.mp h
      obtain ⟨v, happend, h⟩ := bind_ok_iff.mp h
      cases h
      exact ⟨json, outputItems, call, items, u, v, hjson, houtput, hcall, hitems, hreconcile,
        happend, rfl⟩

theorem reduceInferenceResponse_wellFormed (hr : r.WellFormed)
    (h : r.reduceInferenceResponse jsonText linking wallTimeUnixMs inferenceCallId payload =
      .ok (r', ids)) : r'.WellFormed ∧ r'.inferenceCalls = r.inferenceCalls ∧
        ∀ call, getEntry inferenceCallId r.inferenceCalls = some call →
          ∀ i ∈ ids, r'.Stores call.threadId i := by
  obtain ⟨_, _, call, items, u, v, -, -, hcall, -, hreconcile, happend, rfl⟩ :=
    reduceInferenceResponse_ok h
  obtain ⟨hgrown, hids⟩ :=
    reconcile_stores hr.fresh (by exact hr.snapshotOf call.threadId) hreconcile
  obtain ⟨hv, hitems, hcalls⟩ := appendThread_wellFormed (hgrown.wellFormed hr) happend
  have hstored : ∀ i ∈ ids, v.Stores call.threadId i :=
    fun i hi => stores_of_items hitems (hids i hi)
  refine ⟨⟨hv.fresh, storesAll_set hv.snapshots ?_, hv.pending, hv.calls⟩,
    hcalls.trans hgrown.calls, ?_⟩
  · intro i hi
    rcases mem_append.mp hi with hmem | hmem
    · exact hv.snapshotOf call.threadId i hmem
    · exact hstored i hmem
  · intro call' hcall'
    rw [hcall] at hcall'
    cases hcall'
    exact hstored

theorem completeInferenceCall_ok {status : ExecutionStatus} {responseId : Option Text}
    {payload : Option RawPayload}
    (h : r.completeInferenceCall jsonText linking wallTimeUnixMs inferenceCallId status responseId
      payload = .ok r') :
    ∃ u call ids, r.reduceResponseIfAny jsonText linking wallTimeUnixMs inferenceCallId payload =
        .ok (u, ids) ∧ getEntry inferenceCallId u.inferenceCalls = some call ∧
      r' = u.putCall inferenceCallId (InferenceCall.completed call status responseId ids) := by
  unfold completeInferenceCall at h
  split at h
  · cases h
  · obtain ⟨⟨u, ids⟩, hresponse, h⟩ := bind_ok_iff.mp h
    dsimp only at h
    split at h
    · cases h
    · rename_i call hcall
      cases h
      exact ⟨u, call, ids, hresponse, hcall, rfl⟩

theorem completeInferenceCall_wellFormed {status : ExecutionStatus} {responseId : Option Text}
    {payload : Option RawPayload} (hr : r.WellFormed)
    (h : r.completeInferenceCall jsonText linking wallTimeUnixMs inferenceCallId status responseId
      payload = .ok r') : r'.WellFormed := by
  obtain ⟨u, call, ids, hresponse, hcall, rfl⟩ := completeInferenceCall_ok h
  cases payload with
  | none =>
    cases hresponse
    exact putCall_wellFormed hr (hr.calls _ (mem_of_getEntry hcall))
  | some payload =>
    obtain ⟨⟨v, itemIds⟩, hreduce, hresponse⟩ := bind_ok_iff.mp hresponse
    cases hresponse
    obtain ⟨hu, hcalls, hids⟩ := reduceInferenceResponse_wellFormed hr hreduce
    refine putCall_wellFormed hu fun i hi => ?_
    rcases mem_append.mp hi with hmem | hmem
    · exact hu.calls _ (mem_of_getEntry hcall) i (mem_append_left _ hmem)
    · simp only [hcalls] at hcall
      exact hids call hcall i hmem

theorem closeRunning_wellFormed (hr : r.WellFormed) (codexTurnId : Text)
    (turnStatus : ExecutionStatus) :
    (r.closeRunningInferenceCallsForTurnEnd codexTurnId turnStatus).WellFormed := by
  unfold closeRunningInferenceCallsForTurnEnd
  split
  · exact hr
  · refine ⟨hr.fresh, hr.snapshots, hr.pending, ?_⟩
    intro e he
    obtain ⟨e', he', rfl⟩ := mem_map.mp he
    have hcall := hr.calls e' he'
    dsimp only
    split
    · exact hcall
    · exact hcall

/-- The marker between the history before a compaction and the one after it. -/
def createMarker (r : Reducer G) (t codexTurnId : Text) (wallTimeUnixMs : ℤ) (compactionId : Text) :
    Reducer G :=
  (r.createFor t codexTurnId wallTimeUnixMs [.compaction compactionId]
    ⟨.assistant, none, .compactionMarker, [], none⟩).1

theorem compactionInstalled_ok {compactionId : Text}
    (h : r.reduceCompactionInstalledEvent jsonText linking wallTimeUnixMs t codexTurnId compactionId
      payload = .ok r') :
    ∃ input inputItems replacement replacementItems u inputIds v ids threadIds,
      normalizeModelItems jsonText input payload.rawPayloadId = .ok inputItems ∧
      normalizeModelItems jsonText replacement payload.rawPayloadId = .ok replacementItems ∧
      r.reconcileDetachedConversationItems linking inputItems
        ⟨t, codexTurnId, wallTimeUnixMs, [], r.snapshotOf t⟩ = .ok (u, inputIds) ∧
      (u.createMarker t codexTurnId wallTimeUnixMs compactionId).reconcileDetachedConversationItems
        linking replacementItems
        ⟨t, codexTurnId, wallTimeUnixMs, [.compaction compactionId], []⟩ = .ok (v, ids) ∧
      r' = { v with
        threads := threadIds
        pendingCompactionReplacementItemIds := setEntry t ids v.pendingCompactionReplacementItemIds
        compactions := v.compactions ++ [compactionId] } := by
  unfold reduceCompactionInstalledEvent at h
  split at h
  · cases h
  · obtain ⟨_, -, h⟩ := bind_ok_iff.mp h
    obtain ⟨owner, -, h⟩ := bind_ok_iff.mp h
    split at h
    · cases h
    · obtain ⟨⟨w, checkpoint⟩, hcheckpoint, h⟩ := bind_ok_iff.mp h
      cases h
      obtain ⟨json, -, hcheckpoint⟩ := bind_ok_iff.mp hcheckpoint
      obtain ⟨input, -, hcheckpoint⟩ := bind_ok_iff.mp hcheckpoint
      obtain ⟨replacement, -, hcheckpoint⟩ := bind_ok_iff.mp hcheckpoint
      obtain ⟨inputItems, hinput, hcheckpoint⟩ := bind_ok_iff.mp hcheckpoint
      obtain ⟨replacementItems, hreplacement, hcheckpoint⟩ := bind_ok_iff.mp hcheckpoint
      obtain ⟨⟨u, inputIds⟩, hu, hcheckpoint⟩ := bind_ok_iff.mp hcheckpoint
      obtain ⟨⟨v, ids⟩, hv, hcheckpoint⟩ := bind_ok_iff.mp hcheckpoint
      obtain ⟨v₁, h₁, hcheckpoint⟩ := bind_ok_iff.mp hcheckpoint
      obtain ⟨v₂, h₂, hcheckpoint⟩ := bind_ok_iff.mp hcheckpoint
      obtain ⟨v₃, h₃, hcheckpoint⟩ := bind_ok_iff.mp hcheckpoint
      cases hcheckpoint
      obtain ⟨_, rfl⟩ := appendThread_ok h₁
      obtain ⟨_, rfl⟩ := appendThread_ok h₂
      obtain ⟨_, rfl⟩ := appendThread_ok h₃
      exact ⟨input, inputItems, replacement, replacementItems, u, inputIds, v, ids, _, hinput,
        hreplacement, hu, hv, rfl⟩

theorem compactionInstalled_wellFormed {compactionId : Text} (hr : r.WellFormed)
    (h : r.reduceCompactionInstalledEvent jsonText linking wallTimeUnixMs t codexTurnId compactionId
      payload = .ok r') : r'.WellFormed := by
  obtain ⟨_, _, _, _, u, inputIds, v, ids, threadIds, -, -, hu, hv, rfl⟩ := compactionInstalled_ok h
  obtain ⟨hgrown, -⟩ := detached_stores hr.fresh (hr.snapshotOf t) hu
  have hmarker : (u.createMarker t codexTurnId wallTimeUnixMs compactionId).WellFormed :=
    (grown_createFor (hgrown.fresh hr.fresh) _ _ _ _).wellFormed (hgrown.wellFormed hr)
  obtain ⟨hgrown', hids⟩ := detached_stores hmarker.fresh (by simp) hv
  have hv := hgrown'.wellFormed hmarker
  exact ⟨hv.fresh, hv.snapshots, storesAll_set hv.pending hids, hv.calls⟩

theorem applyEvent_wellFormed {event : TraceEvent G} (hr : r.WellFormed)
    (h : r.applyEvent jsonText linking event = .ok r') : r'.WellFormed := by
  cases event with
  | threadStarted threadId =>
    simp only [applyEvent, startThread] at h
    split at h
    · cases h
    · cases h
      exact ⟨hr.fresh, hr.snapshots, hr.pending, hr.calls⟩
  | codexTurnStarted codexTurnId threadId =>
    simp only [applyEvent, startCodexTurn] at h
    split at h
    · cases h
    · obtain ⟨_, -, h⟩ := bind_ok_iff.mp h
      cases h
      exact ⟨hr.fresh, hr.snapshots, hr.pending, hr.calls⟩
  | codexTurnEnded codexTurnId status =>
    simp only [applyEvent, endCodexTurn] at h
    split at h
    · cases h
    · cases h
      exact closeRunning_wellFormed hr codexTurnId status
  | inferenceStarted wallTimeUnixMs started => exact startInferenceCall_wellFormed hr h
  | inferenceCompleted wallTimeUnixMs inferenceCallId responseId responsePayload
  | inferenceFailed wallTimeUnixMs inferenceCallId partialResponsePayload
  | inferenceCancelled wallTimeUnixMs inferenceCallId partialResponsePayload =>
    exact completeInferenceCall_wellFormed hr h
  | compactionInstalled wallTimeUnixMs threadId codexTurnId compactionId checkpointPayload =>
    exact compactionInstalled_wellFormed hr h
  | other act =>
    obtain ⟨links, -, h⟩ := bind_ok_iff.mp h
    cases h
    exact (grown_linked (t := []) r links).wellFormed hr

theorem replay_wellFormed {events : List (TraceEvent G)} (hr : r.WellFormed)
    (h : r.replay jsonText linking events = .ok r') : r'.WellFormed :=
  run_keeps (fun _ _ _ hu hstep => applyEvent_wellFormed hu hstep) hr h

end Reducer

end Codex.RolloutTrace
