import Codex.RolloutTrace.DeltaRequests

/-!
# Replays with deltas and with full requests

The requests and responses of a thread, where a request that follows a response may be
sent as a delta. The replay of the deltas is that of the full requests, unless an omitted
item has parts that stand for the payload it was in: a full request carries that item in
another payload, and it becomes another item.
-/

namespace Codex.RolloutTrace

open Foundation List

/-! ## Exchanges -/

/-- A request with its items, one that follows the response before it with new items, or a
completed response. -/
inductive ExchangeStep where
  | request (wallTimeUnixMs : ℤ) (inferenceCallId codexTurnId rawPayloadId : Text)
      (items : List Json)
  | followUp (wallTimeUnixMs : ℤ) (inferenceCallId codexTurnId rawPayloadId : Text)
      (newItems : List Json) (asDelta : Bool)
  | completed (wallTimeUnixMs : ℤ) (inferenceCallId : Text) (responseId : Option Text)
      (rawPayloadId : Text) (outputItems : List Json)

/-- What the steps before leave: a request, or a request that was answered directly. -/
inductive Preceding where
  | nothing
  | asked (inferenceCallId : Text) (input : List Json)
  | answered (responseId : Text) (items : List Json)

/-- The items that a delta leaves out: those of the request, those of its response. -/
def Preceding.omitted : Preceding → List Json
  | .answered _ items => items
  | _ => []

def Preceding.next (c : Preceding) : ExchangeStep → Preceding
  | .request _ inferenceCallId _ _ items => .asked inferenceCallId items
  | .followUp _ inferenceCallId _ _ newItems _ => .asked inferenceCallId (c.omitted ++ newItems)
  | .completed _ inferenceCallId responseId _ outputItems =>
    match c, responseId with
    | .asked asking input, some responseId =>
      if asking = inferenceCallId then .answered responseId (input ++ outputItems) else .nothing
    | _, _ => .nothing

def requestBody (rawPayloadId : Text) (items : List Json) (previousResponseId : Option Text) :
    RawPayload :=
  ⟨rawPayloadId, .ok (.object (("input".toList, .array items) ::
    previousResponseId.toList.map fun i => ("previous_response_id".toList, .string i)))⟩

def responseBody (rawPayloadId : Text) (outputItems : List Json) : RawPayload :=
  ⟨rawPayloadId, .ok (.object [("output_items".toList, .array outputItems)])⟩

/-- The payload of a follow-up: in full, or as a delta where it follows a response. -/
def followUpBody (withDelta : Bool) (c : Preceding) (rawPayloadId : Text) (newItems : List Json) :
    RawPayload :=
  match c with
  | .answered responseId items =>
    if withDelta then requestBody rawPayloadId newItems (some responseId)
    else requestBody rawPayloadId (items ++ newItems) none
  | _ => requestBody rawPayloadId newItems none

section
variable {G : Type} (t : Text) (withDeltas : Bool)

def ExchangeStep.event (c : Preceding) : ExchangeStep → TraceEvent G
  | .request wallTimeUnixMs inferenceCallId codexTurnId rawPayloadId items =>
    .inferenceStarted wallTimeUnixMs
      ⟨inferenceCallId, t, codexTurnId, requestBody rawPayloadId items none⟩
  | .followUp wallTimeUnixMs inferenceCallId codexTurnId rawPayloadId newItems asDelta =>
    .inferenceStarted wallTimeUnixMs
      ⟨inferenceCallId, t, codexTurnId,
        followUpBody (withDeltas && asDelta) c rawPayloadId newItems⟩
  | .completed wallTimeUnixMs inferenceCallId responseId rawPayloadId outputItems =>
    .inferenceCompleted wallTimeUnixMs inferenceCallId responseId
      (responseBody rawPayloadId outputItems)

/-- The events of thread `t`, with the chosen follow-ups as deltas or all in full. -/
def events (c : Preceding) : List ExchangeStep → List (TraceEvent G)
  | [] => []
  | step :: steps => step.event t withDeltas c :: events (c.next step) steps

end

def ExchangeStep.responseId : ExchangeStep → Option Text
  | .completed _ _ responseId _ _ => responseId
  | _ => none

def ExchangeStep.rawPayloadId : ExchangeStep → Text
  | .request _ _ _ rawPayloadId _ => rawPayloadId
  | .followUp _ _ _ rawPayloadId _ _ => rawPayloadId
  | .completed _ _ _ rawPayloadId _ => rawPayloadId

def ExchangeStep.sentAsDelta : ExchangeStep → Bool
  | .followUp _ _ _ _ _ asDelta => asDelta
  | _ => false

section
variable (jsonText : JsonText)

def PayloadFreeItems (items : List Json) : Prop := ∀ item ∈ items, ∀ p n,
  normalizeModelItem jsonText item p = .ok n → n.PayloadFree

theorem payloadFreeItems_nil : PayloadFreeItems jsonText [] := by
  intro item hitem
  cases hitem

def OmitsPayloadFree (c : Preceding) : List ExchangeStep → Prop
  | [] => True
  | step :: steps => (step.sentAsDelta → PayloadFreeItems jsonText c.omitted) ∧
      OmitsPayloadFree (c.next step) steps

end

theorem requestPayload_requestBody (jsonText : JsonText) (p : Text) (items : List Json)
    (previousResponseId : Option Text) :
    requestPayload jsonText (requestBody p items previousResponseId) =
      (fun l => RequestPayload.mk l previousResponseId) <$> normalizeModelItems jsonText items p := by
  cases previousResponseId with
  | none | some i =>
    rfl

namespace Reducer
variable {G : Type} {r r' : Reducer G} {t : Text}

/-- The ids are those of the items, in whichever payload the items came. -/
def CoversItems (r : Reducer G) (jsonText : JsonText) (ids : List Text) (items : List Json) :
    Prop := List.Forall₂ (fun i item => ∃ p n, normalizeModelItem jsonText item p = .ok n ∧
      r.Covers i n) ids items

variable {jsonText : JsonText} {ids : List Text} {items : List Json}

theorem CoversItems.normalized (h : r.CoversItems jsonText ids items)
    (hfree : PayloadFreeItems jsonText items) (q : Text) :
    ∃ l, normalizeModelItems jsonText items q = .ok l ∧ List.Forall₂ r.Covers ids l := by
  induction h with
  | nil => exact ⟨[], rfl, .nil⟩
  | @cons i item ids items hone _ ih =>
    obtain ⟨p, n, hn, x, hx, hcovers⟩ := hone
    have hpayload := hfree item mem_cons_self p n hn
    obtain ⟨l, hl, hall⟩ := ih fun m hm => hfree m (mem_cons_of_mem item hm)
    refine ⟨n.atPayload q :: l, ?_, .cons ⟨x, hx, ?_, ?_⟩ hall⟩
    · exact mapM_ok_iff.mpr (.cons (normalizeModelItem_atPayload jsonText hn) (mapM_ok_iff.mp hl))
    · rw [hpayload.key_atPayload]
      exact hcovers.1
    · rw [NormalizedConversationItem.readable_atPayload]
      exact hcovers.2

theorem Grown.coversItems (h : Grown t r r') (hids : r.CoversItems jsonText ids items) :
    r'.CoversItems jsonText ids items := by
  refine List.Forall₂.imp ?_ hids
  rintro i item ⟨p, n, hn, hcovers⟩
  exact ⟨p, n, hn, h.covers hcovers⟩

/-! ## One follow-up -/

theorem reconcileRequest_delta (wallTimeUnixMs : ℤ)
    (inferenceCallId codexTurnId : Text) {previousResponseId : Text}
    {seen : List NormalizedConversationItem} (new : List NormalizedConversationItem)
    (hpending : getEntry t r.pendingCompactionReplacementItemIds = none)
    (hprevious : r.previousItems t previousResponseId = some (r.snapshotOf t))
    (hcovers : List.Forall₂ r.Covers (r.snapshotOf t) seen)
    (hcompatible : ∀ n ∈ seen, ∀ e ∈ r.conversationItems, e.2.threadId = t →
      Compatible e.2.normalized n) :
    r.reconcileRequest .none wallTimeUnixMs inferenceCallId t codexTurnId
        ⟨new, some previousResponseId⟩ =
      r.reconcileRequest .none wallTimeUnixMs inferenceCallId t codexTurnId ⟨seen ++ new, none⟩ := by
  have hagain : seen.foldlM (reconcileItem .none
      ⟨t, codexTurnId, wallTimeUnixMs, [], 0, .fullSnapshot, none⟩ (r.snapshotOf t))
      (r, (r.snapshotOf t).take 0) = .ok (r, r.snapshotOf t) :=
    reconcileAll_again rfl rfl (by simpa using hcovers) hcompatible
  have hnew := reconcileAll_new r .none t codexTurnId wallTimeUnixMs none (r.snapshotOf t) [] new
  rw [append_nil] at hnew
  simp only [reconcileRequest, hprevious, hpending, reconcileConversationItems, Option.getD_none,
    foldlM_append]
  rw [show (r, ([] : List Text)) = (r, (r.snapshotOf t).take 0) from rfl, hagain]
  simp only [take_zero]
  cases hx : new.foldlM (reconcileItem .none ⟨t, codexTurnId, wallTimeUnixMs, [],
      (r.snapshotOf t).length, .appendOnly, none⟩ (r.snapshotOf t)) (r, []) with
  | error e =>
    rw [hx] at hnew
    simp only [bind, Except.bind, hnew, Functor.map, Except.map]
  | ok s =>
    rw [hx] at hnew
    simp only [bind, Except.bind, hnew, Functor.map, Except.map]
    rfl

theorem compatible_of_covers {seen : List Text} {items : List NormalizedConversationItem}
    (hsound : r.Sound seen) (hstores : ∀ i ∈ ids, r.Stores t i)
    (hcovers : List.Forall₂ r.Covers ids items) :
    ∀ n ∈ items, ∀ e ∈ r.conversationItems, e.2.threadId = t → Compatible e.2.normalized n := by
  induction hcovers with
  | nil => simp
  | @cons i n ids items hone _ ih =>
    intro m hm e he hthread
    rcases mem_cons.mp hm with rfl | hmem
    · obtain ⟨x, hx, hcovers⟩ := hone
      obtain ⟨y, hy, hy'⟩ := hstores i mem_cons_self
      rw [hx] at hy
      cases hy
      exact (hsound.compatible e he _ (mem_of_getEntry hx) (hthread.trans hy'.symm)).of_covers
        hcovers
    · exact ih (fun j hj => hstores j (mem_cons_of_mem i hj)) m hmem e he hthread

theorem installSnapshot_nothing_pending
    (h : getEntry t r.pendingCompactionReplacementItemIds = none) (full : Bool)
    (ids : List Text) : r.installSnapshot t full ids = r.installSnapshot t false ids := by
  cases full with
  | false => rfl
  | true =>
    unfold installSnapshot
    rw [if_pos rfl, remove_absent h]
    rfl

theorem reduceInferenceRequest_delta (wallTimeUnixMs : ℤ)
    (inferenceCallId codexTurnId rawPayloadId : Text) {previousResponseId : Text} {seen : List Text}
    {omitted : List Json} (newItems : List Json) (hr : r.WellFormed) (hsound : r.Sound seen)
    (hpending : getEntry t r.pendingCompactionReplacementItemIds = none)
    (hprevious : r.previousItems t previousResponseId = some (r.snapshotOf t))
    (hcovers : r.CoversItems jsonText (r.snapshotOf t) omitted)
    (hfree : PayloadFreeItems jsonText omitted) :
    r.reduceInferenceRequest jsonText .none wallTimeUnixMs inferenceCallId t codexTurnId
        (requestBody rawPayloadId newItems (some previousResponseId)) =
      r.reduceInferenceRequest jsonText .none wallTimeUnixMs inferenceCallId t codexTurnId
        (requestBody rawPayloadId (omitted ++ newItems) none) := by
  obtain ⟨l, hl, hseen⟩ := hcovers.normalized hfree rawPayloadId
  have hcompatible := compatible_of_covers hsound (hr.snapshotOf t) hseen
  unfold reduceInferenceRequest
  rw [requestPayload_requestBody, requestPayload_requestBody]
  have happend : normalizeModelItems jsonText (omitted ++ newItems) rawPayloadId =
      (fun new => l ++ new) <$> normalizeModelItems jsonText newItems rawPayloadId := by
    unfold normalizeModelItems at hl ⊢
    rw [mapM_append, hl]
    rfl
  rw [happend]
  cases normalizeModelItems jsonText newItems rawPayloadId with
  | error e => rfl
  | ok new =>
    have hsame := reconcileRequest_delta wallTimeUnixMs inferenceCallId codexTurnId new hpending
      hprevious hseen hcompatible
    simp only [bind, Except.bind, Functor.map, Except.map, hsame]
    cases hreconcile : r.reconcileRequest .none wallTimeUnixMs inferenceCallId t codexTurnId
        ⟨l ++ new, none⟩ with
    | error e => rfl
    | ok s =>
      obtain ⟨u, ids⟩ := s
      have hgrown := (reconcileRequest_stores hr hreconcile).1
      dsimp only
      cases hthread : u.appendThreadConversationItems t ids with
      | error e => rfl
      | ok v =>
        have hv : getEntry t v.pendingCompactionReplacementItemIds = none := by
          obtain ⟨_, rfl⟩ := appendThread_ok hthread
          rw [← hpending, ← hgrown.pending]
        simp only [installSnapshot_nothing_pending hv]

/-! ## What the steps before leave -/

/-- The state after the step that `c` remembers. -/
def Precedes (r : Reducer G) (jsonText : JsonText) (t : Text) : Preceding → Prop
  | .nothing => True
  | .asked inferenceCallId input => ∃ call,
      getEntry inferenceCallId r.inferenceCalls = some call ∧ call.threadId = t ∧
      call.status = .running ∧ call.requestItemIds = r.snapshotOf t ∧
      r.CoversItems jsonText (r.snapshotOf t) input
  | .answered responseId items => r.previousItems t responseId = some (r.snapshotOf t) ∧
      r.CoversItems jsonText (r.snapshotOf t) items

/-- The state between two steps: `used` are the response ids that came, `seen` the payload
ids. -/
structure Between (jsonText : JsonText) (t : Text) (c : Preceding) (r : Reducer G)
    (used seen : List Text) : Prop where
  wellFormed : r.WellFormed
  sound : r.Sound seen
  noPending : getEntry t r.pendingCompactionReplacementItemIds = none
  responses : ∀ e ∈ r.inferenceCalls, e.2.threadId = t → ∀ i, e.2.upstreamRequestId = some i →
    i ∈ used
  precedes : r.Precedes jsonText t c

theorem ReconcilesAll.coversItems {context : ReconcileItems} {prev used ids : List Text}
    {l : List NormalizedConversationItem} {p : Text}
    (h : ReconcilesAll context prev used l r ids r')
    (hl : normalizeModelItems jsonText items p = .ok l) : r'.CoversItems jsonText ids items := by
  have hnormal := forall₂_iff_get.mp (mapM_ok_iff.mp hl)
  refine forall₂_iff_get.mpr ⟨h.length.trans hnormal.1.symm, fun k hk hk' => ?_⟩
  have hlt : k < l.length := by
    rw [← hnormal.1]
    exact hk'
  exact ⟨p, l.get ⟨k, hlt⟩, hnormal.2 k hk' hlt,
    h.covers (List.getElem?_eq_getElem hlt) (List.getElem?_eq_getElem hk)⟩

variable {linking : Linking G}

theorem reconcile_between {context : ReconcileItems} {l : List NormalizedConversationItem}
    {p : Text} {ids seen : List Text} (hr : r.WellFormed) (hsound : r.Sound seen)
    (hoverride : context.snapshotOverride = none)
    (hl : normalizeModelItems jsonText items p = .ok l)
    (h : r.reconcileConversationItems linking l context = .ok (r', ids)) :
    Grown context.threadId r r' ∧ r'.Sound (p :: seen) ∧ r'.CoversItems jsonText ids items := by
  have hprev : ∀ i ∈ context.snapshotOverride.getD (r.snapshotOf context.threadId),
      r.Stores context.threadId i := by
    rw [hoverride]
    exact hr.snapshotOf context.threadId
  have hall := reconcileConversationItems_spec hr.fresh h
  exact ⟨hall.grown, reconcileConversationItems_sound hr.fresh
    (hsound.mono (subset_cons_self p seen)) hprev (payloads_of_normalized hl) h,
    hall.coversItems hl⟩

variable {used seen : List Text} {c : Preceding} {wallTimeUnixMs : ℤ}

theorem Between.request {inferenceCallId codexTurnId p : Text}
    (h : Between jsonText t c r used seen)
    (hstart : r.startInferenceCall jsonText linking wallTimeUnixMs
      ⟨inferenceCallId, t, codexTurnId, requestBody p items none⟩ = .ok r') :
    Between jsonText t (.asked inferenceCallId items) r' used (p :: seen) := by
  have hwell := startInferenceCall_wellFormed h.wellFormed hstart
  obtain ⟨-, w, ids, hrequest, rfl⟩ := startInferenceCall_ok hstart
  obtain ⟨request, u, v, hpayload, hreconcile, happend, rfl⟩ := reduceInferenceRequest_ok hrequest
  rw [requestPayload_requestBody] at hpayload
  cases hl : normalizeModelItems jsonText items p with
  | error e =>
    rw [hl] at hpayload
    cases hpayload
  | ok l =>
    rw [hl] at hpayload
    cases hpayload
    obtain ⟨threadIds, rfl⟩ := appendThread_ok happend
    simp only [reconcileRequest, h.noPending] at hreconcile
    obtain ⟨hgrown, hsound, hcovers⟩ := reconcile_between h.wellFormed h.sound rfl hl hreconcile
    have hsnapshot : (getEntry t (setEntry t ids u.threadConversationSnapshots)).getD [] = ids := by
      rw [getEntry_set_self]
      rfl
    refine ⟨hwell, ⟨hsound.compatible, hsound.payloads⟩, ?_, ?_, _, getEntry_set_self _ _ _, rfl,
      rfl, hsnapshot.symm, ?_⟩
    · show getEntry t (removeEntry t u.pendingCompactionReplacementItemIds) = none
      rw [getEntry_remove, if_pos rfl]
    · intro e he hthread i hi
      obtain rfl | hmem := mem_setEntry he
      · cases hi
      · have hold : e ∈ r.inferenceCalls := by
          rw [← hgrown.calls]
          exact hmem
        exact h.responses e hold hthread i hi
    · show CoversItems _ jsonText ((getEntry t (setEntry t ids _)).getD []) items
      rw [hsnapshot]
      exact hcovers

theorem completed_ok {inferenceCallId p : Text} {responseId : Option Text} {outputItems : List Json}
    (h : Between jsonText t c r used seen)
    (hcomplete : r.completeInferenceCall jsonText linking wallTimeUnixMs inferenceCallId .completed
      responseId (some (responseBody p outputItems)) = .ok r') :
    ∃ u call ids threadIds, getEntry inferenceCallId r.inferenceCalls = some call ∧
      Grown call.threadId r u ∧ u.Sound (p :: seen) ∧ u.CoversItems jsonText ids outputItems ∧
      r' = (({ u with threads := threadIds } : Reducer G).extendSnapshot call.threadId ids).putCall
        inferenceCallId (InferenceCall.completed call .completed responseId (some ids)) := by
  obtain ⟨w, call', ids', hresponse, hcall', rfl⟩ := completeInferenceCall_ok hcomplete
  obtain ⟨⟨w, ids⟩, hreduce, hresponse⟩ := bind_ok_iff.mp hresponse
  cases hresponse
  obtain ⟨json, output, call, l, u, v, hjson, houtput, hcall, hl, hreconcile, happend, rfl⟩ :=
    reduceInferenceResponse_ok hreduce
  cases hjson
  cases houtput
  obtain ⟨threadIds, rfl⟩ := appendThread_ok happend
  obtain ⟨hgrown, hsound, hcovers⟩ := reconcile_between h.wellFormed h.sound rfl hl hreconcile
  have hsame : call' = call := by
    have hcalls : getEntry inferenceCallId u.inferenceCalls = some call' := hcall'
    rw [hgrown.calls, hcall] at hcalls
    exact (Option.some.inj hcalls).symm
  rw [hsame]
  exact ⟨u, call, ids, _, hcall, hgrown, hsound, hcovers, rfl⟩

theorem previousItems_of_unique {i : Text} {e : Text × InferenceCall} (he : e ∈ r.inferenceCalls)
    (hthread : e.2.threadId = t) (hresponse : e.2.upstreamRequestId = some i)
    (hunique : ∀ e' ∈ r.inferenceCalls, e'.2.threadId = t → e'.2.upstreamRequestId = some i →
      e' = e) : r.previousItems t i = some (e.2.requestItemIds ++ e.2.responseItemIds) := by
  unfold previousItems
  cases hfind : r.inferenceCalls.find? fun e => e.2.threadId = t &&
      e.2.upstreamRequestId = some i with
  | none =>
    have hnot := List.find?_eq_none.mp hfind e he
    simp [hthread, hresponse] at hnot
  | some e' =>
    have hfits := List.find?_some hfind
    simp only [Bool.and_eq_true, decide_eq_true_eq] at hfits
    rw [hunique e' (mem_of_find?_eq_some hfind) hfits.1 hfits.2]
    rfl

theorem Between.completed {inferenceCallId p : Text} {responseId : Option Text}
    {outputItems : List Json} (h : Between jsonText t c r used seen)
    (hnew : ∀ i, responseId = some i → i ∉ used)
    (hcomplete : r.completeInferenceCall jsonText linking wallTimeUnixMs inferenceCallId .completed
      responseId (some (responseBody p outputItems)) = .ok r') :
    Between jsonText t (c.next (.completed wallTimeUnixMs inferenceCallId responseId p outputItems))
      r' (responseId.toList ++ used) (p :: seen) := by
  have hwell := completeInferenceCall_wellFormed h.wellFormed hcomplete
  obtain ⟨u, call, ids, threadIds, hcall, hgrown, hsound, hcovers, rfl⟩ := completed_ok h hcomplete
  refine ⟨hwell, ⟨hsound.compatible, hsound.payloads⟩, ?_, ?_, ?_⟩
  · rw [← h.noPending, ← hgrown.pending]
    rfl
  · intro e he hthread i hi
    obtain rfl | hmem := mem_setEntry he
    · simp only [InferenceCall.completed] at hthread hi
      split at hi
      · exact mem_append_left _ (by simp [hi])
      · exact mem_append_right _ (h.responses _ (mem_of_getEntry hcall) hthread i hi)
    · have hold : e ∈ r.inferenceCalls := by
        rw [← hgrown.calls]
        exact hmem
      exact mem_append_right _ (h.responses e hold hthread i hi)
  · cases c with
    | nothing | answered i items => trivial
    | asked asking input =>
      cases responseId with
      | none => trivial
      | some i =>
        by_cases hasking : asking = inferenceCallId
        · subst hasking
          obtain ⟨call', hcall', hthread, hrunning, hids, hinput⟩ := h.precedes
          rw [hcall] at hcall'
          cases hcall'
          rw [show (Preceding.asked asking input).next
            (.completed wallTimeUnixMs asking (some i) p outputItems) =
              .answered i (input ++ outputItems) from if_pos rfl]
          have hsnapshot : Reducer.snapshotOf ((({ u with threads := threadIds } :
              Reducer G).extendSnapshot call.threadId ids).putCall asking
                (InferenceCall.completed call .completed (some i) (some ids))) t =
              r.snapshotOf t ++ ids := by
            show (getEntry t (setEntry call.threadId
              ((getEntry call.threadId u.threadConversationSnapshots).getD [] ++ ids)
                u.threadConversationSnapshots)).getD [] = _
            rw [hthread, getEntry_set_self, hgrown.snapshots]
            rfl
          constructor
          · rw [hsnapshot, ← hids]
            refine previousItems_of_unique (e := (asking,
              InferenceCall.completed call .completed (some i) (some ids)))
              (mem_setEntry_self _ _ _) hthread ?_ ?_
            · simp [InferenceCall.completed, hrunning]
            · intro e he hthread' hi
              obtain rfl | hmem := mem_setEntry he
              · rfl
              · have hold : e ∈ r.inferenceCalls := by
                  rw [← hgrown.calls]
                  exact hmem
                exact absurd (h.responses e hold hthread' i hi) (hnew i rfl)
          · rw [hsnapshot]
            exact rel_append (hgrown.coversItems hinput) hcovers
        · rw [show (Preceding.asked asking input).next
            (.completed wallTimeUnixMs inferenceCallId (some i) p outputItems) =
              .nothing from if_neg hasking]
          trivial

/-! ## A follow-up whose omitted items have payload parts -/

/-- The ids that call `f` was asked with. -/
def Asked (r : Reducer G) (f : Text) (ids : List Text) : Prop :=
  ∃ call, getEntry f r.inferenceCalls = some call ∧ call.requestItemIds = ids

theorem Asked.unique {f : Text} {ids ids' : List Text} (h : r.Asked f ids) (h' : r.Asked f ids') :
    ids = ids' := by
  obtain ⟨call, hcall, rfl⟩ := h
  obtain ⟨call', hcall', rfl⟩ := h'
  rw [hcall] at hcall'
  cases hcall'
  rfl

theorem reduceInferenceRequest_calls {inferenceCallId codexTurnId : Text} {payload : RawPayload}
    (hr : r.WellFormed)
    (h : r.reduceInferenceRequest jsonText linking wallTimeUnixMs inferenceCallId t codexTurnId
      payload = .ok (r', ids)) : r'.inferenceCalls = r.inferenceCalls := by
  obtain ⟨request, u, v, -, hreconcile, happend, rfl⟩ := reduceInferenceRequest_ok h
  obtain ⟨l, rfl⟩ := appendThread_ok happend
  exact (reconcileRequest_stores hr hreconcile).1.calls

theorem Asked.step {step : ExchangeStep} {withDeltas : Bool} {f : Text} (hr : r.WellFormed)
    (hasked : r.Asked f ids)
    (h : r.applyEvent jsonText linking (step.event t withDeltas c) = .ok r') : r'.Asked f ids := by
  obtain ⟨call, hcall, hids⟩ := hasked
  have hstart : ∀ {wallTimeUnixMs : ℤ} {started : StartedInferenceCall},
      r.startInferenceCall jsonText linking wallTimeUnixMs started = .ok r' → r'.Asked f ids := by
    intro wallTimeUnixMs started hstart
    obtain ⟨hnew, u, l, hrequest, rfl⟩ := startInferenceCall_ok hstart
    refine ⟨call, ?_, hids⟩
    show getEntry f (setEntry started.inferenceCallId _ u.inferenceCalls) = some call
    rw [getEntry_set, reduceInferenceRequest_calls hr hrequest, hcall]
    split
    · rename_i heq
      rw [heq, hnew] at hcall
      cases hcall
    · rfl
  cases step with
  | request _ _ _ _ _ | followUp _ _ _ _ _ _ => exact hstart h
  | completed wallTimeUnixMs inferenceCallId responseId p outputItems =>
    obtain ⟨u, call', l, hresponse, hcall', rfl⟩ := completeInferenceCall_ok h
    obtain ⟨⟨u, l⟩, hreduce, hresponse⟩ := bind_ok_iff.mp hresponse
    cases hresponse
    have hcalls := (reduceInferenceResponse_wellFormed hr hreduce).2.1
    rw [hcalls] at hcall'
    show ∃ call, getEntry f (setEntry inferenceCallId _ u.inferenceCalls) = some call ∧ _
    rw [getEntry_set, hcalls]
    split
    · rename_i heq
      rw [heq, hcall'] at hcall
      cases hcall
      exact ⟨_, rfl, hids⟩
    · exact ⟨call, hcall, hids⟩

theorem Asked.replay {steps : List ExchangeStep} {withDeltas : Bool} {f : Text} (hr : r.WellFormed)
    (hasked : r.Asked f ids)
    (h : r.replay jsonText linking (events t withDeltas c steps) = .ok r') : r'.Asked f ids := by
  induction steps generalizing r c with
  | nil =>
    cases h
    exact hasked
  | cons step steps ih =>
    obtain ⟨u, hstep, h⟩ := bind_ok_iff.mp h
    exact ih (applyEvent_wellFormed hr hstep) (hasked.step hr hstep) h

theorem start_asked {started : StartedInferenceCall}
    (h : r.startInferenceCall jsonText linking wallTimeUnixMs started = .ok r') :
    ∃ u ids, r.reduceInferenceRequest jsonText linking wallTimeUnixMs started.inferenceCallId
      started.threadId started.codexTurnId started.requestPayload = .ok (u, ids) ∧
        r'.Asked started.inferenceCallId ids := by
  obtain ⟨-, u, ids, hrequest, rfl⟩ := startInferenceCall_ok h
  exact ⟨u, ids, hrequest, _, getEntry_set_self _ _ _, rfl⟩

theorem delta_ids {inferenceCallId codexTurnId p previousResponseId : Text} {newItems : List Json}
    {ids omitted : List Text} (hprevious : r.previousItems t previousResponseId = some omitted)
    (h : r.reduceInferenceRequest jsonText linking wallTimeUnixMs inferenceCallId t codexTurnId
      (requestBody p newItems (some previousResponseId)) = .ok (r', ids)) :
    ∃ l, ids = omitted ++ l := by
  obtain ⟨request, u, v, hpayload, hreconcile, -, -⟩ := reduceInferenceRequest_ok h
  rw [requestPayload_requestBody] at hpayload
  cases hl : normalizeModelItems jsonText newItems p with
  | error e =>
    rw [hl] at hpayload
    cases hpayload
  | ok l =>
    rw [hl] at hpayload
    cases hpayload
    simp only [reconcileRequest, hprevious] at hreconcile
    obtain ⟨⟨w, delta⟩, -, hreconcile⟩ := bind_ok_iff.mp hreconcile
    cases hreconcile
    exact ⟨delta, rfl⟩

theorem full_ids_differ {inferenceCallId codexTurnId p : Text} {omitted newItems : List Json}
    {ids seen l : List Text} (hr : r.WellFormed) (hsound : r.Sound seen) (hp : p ∉ seen)
    (hcovers : r.CoversItems jsonText (r.snapshotOf t) omitted)
    (hnot : ¬ PayloadFreeItems jsonText omitted)
    (h : r.reduceInferenceRequest jsonText linking wallTimeUnixMs inferenceCallId t codexTurnId
      (requestBody p (omitted ++ newItems) none) = .ok (r', ids)) : ids ≠ r.snapshotOf t ++ l := by
  rintro rfl
  obtain ⟨request, u, v, hpayload, hreconcile, -, -⟩ := reduceInferenceRequest_ok h
  rw [requestPayload_requestBody] at hpayload
  unfold PayloadFreeItems NormalizedConversationItem.PayloadFree at hnot
  push Not at hnot
  obtain ⟨item, hitem, q, n, hn, label, x, hx⟩ := hnot
  obtain ⟨k, hk⟩ := mem_iff_getElem?.mp hitem
  have hlt := (List.getElem?_eq_some_iff.mp hk).1
  have hcover := forall₂_iff_get.mp hcovers
  cases hl : normalizeModelItems jsonText (omitted ++ newItems) p with
  | error e =>
    rw [hl] at hpayload
    cases hpayload
  | ok items =>
    rw [hl] at hpayload
    cases hpayload
    have hall := reconcileConversationItems_spec hr.fresh hreconcile
    have hnormal := forall₂_iff_get.mp (mapM_ok_iff.mp hl)
    have hlt' : k < (omitted ++ newItems).length := by
      rw [length_append]
      omega
    have hlt'' : k < items.length := by
      rw [← hnormal.1]
      exact hlt'
    have hm := hnormal.2 k hlt' hlt''
    have hsnap : k < (r.snapshotOf t).length := by
      rw [hcover.1]
      exact hlt
    obtain ⟨q', n', -, y, hy, hycovers⟩ := hcover.2 k hsnap hlt
    have hid : (r.snapshotOf t ++ l)[k]? = some ((r.snapshotOf t).get ⟨k, hsnap⟩) := by
      rw [List.getElem?_append_left hsnap]
      exact List.getElem?_eq_getElem hsnap
    obtain ⟨z, hz, hzcovers⟩ := hall.covers (List.getElem?_eq_getElem hlt'') hid
    obtain ⟨z', hz', hgrew⟩ := hall.grown.items hy
    rw [hz] at hz'
    cases hz'
    have hsame : (omitted ++ newItems).get ⟨k, hlt'⟩ = item := by
      have happend : (omitted ++ newItems)[k]? = some item := by
        rw [List.getElem?_append_left hlt, hk]
      exact (List.getElem?_eq_some_iff.mp happend).2
    rw [hsame, normalizeModelItem_atPayload jsonText hn] at hm
    have hpart := NormalizedConversationItem.payloadRef_atPayload p hx
    rw [Except.ok.inj hm, get_eq_getElem, ← hzcovers.1, hgrew.key] at hpart
    exact hp (hsound.payloads _ (mem_of_getEntry hy) label p hpart)

/-! ## One step of both replays -/

section
variable (h : Between jsonText t c r used seen)
include h

theorem Between.step {step : ExchangeStep} (hnew : ∀ i, step.responseId = some i → i ∉ used)
    (hstep : r.applyEvent jsonText linking (step.event t false c) = .ok r') :
    Between jsonText t (c.next step) r' (step.responseId.toList ++ used)
      (step.rawPayloadId :: seen) := by
  cases step with
  | request _ _ _ _ _ => exact h.request hstep
  | followUp _ _ _ _ _ _ =>
    cases c with
    | nothing | asked _ _ | answered _ _ => exact h.request hstep
  | completed _ _ _ _ _ => exact h.completed hnew hstep

theorem step_same {step : ExchangeStep}
    (hfree : step.sentAsDelta → PayloadFreeItems jsonText c.omitted) :
    r.applyEvent jsonText .none (step.event t true c) =
      r.applyEvent jsonText .none (step.event t false c) := by
  cases step with
  | request _ _ _ _ _ | completed _ _ _ _ _ => rfl
  | followUp wallTimeUnixMs inferenceCallId codexTurnId p newItems asDelta =>
    cases c with
    | nothing | asked _ _ => rfl
    | answered responseId items =>
      cases asDelta with
      | false => rfl
      | true =>
        have hdelta := reduceInferenceRequest_delta wallTimeUnixMs inferenceCallId codexTurnId p
          newItems h.wellFormed h.sound h.noPending h.precedes.1 h.precedes.2 (hfree rfl)
        show r.startInferenceCall jsonText .none wallTimeUnixMs _ =
          r.startInferenceCall jsonText .none wallTimeUnixMs _
        simp only [startInferenceCall, followUpBody, Bool.and_self, Bool.false_and, if_true,
          Bool.false_eq_true, if_false, hdelta]

theorem step_differs {step : ExchangeStep} {u v : Reducer G} (hp : step.rawPayloadId ∉ seen)
    (hnot : ¬ (step.sentAsDelta → PayloadFreeItems jsonText c.omitted))
    (hu : r.applyEvent jsonText .none (step.event t true c) = .ok u)
    (hv : r.applyEvent jsonText .none (step.event t false c) = .ok v) :
    ∃ f ids ids', u.Asked f ids ∧ v.Asked f ids' ∧ ids' ≠ ids := by
  obtain ⟨hdelta, hitems⟩ := Classical.not_imp.mp hnot
  cases step with
  | request _ _ _ _ _ | completed _ _ _ _ _ => cases hdelta
  | followUp wallTimeUnixMs inferenceCallId codexTurnId p newItems asDelta =>
    cases c with
    | nothing | asked _ _ => exact absurd (payloadFreeItems_nil jsonText) hitems
    | answered responseId items =>
      subst hdelta
      obtain ⟨u', ids, hrequest, hasked⟩ := start_asked hu
      obtain ⟨v', ids', hrequest', hasked'⟩ := start_asked hv
      obtain ⟨l, hl⟩ := delta_ids h.precedes.1 hrequest
      refine ⟨inferenceCallId, ids, ids', hasked, hasked', ?_⟩
      rw [hl]
      exact full_ids_differ h.wellFormed h.sound hp h.precedes.2 hitems hrequest'

end

/-! ## Whole replays -/

theorem replay_between {steps : List ExchangeStep} (h : Between jsonText t c r used seen)
    (hids : ∀ step ∈ steps, ∀ i, step.responseId = some i → i ∉ used)
    (hidsNodup : (steps.filterMap ExchangeStep.responseId).Nodup)
    (hpayloads : ∀ step ∈ steps, step.rawPayloadId ∉ seen)
    (hpayloadsNodup : (steps.map ExchangeStep.rawPayloadId).Nodup) :
    (OmitsPayloadFree jsonText c steps →
      r.replay jsonText .none (events t true c steps) =
        r.replay jsonText .none (events t false c steps)) ∧
    ∀ r', r.replay jsonText .none (events t true c steps) = .ok r' →
      r.replay jsonText .none (events t false c steps) = .ok r' →
        OmitsPayloadFree jsonText c steps := by
  induction steps generalizing r c used seen with
  | nil => exact ⟨fun _ => rfl, fun _ _ _ => trivial⟩
  | cons step steps ih =>
    have hused : ∀ s ∈ steps, ∀ i, s.responseId = some i →
        i ∉ step.responseId.toList ++ used := by
      intro s hs i hi hmem
      rcases mem_append.mp hmem with hstep | hold
      · have hsome : step.responseId = some i := by simpa using hstep
        rw [filterMap_cons_some hsome] at hidsNodup
        exact (nodup_cons.mp hidsNodup).1 (mem_filterMap.mpr ⟨s, hs, hi⟩)
      · exact hids s (mem_cons_of_mem step hs) i hi hold
    have husedNodup : (steps.filterMap ExchangeStep.responseId).Nodup :=
      hidsNodup.sublist ((sublist_cons_self step steps).filterMap _)
    have hfresh : ∀ s ∈ steps, s.rawPayloadId ∉ step.rawPayloadId :: seen := by
      intro s hs hmem
      rcases mem_cons.mp hmem with heq | hold
      · exact (nodup_cons.mp hpayloadsNodup).1 (mem_map.mpr ⟨s, hs, heq⟩)
      · exact hpayloads s (mem_cons_of_mem step hs) hold
    have hrest : ∀ {u : Reducer G},
        r.applyEvent jsonText .none (step.event t false c) = .ok u → _ := fun hu =>
      ih (h.step (hids step mem_cons_self) hu) hused husedNodup hfresh
        (nodup_cons.mp hpayloadsNodup).2
    unfold Reducer.replay at hrest ⊢
    simp only [events, foldlM_cons]
    constructor
    · rintro ⟨hfree, hsteps⟩
      rw [step_same h hfree]
      cases hu : r.applyEvent jsonText .none (step.event t false c) with
      | error e => rfl
      | ok u => exact (hrest hu).1 hsteps
    · intro r' hdelta hfull
      obtain ⟨u, hu, hdelta⟩ := bind_ok_iff.mp hdelta
      obtain ⟨v, hv, hfull⟩ := bind_ok_iff.mp hfull
      by_cases hfree : step.sentAsDelta → PayloadFreeItems jsonText c.omitted
      · rw [step_same h hfree, hv] at hu
        cases hu
        exact ⟨hfree, (hrest hv).2 r' hdelta hfull⟩
      · obtain ⟨f, ids, ids', hasked, hasked', hne⟩ :=
          step_differs h (hpayloads step mem_cons_self) hfree hu hv
        have hend := hasked.replay (applyEvent_wellFormed h.wellFormed hu) hdelta
        have hend' := hasked'.replay (applyEvent_wellFormed h.wellFormed hv) hfull
        exact absurd (hend'.unique hend) hne

/-- A state in which the steps of thread `t` may begin: no replacement history is pending,
the provider names its responses by ids of their own, and no payload is read twice. -/
structure Ready (r : Reducer G) (t : Text) (steps : List ExchangeStep) : Prop where
  wellFormed : r.WellFormed
  sound : ∃ seen, r.Sound seen ∧ ∀ step ∈ steps, step.rawPayloadId ∉ seen
  noPending : getEntry t r.pendingCompactionReplacementItemIds = none
  newResponses : ∀ e ∈ r.inferenceCalls, ∀ step ∈ steps, ∀ i, step.responseId = some i →
    e.2.upstreamRequestId ≠ some i
  responsesDiffer : (steps.filterMap ExchangeStep.responseId).Nodup
  payloadsDiffer : (steps.map ExchangeStep.rawPayloadId).Nodup

/-- The replay with deltas is the replay in full, failing alike, where the deltas leave out
payload-free items only; a replay with deltas that succeeds is the one in full only there. -/
theorem delta_replay_eq_full_iff (jsonText : JsonText) (steps : List ExchangeStep)
    (h : r.Ready t steps) : (OmitsPayloadFree jsonText .nothing steps →
      r.replay jsonText .none (events t true .nothing steps) =
        r.replay jsonText .none (events t false .nothing steps)) ∧
    ∀ r', r.replay jsonText .none (events t true .nothing steps) = .ok r' →
      (r.replay jsonText .none (events t false .nothing steps) = .ok r' ↔
        OmitsPayloadFree jsonText .nothing steps) := by
  obtain ⟨seen, hsound, hpayloads⟩ := h.sound
  have hbetween : Between jsonText t .nothing r
      (r.inferenceCalls.filterMap fun e => e.2.upstreamRequestId) seen := by
    refine ⟨h.wellFormed, hsound, h.noPending, ?_, trivial⟩
    intro e he _ i hi
    exact mem_filterMap.mpr ⟨e, he, hi⟩
  have hids : ∀ step ∈ steps, ∀ i, step.responseId = some i →
      i ∉ r.inferenceCalls.filterMap fun e => e.2.upstreamRequestId := by
    intro step hstep i hi hmem
    obtain ⟨e, he, heq⟩ := mem_filterMap.mp hmem
    exact h.newResponses e he step hstep i hi heq
  obtain ⟨hsame, hdiffer⟩ :=
    replay_between hbetween hids h.responsesDiffer hpayloads h.payloadsDiffer
  refine ⟨hsame, fun r' hdelta => ⟨hdiffer r' hdelta, fun hfree => ?_⟩⟩
  rw [← hsame hfree]
  exact hdelta

end Reducer

/-! ## A message and an image, followed up -/

def threadWithTurn : List (TraceEvent Unit) :=
  [.threadStarted "t".toList, .codexTurnStarted "u".toList "t".toList]

def userImage : Json :=
  .object [("type".toList, .string "message".toList), ("role".toList, .string "user".toList),
    ("content".toList, .array [.object [("type".toList, .string "input_image".toList)]])]

/-- A request with one item, its response, and a request for more sent as a delta. -/
def followedUp (first : Json) : List ExchangeStep :=
  [.request 0 "i1".toList "u".toList "p1".toList [first],
    .completed 1 "i1".toList (some "r1".toList) "p2".toList [userMessage "yes"],
    .followUp 2 "i2".toList "u".toList "p3".toList [userMessage "more"] true]

namespace Reducer

theorem delta_replay_eq_full_iff_message : ∃ r,
    (new ()).replay plainJsonText .none threadWithTurn = .ok r ∧
      r.Ready "t".toList (followedUp (userMessage "a")) ∧
      ∀ r', r.replay plainJsonText .none
          (events "t".toList true .nothing (followedUp (userMessage "a"))) = .ok r' →
        (r.replay plainJsonText .none
            (events "t".toList false .nothing (followedUp (userMessage "a"))) = .ok r' ↔
          OmitsPayloadFree plainJsonText .nothing (followedUp (userMessage "a"))) := by
  obtain ⟨r, hr, hitems, hpending, hcalls⟩ : ∃ r,
      (new ()).replay plainJsonText .none threadWithTurn = .ok r ∧ r.conversationItems = [] ∧
        getEntry "t".toList r.pendingCompactionReplacementItemIds = none ∧
          r.inferenceCalls = [] := ⟨_, rfl, rfl, rfl, rfl⟩
  have hready : r.Ready "t".toList (followedUp (userMessage "a")) := by
    refine ⟨replay_wellFormed (wellFormed_new ()) hr, ⟨[], ⟨?_, ?_⟩, ?_⟩, hpending, ?_, ?_, ?_⟩
    · simp [hitems]
    · simp [hitems]
    · simp
    · simp [hcalls]
    · exact nodup_singleton "r1".toList
    · decide
  exact ⟨r, hr, hready, (delta_replay_eq_full_iff plainJsonText _ hready).2⟩

/-- In full the image is another item, in the thread and in the request. -/
theorem followed_image_is_another_item : ∃ r r₁ r₂,
    (new ()).replay plainJsonText .none threadWithTurn = .ok r ∧
      r.replay plainJsonText .none
        (events "t".toList true .nothing (followedUp userImage)) = .ok r₁ ∧
      r.replay plainJsonText .none
        (events "t".toList false .nothing (followedUp userImage)) = .ok r₂ ∧
      r₁.threads ≠ r₂.threads :=
  ⟨_, _, _, rfl, rfl, rfl, by decide⟩

end Reducer

end Codex.RolloutTrace
