import Codex.Foundation.SlotReuse
import Codex.RolloutTrace.Replay
import Mathlib.Data.List.Find

/-!
# Ids reused by a full request

A full request is compared with the snapshot before it. Its ids stand for its items, and
an id is reused only from that snapshot. Two items of one request may get the same id: the
id at an item's own place is kept also when the search has given it to an item before.
-/

namespace Codex.RolloutTrace

open Foundation List

namespace Reducer
variable {G : Type} {r r' : Reducer G} {t : Text}

/-- What the ids of a full request are to be, `prev` being the snapshot compared with. -/
structure SnapshotReconciled (r r' : Reducer G) (prev : List Text)
    (items : List NormalizedConversationItem) (ids : List Text) : Prop where
  length : ids.length = items.length
  distinct : ids.Nodup
  stored : ∀ {k : ℕ} {n : NormalizedConversationItem} {i : Text}, items[k]? = some n →
    ids[k]? = some i → r'.itemMatches i n
  reused : ∀ i ∈ ids, r.Has i → i ∈ prev
  kept : ∀ {k : ℕ} {n : NormalizedConversationItem} {i : Text}, items[k]? = some n →
    prev[k]? = some i → r.itemMatches i n → ids[k]? = some i ∨ i ∈ ids.take k

/-- An item of the request fits an id of the snapshot if the item stored there matches. -/
def fits (r : Reducer G) (n : NormalizedConversationItem) (i : Text) : Bool := r.itemMatches i n

/-! ## Matching before and during the request -/

variable {n : NormalizedConversationItem} {i : Text}

theorem ensureReasoning_matches {e : Text × ConversationItem}
    (h : r.ensureReasoningConsistency t n = .ok ()) (he : e ∈ r.conversationItems)
    (hthread : e.2.threadId = t) (hkey : e.2.normalized.key = n.key) :
    conversationItemMatches e.2 n := by
  refine conversationItemMatches_iff.mpr ⟨hkey, ?_⟩
  have hpart := NormalizedConversationItem.encodedPart_of_key hkey
  cases henc : n.encodedPart with
  | none =>
    right
    left
    simp [NormalizedConversationItem.readable, henc]
  | some encoded =>
    rw [henc] at hpart
    have hkind : n.kind = .reasoning := by
      by_contra hne
      simp [NormalizedConversationItem.encodedPart, hne] at henc
    have hkind' : e.2.kind = .reasoning := (congrArg ItemKey.kind hkey).trans hkind
    have hchannel : e.2.channel = n.channel := congrArg ItemKey.channel hkey
    have hbody : reasoningEncodedPart n.body = some encoded := by
      simpa [NormalizedConversationItem.encodedPart, hkind] using henc
    have hbody' : reasoningEncodedPart e.2.body = some encoded := by
      simpa [NormalizedConversationItem.encodedPart, ConversationItem.normalized, hkind']
        using hpart
    simp only [ensureReasoningConsistency, hkind, hbody, ne_eq, not_true_eq_false, if_false] at h
    split at h
    · cases h
    · rename_i hany
      have hagree : reasoningBodyMatches e.2.body n.body := by
        by_contra hdiff
        refine hany (any_eq_true.mpr ⟨e, he, ?_⟩)
        simp [hthread, hkind', hchannel, hbody', eq_false_of_ne_true hdiff]
      have hparts := ((reasoningBodyMatches_of_encoded hbody').mp hagree).2
      have hreadable : n.readable = readableReasoningParts n.body := by
        simp [NormalizedConversationItem.readable, henc]
      have hreadable' : e.2.normalized.readable = readableReasoningParts e.2.body := by
        rw [NormalizedConversationItem.readable, hpart]
        rfl
      rw [hreadable, hreadable']
      exact hparts

theorem itemMatches_of_key {x : ConversationItem} (h : r.ensureReasoningConsistency t n = .ok ())
    (hx : getEntry i r.conversationItems = some x) (hthread : x.threadId = t)
    (hkey : x.normalized.key = n.key) : r.itemMatches i n :=
  itemMatches_iff.mpr ⟨x, hx, ensureReasoning_matches h (mem_of_getEntry hx) hthread hkey⟩

theorem Grown.itemMatches_iff (h : Grown t r r') (hi : r.Stores t i)
    (hcheck : r'.ensureReasoningConsistency t n = .ok ()) :
    r'.itemMatches i n ↔ r.itemMatches i n := by
  obtain ⟨x, hx, hthread⟩ := hi
  obtain ⟨x', hx', hgrew⟩ := h.items hx
  rw [Reducer.itemMatches_iff, Reducer.itemMatches_iff]
  constructor
  · rintro ⟨y, hy, hmatch⟩
    rw [hx'] at hy
    cases hy
    obtain ⟨hkey, hagree⟩ := conversationItemMatches_iff.mp hmatch
    refine ⟨x, hx, conversationItemMatches_iff.mpr ⟨hgrew.key.symm.trans hkey, ?_⟩⟩
    by_cases hnil : x.normalized.readable = []
    · exact .inl hnil
    · rw [hgrew.readable hnil] at hagree
      exact hagree
  · rintro ⟨y, hy, hmatch⟩
    rw [hx] at hy
    cases hy
    have hkey := hgrew.key.trans (conversationItemMatches_iff.mp hmatch).1
    exact ⟨x', hx', ensureReasoning_matches hcheck (mem_of_getEntry hx')
      (hgrew.thread.trans hthread) hkey⟩

theorem key_of_fits {m : NormalizedConversationItem} (hn : r.fits n i) (hm : r.fits m i) :
    n.key = m.key := by
  obtain ⟨x, hx, hmatch⟩ := Reducer.itemMatches_iff.mp hn
  obtain ⟨y, hy, hmatch'⟩ := Reducer.itemMatches_iff.mp hm
  rw [hx] at hy
  cases hy
  exact (conversationItemMatches_iff.mp hmatch).1.symm.trans (conversationItemMatches_iff.mp hmatch').1

theorem SnapshotReconciled.of_items {r'' : Reducer G} {prev ids : List Text}
    {items : List NormalizedConversationItem} (h : SnapshotReconciled r r' prev items ids)
    (hitems : r''.conversationItems = r'.conversationItems) :
    SnapshotReconciled r r'' prev items ids := by
  refine ⟨h.length, h.distinct, fun hn hi => ?_, h.reused, h.kept⟩
  rw [itemMatches, hitems]
  exact h.stored hn hi

/-! ## The ids of a request -/

section
variable {context : ReconcileItems} {prev ids : List Text} {items : List NormalizedConversationItem}

theorem ReconcilesAll.blocks (h : ReconcilesAll context prev [] items r ids r')
    (hprev : ∀ i ∈ prev, r.Stores context.threadId i) : Blocks r.fits prev items := by
  intro n hn m hm i hi j hj hni hmi hnj
  obtain ⟨k, hk⟩ := mem_iff_getElem?.mp hm
  have hlt : k < ids.length := by
    rw [h.length]
    exact (List.getElem?_eq_some_iff.mp hk).1
  obtain ⟨u, v, hu, -, -, hone, -⟩ := h.each hk (List.getElem?_eq_getElem hlt)
  obtain ⟨x, hx, hmatch⟩ := Reducer.itemMatches_iff.mp hnj
  obtain ⟨y, hy, hthread⟩ := hprev j hj
  rw [hx] at hy
  cases hy
  obtain ⟨x', hx', hgrew⟩ := hu.items hx
  have hkey := hgrew.key.trans
    ((conversationItemMatches_iff.mp hmatch).1.trans (key_of_fits hni hmi))
  exact (hu.itemMatches_iff (hprev j hj) hone.reasoning).mp
    (itemMatches_of_key hone.reasoning hx' (hgrew.thread.trans hthread) hkey)

theorem find_eq_search {u : Reducer G} {used : List Text} {n : NormalizedConversationItem}
    (hu : Grown t r u) (hprev : ∀ i ∈ prev, r.Stores t i)
    (hcheck : u.ensureReasoningConsistency t n = .ok ()) :
    u.findMatchingSnapshotItem prev used n = search r.fits prev used n := by
  refine List.find?_congr fun i hi => ?_
  have hiff := hu.itemMatches_iff (hprev i hi) hcheck
  rw [show u.itemMatches i n = r.fits n i from Bool.eq_iff_iff.mpr hiff]
  simp

variable (h : ReconcilesAll context prev [] items r ids r')
include h

theorem ReconcilesAll.at_place
    (hstart : context.startIndex = 0) {k : ℕ} {n : NormalizedConversationItem}
    (hn : items[k]? = some n) : ∃ i u w, ids[k]? = some i ∧ Grown context.threadId r u ∧
      u.Fresh ∧ (∀ j ∈ ids.take k, u.Has j) ∧
      u.ensureReasoningConsistency context.threadId n = .ok () ∧
      Identified u context prev (ids.take k) n w i ∧
      context.startIndex + (ids.take k).length = k := by
  have hlt : k < ids.length := by
    rw [h.length]
    exact (List.getElem?_eq_some_iff.mp hn).1
  obtain ⟨u, v, hu, hfresh, hhas, hone, -⟩ := h.each hn (List.getElem?_eq_getElem hlt)
  obtain ⟨w, hw, -⟩ := hone.identified
  refine ⟨ids[k], u, w, List.getElem?_eq_getElem hlt, hu, hfresh, hhas, hone.reasoning, hw, ?_⟩
  rw [hstart, length_take]
  omega

theorem ReconcilesAll.assigned
    (hstart : context.startIndex = 0) (hmode : context.mode = .fullSnapshot)
    (hprev : ∀ i ∈ prev, r.Stores context.threadId i) : Assigned r.fits prev items ids := by
  refine ⟨h.length, ?_, ?_, ?_⟩
  · intro k a hkept
    obtain ⟨hat, n, hn, hfit⟩ := kept_eq_some.mp hkept
    obtain ⟨i, u, w, hi, hu, -, -, hcheck, hw, hk⟩ := h.at_place hstart hn
    have hmatch := (hu.itemMatches_iff (hprev a (mem_of_getElem? hat)) hcheck).mpr hfit
    cases hw with
    | keeps hplace _ =>
      rw [hk, hat] at hplace
      rw [hi, ← hplace]
    | takes hnot _ | creates hnot _ => exact absurd hmatch (hnot a (by rw [hk, hat]))
  · intro k a n hkept hn hsearch
    obtain ⟨i, u, w, hi, hu, -, -, hcheck, hw, hk⟩ := h.at_place hstart hn
    rw [← find_eq_search hu hprev hcheck] at hsearch
    cases hw with
    | keeps hplace hmatch =>
      rw [hk] at hplace
      have hfit := (hu.itemMatches_iff (hprev i (mem_of_getElem? hplace)) hcheck).mp hmatch
      rw [kept_eq_some.mpr ⟨hplace, n, hn, hfit⟩] at hkept
      cases hkept
    | takes _ hfound => rw [hi, ← hfound, hsearch]
    | creates _ hnone =>
      rw [hnone hmode] at hsearch
      cases hsearch
  · intro k a n hkept hn hsearch ha
    obtain ⟨i, u, w, hi, hu, hfresh, hhas, hcheck, hw, hk⟩ := h.at_place hstart hn
    rw [← find_eq_search hu hprev hcheck] at hsearch
    rw [ha] at hi
    cases hi
    cases hw with
    | keeps hplace hmatch =>
      rw [hk] at hplace
      have hfit := (hu.itemMatches_iff (hprev a (mem_of_getElem? hplace)) hcheck).mp hmatch
      rw [kept_eq_some.mpr ⟨hplace, n, hn, hfit⟩] at hkept
      cases hkept
    | takes _ hfound =>
      rw [hsearch] at hfound
      cases hfound
    | creates _ _ =>
      have hnew : ¬ u.Has (conversationItemId u.nextConversationItemOrdinal) := by
        rintro ⟨x, hx⟩
        rw [hfresh _ le_rfl] at hx
        cases hx
      exact ⟨fun hmem => hnew (hu.stores (hprev _ hmem)).has, fun hmem => hnew (hhas _ hmem)⟩

theorem ReconcilesAll.reused
    (hr : r.Fresh) (hstart : context.startIndex = 0) : ∀ i ∈ ids, r.Has i → i ∈ prev := by
  intro i hi hhas
  obtain ⟨k, hk⟩ := mem_iff_getElem?.mp hi
  have hlt : k < items.length := by
    rw [← h.length]
    exact (List.getElem?_eq_some_iff.mp hk).1
  obtain ⟨j, u, w, hj, hu, -, -, -, hw, -⟩ := h.at_place hstart (List.getElem?_eq_getElem hlt)
  rw [hk] at hj
  cases hj
  cases hw with
  | keeps hplace _ => exact mem_of_getElem? hplace
  | takes _ hfound => exact mem_of_find?_eq_some hfound
  | creates _ _ =>
    obtain ⟨x, hx⟩ := hhas
    rw [show (u.createFor context.threadId context.codexTurnId context.wallTimeUnixMs
      context.producedBy items[k]).2 = conversationItemId u.nextConversationItemOrdinal from rfl,
      hr _ hu.ordinal] at hx
    cases hx

/-- All that is claimed of the ids holds, but that they are different: they are if no kept
id is claimed before its place. -/
theorem ReconcilesAll.snapshotReconciled_iff
    (hr : r.Fresh) (hstart : context.startIndex = 0) (hmode : context.mode = .fullSnapshot)
    (hprev : ∀ i ∈ prev, r.Stores context.threadId i) :
    SnapshotReconciled r r' prev items ids ↔ ∀ k, Unclaimed r.fits prev items k := by
  have hassigned := h.assigned hstart hmode hprev
  rw [← hassigned.nodup_iff (h.blocks hprev)]
  constructor
  · exact fun hreconciled => hreconciled.distinct
  · intro hnodup
    refine ⟨h.length, hnodup, fun hn hi => (h.covers hn hi).itemMatches, h.reused hr hstart, ?_⟩
    intro k n i hn hi hmatch
    exact .inl (hassigned.keeps (kept_eq_some.mpr ⟨hi, n, hn, hmatch⟩))

end

/-- The ids of a full request are as they should be exactly if no id that an item keeps at
its own place is claimed by the items before it. -/
theorem full_request_reconciled_iff {jsonText : JsonText} {linking : Linking G} {wallTimeUnixMs : ℤ}
    {inferenceCallId codexTurnId : Text} {payload : RawPayload}
    {items : List NormalizedConversationItem} {ids : List Text} (hr : r.WellFormed)
    (hfull : requestPayload jsonText payload = .ok ⟨items, none⟩)
    (h : r.reduceInferenceRequest jsonText linking wallTimeUnixMs inferenceCallId t codexTurnId
      payload = .ok (r', ids)) : SnapshotReconciled r r' (r.comparedSnapshot t) items ids ↔
      ∀ k, Unclaimed r.fits (r.comparedSnapshot t) items k := by
  obtain ⟨request, u, v, hrequest, hreconcile, happend, rfl⟩ := reduceInferenceRequest_ok h
  rw [hfull] at hrequest
  cases hrequest
  have hitems := (appendThread_wellFormed
    ((reconcileRequest_stores hr hreconcile).1.wellFormed hr) happend).2.1
  have hall := reconcileConversationItems_spec hr.fresh hreconcile
  refine Iff.trans ?_ (hall.snapshotReconciled_iff hr.fresh rfl rfl (hr.comparedSnapshot t))
  constructor
  · exact fun hreconciled => hreconciled.of_items hitems.symm
  · exact fun hreconciled => hreconciled.of_items hitems

end Reducer

def plainJsonText : JsonText := ⟨fun _ => none, fun _ => none⟩

def userMessage (text : String) : Json :=
  .object [("type".toList, .string "message".toList), ("role".toList, .string "user".toList),
    ("content".toList, .array [.object [("type".toList, .string "input_text".toList),
      ("text".toList, .string text.toList)]])]

def fullRequest (rawPayloadId : String) (messages : List String) : RawPayload :=
  ⟨rawPayloadId.toList, .ok (.object [("input".toList, .array (messages.map userMessage))])⟩

/-- A thread whose last request had the messages `b` and `a`. -/
def afterTwoMessages : List (TraceEvent Unit) :=
  [.threadStarted "t".toList, .codexTurnStarted "u".toList "t".toList,
    .inferenceStarted 0 ⟨"i1".toList, "t".toList, "u".toList, fullRequest "p1" ["b", "a"]⟩]

namespace Reducer

theorem full_request_reconciled_iff_repeated : ∃ r r' ids,
    (new ()).replay plainJsonText .none afterTwoMessages = .ok r ∧
      r.reduceInferenceRequest plainJsonText .none 1 "i2".toList "t".toList "u".toList
        (fullRequest "p2" ["a", "a"]) = .ok (r', ids) ∧
      (SnapshotReconciled r r' (r.comparedSnapshot "t".toList)
        (List.replicate 2 ⟨.user, none, .message, [.text "a".toList], none⟩) ids ↔
        ∀ k, Unclaimed r.fits (r.comparedSnapshot "t".toList)
          (List.replicate 2 ⟨.user, none, .message, [.text "a".toList], none⟩) k) := by
  obtain ⟨r, hr, r', ids, h⟩ : ∃ r, (new ()).replay plainJsonText .none afterTwoMessages = .ok r ∧
      ∃ r' ids, r.reduceInferenceRequest plainJsonText .none 1 "i2".toList "t".toList "u".toList
        (fullRequest "p2" ["a", "a"]) = .ok (r', ids) := ⟨_, rfl, _, _, rfl⟩
  exact ⟨r, r', ids, hr, h,
    full_request_reconciled_iff (replay_wellFormed (wellFormed_new ()) hr) rfl h⟩

/-- The search gives the second message's id to the first, and the second keeps it. -/
theorem repeated_message_gets_one_id : ∃ r r' i,
    (new ()).replay plainJsonText .none afterTwoMessages = .ok r ∧
      r.reduceInferenceRequest plainJsonText .none 1 "i2".toList "t".toList "u".toList
        (fullRequest "p2" ["a", "a"]) = .ok (r', [i, i]) ∧
      ¬ SnapshotReconciled r r' (r.comparedSnapshot "t".toList)
        (List.replicate 2 ⟨.user, none, .message, [.text "a".toList], none⟩) [i, i] :=
  ⟨_, _, _, rfl, rfl, fun h => by simpa using h.distinct⟩

end Reducer

end Codex.RolloutTrace
