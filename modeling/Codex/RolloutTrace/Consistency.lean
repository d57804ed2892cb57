import Codex.RolloutTrace.Payloads
import Codex.RolloutTrace.SnapshotReuse

/-!
# Consistent items

The checks in front of a reconciliation keep the stored items of a thread compatible: one
call id stands for one item, and items with one encoded part agree in what is readable.
-/

namespace Codex.RolloutTrace

open Foundation List

structure Compatible (a b : NormalizedConversationItem) : Prop where
  callIds : a.callId.isSome → a.callId = b.callId → a.kind = b.kind → a.key = b.key
  reasoning : a.encodedPart.isSome → a.encodedPart = b.encodedPart → a.channel = b.channel →
    Agree a.readable b.readable

theorem Compatible.refl (a : NormalizedConversationItem) : Compatible a a :=
  ⟨fun _ _ _ => rfl, fun _ _ _ => .inr (.inr rfl)⟩

theorem Compatible.symm {a b : NormalizedConversationItem} (h : Compatible a b) :
    Compatible b a := by
  constructor
  · intro hsome hcall hkind
    exact (h.callIds (hcall ▸ hsome) hcall.symm hkind.symm).symm
  · intro hsome hencoded hchannel
    exact (h.reasoning (hencoded ▸ hsome) hencoded.symm hchannel.symm).symm

theorem readable_eq_nil_of_none {n : NormalizedConversationItem} (h : n.encodedPart = none) :
    n.readable = [] := by
  simp [NormalizedConversationItem.readable, h]

theorem Compatible.agree {a b : NormalizedConversationItem} (h : Compatible a b)
    (hkey : a.key = b.key) : Agree a.readable b.readable := by
  have hpart := NormalizedConversationItem.encodedPart_of_key hkey
  cases henc : a.encodedPart with
  | none => exact .inl (readable_eq_nil_of_none henc)
  | some e => exact h.reasoning (by rw [henc]; rfl) hpart (congrArg ItemKey.channel hkey)

theorem Compatible.of_key {a b c d : NormalizedConversationItem} (ha : Compatible d a)
    (hb : Compatible d b) (hab : a.key = b.key) (hca : c.key = a.key)
    (hreadable : c.readable = a.readable ∨ c.readable = b.readable) : Compatible d c := by
  have hcb := hca.trans hab
  constructor
  · intro hsome hcall hkind
    rw [hca]
    exact ha.callIds hsome (hcall.trans (congrArg ItemKey.callId hca))
      (hkind.trans (congrArg ItemKey.kind hca))
  · intro hsome hencoded hchannel
    rcases hreadable with heq | heq
    · rw [heq]
      exact ha.reasoning hsome
        (hencoded.trans (NormalizedConversationItem.encodedPart_of_key hca))
        (hchannel.trans (congrArg ItemKey.channel hca))
    · rw [heq]
      exact hb.reasoning hsome
        (hencoded.trans (NormalizedConversationItem.encodedPart_of_key hcb))
        (hchannel.trans (congrArg ItemKey.channel hcb))

theorem encodedPart_eq_some {n : NormalizedConversationItem} {e : Text × Text} :
    n.encodedPart = some e ↔ n.kind = .reasoning ∧ reasoningEncodedPart n.body = some e := by
  simp [NormalizedConversationItem.encodedPart]

namespace Reducer
variable {G : Type} {r r' : Reducer G} {t : Text}

/-! ## The checks -/

variable {n : NormalizedConversationItem} {seen : List Text} {linking : Linking G}
  {context : ReconcileItems} {used ids : List Text} {items : List NormalizedConversationItem}
  {jsonText : JsonText} {payload : RawPayload} {wallTimeUnixMs : ℤ}

theorem ensureCallIdConsistency_ok :
    r.ensureCallIdConsistency t n = .ok () ↔ ∀ e ∈ r.conversationItems, e.2.threadId = t →
      e.2.callId.isSome → e.2.callId = n.callId → e.2.kind = n.kind →
        conversationItemMatches e.2 n := by
  unfold ensureCallIdConsistency
  cases hcall : n.callId with
  | none =>
    simp only [true_iff]
    intro e _ _ hsome hnone
    rw [hnone] at hsome
    cases hsome
  | some c =>
    dsimp only
    split
    · rename_i hany
      obtain ⟨e, he, hbad⟩ := any_eq_true.mp hany
      simp only [Bool.and_eq_true, decide_eq_true_eq, Bool.not_eq_true'] at hbad
      obtain ⟨⟨⟨hthread, hcall'⟩, hkind⟩, hdiff⟩ := hbad
      constructor
      · intro h
        cases h
      · intro hall
        rw [hall e he hthread (by rw [hcall']; rfl) hcall' hkind] at hdiff
        cases hdiff
    · rename_i hany
      refine iff_of_true rfl fun e he hthread _ hcall' hkind => ?_
      by_contra hdiff
      refine hany (any_eq_true.mpr ⟨e, he, ?_⟩)
      simp [hthread, hcall', hkind, eq_false_of_ne_true hdiff]

theorem ensureReasoningConsistency_ok :
    r.ensureReasoningConsistency t n = .ok () ↔ ∀ e ∈ r.conversationItems, e.2.threadId = t →
      e.2.normalized.encodedPart.isSome → e.2.normalized.encodedPart = n.encodedPart →
        e.2.channel = n.channel → reasoningBodyMatches e.2.body n.body := by
  unfold ensureReasoningConsistency
  split
  · rename_i hkind
    simp only [true_iff]
    intro e _ _ hsome hnone
    have hnil : n.encodedPart = none := by
      simp [NormalizedConversationItem.encodedPart, hkind]
    rw [hnone, hnil] at hsome
    cases hsome
  · rename_i hkind
    have hencoded : n.encodedPart = reasoningEncodedPart n.body := by
      simp [NormalizedConversationItem.encodedPart, hkind]
    rw [hencoded]
    cases hpart : reasoningEncodedPart n.body with
    | none =>
      simp only [true_iff]
      intro e _ _ hsome hnone
      rw [hnone] at hsome
      cases hsome
    | some encoded =>
      dsimp only
      split
      · rename_i hany
        obtain ⟨e, he, hbad⟩ := any_eq_true.mp hany
        simp only [Bool.and_eq_true, decide_eq_true_eq, Bool.not_eq_true'] at hbad
        obtain ⟨⟨⟨⟨hthread, hkind'⟩, hchannel⟩, hpart'⟩, hdiff⟩ := hbad
        have hencoded' : e.2.normalized.encodedPart = some encoded :=
          encodedPart_eq_some.mpr ⟨hkind', hpart'⟩
        constructor
        · intro h
          cases h
        · intro hall
          rw [hall e he hthread (by rw [hencoded']; rfl) hencoded' hchannel] at hdiff
          cases hdiff
      · rename_i hany
        refine iff_of_true rfl fun e he hthread _ hencoded' hchannel => ?_
        obtain ⟨hkind', hpart'⟩ := encodedPart_eq_some.mp hencoded'
        by_contra hdiff
        refine hany (any_eq_true.mpr ⟨e, he, ?_⟩)
        have hkind'' : e.2.kind = .reasoning := hkind'
        have hpart'' : reasoningEncodedPart e.2.body = some encoded := hpart'
        simp [hthread, hkind'', hchannel, hpart'', eq_false_of_ne_true hdiff]

theorem checks_iff :
    r.ensureCallIdConsistency t n = .ok () ∧ r.ensureReasoningConsistency t n = .ok () ↔
      ∀ e ∈ r.conversationItems, e.2.threadId = t → Compatible e.2.normalized n := by
  rw [ensureCallIdConsistency_ok, ensureReasoningConsistency_ok]
  have hbodies : ∀ e : Text × ConversationItem, e.2.normalized.encodedPart.isSome →
      e.2.normalized.encodedPart = n.encodedPart →
      (reasoningBodyMatches e.2.body n.body ↔ Agree e.2.normalized.readable n.readable) := by
    intro e hsome hencoded
    obtain ⟨encoded, hpart⟩ := Option.isSome_iff_exists.mp hsome
    have hpart' := hencoded.symm.trans hpart
    have hbody : reasoningEncodedPart e.2.body = some encoded := (encodedPart_eq_some.mp hpart).2
    rw [reasoningBodyMatches_of_encoded hbody, NormalizedConversationItem.readable, NormalizedConversationItem.readable, hpart, hpart',
      and_iff_right (encodedPart_eq_some.mp hpart').2]
    rfl
  constructor
  · rintro ⟨hcalls, hreasoning⟩ e he hthread
    constructor
    · intro hsome hcall hkind
      exact (conversationItemMatches_iff.mp (hcalls e he hthread hsome hcall hkind)).1
    · intro hsome hencoded hchannel
      exact (hbodies e hsome hencoded).mp (hreasoning e he hthread hsome hencoded hchannel)
  · intro hall
    constructor
    · intro e he hthread hsome hcall hkind
      have hkey := (hall e he hthread).callIds hsome hcall hkind
      exact conversationItemMatches_iff.mpr ⟨hkey, (hall e he hthread).agree hkey⟩
    · intro e he hthread hsome hencoded hchannel
      exact (hbodies e hsome hencoded).mpr ((hall e he hthread).reasoning hsome hencoded hchannel)

/-! ## Sound states -/

/-- The stored items of a thread are compatible, and their payload parts stand for payloads
that were `seen`. -/
structure Sound (r : Reducer G) (seen : List Text) : Prop where
  compatible : ∀ e ∈ r.conversationItems, ∀ e' ∈ r.conversationItems,
    e.2.threadId = e'.2.threadId → Compatible e.2.normalized e'.2.normalized
  payloads : ∀ e ∈ r.conversationItems, ∀ label p,
    .payloadRef label p ∈ e.2.normalized.key.said → p ∈ seen

theorem Sound.mono {seen' : List Text} (h : r.Sound seen) (hsub : seen ⊆ seen') : r.Sound seen' :=
  ⟨h.compatible, fun e he label p hp => hsub (h.payloads e he label p hp)⟩

theorem Sound.put {i : Text} {x : ConversationItem} (h : r.Sound seen)
    (hx : ∀ e ∈ r.conversationItems, e.2.threadId = x.threadId →
      Compatible e.2.normalized x.normalized)
    (hp : ∀ label p, .payloadRef label p ∈ x.normalized.key.said → p ∈ seen) :
    (r.putItem i x).Sound seen := by
  constructor
  · intro e he e' he' hthread
    obtain rfl | hmem := mem_setEntry he
    · obtain rfl | hmem' := mem_setEntry he'
      · exact .refl _
      · exact (hx e' hmem' hthread.symm).symm
    · obtain rfl | hmem' := mem_setEntry he'
      · exact hx e hmem hthread
      · exact h.compatible e hmem e' hmem' hthread
  · intro e he label p hmem
    obtain rfl | hold := mem_setEntry he
    · exact hp label p hmem
    · exact h.payloads e hold label p hmem

theorem Sound.linked (h : r.Sound seen) (links : G × List (Text × ProducerRef)) :
    (r.linked links).Sound seen := by
  have hone : ∀ (u : Reducer G) link, u.Sound seen → (u.addProducer link).Sound seen := by
    intro u link hu
    unfold addProducer
    split
    · rename_i item hitem
      have hmem := mem_of_getEntry hitem
      exact hu.put (fun e he hthread => hu.compatible e he _ hmem hthread)
        (fun label p hp => hu.payloads _ hmem label p hp)
    · exact hu
  have hfold : ∀ (l : List (Text × ProducerRef)) (u : Reducer G), u.Sound seen →
      (l.foldl addProducer u).Sound seen := by
    intro l
    induction l with
    | nil => exact fun u hu => hu
    | cons link l ih => exact fun u hu => ih _ (hone u link hu)
  exact hfold links.2 _ ⟨h.compatible, h.payloads⟩

/-- The state before a sighting of `n`: `n` is compatible with the items of thread `t`. -/
structure Admits (r : Reducer G) (seen : List Text) (t : Text) (n : NormalizedConversationItem) :
    Prop where
  sound : r.Sound seen
  compatible : ∀ e ∈ r.conversationItems, e.2.threadId = t → Compatible e.2.normalized n

theorem Admits.createFor (h : r.Admits seen t n)
    (hn : ∀ label p, .payloadRef label p ∈ n.key.said → p ∈ seen) (codexTurnId : Text)
    (wallTimeUnixMs : ℤ) (producedBy : List ProducerRef) :
    (r.createFor t codexTurnId wallTimeUnixMs producedBy n).1.Admits seen t n := by
  constructor
  · have hput := h.sound.put (i := conversationItemId r.nextConversationItemOrdinal)
      (x := ⟨conversationItemId r.nextConversationItemOrdinal, t, some codexTurnId,
        wallTimeUnixMs, n.role, n.channel, n.kind, n.body, n.callId, producedBy⟩) h.compatible hn
    exact ⟨hput.compatible, hput.payloads⟩
  · intro e he hthread
    obtain rfl | hold := mem_setEntry he
    · exact .refl _
    · exact h.compatible e hold hthread

theorem Admits.sight {i : Text} {producedBy : List ProducerRef} (h : r.Admits seen t n)
    (hstores : r.Stores t i) (hmatch : r.itemMatches i n)
    (hsight : r.sight linking i n producedBy = .ok r') : r'.Sound seen := by
  obtain ⟨w, hupdate, hsight⟩ := bind_ok_iff.mp hsight
  obtain ⟨links, -, hsight⟩ := bind_ok_iff.mp hsight
  cases hsight
  obtain ⟨x, x', hx, hsighted, rfl⟩ := update_cases hmatch hupdate
  have hmem := mem_of_getEntry hx
  obtain ⟨y, hy, hthread⟩ := hstores
  rw [hx] at hy
  cases hy
  refine Sound.linked (h.sound.put ?_ ?_) links
  · intro e he hsame
    have hsame' : e.2.threadId = x.threadId := hsame.trans hsighted.thread
    refine (h.sound.compatible e he _ hmem hsame').of_key
      (h.compatible e he (hsame'.trans hthread)) hsighted.same hsighted.key ?_
    rw [hsighted.readable, joined]
    split
    · exact .inr rfl
    · exact .inl rfl
  · intro label p hp
    rw [hsighted.key] at hp
    exact h.sound.payloads _ hmem label p hp

theorem reconcileItem_sound {prev : List Text} (hr : r.Fresh) (hsound : r.Sound seen)
    (hprev : ∀ i ∈ prev, r.Stores context.threadId i)
    (hn : ∀ label p, .payloadRef label p ∈ n.key.said → p ∈ seen)
    (h : reconcileItem linking context prev (r, used) n = .ok (r', ids)) : r'.Sound seen := by
  obtain ⟨_, hcall, h⟩ := bind_ok_iff.mp h
  obtain ⟨_, hreasoning, h⟩ := bind_ok_iff.mp h
  obtain ⟨⟨v, i⟩, hidentify, h⟩ := bind_ok_iff.mp h
  obtain ⟨u, hsight, h⟩ := bind_ok_iff.mp h
  cases h
  have hadmits : r.Admits seen context.threadId n := ⟨hsound, checks_iff.mp ⟨hcall, hreasoning⟩⟩
  have hidentified := identified hidentify
  have hv : v.Admits seen context.threadId n := by
    have hcreated := hidentified
    cases hcreated with
    | keeps | takes => exact hadmits
    | creates => exact hadmits.createFor hn _ _ _
  exact hv.sight (hidentified.stores hprev) (hidentified.spec hr).2 hsight

theorem reconcileDetachedItem_sound {context : DetachedReconcileItems} (hsound : r.Sound seen)
    (hcandidates : ∀ i ∈ context.candidates, r.Stores context.threadId i)
    (hn : ∀ label p, .payloadRef label p ∈ n.key.said → p ∈ seen)
    (h : reconcileDetachedItem linking context (r, used) n = .ok (r', ids)) : r'.Sound seen := by
  obtain ⟨_, hcall, h⟩ := bind_ok_iff.mp h
  obtain ⟨_, hreasoning, h⟩ := bind_ok_iff.mp h
  obtain ⟨u, hsight, h⟩ := bind_ok_iff.mp h
  cases h
  have hadmits : r.Admits seen context.threadId n := ⟨hsound, checks_iff.mp ⟨hcall, hreasoning⟩⟩
  cases hfound : r.findMatchingSnapshotItem context.candidates used n with
  | some i =>
    simp only [hfound] at hsight
    have hfits := List.find?_some hfound
    simp only [Bool.and_eq_true] at hfits
    exact hadmits.sight (stores_find hcandidates hfound) hfits.2 hsight
  | none =>
    simp only [hfound] at hsight
    exact (hadmits.createFor hn _ _ _).sight (stores_createFor r _ _ _ n)
      (itemMatches_createFor r _ _ _ n) hsight

theorem reconcileAll_sound {prev all : List Text} (hr : r.Fresh) (hsound : r.Sound seen)
    (hprev : ∀ i ∈ prev, r.Stores context.threadId i)
    (hitems : ∀ n ∈ items, ∀ label p, .payloadRef label p ∈ n.key.said → p ∈ seen)
    (h : items.foldlM (reconcileItem linking context prev) (r, used) = .ok (r', all)) :
    r'.Sound seen := by
  induction items generalizing r used with
  | nil =>
    cases h
    exact hsound
  | cons n items ih =>
    obtain ⟨⟨w, used'⟩, hitem, h⟩ := bind_ok_iff.mp h
    obtain ⟨i, -, hone⟩ := reconcileItem_spec hr hitem
    have hw := reconcileItem_sound hr hsound hprev (hitems n mem_cons_self) hitem
    exact ih (hone.grown.fresh hr) hw (fun j hj => hone.grown.stores (hprev j hj))
      (fun m hm => hitems m (mem_cons_of_mem n hm)) h

theorem reconcileConversationItems_sound (hr : r.Fresh) (hsound : r.Sound seen)
    (hprev : ∀ i ∈ context.snapshotOverride.getD (r.snapshotOf context.threadId),
      r.Stores context.threadId i)
    (hitems : ∀ n ∈ items, ∀ label p, .payloadRef label p ∈ n.key.said → p ∈ seen)
    (h : r.reconcileConversationItems linking items context = .ok (r', ids)) : r'.Sound seen := by
  obtain ⟨⟨v, all⟩, hrun, h⟩ := bind_ok_iff.mp h
  obtain ⟨links, -, h⟩ := bind_ok_iff.mp h
  cases h
  exact (reconcileAll_sound hr hsound hprev hitems hrun).linked links

theorem reconcileDetached_sound {context : DetachedReconcileItems} (hr : r.Fresh)
    (hsound : r.Sound seen) (hcandidates : ∀ i ∈ context.candidates, r.Stores context.threadId i)
    (hitems : ∀ n ∈ items, ∀ label p, .payloadRef label p ∈ n.key.said → p ∈ seen)
    (h : r.reconcileDetachedConversationItems linking items context = .ok (r', ids)) :
    r'.Sound seen := by
  obtain ⟨⟨v, all⟩, hrun, h⟩ := bind_ok_iff.mp h
  obtain ⟨links, -, h⟩ := bind_ok_iff.mp h
  cases h
  refine Sound.linked ?_ links
  have hfold : ∀ (l : List NormalizedConversationItem) {u : Reducer G} {used : List Text},
      (∀ n ∈ l, ∀ label p, .payloadRef label p ∈ n.key.said → p ∈ seen) → u.Fresh →
      u.Sound seen → (∀ i ∈ context.candidates, u.Stores context.threadId i) →
      l.foldlM (reconcileDetachedItem linking context) (u, used) = .ok (v, ids) → v.Sound seen := by
    intro l
    induction l with
    | nil =>
      intro u used _ _ hu _ hrun
      cases hrun
      exact hu
    | cons n l ih =>
      intro u used hl hfresh hu hcand hrun
      obtain ⟨⟨w, used'⟩, hitem, hrun⟩ := bind_ok_iff.mp hrun
      obtain ⟨hgrown, -⟩ := detachedItem_spec hfresh hcand hitem
      have hw := reconcileDetachedItem_sound hu hcand (hl n mem_cons_self) hitem
      exact ih (fun m hm => hl m (mem_cons_of_mem n hm)) (hgrown.fresh hfresh) hw
        (fun j hj => hgrown.stores (hcand j hj)) hrun
  exact hfold items hitems hr hsound hcandidates hrun

/-! ## Every event keeps states sound -/

theorem payloads_of_normalized {items : List Json} {p : Text} {l : List NormalizedConversationItem}
    (h : normalizeModelItems jsonText items p = .ok l) : ∀ n ∈ l, ∀ label x,
      .payloadRef label x ∈ n.key.said → x ∈ p :: seen := by
  intro n hn label x hx
  have hall := mapM_ok_iff.mp h
  clear h
  induction hall with
  | nil => cases hn
  | cons hone _ ih =>
    rcases mem_cons.mp hn with rfl | hmem
    · rw [payloadRef_of_normalized jsonText (l := label) hone hx]
      exact mem_cons_self
    · exact ih hmem

theorem requestPayload_ok {request : RequestPayload}
    (h : requestPayload jsonText payload = .ok request) :
    ∃ items, normalizeModelItems jsonText items payload.rawPayloadId = .ok request.items := by
  obtain ⟨json, -, h⟩ := bind_ok_iff.mp h
  split at h
  · cases h
  · split at h
    · cases h
    · rename_i items _
      obtain ⟨l, hl, h⟩ := bind_ok_iff.mp h
      cases h
      exact ⟨items, hl⟩

variable (hr : r.WellFormed)
include hr

variable (hsound : r.Sound seen)
include hsound

theorem startInferenceCall_sound {started : StartedInferenceCall}
    (h : r.startInferenceCall jsonText linking wallTimeUnixMs started = .ok r') :
    r'.Sound (started.requestPayload.rawPayloadId :: seen) := by
  obtain ⟨-, w, ids, hrequest, rfl⟩ := startInferenceCall_ok h
  obtain ⟨request, u, v, hpayload, hreconcile, happend, rfl⟩ := reduceInferenceRequest_ok hrequest
  obtain ⟨threadIds, rfl⟩ := appendThread_ok happend
  obtain ⟨items, hl⟩ := requestPayload_ok hpayload
  have hmono := hsound.mono (subset_cons_self started.requestPayload.rawPayloadId seen)
  suffices hu : u.Sound (started.requestPayload.rawPayloadId :: seen) from
    ⟨hu.compatible, hu.payloads⟩
  unfold reconcileRequest at hreconcile
  split at hreconcile
  · split at hreconcile
    · cases hreconcile
    · obtain ⟨⟨v, delta⟩, hdelta, hreconcile⟩ := bind_ok_iff.mp hreconcile
      cases hreconcile
      exact reconcileConversationItems_sound hr.fresh hmono (by exact hr.snapshotOf _)
        (payloads_of_normalized hl) hdelta
  · exact reconcileConversationItems_sound hr.fresh hmono (by exact hr.comparedSnapshot _)
      (payloads_of_normalized hl) hreconcile

theorem reduceInferenceResponse_sound {inferenceCallId : Text}
    (h : r.reduceInferenceResponse jsonText linking wallTimeUnixMs inferenceCallId payload =
      .ok (r', ids)) : r'.Sound (payload.rawPayloadId :: seen) := by
  obtain ⟨_, _, call, items, u, v, -, -, -, hl, hreconcile, happend, rfl⟩ :=
    reduceInferenceResponse_ok h
  obtain ⟨threadIds, rfl⟩ := appendThread_ok happend
  have hu := reconcileConversationItems_sound hr.fresh
    (hsound.mono (subset_cons_self payload.rawPayloadId seen))
    (by exact hr.snapshotOf call.threadId) (payloads_of_normalized hl) hreconcile
  exact ⟨hu.compatible, hu.payloads⟩

theorem completeInferenceCall_sound {inferenceCallId : Text} {status : ExecutionStatus}
    {responseId : Option Text} {payload : Option RawPayload}
    (h : r.completeInferenceCall jsonText linking wallTimeUnixMs inferenceCallId status responseId
      payload = .ok r') : r'.Sound (payload.toList.map RawPayload.rawPayloadId ++ seen) := by
  obtain ⟨u, call, ids, hresponse, -, rfl⟩ := completeInferenceCall_ok h
  cases payload with
  | none =>
    cases hresponse
    exact ⟨hsound.compatible, hsound.payloads⟩
  | some payload =>
    obtain ⟨⟨v, itemIds⟩, hreduce, hresponse⟩ := bind_ok_iff.mp hresponse
    cases hresponse
    have hu := reduceInferenceResponse_sound hr hsound hreduce
    exact ⟨hu.compatible, hu.payloads⟩

theorem compactionInstalled_sound {codexTurnId compactionId : Text}
    (h : r.reduceCompactionInstalledEvent jsonText linking wallTimeUnixMs t codexTurnId compactionId
      payload = .ok r') : r'.Sound (payload.rawPayloadId :: seen) := by
  obtain ⟨_, _, _, _, u, inputIds, v, ids, threadIds, hinput, hreplacement, hu, hv, rfl⟩ :=
    compactionInstalled_ok h
  have hmono := hsound.mono (subset_cons_self payload.rawPayloadId seen)
  obtain ⟨hgrown, -⟩ := detached_stores hr.fresh (hr.snapshotOf t) hu
  have hfresh := hgrown.fresh hr.fresh
  have husound := reconcileDetached_sound hr.fresh hmono (hr.snapshotOf t)
    (payloads_of_normalized hinput) hu
  -- a marker has no call id, no encoded part and no parts at all
  have hadmits : u.Admits (payload.rawPayloadId :: seen) t
      ⟨.assistant, none, .compactionMarker, [], none⟩ := by
    refine ⟨husound, fun e _ _ => ⟨?_, ?_⟩⟩
    · intro hsome hcall
      rw [hcall] at hsome
      cases hsome
    · intro hsome hencoded
      rw [hencoded] at hsome
      cases hsome
  have hmarker : (u.createMarker t codexTurnId wallTimeUnixMs compactionId).Sound
      (payload.rawPayloadId :: seen) := (hadmits.createFor (by
        intro label p hp
        cases hp) codexTurnId wallTimeUnixMs _).sound
  have hfresh' : (u.createMarker t codexTurnId wallTimeUnixMs compactionId).Fresh :=
    (grown_createFor hfresh _ _ _ _).fresh hfresh
  have hvsound := reconcileDetached_sound hfresh' hmarker (by simp)
    (payloads_of_normalized hreplacement) hv
  exact ⟨hvsound.compatible, hvsound.payloads⟩

end Reducer

def TraceEvent.payloadIds {G : Type} : TraceEvent G → List Text
  | .inferenceStarted _ started => [started.requestPayload.rawPayloadId]
  | .inferenceCompleted _ _ _ payload => [payload.rawPayloadId]
  | .inferenceFailed _ _ payload => payload.toList.map RawPayload.rawPayloadId
  | .inferenceCancelled _ _ payload => payload.toList.map RawPayload.rawPayloadId
  | .compactionInstalled _ _ _ _ payload => [payload.rawPayloadId]
  | _ => []

namespace Reducer
variable {G : Type} {r r' : Reducer G} {t : Text}

theorem applyEvent_sound {jsonText : JsonText} {linking : Linking G} {event : TraceEvent G}
    {seen : List Text} (hr : r.WellFormed) (hsound : r.Sound seen)
    (h : r.applyEvent jsonText linking event = .ok r') : r'.Sound (event.payloadIds ++ seen) := by
  cases event with
  | threadStarted threadId =>
    simp only [applyEvent, startThread] at h
    split at h
    · cases h
    · cases h
      exact ⟨hsound.compatible, hsound.payloads⟩
  | codexTurnStarted codexTurnId threadId =>
    simp only [applyEvent, startCodexTurn] at h
    split at h
    · cases h
    · obtain ⟨_, -, h⟩ := bind_ok_iff.mp h
      cases h
      exact ⟨hsound.compatible, hsound.payloads⟩
  | codexTurnEnded codexTurnId status =>
    simp only [applyEvent, endCodexTurn] at h
    split at h
    · cases h
    · cases h
      unfold closeRunningInferenceCallsForTurnEnd
      split
      · exact hsound
      · exact ⟨hsound.compatible, hsound.payloads⟩
  | inferenceStarted wallTimeUnixMs started => exact startInferenceCall_sound hr hsound h
  | inferenceCompleted wallTimeUnixMs inferenceCallId responseId responsePayload
  | inferenceFailed wallTimeUnixMs inferenceCallId partialResponsePayload
  | inferenceCancelled wallTimeUnixMs inferenceCallId partialResponsePayload =>
    exact completeInferenceCall_sound hr hsound h
  | compactionInstalled wallTimeUnixMs threadId codexTurnId compactionId checkpointPayload =>
    exact compactionInstalled_sound hr hsound h
  | other act =>
    obtain ⟨links, -, h⟩ := bind_ok_iff.mp h
    cases h
    exact hsound.linked links

theorem replay_sound {jsonText : JsonText} {linking : Linking G} {events : List (TraceEvent G)}
    {seen : List Text} (hr : r.WellFormed) (hsound : r.Sound seen)
    (h : r.replay jsonText linking events = .ok r') :
    r'.Sound ((events.reverse.flatMap TraceEvent.payloadIds) ++ seen) := by
  induction events generalizing r seen with
  | nil =>
    cases h
    exact hsound
  | cons event events ih =>
    obtain ⟨u, hstep, h⟩ := bind_ok_iff.mp h
    have hu := ih (applyEvent_wellFormed hr hstep) (applyEvent_sound hr hsound hstep) h
    simpa using hu

/-- Ids name stored items of their own thread, the items of a thread are compatible, and
payload parts stand for payloads of the trace. -/
theorem replay_consistent (jsonText : JsonText) (linking : Linking G) {g : G}
    {events : List (TraceEvent G)} (h : (new g).replay jsonText linking events = .ok r) :
    r.WellFormed ∧ r.Sound (events.flatMap TraceEvent.payloadIds) := by
  have hnew : (new g).Sound [] := ⟨fun _ he => (by cases he), fun _ he => (by cases he)⟩
  refine ⟨replay_wellFormed (wellFormed_new g) h, ?_⟩
  refine (replay_sound (wellFormed_new g) hnew h).mono fun p hp => ?_
  simpa using hp

theorem replay_consistent_request : ∃ r, (new ()).replay plainJsonText .none afterTwoMessages =
    .ok r ∧ r.WellFormed ∧ r.Sound ["p1".toList] := by
  obtain ⟨r, hr⟩ : ∃ r, (new ()).replay plainJsonText .none afterTwoMessages = .ok r := ⟨_, rfl⟩
  exact ⟨r, hr, replay_consistent plainJsonText .none hr⟩

end Reducer

end Codex.RolloutTrace
