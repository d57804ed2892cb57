import Codex.Foundation.Slots
import Codex.RolloutTrace.AgentEdges
import Codex.RolloutTrace.Growth
import Mathlib.Data.List.Nodup

/-!
# One item for one delivery

As many items are linked as there are deliveries of a text to a thread, or items that show
it, whichever is less, and no item twice. Only the text tells two deliveries apart: a second
announcement that finds a spare item, and an item shown again while another edge waits, go
wrong.
-/

namespace Codex.RolloutTrace

open Foundation List

namespace AgentTrace

section
variable (parse : Text → Option InterAgentCommunication) (s : AgentTrace)

def Linked (edgeId itemId : Text) : Prop :=
  ∃ edge, getEntry edgeId s.interactionEdges = some edge ∧ edge.target = .conversationItem itemId

def deliveryKey (d : AgentDelivery) : Text × Text := (d.targetThreadId, d.messageContent)

def threadItemIds (threadId : Text) : List Text :=
  ((getEntry threadId s.threads).map AgentThread.conversationItemIds).getD []

def messageItems (key : Text × Text) : List Text :=
  (s.threadItemIds key.1).filter fun i => s.interAgentMessageItem parse i = some key

def linkedItems (key : Text × Text) : List Text :=
  (s.messageItems parse key).filter s.isInteractionEdgeTargetItem

def deliveries (key : Text × Text) : List AgentDelivery :=
  s.announced.filter fun d => deliveryKey d = key

def Once : Prop := ∀ i edgeId edgeId', s.Linked edgeId i → s.Linked edgeId' i → edgeId = edgeId'

structure OneToOne : Prop where
  once : s.Once
  count : ∀ key, (s.linkedItems parse key).length =
    min (s.deliveries key).length (s.messageItems parse key).length

def IsConflict (result : Reduced AgentTrace) : Prop :=
  ∃ edgeId, result = .error (conflictingEndpoints edgeId) ∨
    result = .error (conflictingDelivery edgeId)

def announcement : Event → Option AgentDelivery
  | .runtimeBegin toolCallId _ receiverThreadId prompt
  | .runtimeEnd toolCallId _ receiverThreadId prompt _ => do
    let toolCall ← getEntry toolCallId s.toolCalls
    let kind ← messageEdgeKind toolCall.kind
    return messageDelivery toolCallId kind receiverThreadId prompt
  | .announced pending => some pending.toAgentDelivery
  | _ => none

/-- Begin and end of a call tell of one delivery, and no other event uses its edge id. -/
def SameDelivery (event : Event) : Prop :=
  ∀ d ∈ s.announcement event, ∀ d' ∈ s.announced, d'.edgeId = d.edgeId → d' = d

/-- The first edge that waits for what the item shows is the one linked to the item, or
neither is linked. -/
def FitsItem (i : Text) : Prop :=
  ∀ key pending, s.interAgentMessageItem parse i = some key →
    s.pendingAgentInteractionEdges.find? (fun p => deliveryKey p.toAgentDelivery = key) =
      some pending →
    s.Linked pending.edgeId i ∨ (∀ j, ¬ s.Linked pending.edgeId j) ∧ ∀ edgeId, ¬ s.Linked edgeId i

/-- A second announcement finds no item left, and what a sighting meets fits the item. -/
def Fits (event : Event) : Prop :=
  match event with
  | .itemAppeared threadId codexTurnId firstSeenAtUnixMs item producedBy =>
    ∀ thread ∈ getEntry threadId s.threads,
      (s.storeItem threadId thread codexTurnId firstSeenAtUnixMs item producedBy).FitsItem parse
        (conversationItemId s.nextConversationItemOrdinal)
  | .itemShownAgain itemId => s.FitsItem parse itemId
  | event => ∀ d ∈ s.announcement event, d ∈ s.announced →
    s.findUnlinkedInterAgentMessageItem parse d.targetThreadId d.messageContent = none

/-! ## What holds in every run -/

/-- An edge is that of an announced delivery, and is linked to an item that shows it. -/
def EdgesKnown : Prop :=
  ∀ edgeId edge, getEntry edgeId s.interactionEdges = some edge →
    ∃ d ∈ s.announced, d.edgeId = edgeId ∧ edge.kind = d.kind ∧ edge.source = d.source ∧
      ∃ i, edge.target = .conversationItem i ∧
        s.interAgentMessageItem parse i = some (deliveryKey d)

structure Base : Prop where
  keys : (s.interactionEdges.map Prod.fst).Nodup
  stored : ∀ t i, i ∈ s.threadItemIds t ↔
    ∃ item, getEntry i s.conversationItems = some item ∧ item.threadId = t
  listedOnce : ∀ t, (s.threadItemIds t).Nodup
  fresh : ∀ n, s.nextConversationItemOrdinal ≤ n →
    getEntry (conversationItemId n) s.conversationItems = none
  edge : s.EdgesKnown parse
  pending : ∀ p ∈ s.pendingAgentInteractionEdges, p.toAgentDelivery ∈ s.announced
  pendingOnce : (s.pendingAgentInteractionEdges.map fun p => p.edgeId).Nodup
  covered : ∀ d ∈ s.announced, (∃ i, s.Linked d.edgeId i) ∨
    ∃ p ∈ s.pendingAgentInteractionEdges, p.toAgentDelivery = d
  sameData : ∀ d ∈ s.announced, ∀ d' ∈ s.announced, d.edgeId = d'.edgeId → d = d'
  announcedOnce : s.announced.Nodup

/-- No item but `i` is left while an edge waits for it. -/
def NoneLeftBut (i : Text) : Prop :=
  ∀ d ∈ s.announced, (∀ j, ¬ s.Linked d.edgeId j) → ∀ j, j ≠ i →
    s.interAgentMessageItem parse j = some (deliveryKey d) → ∃ edgeId, s.Linked edgeId j

def NoneLeft : Prop :=
  ∀ d ∈ s.announced, (∀ j, ¬ s.Linked d.edgeId j) → ∀ j,
    s.interAgentMessageItem parse j = some (deliveryKey d) → ∃ edgeId, s.Linked edgeId j

end

section
variable {parse : Text → Option InterAgentCommunication} {s s' : AgentTrace}

theorem isTarget_iff (h : s.Base parse) (i : Text) :
    s.isInteractionEdgeTargetItem i = true ↔ ∃ edgeId, s.Linked edgeId i := by
  unfold isInteractionEdgeTargetItem
  rw [any_eq_true]
  constructor
  · rintro ⟨e, he, htarget⟩
    exact ⟨e.1, e.2, getEntry_of_mem h.keys he, of_decide_eq_true htarget⟩
  · rintro ⟨edgeId, edge, hedge, htarget⟩
    exact ⟨(edgeId, edge), mem_of_getEntry hedge, decide_eq_true htarget⟩

variable {key : Text × Text}

theorem message_thread {i : Text} (h : s.interAgentMessageItem parse i = some key) :
    ∃ item, getEntry i s.conversationItems = some item ∧ item.threadId = key.1 := by
  obtain ⟨item, hitem, h⟩ := Option.bind_eq_some_iff.mp h
  obtain ⟨⟨path, content⟩, -, h⟩ := Option.bind_eq_some_iff.mp h
  obtain ⟨thread, -, h⟩ := Option.bind_eq_some_iff.mp h
  split at h
  · cases h
    exact ⟨item, hitem, rfl⟩
  · cases h

theorem mem_messageItems (h : s.Base parse) {i : Text} :
    i ∈ s.messageItems parse key ↔ s.interAgentMessageItem parse i = some key := by
  unfold messageItems
  rw [mem_filter, decide_eq_true_iff]
  exact ⟨And.right, fun hm => ⟨(h.stored key.1 i).mpr (message_thread hm), hm⟩⟩

theorem mem_linkedItems (h : s.Base parse) {i : Text} : i ∈ s.linkedItems parse key ↔
      s.interAgentMessageItem parse i = some key ∧ ∃ edgeId, s.Linked edgeId i := by
  unfold linkedItems
  rw [mem_filter, mem_messageItems h, isTarget_iff h]

theorem Linked.unique {edgeId i j : Text} (h : s.Linked edgeId i) (h' : s.Linked edgeId j) :
    i = j := by
  obtain ⟨edge, hedge, hi⟩ := h
  obtain ⟨edge', hedge', hj⟩ := h'
  rw [hedge] at hedge'
  cases hedge'
  rw [hi] at hj
  cases hj
  rfl

theorem Base.linked (h : s.Base parse) {edgeId i : Text} (hl : s.Linked edgeId i) :
    ∃ d ∈ s.announced, d.edgeId = edgeId ∧
      s.interAgentMessageItem parse i = some (deliveryKey d) := by
  obtain ⟨edge, hedge, htarget⟩ := hl
  obtain ⟨d, hd, hid, -, -, j, hj, hm⟩ := h.edge edgeId edge hedge
  rw [htarget] at hj
  cases hj
  exact ⟨d, hd, hid, hm⟩

/-! ## Counting -/

def targetOf (s : AgentTrace) (d : AgentDelivery) : Text :=
  match getEntry d.edgeId s.interactionEdges with
  | some ⟨_, _, _, .conversationItem i, _, _, _, _⟩ => i
  | _ => []

variable {d : AgentDelivery}

theorem targetOf_linked {i : Text} (h : s.Linked d.edgeId i) : s.targetOf d = i := by
  obtain ⟨edge, hedge, htarget⟩ := h
  obtain ⟨_, _, _, target, _, _, _, _⟩ := edge
  cases htarget
  simp [targetOf, hedge]

theorem length_linkedItems (h : s.Base parse) (honce : s.Once) (key : Text × Text)
    {linked : List AgentDelivery} (hsub : linked.Sublist (s.deliveries key))
    (hmem : ∀ d ∈ s.deliveries key, d ∈ linked ↔ ∃ i, s.Linked d.edgeId i) :
    (s.linkedItems parse key).length = linked.length := by
  have hin : ∀ d ∈ linked, d ∈ s.announced ∧ deliveryKey d = key ∧ ∃ i, s.Linked d.edgeId i := by
    intro d hd
    have hdel := hsub.subset hd
    obtain ⟨hann, hkey⟩ := mem_filter.mp hdel
    exact ⟨hann, of_decide_eq_true hkey, (hmem d hdel).mp hd⟩
  have hnodup : (linked.map s.targetOf).Nodup := by
    refine List.Nodup.map_on ?_ ((h.announcedOnce.filter _).sublist hsub)
    intro d hd d' hd' heq
    obtain ⟨hann, -, i, hi⟩ := hin d hd
    obtain ⟨hann', -, j, hj⟩ := hin d' hd'
    rw [targetOf_linked hi, targetOf_linked hj] at heq
    subst heq
    exact h.sameData d hann d' hann' (honce _ _ _ hi hj)
  have hitems : (s.linkedItems parse key).Nodup := ((h.listedOnce key.1).filter _).filter _
  have hperm : (linked.map s.targetOf).Perm (s.linkedItems parse key) := by
    rw [perm_ext_iff_of_nodup hnodup hitems]
    intro i
    rw [mem_linkedItems h, mem_map]
    constructor
    · rintro ⟨d, hd, rfl⟩
      obtain ⟨hann, hkey, j, hj⟩ := hin d hd
      rw [targetOf_linked hj]
      obtain ⟨d', hann', hid, hm⟩ := h.linked hj
      obtain rfl := h.sameData d' hann' d hann hid
      exact ⟨hkey ▸ hm, d'.edgeId, hj⟩
    · rintro ⟨hm, edgeId, hl⟩
      obtain ⟨d, hann, rfl, hm'⟩ := h.linked hl
      have hkey : deliveryKey d = key := by
        rw [hm] at hm'
        exact (Option.some.inj hm').symm
      have hdel : d ∈ s.deliveries key := mem_filter.mpr ⟨hann, decide_eq_true hkey⟩
      exact ⟨d, (hmem d hdel).mpr ⟨i, hl⟩, targetOf_linked hl⟩
  rw [← hperm.length_eq, length_map]

theorem count_of (h : s.Base parse) (hleft : s.NoneLeft parse) (honce : s.Once)
    (key : Text × Text) : (s.linkedItems parse key).length =
      min (s.deliveries key).length (s.messageItems parse key).length := by
  classical
  by_cases hall : ∀ i ∈ s.messageItems parse key, s.isInteractionEdgeTargetItem i = true
  · have hitems : s.linkedItems parse key = s.messageItems parse key :=
      filter_eq_self.mpr hall
    have hlen := length_linkedItems h honce key
      (filter_sublist (p := fun d => decide (∃ i, s.Linked d.edgeId i)) (l := s.deliveries key))
      (fun d hd => by simp [hd])
    have hle := length_filter_le (fun d => decide (∃ i, s.Linked d.edgeId i)) (s.deliveries key)
    rw [hitems] at hlen ⊢
    omega
  · simp only [not_forall] at hall
    obtain ⟨i, hi, hnot⟩ := hall
    have hm := (mem_messageItems h).mp hi
    have hno : ¬ ∃ edgeId, s.Linked edgeId i := fun hl => hnot ((isTarget_iff h i).mpr hl)
    have hlinked : ∀ d ∈ s.deliveries key, ∃ j, s.Linked d.edgeId j := by
      intro d hd
      obtain ⟨hann, hkey⟩ := mem_filter.mp hd
      by_contra hunlinked
      simp only [not_exists] at hunlinked
      refine hno (hleft d hann hunlinked i ?_)
      rw [hm, of_decide_eq_true hkey]
    have hlen := length_linkedItems h honce key (.refl _)
      (fun d hd => iff_of_true hd (hlinked d hd))
    have hle : (s.linkedItems parse key).length ≤ (s.messageItems parse key).length :=
      length_filter_le _ _
    omega

/-! ## Linking -/

/-- `s'` is `s` with the edge of the delivery linked to the item. -/
structure LinkedTo (s : AgentTrace) (d : AgentDelivery) (i : Text) (s' : AgentTrace) : Prop where
  link : ∃ edge, edge.kind = d.kind ∧ edge.source = d.source ∧
    edge.target = .conversationItem i ∧
    s' = { s with interactionEdges := setEntry d.edgeId edge s.interactionEdges }
  old : ∀ j, s.Linked d.edgeId j → j = i

theorem LinkedTo.linked {i : Text} (h : s.LinkedTo d i s') (edgeId j : Text) :
    s'.Linked edgeId j ↔ if edgeId = d.edgeId then j = i else s.Linked edgeId j := by
  obtain ⟨edge, -, -, htarget, rfl⟩ := h.link
  unfold Linked
  simp only [getEntry_set]
  split
  · simp [htarget, eq_comm]
  · rfl

theorem LinkedTo.mono {i : Text} (h : s.LinkedTo d i s') {edgeId j : Text}
    (hl : s.Linked edgeId j) : s'.Linked edgeId j := by
  rw [h.linked]
  split
  · next heq => exact h.old j (heq ▸ hl)
  · exact hl

variable {p : PendingAgentInteractionEdge}

/-- An edge is linked unless it is linked to another item. Only items are targets here, and
the announcements of one edge agree. -/
theorem upsert_item (h : s.EdgesKnown parse) {i : Text}
    (hsame : ∀ d' ∈ s.announced, d'.edgeId = p.edgeId → d' = p.toAgentDelivery) :
    (∃ s', s.upsertAgentInteractionEdgeForItem p i = .ok s' ∧
      s.LinkedTo p.toAgentDelivery i s') ∧ (∀ j, s.Linked p.edgeId j → j = i) ∨
    s.upsertAgentInteractionEdgeForItem p i = .error (conflictingEndpoints p.edgeId) ∧
      ∃ j, s.Linked p.edgeId j ∧ j ≠ i := by
  unfold upsertAgentInteractionEdgeForItem upsertInteractionEdge
  cases hedge : getEntry p.edgeId s.interactionEdges with
  | none =>
    have hno : ∀ j, s.Linked p.edgeId j → j = i := by
      rintro j ⟨edge, hedge', -⟩
      rw [hedge] at hedge'
      cases hedge'
    exact .inl ⟨⟨_, rfl, ⟨_, rfl, rfl, rfl, rfl⟩, hno⟩, hno⟩
  | some edge =>
    obtain ⟨d, hd, hid, hkind, hsource, j, htarget, -⟩ := h p.edgeId edge hedge
    obtain rfl := hsame d hd hid
    have hl : s.Linked p.edgeId j := ⟨edge, hedge, htarget⟩
    by_cases hji : j = i
    · subst hji
      have hold : ∀ j', s.Linked p.edgeId j' → j' = j := fun j' hj' => hj'.unique hl
      refine .inl ⟨⟨_, if_neg ?_, ⟨_, ?_, ?_, ?_, rfl⟩, hold⟩, hold⟩
      · simp [hkind, hsource, htarget]
      · exact hkind
      · exact hsource
      · exact htarget
    · refine .inr ⟨if_pos ?_, j, hl, hji⟩
      simp [htarget, hji]

theorem LinkedTo.base (h : s.Base parse) {i : Text} (hl : s.LinkedTo d i s')
    (hmessage : s.interAgentMessageItem parse i = some (deliveryKey d))
    (announced : List AgentDelivery) (pending : List PendingAgentInteractionEdge)
    (hsame : ∀ d' ∈ s.announced, d'.edgeId = d.edgeId → d' = d)
    (hann : announced = if d ∈ s.announced then s.announced else s.announced ++ [d])
    (hpending : ∀ p ∈ pending, p ∈ s.pendingAgentInteractionEdges)
    (honce : (pending.map fun p => p.edgeId).Nodup)
    (hkept : ∀ p ∈ s.pendingAgentInteractionEdges, p ∈ pending ∨ p.toAgentDelivery = d) :
    Base parse { s' with announced := announced, pendingAgentInteractionEdges := pending } := by
  have hin : ∀ d', d' ∈ announced ↔ d' ∈ s.announced ∨ d' = d := by
    intro d'
    rw [hann]
    split
    · next hmem =>
      constructor
      · exact .inl
      · rintro (hd' | rfl)
        · exact hd'
        · exact hmem
    · simp
  have hlinked := hl.linked
  obtain ⟨edge, hkind, hsource, htarget, rfl⟩ := hl.link
  refine ⟨nodup_keys_set h.keys, h.stored, h.listedOnce, h.fresh, fun edgeId edge' hedge' => ?_,
    fun p hp => ?_, honce, fun d' hd' => ?_, fun d₁ hd₁ d₂ hd₂ hid => ?_, ?_⟩
  · rw [getEntry_set] at hedge'
    split at hedge'
    · next heq =>
      cases hedge'
      exact ⟨d, (hin d).mpr (.inr rfl), heq.symm, hkind, hsource, i, htarget, hmessage⟩
    · obtain ⟨d', hd', hrest⟩ := h.edge edgeId edge' hedge'
      exact ⟨d', (hin d').mpr (.inl hd'), hrest⟩
  · exact (hin _).mpr (.inl (h.pending p (hpending p hp)))
  · by_cases hid : d'.edgeId = d.edgeId
    · exact .inl ⟨i, (hlinked d'.edgeId i).mpr (by rw [if_pos hid])⟩
    · obtain hd' | rfl := (hin d').mp hd'
      · obtain ⟨j, hj⟩ | ⟨p, hp, hpd⟩ := h.covered d' hd'
        · exact .inl ⟨j, (hlinked d'.edgeId j).mpr (by rwa [if_neg hid])⟩
        · obtain hp | hpd' := hkept p hp
          · exact .inr ⟨p, hp, hpd⟩
          · rw [hpd] at hpd'
            exact absurd (congrArg AgentDelivery.edgeId hpd') hid
      · exact absurd rfl hid
  · obtain hold₁ | rfl := (hin d₁).mp hd₁
    · obtain hold₂ | rfl := (hin d₂).mp hd₂
      · exact h.sameData d₁ hold₁ d₂ hold₂ hid
      · exact hsame d₁ hold₁ hid
    · obtain hold₂ | rfl := (hin d₂).mp hd₂
      · exact (hsame d₂ hold₂ hid.symm).symm
      · rfl
  · rw [hann]
    split
    · exact h.announcedOnce
    · next hnot => exact nodup_append.mpr ⟨h.announcedOnce, nodup_singleton d,
        fun d' hd' d'' hd'' => by
          rw [mem_singleton.mp hd'']
          exact fun heq => hnot (heq ▸ hd')⟩

theorem LinkedTo.once {i : Text} (hl : s.LinkedTo d i s') (honce : s.Once) :
    s'.Once ↔ s.Linked d.edgeId i ∨ ∀ edgeId, ¬ s.Linked edgeId i := by
  have hnew : s'.Linked d.edgeId i := (hl.linked d.edgeId i).mpr (by rw [if_pos rfl])
  constructor
  · intro h
    by_cases hthere : s.Linked d.edgeId i
    · exact .inl hthere
    · refine .inr fun edgeId hedge => ?_
      obtain rfl := h i edgeId d.edgeId (hl.mono hedge) hnew
      exact hthere hedge
  · intro h
    have hfrom : ∀ j edgeId, s'.Linked edgeId j → s.Linked edgeId j ∨ edgeId = d.edgeId ∧ j = i := by
      intro j edgeId hj
      rw [hl.linked] at hj
      split at hj
      · next heq => exact .inr ⟨heq, hj⟩
      · exact .inl hj
    intro j edgeId edgeId' hj hj'
    obtain hj | ⟨rfl, rfl⟩ := hfrom j edgeId hj
    · obtain hj' | ⟨rfl, rfl⟩ := hfrom j edgeId' hj'
      · exact honce j edgeId edgeId' hj hj'
      · obtain hthere | hfree := h
        · exact honce j edgeId d.edgeId hj hthere
        · exact absurd hj (hfree edgeId)
    · obtain hj' | ⟨rfl, -⟩ := hfrom j edgeId' hj'
      · obtain hthere | hfree := h
        · exact honce j d.edgeId edgeId' hthere hj'
        · exact absurd hj' (hfree edgeId')
      · rfl

/-! ## Sightings -/

theorem waits_eq (threadId messageContent : Text) : (fun p : PendingAgentInteractionEdge =>
      decide (p.targetThreadId = threadId) && decide (p.messageContent = messageContent)) =
      fun p => decide (deliveryKey p.toAgentDelivery = (threadId, messageContent)) := by
  funext p
  simp [deliveryKey]

theorem resolve_cases (parse : Text → Option InterAgentCommunication) (s : AgentTrace) (i : Text) :
    (s.resolvePendingAgentEdgesForItem parse i = .ok s ∧
      ∀ key, s.interAgentMessageItem parse i = some key →
        s.pendingAgentInteractionEdges.find?
          (fun p => deliveryKey p.toAgentDelivery = key) = none) ∨
    ∃ key p before behind, s.interAgentMessageItem parse i = some key ∧
      deliveryKey p.toAgentDelivery = key ∧
      s.pendingAgentInteractionEdges = before ++ p :: behind ∧
      s.pendingAgentInteractionEdges.find? (fun p => deliveryKey p.toAgentDelivery = key) = some p ∧
      s.resolvePendingAgentEdgesForItem parse i =
        AgentTrace.upsertAgentInteractionEdgeForItem
          { s with pendingAgentInteractionEdges := before ++ behind } p i := by
  unfold resolvePendingAgentEdgesForItem
  cases hm : s.interAgentMessageItem parse i with
  | none => exact .inl ⟨rfl, fun key hkey => nomatch hkey⟩
  | some key =>
    obtain ⟨threadId, messageContent⟩ := key
    dsimp only
    rw [waits_eq]
    cases hfind : s.pendingAgentInteractionEdges.find?
        (fun p => deliveryKey p.toAgentDelivery = (threadId, messageContent)) with
    | none =>
      refine .inl ⟨rfl, fun key hkey => ?_⟩
      cases hkey
      exact hfind
    | some p =>
      obtain ⟨hp, before, behind, hsplit, hbefore⟩ := List.find?_eq_some_iff_append.mp hfind
      refine .inr ⟨_, p, before, behind, rfl, of_decide_eq_true hp, hsplit, hfind, ?_⟩
      have herase : s.pendingAgentInteractionEdges.eraseP
          (fun p => decide (deliveryKey p.toAgentDelivery = (threadId, messageContent))) =
          before ++ behind := by
        rw [hsplit, eraseP_append_right _ (fun q hq => by simpa using hbefore q hq)]
        simp [of_decide_eq_true hp]
      rw [herase]

theorem sight_spec (h : s.Base parse) {i : Text} (hleft : s.NoneLeftBut parse i) :
    (∃ s', s.resolvePendingAgentEdgesForItem parse i = .ok s' ∧ s'.Base parse ∧
      s'.NoneLeft parse ∧ (∀ edgeId j, s.Linked edgeId j → s'.Linked edgeId j) ∧
      (s.Once → (s'.Once ↔ s.FitsItem parse i))) ∨
    ∃ edgeId, s.resolvePendingAgentEdgesForItem parse i = .error (conflictingEndpoints edgeId) ∧
      ¬ s.FitsItem parse i := by
  rcases resolve_cases parse s i with ⟨hok, hnone⟩ |
    ⟨key, p, before, behind, hm, hkey, hsplit, hfind, hresult⟩
  · refine .inl ⟨s, hok, h, fun d hd hunlinked j hj => ?_, fun _ _ hl => hl,
      fun honce => iff_of_true honce fun key p hkey hp => ?_⟩
    · by_cases hji : j = i
      · subst hji
        obtain ⟨j', hj'⟩ | ⟨p, hp, rfl⟩ := h.covered d hd
        · exact absurd hj' (hunlinked j')
        · have hno := List.find?_eq_none.mp (hnone _ hj) p hp
          simp at hno
      · exact hleft d hd hunlinked j hji hj
    · rw [hnone key hkey] at hp
      cases hp
  · have hp : p ∈ s.pendingAgentInteractionEdges := by
      rw [hsplit]
      simp
    have hann := h.pending p hp
    have hsame : ∀ d' ∈ s.announced, d'.edgeId = p.edgeId → d' = p.toAgentDelivery :=
      fun d' hd' hid => h.sameData d' hd' _ hann hid
    rw [hresult]
    rcases upsert_item (s := { s with pendingAgentInteractionEdges := before ++ behind }) (i := i)
      h.edge hsame with ⟨⟨s₁, hok, hl₁⟩, hold⟩ | ⟨herror, j, hj, hji⟩
    · left
      have hl : s.LinkedTo p.toAgentDelivery i
          { s₁ with pendingAgentInteractionEdges := s.pendingAgentInteractionEdges } := by
        obtain ⟨edge, hkind, hsource, htarget, rfl⟩ := hl₁.link
        exact ⟨⟨edge, hkind, hsource, htarget, rfl⟩, hl₁.old⟩
      have hmono : ∀ edgeId j, s.Linked edgeId j → s₁.Linked edgeId j := fun _ _ hj => hl₁.mono hj
      have hnew : s₁.Linked p.edgeId i := (hl₁.linked p.edgeId i).mpr (by rw [if_pos rfl])
      have hs₁ : s₁.pendingAgentInteractionEdges = before ++ behind ∧ s₁.announced = s.announced ∧
          ∀ j, s₁.interAgentMessageItem parse j = s.interAgentMessageItem parse j := by
        obtain ⟨edge, -, -, -, rfl⟩ := hl₁.link
        exact ⟨rfl, rfl, fun _ => rfl⟩
      obtain ⟨hpend, hannounced, hmsg⟩ := hs₁
      refine ⟨s₁, hok, ?_, fun d hd hunlinked j hj => ?_, hmono, fun honce => ?_⟩
      · have hsplitIds := h.pendingOnce
        rw [hsplit, map_append, map_cons] at hsplitIds
        have hs₁ : s₁ = { { s₁ with
            pendingAgentInteractionEdges := s.pendingAgentInteractionEdges } with
            announced := s.announced, pendingAgentInteractionEdges := before ++ behind } := by
          obtain ⟨edge, -, -, -, rfl⟩ := hl₁.link
          rfl
        rw [hs₁]
        refine hl.base h (hkey ▸ hm) s.announced (before ++ behind) hsame (if_pos hann).symm
          (fun q hq => ?_) ?_ (fun q hq => ?_)
        · rw [hsplit]
          obtain hq | hq := mem_append.mp hq
          · exact mem_append_left _ hq
          · exact mem_append_right _ (mem_cons_of_mem _ hq)
        · rw [map_append]
          exact (nodup_middle.mp hsplitIds).of_cons
        · rw [hsplit] at hq
          obtain hq | hq := mem_append.mp hq
          · exact .inl (mem_append_left _ hq)
          · obtain rfl | hq := mem_cons.mp hq
            · exact .inr rfl
            · exact .inl (mem_append_right _ hq)
      · rw [hannounced] at hd
        rw [hmsg] at hj
        by_cases hji : j = i
        · exact ⟨p.edgeId, hji ▸ hnew⟩
        · obtain ⟨edgeId, hedge⟩ :=
            hleft d hd (fun j' hj' => hunlinked j' (hmono _ _ hj')) j hji hj
          exact ⟨edgeId, hmono _ _ hedge⟩
      · have honce' : s₁.Once ↔ s.Linked p.edgeId i ∨ ∀ edgeId, ¬ s.Linked edgeId i :=
          hl.once honce
        rw [honce']
        constructor
        · intro hfree key' p' hkey' hp'
          rw [hm] at hkey'
          cases hkey'
          rw [hfind] at hp'
          cases hp'
          obtain hthere | hfree := hfree
          · exact .inl hthere
          · exact .inr ⟨fun j hj => hfree p.edgeId (hold j hj ▸ hj), hfree⟩
        · intro hfits
          exact (hfits key p hm hfind).imp_right And.right
    · right
      refine ⟨p.edgeId, herror, fun hfits => ?_⟩
      obtain hthere | ⟨hno, -⟩ := hfits key p hm hfind
      · exact hji (Linked.unique hj hthere)
      · exact hno j hj

/-! ## Announcements -/

section
variable (h : s.Base parse)
include h

theorem findUnlinked_some {threadId content i : Text}
    (hfind : s.findUnlinkedInterAgentMessageItem parse threadId content = some i) :
    s.interAgentMessageItem parse i = some (threadId, content) ∧ ∀ edgeId, ¬ s.Linked edgeId i := by
  obtain ⟨thread, hthread, hfind⟩ := Option.bind_eq_some_iff.mp hfind
  have hp := List.find?_some hfind
  have hmem := mem_of_find?_eq_some hfind
  simp only [Bool.and_eq_true, Bool.not_eq_true', Option.any_eq_true, decide_eq_true_eq] at hp
  obtain ⟨hnot, key, hm, rfl⟩ := hp
  have hthreadId : key.1 = threadId := by
    obtain ⟨item, hitem, hkey⟩ := message_thread hm
    have hin : i ∈ s.threadItemIds threadId := by simpa [threadItemIds, hthread] using hmem
    obtain ⟨item', hitem', rfl⟩ := (h.stored threadId i).mp hin
    rw [hitem] at hitem'
    cases hitem'
    exact hkey.symm
  subst hthreadId
  refine ⟨hm, fun edgeId hl => ?_⟩
  rw [(isTarget_iff h i).mpr ⟨edgeId, hl⟩] at hnot
  cases hnot

theorem findUnlinked_none
    (hfind : s.findUnlinkedInterAgentMessageItem parse key.1 key.2 = none) {i : Text}
    (hm : s.interAgentMessageItem parse i = some key) : ∃ edgeId, s.Linked edgeId i := by
  have hin := (h.stored key.1 i).mpr (message_thread hm)
  unfold threadItemIds at hin
  cases hthread : getEntry key.1 s.threads with
  | none =>
    rw [hthread] at hin
    cases hin
  | some thread =>
    rw [hthread] at hin
    have hnone : thread.conversationItemIds.find? (fun itemId =>
        !s.isInteractionEdgeTargetItem itemId &&
          (s.interAgentMessageItem parse itemId).any fun message => message.2 = key.2) = none := by
      simpa [findUnlinkedInterAgentMessageItem, hthread] using hfind
    have hno := List.find?_eq_none.mp hnone i hin
    apply (isTarget_iff h i).mp
    simpa [hm] using hno

theorem Base.samePending {pending : List PendingAgentInteractionEdge}
    (hmap : pending.map PendingAgentInteractionEdge.toAgentDelivery =
      s.pendingAgentInteractionEdges.map PendingAgentInteractionEdge.toAgentDelivery) :
    Base parse { s with pendingAgentInteractionEdges := pending } := by
  have hids : ∀ l : List PendingAgentInteractionEdge, (l.map fun p => p.edgeId) =
      (l.map PendingAgentInteractionEdge.toAgentDelivery).map AgentDelivery.edgeId := by
    intro l
    rw [map_map]
    rfl
  refine ⟨h.keys, h.stored, h.listedOnce, h.fresh, h.edge, fun p hp => ?_, ?_, fun d hd => ?_,
    h.sameData, h.announcedOnce⟩
  · have hin := mem_map_of_mem (f := PendingAgentInteractionEdge.toAgentDelivery) hp
    rw [hmap] at hin
    obtain ⟨q, hq, heq⟩ := mem_map.mp hin
    exact heq ▸ h.pending q hq
  · rw [hids, hmap, ← hids]
    exact h.pendingOnce
  · refine (h.covered d hd).imp_right fun hp => ?_
    apply mem_map.mp
    rw [hmap]
    exact mem_map.mpr hp

theorem Base.push (hsame : ∀ d' ∈ s.announced, d'.edgeId = p.edgeId → d' = p.toAgentDelivery)
    (hnew : ∀ q ∈ s.pendingAgentInteractionEdges, q.edgeId ≠ p.edgeId) : Base parse { s with
      pendingAgentInteractionEdges := s.pendingAgentInteractionEdges ++ [p]
      announced :=
        if p.toAgentDelivery ∈ s.announced then s.announced
        else s.announced ++ [p.toAgentDelivery] } := by
  have hin : ∀ d', (d' ∈ if p.toAgentDelivery ∈ s.announced then s.announced
      else s.announced ++ [p.toAgentDelivery]) ↔ d' ∈ s.announced ∨ d' = p.toAgentDelivery := by
    intro d'
    split
    · next hmem =>
      constructor
      · exact .inl
      · rintro (hd' | rfl)
        · exact hd'
        · exact hmem
    · simp
  refine ⟨h.keys, h.stored, h.listedOnce, h.fresh, fun edgeId edge hedge => ?_, fun q hq => ?_, ?_,
    fun d hd => ?_, fun d₁ hd₁ d₂ hd₂ hid => ?_, ?_⟩
  · obtain ⟨d, hd, hrest⟩ := h.edge edgeId edge hedge
    exact ⟨d, (hin d).mpr (.inl hd), hrest⟩
  · obtain hq | hq := mem_append.mp hq
    · exact (hin _).mpr (.inl (h.pending q hq))
    · cases mem_singleton.mp hq
      exact (hin _).mpr (.inr rfl)
  · rw [map_append, map_singleton, nodup_append]
    refine ⟨h.pendingOnce, nodup_singleton _, fun a ha b hb => ?_⟩
    obtain ⟨q, hq, rfl⟩ := mem_map.mp ha
    rw [mem_singleton.mp hb]
    exact hnew q hq
  · obtain hd | rfl := (hin d).mp hd
    · refine (h.covered d hd).imp_right fun ⟨q, hq, hqd⟩ => ?_
      exact ⟨q, mem_append_left _ hq, hqd⟩
    · exact .inr ⟨p, mem_append_right _ (mem_singleton.mpr rfl), rfl⟩
  · obtain hold₁ | rfl := (hin d₁).mp hd₁
    · obtain hold₂ | rfl := (hin d₂).mp hd₂
      · exact h.sameData d₁ hold₁ d₂ hold₂ hid
      · exact hsame d₁ hold₁ hid
    · obtain hold₂ | rfl := (hin d₂).mp hd₂
      · exact (hsame d₂ hold₂ hid.symm).symm
      · rfl
  · show (if p.toAgentDelivery ∈ s.announced then s.announced
      else s.announced ++ [p.toAgentDelivery]).Nodup
    split
    · exact h.announcedOnce
    · next hnot =>
      refine nodup_append.mpr ⟨h.announcedOnce, nodup_singleton _, ?_⟩
      intro d' hd' d'' hd''
      rw [mem_singleton.mp hd'']
      exact fun heq => hnot (heq ▸ hd')

theorem announce_spec (hleft : s.NoneLeft parse)
    (hsame : ∀ d' ∈ s.announced, d'.edgeId = p.edgeId → d' = p.toAgentDelivery) :
    (∃ s', s.announce parse p = .ok s' ∧ s'.Base parse ∧ s'.NoneLeft parse ∧
      (∀ edgeId j, s.Linked edgeId j → s'.Linked edgeId j) ∧ (s.Once → s'.Once) ∧
      (p.toAgentDelivery ∈ s.announced →
        s.findUnlinkedInterAgentMessageItem parse p.targetThreadId p.messageContent = none)) ∨
    ∃ edgeId, s.announce parse p = .error (conflictingEndpoints edgeId) ∧
      p.toAgentDelivery ∈ s.announced ∧
      s.findUnlinkedInterAgentMessageItem parse p.targetThreadId p.messageContent ≠ none := by
  unfold announce queueOrResolveAgentInteractionEdge
  cases hfind : s.findUnlinkedInterAgentMessageItem parse p.targetThreadId p.messageContent with
  | some i =>
    obtain ⟨hm, hfree⟩ := findUnlinked_some h hfind
    dsimp only
    rcases upsert_item (i := i) h.edge hsame with ⟨⟨s₁, hok, hl⟩, hold⟩ | ⟨herror, j, hj, -⟩
    · have hnotAnnounced : p.toAgentDelivery ∉ s.announced := by
        intro hann
        have hunlinked : ∀ j, ¬ s.Linked p.edgeId j := fun j hj => hfree p.edgeId (hold j hj ▸ hj)
        obtain ⟨edgeId, hedge⟩ := hleft _ hann hunlinked i hm
        exact hfree edgeId hedge
      have hfields : s₁.announced = s.announced ∧
          s₁.pendingAgentInteractionEdges = s.pendingAgentInteractionEdges ∧
          ∀ j, s₁.interAgentMessageItem parse j = s.interAgentMessageItem parse j := by
        obtain ⟨edge, -, -, -, rfl⟩ := hl.link
        exact ⟨rfl, rfl, fun _ => rfl⟩
      obtain ⟨hannounced, hpending, hmsg⟩ := hfields
      left
      rw [hok]
      refine ⟨_, rfl, ?_, fun d hd hunlinked j hj => ?_, fun edgeId j hj => hl.mono hj,
        fun honce => (hl.once honce).mpr (.inr hfree), fun hann => absurd hann hnotAnnounced⟩
      · have hbase := hl.base h hm
          (if p.toAgentDelivery ∈ s.announced then s.announced
            else s.announced ++ [p.toAgentDelivery])
          s.pendingAgentInteractionEdges hsame rfl (fun q hq => hq) h.pendingOnce
          (fun q hq => .inl hq)
        rw [hannounced, ← hpending] at *
        exact hbase
      · have hnew : s₁.Linked p.edgeId i := (hl.linked p.edgeId i).mpr (by rw [if_pos rfl])
        have hd' : d ∈ s.announced := by
          rw [hannounced, if_neg hnotAnnounced] at hd
          obtain hd | hd := mem_append.mp hd
          · exact hd
          · cases mem_singleton.mp hd
            exact absurd hnew (hunlinked i)
        obtain ⟨edgeId, hedge⟩ := hleft d hd' (fun j' hj' => hunlinked j' (hl.mono hj')) j
          ((hmsg j).symm.trans hj)
        exact ⟨edgeId, hl.mono hedge⟩
    · right
      obtain ⟨d, hd, hid, -⟩ := h.linked hj
      refine ⟨p.edgeId, by rw [herror]; rfl, hsame d hd hid ▸ hd, by simp⟩
  | none =>
    dsimp only
    left
    cases hpend : s.pendingAgentInteractionEdges.find? fun q => q.edgeId = p.edgeId with
    | some q =>
      have hq := mem_of_find?_eq_some hpend
      have hid : q.edgeId = p.edgeId := by simpa using List.find?_some hpend
      have hqp := hsame _ (h.pending q hq) hid
      have hann : p.toAgentDelivery ∈ s.announced := hqp ▸ h.pending q hq
      have hkeep : ∀ existing : PendingAgentInteractionEdge,
          (mergePending existing p).toAgentDelivery = existing.toAgentDelivery := fun _ => rfl
      simp only [hqp, ne_eq, not_true_eq_false, if_false]
      refine ⟨_, rfl, ?_, ?_, fun _ _ hl => hl, id, fun _ => trivial⟩
      · rw [if_pos hann]
        exact h.samePending (map_modify_same (fun q _ => hkeep q) _)
      · rw [if_pos hann]
        exact hleft
    | none =>
      have hnew : ∀ q ∈ s.pendingAgentInteractionEdges, q.edgeId ≠ p.edgeId := by
        intro q hq heq
        have hno := List.find?_eq_none.mp hpend q hq
        simp [heq] at hno
      refine ⟨_, rfl, h.push hsame hnew, fun d hd hunlinked j hj => ?_, fun _ _ hl => hl, id,
        fun _ => rfl⟩
      by_cases hdp : d = p.toAgentDelivery
      · subst hdp
        exact findUnlinked_none h hfind hj
      · refine hleft d ?_ hunlinked j hj
        split at hd
        · exact hd
        · obtain hd | hd := mem_append.mp hd
          · exact hd
          · exact absurd (mem_singleton.mp hd) hdp

end

/-! ## Items and threads come -/

theorem message_congr {i : Text}
    (hitem : getEntry i s'.conversationItems = getEntry i s.conversationItems)
    (hpath : ∀ item, getEntry i s.conversationItems = some item →
      (getEntry item.threadId s'.threads).map AgentThread.agentPath =
        (getEntry item.threadId s.threads).map AgentThread.agentPath) :
    s'.interAgentMessageItem parse i = s.interAgentMessageItem parse i := by
  unfold interAgentMessageItem
  rw [hitem]
  cases hi : getEntry i s.conversationItems with
  | none => rfl
  | some item =>
    have hp := hpath item hi
    cases hfields : interAgentMessageFields parse item with
    | none => simp [hfields]
    | some fields =>
      cases hthread : getEntry item.threadId s.threads with
      | none =>
        rw [hthread, Option.map_none, Option.map_eq_none_iff] at hp
        simp [hfields, hp, hthread]
      | some thread =>
        rw [hthread, Option.map_some, Option.map_eq_some_iff] at hp
        obtain ⟨thread', hthread', hpath'⟩ := hp
        simp [hfields, hthread', hthread, hpath']

section
variable {t codexTurnId : Text} {thread : AgentThread} {turn : Option Text} {time : ℤ}
  {n : NormalizedConversationItem} {producedBy : List ProducerRef}

theorem message_store (hthread : getEntry t s.threads = some thread) {i : Text}
    (hi : i ≠ conversationItemId s.nextConversationItemOrdinal) :
    (s.storeItem t thread turn time n producedBy).interAgentMessageItem parse i =
      s.interAgentMessageItem parse i := by
  apply message_congr
  · show getEntry i (setEntry _ _ s.conversationItems) = _
    rw [getEntry_set, if_neg hi]
  · intro item _
    show (getEntry item.threadId (setEntry t _ s.threads)).map AgentThread.agentPath = _
    rw [getEntry_set]
    split
    · next heq => simp [heq, hthread]
    · rfl

theorem threadItemIds_store (hthread : getEntry t s.threads = some thread) (t' : Text) :
    (s.storeItem t thread turn time n producedBy).threadItemIds t' =
      s.threadItemIds t' ++
        if t' = t then [conversationItemId s.nextConversationItemOrdinal] else [] := by
  unfold threadItemIds
  show ((getEntry t' (setEntry t _ s.threads)).map AgentThread.conversationItemIds).getD [] = _
  rw [getEntry_set]
  split
  · next heq => simp [heq, hthread]
  · simp

theorem Base.store (h : s.Base parse) (hthread : getEntry t s.threads = some thread) :
    (s.storeItem t thread turn time n producedBy).Base parse := by
  have hfresh := h.fresh s.nextConversationItemOrdinal (Nat.le_refl _)
  have hnew : ∀ t', conversationItemId s.nextConversationItemOrdinal ∉ s.threadItemIds t' := by
    intro t' hin
    obtain ⟨item, hitem, -⟩ := (h.stored t' _).mp hin
    rw [hfresh] at hitem
    cases hitem
  refine ⟨h.keys, fun t' i => ?_, fun t' => ?_, fun m hm => ?_, fun edgeId edge hedge => ?_,
    h.pending, h.pendingOnce, h.covered, h.sameData, h.announcedOnce⟩
  · rw [threadItemIds_store hthread, mem_append, h.stored]
    show _ ↔ ∃ item, getEntry i (setEntry _ _ s.conversationItems) = some item ∧ item.threadId = t'
    rw [getEntry_set]
    by_cases hi : i = conversationItemId s.nextConversationItemOrdinal
    · subst hi
      by_cases ht : t' = t
      · simp [ht]
      · simp [ht, hfresh, Ne.symm ht]
    · rw [if_neg hi]
      by_cases ht : t' = t <;> simp [ht, hi]
  · rw [threadItemIds_store hthread]
    split
    · refine nodup_append.mpr ⟨h.listedOnce t', nodup_singleton _, ?_⟩
      intro i hi j hj
      rw [mem_singleton.mp hj]
      exact fun heq => hnew t' (heq ▸ hi)
    · rw [append_nil]
      exact h.listedOnce t'
  · show getEntry (conversationItemId m) (setEntry _ _ s.conversationItems) = none
    have hm' : s.nextConversationItemOrdinal + 1 ≤ m := hm
    rw [getEntry_set, if_neg]
    · exact h.fresh m (by omega)
    · intro heq
      have := conversationItemId_injective heq
      omega
  · obtain ⟨d, hd, hid, hkind, hsource, i, htarget, hmsg⟩ := h.edge edgeId edge hedge
    refine ⟨d, hd, hid, hkind, hsource, i, htarget, ?_⟩
    rw [message_store hthread, hmsg]
    rintro rfl
    obtain ⟨item, hitem, -⟩ := message_thread hmsg
    rw [hfresh] at hitem
    cases hitem

theorem NoneLeft.store (hleft : s.NoneLeft parse) (hthread : getEntry t s.threads = some thread) :
    (s.storeItem t thread turn time n producedBy).NoneLeftBut parse
      (conversationItemId s.nextConversationItemOrdinal) := by
  intro d hd hunlinked j hji hj
  rw [message_store hthread hji] at hj
  exact hleft d hd hunlinked j hj

theorem thread_of_item (h : s.Base parse) {i : Text} {item : ConversationItem}
    (hitem : getEntry i s.conversationItems = some item) :
    ∃ thread, getEntry item.threadId s.threads = some thread := by
  have hin := (h.stored item.threadId i).mpr ⟨item, hitem, rfl⟩
  unfold threadItemIds at hin
  cases hthread : getEntry item.threadId s.threads with
  | none =>
    rw [hthread] at hin
    cases hin
  | some thread => exact ⟨thread, rfl⟩

theorem message_startThread (h : s.Base parse) (hnone : getEntry t s.threads = none)
    (agentPath i : Text) : AgentTrace.interAgentMessageItem parse
      { s with threads := setEntry t ⟨agentPath, []⟩ s.threads } i =
      s.interAgentMessageItem parse i := by
  refine message_congr ?_ fun item hitem => ?_
  · rfl
  obtain ⟨thread, hthread⟩ := thread_of_item h hitem
  have hne : item.threadId ≠ t := by
    rintro rfl
    rw [hnone] at hthread
    cases hthread
  rw [getEntry_set, if_neg hne]

theorem Base.startThread (h : s.Base parse) (hnone : getEntry t s.threads = none)
    (agentPath : Text) : Base parse { s with threads := setEntry t ⟨agentPath, []⟩ s.threads } := by
  have hsame : ∀ t', threadItemIds { s with threads := setEntry t ⟨agentPath, []⟩ s.threads } t' =
      s.threadItemIds t' := by
    intro t'
    unfold threadItemIds
    rw [getEntry_set]
    split
    · next heq => simp [heq, hnone]
    · rfl
  refine ⟨h.keys, fun t' i => ?_, fun t' => ?_, h.fresh, fun edgeId edge hedge => ?_, h.pending,
    h.pendingOnce, h.covered, h.sameData, h.announcedOnce⟩
  · rw [hsame]
    exact h.stored t' i
  · rw [hsame]
    exact h.listedOnce t'
  · obtain ⟨d, hd, hid, hkind, hsource, i, htarget, hmsg⟩ := h.edge edgeId edge hedge
    exact ⟨d, hd, hid, hkind, hsource, i, htarget,
      (message_startThread h hnone agentPath i).trans hmsg⟩

theorem NoneLeft.startThread (hleft : s.NoneLeft parse) (h : s.Base parse)
    (hnone : getEntry t s.threads = none) (agentPath : Text) :
    NoneLeft parse { s with threads := setEntry t ⟨agentPath, []⟩ s.threads } := by
  intro d hd hunlinked j hj
  rw [message_startThread h hnone] at hj
  exact hleft d hd hunlinked j hj

theorem Base.toolCalls (h : s.Base parse) (toolCalls : Entries AgentToolCall) :
    Base parse { s with toolCalls := toolCalls } :=
  ⟨h.keys, h.stored, h.listedOnce, h.fresh, h.edge, h.pending, h.pendingOnce, h.covered,
    h.sameData, h.announcedOnce⟩

end

/-! ## One event -/

/-- The outcomes of an event: it fits exactly if there is no conflict and no item is linked
twice. -/
def EventSpec (parse : Text → Option InterAgentCommunication) (s : AgentTrace) (event : Event)
    (result : Reduced AgentTrace) : Prop :=
  (∃ s', result = .ok s' ∧ s'.Base parse ∧ s'.NoneLeft parse ∧
    (∀ edgeId j, s.Linked edgeId j → s'.Linked edgeId j) ∧
    (s.Once → (s'.Once ↔ s.Fits parse event))) ∨
  (∃ edgeId, result = .error (conflictingEndpoints edgeId) ∧ ¬ s.Fits parse event) ∨
  ¬ (∃ s', result = .ok s') ∧ ¬ IsConflict result ∧ s.Fits parse event

variable {event : Event}

theorem spec_of_announce (h : s.Base parse) (hleft : s.NoneLeft parse)
    (hd : s.announcement event = some d) (hsame : s.SameDelivery event)
    (hfits : s.Fits parse event ↔ (d ∈ s.announced →
      s.findUnlinkedInterAgentMessageItem parse d.targetThreadId d.messageContent = none))
    (hp : p.toAgentDelivery = d) (toolCalls : Entries AgentToolCall) :
    EventSpec parse s event (announce parse { s with toolCalls := toolCalls } p) := by
  subst hp
  rcases announce_spec (s := { s with toolCalls := toolCalls }) (h.toolCalls toolCalls) hleft
    (hsame _ hd) with ⟨s', hok, hbase, hleft', hmono, honce, hfound⟩ | ⟨edgeId, herror, hann, hfound⟩
  · exact .inl ⟨s', hok, hbase, hleft', hmono,
      fun h' => iff_of_true (honce h') (hfits.mpr hfound)⟩
  · exact .inr (.inl ⟨edgeId, herror, fun hno => hfound (hfits.mp hno hann)⟩)

theorem spec_of_same (h : s'.Base parse) (hleft : s'.NoneLeft parse)
    (hedges : s'.interactionEdges = s.interactionEdges) (hfits : s.Fits parse event) :
    EventSpec parse s event (.ok s') := by
  have hlinked : ∀ edgeId j, s'.Linked edgeId j ↔ s.Linked edgeId j := by
    intro edgeId j
    unfold Linked
    rw [hedges]
  refine .inl ⟨s', rfl, h, hleft, fun edgeId j hl => (hlinked edgeId j).mpr hl,
    fun honce => iff_of_true ?_ hfits⟩
  intro i edgeId edgeId' hl hl'
  exact honce i edgeId edgeId' ((hlinked _ _).mp hl) ((hlinked _ _).mp hl')

theorem not_conflict_of {message : Text} (hne : ∀ rest, message ≠ "interaction edge ".toList ++ rest)
    (hne' : ∀ rest, message ≠ "pending interaction edge ".toList ++ rest) :
    ¬ IsConflict (bail message) := by
  rintro ⟨edgeId, h | h⟩
  · cases h
    exact hne (edgeId ++ " was observed with conflicting endpoints".toList) (by simp)
  · cases h
    exact hne' (edgeId ++ " was observed with conflicting delivery data".toList) (by simp)

theorem spec_of_bail {message : Text} (hne : ∀ rest, message ≠ "interaction edge ".toList ++ rest)
    (hne' : ∀ rest, message ≠ "pending interaction edge ".toList ++ rest)
    (hfits : s.Fits parse event) : EventSpec parse s event (bail message) := by
  refine .inr (.inr ⟨?_, not_conflict_of hne hne', hfits⟩)
  rintro ⟨s', hok⟩
  cases hok

theorem observe_spec {toolCallId runtimePayloadId receiverThreadId prompt : Text}
    {endedAtUnixMs : Option ℤ} (h : s.Base parse) (hleft : s.NoneLeft parse)
    (hsame : s.SameDelivery event) (hann : s.announcement event = (do
      let toolCall ← getEntry toolCallId s.toolCalls
      let kind ← messageEdgeKind toolCall.kind
      return messageDelivery toolCallId kind receiverThreadId prompt))
    (hfits : s.Fits parse event ↔ ∀ d ∈ s.announcement event, d ∈ s.announced →
      s.findUnlinkedInterAgentMessageItem parse d.targetThreadId d.messageContent = none) :
    EventSpec parse s event
      (s.observeToolRuntime parse toolCallId runtimePayloadId receiverThreadId prompt
        endedAtUnixMs) := by
  unfold observeToolRuntime
  cases hcall : getEntry toolCallId s.toolCalls with
  | none =>
    have hnone : s.announcement event = none := by simp [hann, hcall]
    refine spec_of_bail ?_ ?_ (hfits.mpr fun d hd => ?_)
    · intro rest
      split <;> simp
    · intro rest
      split <;> simp
    · rw [hnone] at hd
      cases hd
  | some toolCall =>
    dsimp only
    cases hkind : messageEdgeKind toolCall.kind with
    | none =>
      have hnone : s.announcement event = none := by simp [hann, hcall, hkind]
      refine spec_of_same (h.toolCalls _) hleft rfl (hfits.mpr fun d hd => ?_)
      rw [hnone] at hd
      cases hd
    | some kind =>
      have hd : s.announcement event =
          some (messageDelivery toolCallId kind receiverThreadId prompt) := by
        simp [hann, hcall, hkind]
      refine spec_of_announce h hleft hd hsame (hfits.trans ?_) rfl _
      rw [hd]
      simp

theorem step_spec (h : s.Base parse) (hleft : s.NoneLeft parse) (hsame : s.SameDelivery event) :
    EventSpec parse s event (s.step parse event) := by
  cases event with
  | threadStarted threadId agentPath =>
    have hfits : s.Fits parse (.threadStarted threadId agentPath) := fun d hd => nomatch hd
    simp only [step]
    split
    · exact spec_of_bail (fun rest => by simp) (fun rest => by simp) hfits
    · next hnone =>
      have hnone : getEntry threadId s.threads = none := by simpa using hnone
      exact spec_of_same (h.startThread hnone agentPath) (hleft.startThread h hnone agentPath) rfl
        hfits
  | toolCallStarted toolCallId toolCall =>
    have hfits : s.Fits parse (.toolCallStarted toolCallId toolCall) := fun d hd => nomatch hd
    simp only [step]
    split
    · exact spec_of_bail (fun rest => by simp) (fun rest => by simp) hfits
    · exact spec_of_same (h.toolCalls _) hleft rfl hfits
  | itemAppeared threadId codexTurnId firstSeenAtUnixMs item producedBy =>
    simp only [step, materialise]
    cases hthread : getEntry threadId s.threads with
    | none =>
      refine spec_of_bail (fun rest => by simp) (fun rest => by simp) fun thread hmem => ?_
      rw [hthread] at hmem
      cases hmem
    | some thread =>
      have hfits : s.Fits parse
          (.itemAppeared threadId codexTurnId firstSeenAtUnixMs item producedBy) ↔
          (s.storeItem threadId thread codexTurnId firstSeenAtUnixMs item producedBy).FitsItem parse
            (conversationItemId s.nextConversationItemOrdinal) := by
        simp only [Fits, hthread, Option.mem_def, Option.some.injEq, forall_eq']
      rcases sight_spec (h.store hthread) (hleft.store hthread) with
        ⟨s', hok, hbase, hleft', hmono, honce⟩ | ⟨edgeId, herror, hnot⟩
      · exact .inl ⟨s', hok, hbase, hleft', hmono, fun h' => (honce h').trans hfits.symm⟩
      · exact .inr (.inl ⟨edgeId, herror, fun hf => hnot (hfits.mp hf)⟩)
  | itemShownAgain itemId =>
    simp only [step, resight]
    split
    · next hnone =>
      refine spec_of_bail (fun rest => by simp) (fun rest => by simp) fun key p hm => ?_
      obtain ⟨item, hitem, -⟩ := message_thread hm
      rw [hitem] at hnone
      cases hnone
    · have hbut : s.NoneLeftBut parse itemId := fun d hd hunlinked j _ => hleft d hd hunlinked j
      rcases sight_spec h hbut with ⟨s', hspec⟩ | ⟨edgeId, herror, hnot⟩
      · exact .inl ⟨s', hspec⟩
      · exact .inr (.inl ⟨edgeId, herror, hnot⟩)
  | runtimeBegin toolCallId runtimePayloadId receiverThreadId prompt
  | runtimeEnd toolCallId runtimePayloadId receiverThreadId prompt wallTimeUnixMs =>
    exact observe_spec h hleft hsame rfl Iff.rfl
  | announced pending =>
    refine spec_of_announce h hleft rfl hsame ?_ rfl s.toolCalls
    simp [Fits, announcement]

/-! ## Whole replays -/

theorem base_new : new.Base parse := by
  refine ⟨nodup_nil, ?_, ?_, ?_, ?_, ?_, nodup_nil, ?_, ?_, nodup_nil⟩ <;>
    simp [new, threadItemIds, getEntry, EdgesKnown]

end

/-- The deliveries are one to one in all states, and no event has a conflict or moves an
edge. -/
def OneToOneThroughout (parse : Text → Option InterAgentCommunication) (l : List Event) : Prop :=
  (∀ pre u, pre <+: l → pre.foldlM (step parse) new = .ok u → u.OneToOne parse) ∧
  ∀ pre event u, pre ++ [event] <+: l → pre.foldlM (step parse) new = .ok u →
    ¬ IsConflict (u.step parse event) ∧
      ∀ v, u.step parse event = .ok v → ∀ edgeId i, u.Linked edgeId i → v.Linked edgeId i

def FitsThroughout (parse : Text → Option InterAgentCommunication) (l : List Event) : Prop :=
  ∀ pre event u, pre ++ [event] <+: l → pre.foldlM (step parse) new = .ok u → u.Fits parse event

section
variable {parse : Text → Option InterAgentCommunication} {l : List Event}

theorem run_base (hsame : Along (step parse) SameDelivery new l) {pre : List Event}
    {u : AgentTrace} (hpre : pre <+: l) (hu : pre.foldlM (step parse) new = .ok u) :
    u.Base parse ∧ u.NoneLeft parse := by
  refine run_keeps_along (I := fun u => u.Base parse ∧ u.NoneLeft parse)
    (fun u event v hI hC hstep => ?_) ⟨base_new, fun d hd => nomatch hd⟩ hsame hpre hu
  rcases step_spec hI.1 hI.2 hC with ⟨s', hok, hbase, hleft, -⟩ | ⟨edgeId, herror, -⟩ | ⟨hno, -⟩
  · rw [hok] at hstep
    cases hstep
    exact ⟨hbase, hleft⟩
  · rw [herror] at hstep
    cases hstep
  · exact absurd ⟨v, hstep⟩ hno

/-- Deliveries are linked one to one exactly if each second announcement and each sighting
fits. -/
theorem deliveries_one_to_one_iff (hsame : Along (step parse) SameDelivery new l) :
    OneToOneThroughout parse l ↔ FitsThroughout parse l := by
  have hspec : ∀ pre event u, pre ++ [event] <+: l → pre.foldlM (step parse) new = .ok u →
      EventSpec parse u event (u.step parse event) := by
    intro pre event u hpre hu
    obtain ⟨hbase, hleft⟩ := run_base hsame ((prefix_append pre [event]).trans hpre) hu
    exact step_spec hbase hleft (hsame.at hpre hu)
  constructor
  · rintro ⟨hall, hstep⟩ pre event u hpre hu
    rcases hspec pre event u hpre hu with ⟨v, hok, -, -, -, honce⟩ | ⟨edgeId, herror, -⟩ |
      ⟨-, -, hfits⟩
    · have hu' := hall pre u ((prefix_append pre [event]).trans hpre) hu
      exact (honce hu'.once).mp (hall _ v hpre (run_snoc.mpr ⟨u, hu, hok⟩)).once
    · exact absurd ⟨edgeId, .inl herror⟩ (hstep pre event u hpre hu).1
    · exact hfits
  · intro hfits
    have honce : ∀ pre u, pre <+: l → pre.foldlM (step parse) new = .ok u → u.Once := by
      intro pre
      induction pre using List.reverseRecOn with
      | nil =>
        intro u _ hu
        cases hu
        rintro i edgeId edgeId' ⟨edge, hedge, -⟩
        cases hedge
      | append_singleton pre event ih =>
        intro v hpre hv
        obtain ⟨u, hu, hstep⟩ := run_snoc.mp hv
        have hu' := ih u ((prefix_append pre [event]).trans hpre) hu
        rcases hspec pre event u hpre hu with ⟨s', hok, -, -, -, honce⟩ | ⟨edgeId, herror, -⟩ |
          ⟨hno, -⟩
        · rw [hok] at hstep
          cases hstep
          exact (honce hu').mpr (hfits pre event u hpre hu)
        · rw [herror] at hstep
          cases hstep
        · exact absurd ⟨v, hstep⟩ hno
    refine ⟨fun pre u hpre hu => ?_, fun pre event u hpre hu => ?_⟩
    · obtain ⟨hbase, hleft⟩ := run_base hsame hpre hu
      exact ⟨honce pre u hpre hu, count_of hbase hleft (honce pre u hpre hu)⟩
    · have hf := hfits pre event u hpre hu
      rcases hspec pre event u hpre hu with ⟨s', hok, -, -, hmono, -⟩ | ⟨edgeId, -, hnot⟩ |
        ⟨hno, hconf, -⟩
      · refine ⟨?_, fun v hv => ?_⟩
        · rw [hok]
          rintro ⟨edgeId, herror | herror⟩ <;> cases herror
        · rw [hok] at hv
          cases hv
          exact hmono
      · exact absurd hf hnot
      · exact ⟨hconf, fun v hv => absurd ⟨v, hv⟩ hno⟩

end

/-! ## A text sent twice

The first message is shown and linked. The second is announced, and the item of the first
is shown again before its own.
-/

def communicationText : Text :=
  "\x7b\"author\":\"/root\",\"recipient\":\"/root/child\",\"other_recipients\":[],\"content\":\"go on\",\"trigger_turn\":true\x7d".toList

def parseGoOn (text : Text) : Option InterAgentCommunication :=
  if text = communicationText then some ⟨"/root/child".toList, "go on".toList⟩ else none

def sendCall : AgentToolCall := ⟨.sendMessage, 0, none, [], none⟩

def goOnItem : NormalizedConversationItem :=
  ⟨.assistant, none, .message, [.text communicationText], none⟩

def resentText : List Event :=
  [.threadStarted "child".toList "/root/child".toList,
    .toolCallStarted "a".toList sendCall,
    .runtimeBegin "a".toList "p1".toList "child".toList "go on".toList,
    .runtimeEnd "a".toList "p2".toList "child".toList "go on".toList 1,
    .itemAppeared "child".toList none 2 goOnItem [],
    .toolCallStarted "b".toList sendCall,
    .runtimeBegin "b".toList "p3".toList "child".toList "go on".toList,
    .itemShownAgain (conversationItemId 1)]

theorem resentText_same : Along (step parseGoOn) SameDelivery new resentText := by
  refine .cons_ok rfl ?_ <| .cons_ok rfl ?_ <| .cons_ok rfl ?_ <| .cons_ok rfl ?_ <|
    .cons_ok rfl ?_ <| .cons_ok rfl ?_ <| .cons_ok rfl ?_ <| .cons_ok rfl ?_ trivial <;>
  · unfold SameDelivery
    decide +kernel

theorem resentText_linked_twice : ∃ t, resentText.foldlM (step parseGoOn) new = .ok t ∧
    t.Linked (toolEdgeId "a".toList) (conversationItemId 1) ∧
      t.Linked (toolEdgeId "b".toList) (conversationItemId 1) :=
  ⟨_, rfl, ⟨_, rfl, rfl⟩, ⟨_, rfl, rfl⟩⟩

theorem resentText_not_oneToOne {t : AgentTrace}
    (ha : t.Linked (toolEdgeId "a".toList) (conversationItemId 1))
    (hb : t.Linked (toolEdgeId "b".toList) (conversationItemId 1)) : ¬ t.OneToOne parseGoOn :=
  fun h => absurd (h.once _ _ _ ha hb) (by decide)

theorem second_delivery_takes_linked_item : ¬ OneToOneThroughout parseGoOn resentText := by
  obtain ⟨t, hrun, ha, hb⟩ := resentText_linked_twice
  exact fun h => resentText_not_oneToOne ha hb (h.1 _ t (prefix_refl _) hrun)

theorem deliveries_one_to_one_iff_resent : ¬ FitsThroughout parseGoOn resentText := by
  obtain ⟨t, hrun, ha, hb⟩ := resentText_linked_twice
  intro h
  have hone := (deliveries_one_to_one_iff resentText_same).mpr h
  exact resentText_not_oneToOne ha hb (hone.1 _ t (prefix_refl _) hrun)

end AgentTrace

end Codex.RolloutTrace
