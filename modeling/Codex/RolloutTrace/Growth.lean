import Codex.Foundation.Run
import Codex.RolloutTrace.Inference

/-!
# What reconciliation keeps

Reconciling the items of one thread only adds items of that thread, under ids that were not
in use, and adds readable parts and producers to the items that are there.
-/

namespace Codex.RolloutTrace

open Foundation

/-! ## Items -/

/-- What may happen to an item: its readable parts come, other parts stay. -/
structure ConversationItem.GrewTo (x x' : ConversationItem) : Prop where
  thread : x'.threadId = x.threadId
  key : x'.normalized.key = x.normalized.key
  readable : x.normalized.readable ≠ [] → x'.normalized.readable = x.normalized.readable

theorem ConversationItem.GrewTo.refl (x : ConversationItem) : x.GrewTo x := ⟨rfl, rfl, fun _ => rfl⟩

variable {x : ConversationItem} {n : NormalizedConversationItem} {x' : ConversationItem}

theorem ConversationItem.GrewTo.trans {y z : ConversationItem} (h : x.GrewTo y) (h' : y.GrewTo z) :
    x.GrewTo z := by
  refine ⟨h'.thread.trans h.thread, h'.key.trans h.key, fun hne => ?_⟩
  have hy := h.readable hne
  rw [← hy] at hne ⊢
  exact h'.readable hne

def ConversationItem.Covers (x : ConversationItem) (n : NormalizedConversationItem) : Prop :=
  x.normalized.key = n.key ∧ (n.readable = [] ∨ x.normalized.readable = n.readable)

theorem ConversationItem.Covers.matches (h : x.Covers n) : conversationItemMatches x n :=
  conversationItemMatches_iff.mpr ⟨h.1, .inr h.2⟩

theorem ConversationItem.GrewTo.covers (h : x.GrewTo x') (hx : x.Covers n) : x'.Covers n := by
  refine ⟨h.key.trans hx.1, ?_⟩
  by_cases hn : n.readable = []
  · exact .inl hn
  · have hreadable := hx.2.resolve_left hn
    rw [← hreadable] at hn ⊢
    exact .inr (h.readable hn)

theorem grewTo_pushProducers (l : List ProducerRef) (x : ConversationItem) :
    x.GrewTo (pushProducers l x) := ⟨rfl, rfl, fun _ => rfl⟩

/-- `x'` is `x` after a sighting of `n`, which it matches. -/
structure ConversationItem.Sighted (x : ConversationItem) (n : NormalizedConversationItem)
    (x' : ConversationItem) : Prop where
  thread : x'.threadId = x.threadId
  key : x'.normalized.key = x.normalized.key
  same : x.normalized.key = n.key
  agree : Agree x.normalized.readable n.readable
  readable : x'.normalized.readable = joined x.normalized.readable n.readable

theorem ConversationItem.Sighted.grewTo (h : x.Sighted n x') : x.GrewTo x' := by
  refine ⟨h.thread, h.key, fun hne => ?_⟩
  rw [h.readable, joined, if_neg hne]

theorem ConversationItem.Sighted.covers (h : x.Sighted n x') : x'.Covers n := by
  refine ⟨h.key.trans h.same, ?_⟩
  rw [h.readable, joined]
  split
  · exact .inr rfl
  · rename_i hne
    exact h.agree.resolve_left hne

theorem sighted_merge {body : ConversationBody} (hkind : x.kind = .reasoning)
    (h : conversationItemMatches x n) (hmerge : mergeReasoningBody x.body n.body = some body) :
    x.Sighted n { x with body := body } := by
  obtain ⟨hkey, hreadable⟩ := mergeReasoningBody_spec hkind h hmerge
  obtain ⟨hsame, hagree⟩ := conversationItemMatches_iff.mp h
  exact ⟨rfl, hkey, hsame, hagree, hreadable⟩

theorem readable_eq_nil (hkind : n.kind ≠ .reasoning) : n.readable = [] := by
  simp [NormalizedConversationItem.readable, NormalizedConversationItem.encodedPart, hkind]

theorem sighted_self (hkind : x.kind ≠ .reasoning) (h : conversationItemMatches x n) :
    x.Sighted n x := by
  obtain ⟨hsame, hagree⟩ := conversationItemMatches_iff.mp h
  have hx : x.normalized.readable = [] := readable_eq_nil hkind
  have hn : n.readable = [] := by
    refine readable_eq_nil ?_
    rw [← show x.kind = n.kind from congrArg ItemKey.kind hsame]
    exact hkind
  refine ⟨rfl, rfl, hsame, hagree, ?_⟩
  rw [joined, if_pos hx, hx, hn]

theorem ConversationItem.Sighted.push (h : x.Sighted n x') (l : List ProducerRef) :
    x.Sighted n (pushProducers l x') :=
  ⟨h.thread, h.key, h.same, h.agree, h.readable⟩

theorem conversationItemId_injective : Function.Injective conversationItemId := by
  intro m n h
  exact decimal_injective (List.append_cancel_left h)

/-! ## Reducers -/

namespace Reducer
variable {G : Type} {r r' r'' : Reducer G} {t : Text}

def Fresh (r : Reducer G) : Prop := ∀ n, r.nextConversationItemOrdinal ≤ n →
  getEntry (conversationItemId n) r.conversationItems = none

/-- `r'` is `r` with items of thread `t` added and items grown. -/
structure Grown (t : Text) (r r' : Reducer G) : Prop where
  items : ∀ {i x}, getEntry i r.conversationItems = some x →
    ∃ x', getEntry i r'.conversationItems = some x' ∧ x.GrewTo x'
  born : ∀ {i x'}, getEntry i r'.conversationItems = some x' →
    getEntry i r.conversationItems = none → x'.threadId = t ∧
      ∃ n, i = conversationItemId n ∧ r.nextConversationItemOrdinal ≤ n ∧
        n < r'.nextConversationItemOrdinal
  ordinal : r.nextConversationItemOrdinal ≤ r'.nextConversationItemOrdinal
  snapshots : r'.threadConversationSnapshots = r.threadConversationSnapshots
  pending : r'.pendingCompactionReplacementItemIds = r.pendingCompactionReplacementItemIds
  threads : r'.threads = r.threads
  turns : r'.codexTurns = r.codexTurns
  calls : r'.inferenceCalls = r.inferenceCalls
  compactions : r'.compactions = r.compactions

theorem Grown.refl (t : Text) (r : Reducer G) : Grown t r r :=
  ⟨fun {_} x hx => ⟨x, hx, .refl x⟩, fun hx hnone => absurd (hx.symm.trans hnone) (by simp), le_rfl,
    rfl, rfl, rfl, rfl, rfl, rfl⟩

theorem Grown.trans (h : Grown t r r') (h' : Grown t r' r'') : Grown t r r'' := by
  refine ⟨?_, ?_, h.ordinal.trans h'.ordinal, h'.snapshots.trans h.snapshots,
    h'.pending.trans h.pending, h'.threads.trans h.threads, h'.turns.trans h.turns,
    h'.calls.trans h.calls, h'.compactions.trans h.compactions⟩
  · intro i x hx
    obtain ⟨y, hy, hgrew⟩ := h.items hx
    obtain ⟨z, hz, hgrew'⟩ := h'.items hy
    exact ⟨z, hz, hgrew.trans hgrew'⟩
  · intro i z hz hnone
    cases hi : getEntry i r'.conversationItems with
    | none =>
      obtain ⟨hthread, n, hn, hle, hlt⟩ := h'.born hz hi
      exact ⟨hthread, n, hn, h.ordinal.trans hle, hlt⟩
    | some y =>
      obtain ⟨hthread, n, hn, hle, hlt⟩ := h.born hi hnone
      obtain ⟨z', hz', hgrew⟩ := h'.items hi
      rw [hz] at hz'
      cases hz'
      exact ⟨hgrew.thread.trans hthread, n, hn, hle, hlt.trans_le h'.ordinal⟩

theorem Grown.fresh (h : Grown t r r') (hr : r.Fresh) : r'.Fresh := by
  intro n hn
  cases hi : getEntry (conversationItemId n) r'.conversationItems with
  | none => rfl
  | some x =>
    obtain ⟨-, m, hm, -, hlt⟩ := h.born hi (hr n (h.ordinal.trans hn))
    rw [conversationItemId_injective hm] at hn
    omega

variable {i : Text} {n : NormalizedConversationItem} {producedBy : List ProducerRef}
  {linking : Linking G} {context : ReconcileItems} {prev used ids : List Text}
  {items : List NormalizedConversationItem}

theorem grown_putItem {x x' : ConversationItem} (hx : getEntry i r.conversationItems = some x)
    (h : x.GrewTo x') : Grown t r (r.putItem i x') := by
  refine ⟨?_, ?_, le_rfl, rfl, rfl, rfl, rfl, rfl, rfl⟩
  · intro j y hy
    simp only [putItem, getEntry_set]
    split
    · rename_i hij
      rw [hij, hx] at hy
      cases hy
      exact ⟨x', rfl, h⟩
    · exact ⟨y, hy, .refl y⟩
  · intro j y hy hnone
    simp only [putItem, getEntry_set] at hy
    split at hy
    · rename_i hij
      rw [hij, hx] at hnone
      cases hnone
    · rw [hnone] at hy
      cases hy

theorem grown_graph (r : Reducer G) (g : G) : Grown t r { r with graph := g } :=
  ⟨fun {_} x hx => ⟨x, hx, .refl x⟩, fun hx hnone => absurd (hx.symm.trans hnone) (by simp), le_rfl,
    rfl, rfl, rfl, rfl, rfl, rfl⟩

theorem grown_addProducer (r : Reducer G) (link : Text × ProducerRef) :
    Grown t r (r.addProducer link) := by
  unfold addProducer
  split
  · rename_i item hitem
    exact grown_putItem hitem (grewTo_pushProducers _ item)
  · exact .refl t r

theorem grown_linked (r : Reducer G) (links : G × List (Text × ProducerRef)) :
    Grown t r (r.linked links) := by
  have hfold : ∀ (l : List (Text × ProducerRef)) (u : Reducer G),
      Grown t u (l.foldl addProducer u) := by
    intro l
    induction l with
    | nil => exact fun u => .refl t u
    | cons link l ih => exact fun u => (grown_addProducer u link).trans (ih _)
  exact (grown_graph r links.1).trans (hfold links.2 _)

def Covers (r : Reducer G) (i : Text) (n : NormalizedConversationItem) : Prop :=
  ∃ x, getEntry i r.conversationItems = some x ∧ x.Covers n

theorem Grown.covers (h : Grown t r r') (hi : r.Covers i n) : r'.Covers i n := by
  obtain ⟨x, hx, hcovers⟩ := hi
  obtain ⟨x', hx', hgrew⟩ := h.items hx
  exact ⟨x', hx', hgrew.covers hcovers⟩

theorem itemMatches_iff : r.itemMatches i n ↔
    ∃ x, getEntry i r.conversationItems = some x ∧ conversationItemMatches x n := by
  simp [itemMatches, Option.any_eq_true]

theorem Covers.itemMatches (h : r.Covers i n) : r.itemMatches i n := by
  obtain ⟨x, hx, hcovers⟩ := h
  exact itemMatches_iff.mpr ⟨x, hx, hcovers.matches⟩

/-! ## One sighting -/

theorem update_cases (hmatch : r.itemMatches i n)
    (h : r.updateConversationItemFromSighting i n producedBy = .ok r') :
    ∃ x x', getEntry i r.conversationItems = some x ∧ x.Sighted n x' ∧ r' = r.putItem i x' := by
  obtain ⟨x, hx, hmatch⟩ := itemMatches_iff.mp hmatch
  simp only [updateConversationItemFromSighting, hx] at h
  split at h
  · rename_i hkind
    obtain ⟨body, hbody⟩ := mergeReasoningBody_isSome hkind hmatch
    simp only [hbody] at h
    cases h
    exact ⟨x, _, hx, (sighted_merge hkind hmatch hbody).push producedBy, rfl⟩
  · rename_i hkind
    cases h
    exact ⟨x, _, hx, (sighted_self hkind hmatch).push producedBy, rfl⟩

theorem update_spec (hmatch : r.itemMatches i n)
    (h : r.updateConversationItemFromSighting i n producedBy = .ok r') :
    Grown t r r' ∧ r'.Covers i n := by
  obtain ⟨x, x', hx, hsighted, rfl⟩ := update_cases hmatch h
  exact ⟨grown_putItem hx hsighted.grewTo, x', getEntry_set_self _ _ _, hsighted.covers⟩

theorem sight_spec (hmatch : r.itemMatches i n) (h : r.sight linking i n producedBy = .ok r') :
    Grown t r r' ∧ r'.Covers i n := by
  obtain ⟨u, hu, h⟩ := bind_ok_iff.mp h
  obtain ⟨links, -, h⟩ := bind_ok_iff.mp h
  cases h
  obtain ⟨hgrown, hcovers⟩ := update_spec hmatch hu
  have hlinked := grown_linked (t := t) u links
  exact ⟨hgrown.trans hlinked, hlinked.covers hcovers⟩

theorem grown_createFor (hr : r.Fresh) (codexTurnId : Text) (wallTimeUnixMs : ℤ)
    (producedBy : List ProducerRef) (n : NormalizedConversationItem) :
    Grown t r (r.createFor t codexTurnId wallTimeUnixMs producedBy n).1 := by
  refine ⟨?_, ?_, Nat.le_succ _, rfl, rfl, rfl, rfl, rfl, rfl⟩
  · intro i x hx
    simp only [createFor, createConversationItem, putItem, getEntry_set]
    split
    · rename_i hi
      rw [hi, hr _ le_rfl] at hx
      cases hx
    · exact ⟨x, hx, .refl x⟩
  · intro i x hx hnone
    simp only [createFor, createConversationItem, putItem, getEntry_set] at hx
    split at hx
    · rename_i hi
      cases hx
      exact ⟨rfl, _, hi, le_rfl, Nat.lt_succ_self _⟩
    · rw [hnone] at hx
      cases hx

theorem itemMatches_createFor (r : Reducer G) (codexTurnId : Text) (wallTimeUnixMs : ℤ)
    (producedBy : List ProducerRef) (n : NormalizedConversationItem) :
    (r.createFor t codexTurnId wallTimeUnixMs producedBy n).1.itemMatches
      (r.createFor t codexTurnId wallTimeUnixMs producedBy n).2 n :=
  itemMatches_iff.mpr ⟨_, getEntry_set_self _ _ _, conversationItemMatches_self _⟩

/-! ## One item -/

/-- How an item gets its id: it keeps the one at its place, takes one of the compared
snapshot, or is created. -/
inductive Identified (r : Reducer G) (context : ReconcileItems) (prev used : List Text)
    (n : NormalizedConversationItem) : Reducer G → Text → Prop where
  | keeps {i : Text} (at_place : prev[context.startIndex + used.length]? = some i)
      (matches_item : r.itemMatches i n) : Identified r context prev used n r i
  | takes {i : Text}
      (not_kept : ∀ j, prev[context.startIndex + used.length]? = some j → ¬ r.itemMatches j n)
      (found : r.findMatchingSnapshotItem prev used n = some i) :
      Identified r context prev used n r i
  | creates
      (not_kept : ∀ j, prev[context.startIndex + used.length]? = some j → ¬ r.itemMatches j n)
      (not_found : context.mode = .fullSnapshot → r.findMatchingSnapshotItem prev used n = none) :
      Identified r context prev used n
        (r.createFor context.threadId context.codexTurnId context.wallTimeUnixMs
          context.producedBy n).1
        (r.createFor context.threadId context.codexTurnId context.wallTimeUnixMs
          context.producedBy n).2

theorem identified_findOrCreate
    (h : ∀ j, prev[context.startIndex + used.length]? = some j → ¬ r.itemMatches j n) :
    Identified r context prev used n (r.findOrCreate context prev used n).1
      (r.findOrCreate context prev used n).2 := by
  unfold findOrCreate
  split
  · rename_i i hi
    exact .takes h hi
  · rename_i hnone
    exact .creates h fun _ => hnone

theorem identified (h : r.identify context prev used n = .ok (r', i)) :
    Identified r context prev used n r' i := by
  cases hprev : prev[context.startIndex + used.length]? with
  | some previousItemId =>
    simp only [identify, hprev] at h
    split at h
    · rename_i hmatch
      cases h
      exact .keeps hprev hmatch
    · rename_i hmatch
      split at h
      · have hnot : ∀ j, prev[context.startIndex + used.length]? = some j →
            ¬ r.itemMatches j n := by
          intro j hj
          rw [hprev] at hj
          cases hj
          exact hmatch
        have hfound := identified_findOrCreate hnot
        rw [Except.ok.inj h] at hfound
        exact hfound
      · cases h
  | none =>
    have hnot : ∀ j, prev[context.startIndex + used.length]? = some j →
        ¬ r.itemMatches j n := by
      intro j hj
      rw [hprev] at hj
      cases hj
    simp only [identify, hprev] at h
    split at h
    · have hfound := identified_findOrCreate hnot
      rw [Except.ok.inj h] at hfound
      exact hfound
    · rename_i hmode
      cases h
      exact .creates hnot fun hfull => absurd hfull hmode

theorem Identified.spec (hr : r.Fresh) (h : Identified r context prev used n r' i) :
    Grown context.threadId r r' ∧ r'.itemMatches i n := by
  cases h with
  | keeps _ hmatch => exact ⟨.refl _ r, hmatch⟩
  | takes _ hfound =>
    have hfits := List.find?_some hfound
    simp only [Bool.and_eq_true] at hfits
    exact ⟨.refl _ r, hfits.2⟩
  | creates => exact ⟨grown_createFor hr _ _ _ n, itemMatches_createFor r _ _ _ n⟩

structure Reconciles (context : ReconcileItems) (prev used : List Text)
    (n : NormalizedConversationItem) (r : Reducer G) (i : Text) (r' : Reducer G) : Prop where
  callIds : r.ensureCallIdConsistency context.threadId n = .ok ()
  reasoning : r.ensureReasoningConsistency context.threadId n = .ok ()
  identified : ∃ v, Identified r context prev used n v i ∧ Grown context.threadId v r'
  grown : Grown context.threadId r r'
  covers : r'.Covers i n

theorem reconcileItem_spec (hr : r.Fresh)
    (h : reconcileItem linking context prev (r, used) n = .ok (r', ids)) :
    ∃ i, ids = used ++ [i] ∧ Reconciles context prev used n r i r' := by
  obtain ⟨_, hcall, h⟩ := bind_ok_iff.mp h
  obtain ⟨_, hreasoning, h⟩ := bind_ok_iff.mp h
  obtain ⟨⟨v, i⟩, hidentify, h⟩ := bind_ok_iff.mp h
  obtain ⟨u, hsight, h⟩ := bind_ok_iff.mp h
  cases h
  have hidentified := identified hidentify
  obtain ⟨hgrown, hmatch⟩ := hidentified.spec hr
  obtain ⟨hgrown', hcovers⟩ := sight_spec (t := context.threadId) hmatch hsight
  exact ⟨i, rfl, hcall, hreasoning, ⟨v, hidentified, hgrown'⟩, hgrown.trans hgrown', hcovers⟩

/-! ## A list of items -/

def Has (r : Reducer G) (i : Text) : Prop := ∃ x, getEntry i r.conversationItems = some x

theorem Grown.has (h : Grown t r r') (hi : r.Has i) : r'.Has i := by
  obtain ⟨x, hx⟩ := hi
  obtain ⟨x', hx', -⟩ := h.items hx
  exact ⟨x', hx'⟩

theorem Covers.has (h : r.Covers i n) : r.Has i := by
  obtain ⟨x, hx, -⟩ := h
  exact ⟨x, hx⟩

/-- What reconciling a list of items goes through: `ids` are those of `items`, and each
item was reconciled in a state between the first and the last. -/
structure ReconcilesAll (context : ReconcileItems) (prev used : List Text)
    (items : List NormalizedConversationItem) (r : Reducer G) (ids : List Text)
    (r' : Reducer G) : Prop where
  length : ids.length = items.length
  grown : Grown context.threadId r r'
  each : ∀ {k n i}, items[k]? = some n → ids[k]? = some i →
    ∃ u v, Grown context.threadId r u ∧ u.Fresh ∧ (∀ j ∈ used ++ ids.take k, u.Has j) ∧
      Reconciles context prev (used ++ ids.take k) n u i v ∧ Grown context.threadId v r'

theorem reconcileAll_spec {all : List Text} (hr : r.Fresh) (hused : ∀ j ∈ used, r.Has j)
    (h : items.foldlM (reconcileItem linking context prev) (r, used) = .ok (r', all)) :
    ∃ ids, all = used ++ ids ∧ ReconcilesAll context prev used items r ids r' := by
  induction items generalizing r used with
  | nil =>
    cases h
    refine ⟨[], by simp, rfl, .refl _ _, ?_⟩
    intro k n i hn
    simp at hn
  | cons n items ih =>
    obtain ⟨⟨v, used'⟩, hitem, h⟩ := bind_ok_iff.mp h
    obtain ⟨i, rfl, hone⟩ := reconcileItem_spec hr hitem
    have hused' : ∀ j ∈ used ++ [i], v.Has j := by
      intro j hj
      rcases List.mem_append.mp hj with hmem | hmem
      · exact hone.grown.has (hused j hmem)
      · rw [List.mem_singleton.mp hmem]
        exact hone.covers.has
    obtain ⟨ids, hall, hrest⟩ := ih (hone.grown.fresh hr) hused' h
    refine ⟨i :: ids, by simp [hall], by simp [hrest.length], hone.grown.trans hrest.grown, ?_⟩
    intro k n' i' hn' hi'
    cases k with
    | zero =>
      simp only [List.getElem?_cons_zero, Option.some.injEq] at hn' hi'
      subst hn' hi'
      exact ⟨r, v, .refl _ r, hr, by simpa using hused, by simpa using hone, hrest.grown⟩
    | succ k =>
      obtain ⟨u, w, hu, hfresh, hhas, hw, hw'⟩ := hrest.each hn' hi'
      rw [List.append_assoc, List.singleton_append, ← List.take_succ_cons] at hhas hw
      exact ⟨u, w, hone.grown.trans hu, hfresh, hhas, hw, hw'⟩

theorem reconcileConversationItems_spec (hr : r.Fresh)
    (h : r.reconcileConversationItems linking items context = .ok (r', ids)) :
    ReconcilesAll context (context.snapshotOverride.getD (r.snapshotOf context.threadId)) [] items
      r ids r' := by
  obtain ⟨⟨v, all⟩, hitems, h⟩ := bind_ok_iff.mp h
  obtain ⟨links, -, h⟩ := bind_ok_iff.mp h
  cases h
  obtain ⟨ids', hall, hspec⟩ := reconcileAll_spec hr (by simp) hitems
  subst hall
  have hlinked := grown_linked (t := context.threadId) v links
  refine ⟨hspec.length, hspec.grown.trans hlinked, ?_⟩
  intro k n i hn hi
  obtain ⟨u, w, hu, hfresh, hhas, hw, hw'⟩ := hspec.each hn hi
  exact ⟨u, w, hu, hfresh, hhas, hw, hw'.trans hlinked⟩

theorem ReconcilesAll.covers (h : ReconcilesAll context prev used items r ids r') {k : ℕ}
    (hn : items[k]? = some n) (hi : ids[k]? = some i) : r'.Covers i n := by
  obtain ⟨u, v, -, -, -, hv, hgrown⟩ := h.each hn hi
  exact hgrown.covers hv.covers

end Reducer

end Codex.RolloutTrace
