import Codex.RolloutTrace.Consistency

/-!
# Delta requests and full requests

A follow-up request may send only its new items and name the response before it. Seen
again in a full request, the omitted items are the items at their places and nothing
changes; the new items are created either way.
-/

namespace Codex.RolloutTrace

open Foundation List

theorem Compatible.of_covers {d n : NormalizedConversationItem} {x : ConversationItem}
    (h : Compatible d x.normalized) (hx : x.Covers n) : Compatible d n := by
  constructor
  · intro hsome hcall hkind
    rw [← hx.1]
    exact h.callIds hsome (hcall.trans (congrArg ItemKey.callId hx.1).symm)
      (hkind.trans (congrArg ItemKey.kind hx.1).symm)
  · intro hsome hencoded hchannel
    rcases hx.2 with hnil | heq
    · rw [hnil]
      exact .inr (.inl rfl)
    · rw [← heq]
      exact h.reasoning hsome
        (hencoded.trans (NormalizedConversationItem.encodedPart_of_key hx.1).symm)
        (hchannel.trans (congrArg ItemKey.channel hx.1).symm)

theorem mergeReasoningBody_covered {x : ConversationItem} {n : NormalizedConversationItem}
    (hkind : x.kind = .reasoning) (h : x.Covers n) :
    mergeReasoningBody x.body n.body = some x.body := by
  have hmatch := reasoningBodyMatches_of_matches hkind h.matches
  unfold mergeReasoningBody
  split
  · rfl
  · rename_i hdiff
    rw [if_neg]
    rintro ⟨hempty, hfull⟩
    cases hpart : reasoningEncodedPart x.body with
    | none => exact hdiff ((reasoningBodyMatches_of_none hpart).mp hmatch)
    | some e =>
      have hx : x.normalized.encodedPart = some e := encodedPart_eq_some.mpr ⟨hkind, hpart⟩
      have hn := (NormalizedConversationItem.encodedPart_of_key h.1).symm.trans hx
      have hreadable := h.2
      simp only [NormalizedConversationItem.readable, hx, hn, Option.isSome_some, if_true]
        at hreadable
      rw [List.isEmpty_iff] at hempty hfull
      rcases hreadable with hnil | heq
      · exact hfull hnil
      · exact hfull (heq.symm.trans hempty)

namespace Reducer
variable {G : Type} {r r' : Reducer G} {t : Text}

/-! ## Items seen again -/

variable {n : NormalizedConversationItem} {prev : List Text}

theorem update_covered {i : Text} (h : r.Covers i n) :
    r.updateConversationItemFromSighting i n [] = .ok r := by
  obtain ⟨x, hx, hcovers⟩ := h
  have hput : r.putItem i x = r := by
    unfold putItem
    rw [set_getEntry hx]
  simp only [updateConversationItemFromSighting, hx]
  split
  · rename_i hkind
    simp only [mergeReasoningBody_covered hkind hcovers]
    exact congrArg Except.ok hput
  · exact congrArg Except.ok hput

theorem reconcileItem_again {context : ReconcileItems} {k : ℕ} {i : Text}
    (hstart : context.startIndex = 0) (hproduced : context.producedBy = []) (hi : prev[k]? = some i)
    (hcovers : r.Covers i n)
    (hcompatible : ∀ e ∈ r.conversationItems, e.2.threadId = context.threadId →
      Compatible e.2.normalized n) :
    reconcileItem .none context prev (r, prev.take k) n = .ok (r, prev.take (k + 1)) := by
  obtain ⟨hcall, hreasoning⟩ := checks_iff.mpr hcompatible
  have hlt := (List.getElem?_eq_some_iff.mp hi).1
  have hplace : context.startIndex + (prev.take k).length = k := by
    rw [hstart, length_take]
    omega
  have hidentify : r.identify context prev (prev.take k) n = .ok (r, i) := by
    simp only [identify, hplace, hi, hcovers.itemMatches, if_true]
  refine bind_ok_iff.mpr ⟨(), hcall, bind_ok_iff.mpr ⟨(), hreasoning, bind_ok_iff.mpr
    ⟨(r, i), hidentify, bind_ok_iff.mpr ⟨r, ?_, ?_⟩⟩⟩⟩
  · rw [hproduced]
    exact bind_ok_iff.mpr ⟨r, update_covered hcovers, bind_ok_iff.mpr ⟨_, rfl, rfl⟩⟩
  · rw [take_add_one, hi]
    rfl

theorem reconcileAll_again {context : ReconcileItems} {k : ℕ}
    {items : List NormalizedConversationItem} (hstart : context.startIndex = 0)
    (hproduced : context.producedBy = []) (hcovers : List.Forall₂ r.Covers (prev.drop k) items)
    (hcompatible : ∀ n ∈ items, ∀ e ∈ r.conversationItems, e.2.threadId = context.threadId →
      Compatible e.2.normalized n) :
    items.foldlM (reconcileItem .none context prev) (r, prev.take k) = .ok (r, prev) := by
  induction items generalizing k with
  | nil =>
    have hnil : prev.drop k = [] := forall₂_nil_right_iff.mp hcovers
    rw [take_of_length_le (drop_eq_nil_iff.mp hnil)]
    rfl
  | cons n items ih =>
    obtain ⟨i, rest, hi, hrest, hdrop⟩ := forall₂_cons_right_iff.mp hcovers
    have hlt : k < prev.length := by
      by_contra hge
      rw [drop_of_length_le (by omega)] at hdrop
      cases hdrop
    rw [drop_eq_getElem_cons hlt, List.cons.injEq] at hdrop
    obtain ⟨rfl, hdrop⟩ := hdrop
    rw [foldlM_cons, reconcileItem_again hstart hproduced (List.getElem?_eq_getElem hlt) hi
      (hcompatible n mem_cons_self)]
    exact ih (by rw [hdrop]; exact hrest) fun m hm => hcompatible m (mem_cons_of_mem n hm)

/-! ## New items -/

theorem find_eq_none_of_used {used : List Text} :
    r.findMatchingSnapshotItem prev (prev ++ used) n = none := by
  refine List.find?_eq_none.mpr fun i hi => ?_
  simp [hi]

theorem reconcileItem_new (linking : Linking G) (codexTurnId : Text) (wallTimeUnixMs : ℤ)
    (override : Option (List Text)) (prev used : List Text) (n : NormalizedConversationItem) :
    reconcileItem linking ⟨t, codexTurnId, wallTimeUnixMs, [], 0, .fullSnapshot, override⟩ prev
      (r, prev ++ used) n =
    (fun s : Reducer G × List Text => (s.1, prev ++ s.2)) <$>
      reconcileItem linking
        ⟨t, codexTurnId, wallTimeUnixMs, [], prev.length, .appendOnly, override⟩ prev
        (r, used) n := by
  have hfull : r.identify ⟨t, codexTurnId, wallTimeUnixMs, [], 0, .fullSnapshot, override⟩ prev
      (prev ++ used) n = .ok (r.createFor t codexTurnId wallTimeUnixMs [] n) := by
    have hplace : prev[0 + (prev ++ used).length]? = none := by
      rw [List.getElem?_eq_none_iff, length_append]
      omega
    simp only [identify, hplace, if_true, findOrCreate, find_eq_none_of_used]
  have hdelta : r.identify ⟨t, codexTurnId, wallTimeUnixMs, [], prev.length, .appendOnly, override⟩
      prev used n = .ok (r.createFor t codexTurnId wallTimeUnixMs [] n) := by
    have hplace : prev[prev.length + used.length]? = none := by
      rw [List.getElem?_eq_none_iff]
      omega
    simp only [identify, hplace]
    rfl
  unfold reconcileItem
  dsimp only
  rw [hfull, hdelta]
  simp only [map_bind, map_pure, List.append_assoc]

theorem reconcileAll_new (r : Reducer G) (linking : Linking G) (t codexTurnId : Text)
    (wallTimeUnixMs : ℤ) (override : Option (List Text)) (prev used : List Text)
    (items : List NormalizedConversationItem) : items.foldlM (reconcileItem linking
      ⟨t, codexTurnId, wallTimeUnixMs, [], 0, .fullSnapshot, override⟩ prev) (r, prev ++ used) =
    (fun s : Reducer G × List Text => (s.1, prev ++ s.2)) <$>
      items.foldlM (reconcileItem linking
        ⟨t, codexTurnId, wallTimeUnixMs, [], prev.length, .appendOnly, override⟩ prev)
        (r, used) := by
  induction items generalizing r used with
  | nil => rfl
  | cons n items ih =>
    rw [foldlM_cons, foldlM_cons, reconcileItem_new, map_bind, bind_map_left]
    exact congrArg _ (funext fun s => ih s.1 s.2)

end Reducer

end Codex.RolloutTrace
