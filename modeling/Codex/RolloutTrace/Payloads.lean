import Codex.RolloutTrace.Normalize
import Codex.Foundation.Run

/-!
# The same item in another payload

An item that is carried by two payloads is normalized to the same fields in both, but for
the payload ids in its parts.
-/

namespace Codex.RolloutTrace

open Foundation List

def ConversationPart.atPayload (q : Text) : ConversationPart → ConversationPart
  | .json s _ => .json s q
  | .payloadRef label _ => .payloadRef label q
  | part => part

def NormalizedConversationItem.atPayload (q : Text) (n : NormalizedConversationItem) :
    NormalizedConversationItem := { n with body := n.body.map (.atPayload q) }

/-- `f` gives the same body in every payload, but for the payload's id. -/
def Carried (f : Text → Reduced ConversationBody) : Prop :=
  ∀ {p q body}, f p = .ok body → f q = .ok (body.map (.atPayload q))

variable (jsonText : JsonText)

theorem carried_jsonBody (value : Json) : Carried (jsonBody jsonText value) := by
  intro p q body h
  obtain ⟨summary, hsummary, h⟩ := bind_ok_iff.mp h
  cases h
  exact bind_ok_iff.mpr ⟨summary, hsummary, rfl⟩

theorem carried_rawTextOrJsonBody (value : Option Json) :
    Carried (rawTextOrJsonBody jsonText value) := by
  intro p q body h
  unfold rawTextOrJsonBody at h ⊢
  split at h
  · split at h
    · exact carried_jsonBody jsonText _ h
    · cases h
      rfl
  · exact carried_jsonBody jsonText _ h
  · cases h
    rfl

theorem contentPart_atPayload (part : Json) (p q : Text) :
    (contentPart part p).map (.atPayload q) = contentPart part q := by
  unfold contentPart
  split
  · split
    · cases strField part "text" <;> rfl
    · rfl
  · rfl

theorem contentParts_atPayload (content : Option Json) (p q : Text) :
    (contentParts content p).map (.atPayload q) = contentParts content q := by
  unfold contentParts
  split
  · rfl
  · rename_i items _
    have hparts : (items.flatMap fun part => contentPart part p).map (.atPayload q) =
        items.flatMap fun part => contentPart part q := by
      rw [map_flatMap]
      exact flatMap_congr fun part _ => contentPart_atPayload part p q
    simp only [← hparts, isEmpty_map]
    split
    · rfl
    · rfl

theorem carried_toolOutputBody (output : Option Json) :
    Carried (toolOutputBody jsonText output) := by
  intro p q body h
  unfold toolOutputBody at h ⊢
  split at h
  · cases h
    rfl
  · cases h
    rw [contentParts_atPayload]
  · exact carried_jsonBody jsonText _ h
  · cases h
    rfl

theorem carried_customToolCallBody (item : Json) : Carried (customToolCallBody jsonText item) := by
  intro p q body h
  unfold customToolCallBody at h ⊢
  split at h
  · exact carried_jsonBody jsonText _ h
  · split at h
    · rename_i hname
      cases h
      rw [if_pos hname]
      rfl
    · rename_i hname
      cases h
      rw [if_neg hname]
      rfl

theorem carried_compactionBody (item : Json) : Carried (compactionBody item) := by
  intro p q body h
  unfold compactionBody at h ⊢
  split at h
  · cases h
    rfl
  · cases h

variable {item : Json} {p q : Text} {n : NormalizedConversationItem}

theorem toolItem_atPayload {role : ConversationRole} {kind : ConversationItemKind}
    {f : Text → Reduced ConversationBody} (hf : Carried f)
    (h : toolItem role kind item (f p) = .ok n) :
    toolItem role kind item (f q) = .ok (n.atPayload q) := by
  obtain ⟨body, hbody, h⟩ := bind_ok_iff.mp h
  cases h
  exact bind_ok_iff.mpr ⟨_, hf hbody, rfl⟩

/-! ## Reasoning -/

theorem reasoningPart_atPayload {kind : ReasoningPartKind} {part : ConversationPart}
    (h : reasoningPart kind p item = .ok part) :
    reasoningPart kind q item = .ok part ∧ part.atPayload q = part := by
  simp only [reasoningPart] at h ⊢
  cases htype : strField item "type" with
  | none => simp [htype, bail] at h
  | some type =>
    simp only [htype] at h ⊢
    split at h
    · cases h
    · rename_i hallows
      simp only [hallows, if_false]
      cases htext : strField item "text" with
      | none => simp [htext, bail] at h
      | some text =>
        simp only [htext] at h ⊢
        cases h
        refine ⟨rfl, ?_⟩
        cases kind <;> rfl

theorem reasoningParts_atPayload {kind : ReasoningPartKind} {parts : List ConversationPart}
    (h : reasoningParts item kind p = .ok parts) :
    reasoningParts item kind q = .ok parts ∧ parts.map (.atPayload q) = parts := by
  unfold reasoningParts at h ⊢
  split at h
  · cases h
    exact ⟨rfl, rfl⟩
  · split at h
    · rename_i hkind
      cases h
      rw [if_pos hkind]
      exact ⟨rfl, rfl⟩
    · cases h
  · rename_i items hitems
    have hall := mapM_ok_iff.mp h
    refine ⟨mapM_ok_iff.mpr (hall.imp fun _ _ hpart => (reasoningPart_atPayload hpart).1), ?_⟩
    clear h hitems
    induction hall with
    | nil => rfl
    | cons hpart _ ih => rw [map_cons, (reasoningPart_atPayload hpart).2, ih]
  · cases h

theorem encryptedParts_atPayload {parts : List ConversationPart}
    (h : encryptedParts item p = .ok parts) :
    encryptedParts item q = .ok parts ∧ parts.map (.atPayload q) = parts := by
  unfold encryptedParts at h ⊢
  split at h
  · cases h
    exact ⟨rfl, rfl⟩
  · cases h
    exact ⟨rfl, rfl⟩
  · cases h
    exact ⟨rfl, rfl⟩
  · cases h

theorem normalizeReasoningItem_atPayload (h : normalizeReasoningItem item p = .ok n) :
    normalizeReasoningItem item q = .ok (n.atPayload q) := by
  obtain ⟨content, hcontent, h⟩ := bind_ok_iff.mp h
  obtain ⟨summary, hsummary, h⟩ := bind_ok_iff.mp h
  obtain ⟨encrypted, hencrypted, h⟩ := bind_ok_iff.mp h
  obtain ⟨hcontent, hsame⟩ := reasoningParts_atPayload (q := q) hcontent
  obtain ⟨hsummary, hsame'⟩ := reasoningParts_atPayload (q := q) hsummary
  obtain ⟨hencrypted, hsame''⟩ := encryptedParts_atPayload (q := q) hencrypted
  refine bind_ok_iff.mpr ⟨content, hcontent, bind_ok_iff.mpr ⟨summary, hsummary,
    bind_ok_iff.mpr ⟨encrypted, hencrypted, ?_⟩⟩⟩
  dsimp only at h ⊢
  split at h
  · cases h
  · rename_i hne
    cases h
    simp only [hne, NormalizedConversationItem.atPayload, map_append, hsame, hsame', hsame'']
    rfl

theorem normalizeMessageItem_atPayload (h : normalizeMessageItem item p = .ok n) :
    normalizeMessageItem item q = .ok (n.atPayload q) := by
  unfold normalizeMessageItem at h ⊢
  split at h
  · cases h
  · split at h
    · cases h
    · cases h
      simp only [NormalizedConversationItem.atPayload, contentParts_atPayload]

/-! ## Items -/

theorem normalizeModelItem_atPayload (h : normalizeModelItem jsonText item p = .ok n) :
    normalizeModelItem jsonText item q = .ok (n.atPayload q) := by
  unfold normalizeModelItem at h ⊢
  split at h
  · cases h
  · rename_i type _
    by_cases hmessage : type = "message".toList
    · rw [if_pos hmessage] at h ⊢
      exact normalizeMessageItem_atPayload h
    rw [if_neg hmessage] at h ⊢
    by_cases hreasoning : type = "reasoning".toList
    · rw [if_pos hreasoning] at h ⊢
      exact normalizeReasoningItem_atPayload h
    rw [if_neg hreasoning] at h ⊢
    by_cases hcall : type = "function_call".toList
    · rw [if_pos hcall] at h ⊢
      exact toolItem_atPayload (carried_rawTextOrJsonBody jsonText _) h
    rw [if_neg hcall] at h ⊢
    by_cases houtput : type = "function_call_output".toList
    · rw [if_pos houtput] at h ⊢
      exact toolItem_atPayload (carried_toolOutputBody jsonText _) h
    rw [if_neg houtput] at h ⊢
    by_cases hcustom : type = "custom_tool_call".toList
    · rw [if_pos hcustom] at h ⊢
      exact toolItem_atPayload (carried_customToolCallBody jsonText _) h
    rw [if_neg hcustom] at h ⊢
    by_cases hcustomOutput : type = "custom_tool_call_output".toList
    · rw [if_pos hcustomOutput] at h ⊢
      exact toolItem_atPayload (carried_toolOutputBody jsonText _) h
    rw [if_neg hcustomOutput] at h ⊢
    split at h
    · rename_i hother
      rw [if_pos hother]
      exact toolItem_atPayload (carried_jsonBody jsonText _) h
    · rename_i hother
      rw [if_neg hother]
      split at h
      · rename_i hotherOutput
        rw [if_pos hotherOutput]
        exact toolItem_atPayload (carried_jsonBody jsonText _) h
      · rename_i hotherOutput
        rw [if_neg hotherOutput]
        split at h
        · rename_i hcompaction
          rw [if_pos hcompaction]
          obtain ⟨body, hbody, h⟩ := bind_ok_iff.mp h
          cases h
          exact bind_ok_iff.mpr ⟨_, carried_compactionBody item hbody, rfl⟩
        · cases h

/-! ## Payload references -/

def NormalizedConversationItem.PayloadFree (n : NormalizedConversationItem) : Prop :=
  ∀ label p, .payloadRef label p ∉ n.key.said

theorem NormalizedConversationItem.encodedPart_atPayload (q : Text)
    (n : NormalizedConversationItem) : (n.atPayload q).encodedPart = n.encodedPart := by
  unfold encodedPart reasoningEncodedPart
  simp only [atPayload, List.findSome?_map]
  congr 2
  funext part
  cases part <;> rfl

theorem NormalizedConversationItem.readable_atPayload (q : Text)
    (n : NormalizedConversationItem) : (n.atPayload q).readable = n.readable := by
  unfold readable
  rw [encodedPart_atPayload]
  congr 1
  unfold atPayload readableReasoningParts
  induction n.body with
  | nil => rfl
  | cons part body ih =>
    cases part <;>
      simp [filter_cons, ConversationPart.atPayload, ConversationPart.isReadable, ih]

theorem NormalizedConversationItem.PayloadFree.key_atPayload (h : n.PayloadFree) (q : Text) :
    (n.atPayload q).key = n.key := by
  unfold PayloadFree at h
  unfold key at h ⊢
  rw [encodedPart_atPayload]
  congr 1
  split
  · rfl
  · rename_i hnone
    simp only [hnone, Bool.false_eq_true, if_false, mem_map, not_exists, not_and] at h
    simp only [atPayload, map_map]
    refine map_congr_left fun part hpart => ?_
    cases part with
    | payloadRef label p => exact absurd rfl (h label p _ hpart)
    | _ => rfl

theorem NormalizedConversationItem.payloadRef_atPayload {label x : Text} (q : Text)
    (h : .payloadRef label x ∈ n.key.said) : .payloadRef label q ∈ (n.atPayload q).key.said := by
  unfold key at h ⊢
  rw [encodedPart_atPayload]
  split at h
  · cases h
  · rename_i hnone
    rw [if_neg hnone]
    obtain ⟨part, hpart, hsaid⟩ := mem_map.mp h
    refine mem_map.mpr ⟨part.atPayload q, mem_map.mpr ⟨part, hpart, rfl⟩, ?_⟩
    cases part with
    | payloadRef label y =>
      cases hsaid
      rfl
    | _ => cases hsaid

theorem payloadRef_of_normalized {l x : Text} (h : normalizeModelItem jsonText item p = .ok n)
    (hmem : .payloadRef l x ∈ n.key.said) : x = p := by
  have hsame := normalizeModelItem_atPayload jsonText (q := p) h
  rw [h] at hsame
  have hbody : n.body = n.body.map (.atPayload p) :=
    congrArg NormalizedConversationItem.body (Except.ok.inj hsame)
  unfold NormalizedConversationItem.key at hmem
  split at hmem
  · cases hmem
  · rw [hbody, map_map] at hmem
    obtain ⟨part, -, hpart⟩ := mem_map.mp hmem
    cases part with
    | payloadRef label y =>
      simp only [Function.comp_apply, ConversationPart.atPayload, ConversationPart.said,
        ConversationPart.payloadRef.injEq] at hpart
      exact hpart.2.symm
    | _ => cases hpart

end Codex.RolloutTrace
