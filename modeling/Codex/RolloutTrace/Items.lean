import Codex.Foundation.Text

/-!
# Conversation items

What a rollout trace keeps of the conversation with the model, and when a payload item is
a sighting of an item that is there. A raw payload id in a JSON part is no part of what an
item says; in a payload reference it is.
-/

namespace Codex.RolloutTrace

open Foundation

inductive ConversationRole where
  | system
  | developer
  | user
  | assistant
  | tool
deriving DecidableEq

inductive ConversationChannel where
  | analysis
  | commentary
  | final
  | summary
deriving DecidableEq

inductive ConversationItemKind where
  | message
  | reasoning
  | functionCall
  | functionCallOutput
  | customToolCall
  | customToolCallOutput
  | compactionMarker
deriving DecidableEq

inductive ConversationPart where
  | text (text : Text)
  | summary (text : Text)
  | encoded (label value : Text)
  | json (summary rawPayloadId : Text)
  | code (language source : Text)
  | payloadRef (label rawPayloadId : Text)
deriving DecidableEq

abbrev ConversationBody := List ConversationPart

inductive ProducerRef where
  | userInput
  | inference (inferenceCallId : Text)
  | tool (toolCallId : Text)
  | codeCell (codeCellId : Text)
  | interactionEdge (edgeId : Text)
  | compaction (compactionId : Text)
  | harness
deriving DecidableEq

structure NormalizedConversationItem where
  role : ConversationRole
  channel : Option ConversationChannel
  kind : ConversationItemKind
  body : ConversationBody
  callId : Option Text
deriving DecidableEq

structure ConversationItem where
  itemId : Text
  threadId : Text
  codexTurnId : Option Text
  firstSeenAtUnixMs : ℤ
  role : ConversationRole
  channel : Option ConversationChannel
  kind : ConversationItemKind
  body : ConversationBody
  callId : Option Text
  producedBy : List ProducerRef
deriving DecidableEq

/-! ## Bodies -/

def ConversationPart.said : ConversationPart → ConversationPart
  | .json s _ => .json s []
  | part => part

def partMatches : ConversationPart → ConversationPart → Bool
  | .json s _, .json s' _ => s = s'
  | left, right => left = right

def conversationBodyMatches (left right : ConversationBody) : Bool :=
  left.length = right.length && (left.zip right).all fun (l, r) => partMatches l r

def reasoningEncodedPart (body : ConversationBody) : Option (Text × Text) :=
  body.findSome? fun
    | .encoded label value => some (label, value)
    | _ => none

def ConversationPart.isReadable : ConversationPart → Bool
  | .text _ => true
  | .summary _ => true
  | _ => false

def readableReasoningParts (body : ConversationBody) : ConversationBody :=
  body.filter ConversationPart.isReadable

def readableReasoningPartsMatch (left right : ConversationBody) : Bool :=
  let left := readableReasoningParts left
  let right := readableReasoningParts right
  left.isEmpty || right.isEmpty || left = right

/-- The encoded part is what a reasoning item is known by; readable parts must agree where
both sides have some. -/
def reasoningBodyMatches (left right : ConversationBody) : Bool :=
  if conversationBodyMatches left right then true
  else
    match reasoningEncodedPart left, reasoningEncodedPart right with
    | some leftEncoded, some rightEncoded =>
      leftEncoded = rightEncoded && readableReasoningPartsMatch left right
    | _, _ => false

def conversationItemMatches (item : ConversationItem) (normalized : NormalizedConversationItem) :
    Bool :=
  let bodyMatches :=
    if item.kind = .reasoning ∧ normalized.kind = .reasoning then
      reasoningBodyMatches item.body normalized.body
    else conversationBodyMatches item.body normalized.body
  item.role = normalized.role && item.channel = normalized.channel &&
    item.kind = normalized.kind && bodyMatches && item.callId = normalized.callId

def mergeReasoningBody (existing incoming : ConversationBody) : Option ConversationBody :=
  if conversationBodyMatches existing incoming then some existing
  else if ¬ reasoningBodyMatches existing incoming then none
  else if (readableReasoningParts existing).isEmpty ∧ ¬ (readableReasoningParts incoming).isEmpty
    then some incoming
  else some existing

/-! ## Bodies that say the same -/

theorem partMatches_iff {l r : ConversationPart} : partMatches l r ↔ l.said = r.said := by
  cases l <;> cases r <;> simp [partMatches, ConversationPart.said]

theorem conversationBodyMatches_iff {left right : ConversationBody} :
    conversationBodyMatches left right ↔
      left.map ConversationPart.said = right.map ConversationPart.said := by
  induction left generalizing right with
  | nil => cases right <;> simp [conversationBodyMatches]
  | cons l left ih =>
    cases right with
    | nil => simp [conversationBodyMatches]
    | cons r right =>
      have hih := @ih right
      simp [conversationBodyMatches, partMatches_iff, ← hih]
      tauto

theorem reasoningEncodedPart_said (body : ConversationBody) :
    reasoningEncodedPart (body.map ConversationPart.said) = reasoningEncodedPart body := by
  unfold reasoningEncodedPart
  rw [List.findSome?_map]
  congr 1
  funext part
  cases part <;> rfl

theorem readableReasoningParts_said (body : ConversationBody) :
    readableReasoningParts (body.map ConversationPart.said) = readableReasoningParts body := by
  induction body with
  | nil => rfl
  | cons part body ih =>
    unfold readableReasoningParts at ih ⊢
    cases part <;> simp [List.filter_cons, ConversationPart.said, ConversationPart.isReadable, ih]

/-! ## Keys

A payload item matches a stored one if both have the same key and their readable parts
agree.
-/

/-- What an item is known by: its encoded part, where it is a reasoning item with one. -/
structure ItemKey where
  role : ConversationRole
  channel : Option ConversationChannel
  kind : ConversationItemKind
  callId : Option Text
  encoded : Option (Text × Text)
  said : ConversationBody
deriving DecidableEq

namespace NormalizedConversationItem

def encodedPart (n : NormalizedConversationItem) : Option (Text × Text) :=
  if n.kind = .reasoning then reasoningEncodedPart n.body else none

def key (n : NormalizedConversationItem) : ItemKey :=
  ⟨n.role, n.channel, n.kind, n.callId, n.encodedPart,
    if n.encodedPart.isSome then [] else n.body.map ConversationPart.said⟩

def readable (n : NormalizedConversationItem) : ConversationBody :=
  if n.encodedPart.isSome then readableReasoningParts n.body else []

end NormalizedConversationItem

namespace ConversationItem

def normalized (x : ConversationItem) : NormalizedConversationItem :=
  ⟨x.role, x.channel, x.kind, x.body, x.callId⟩

end ConversationItem

def Agree (left right : ConversationBody) : Prop := left = [] ∨ right = [] ∨ left = right

variable {left right : ConversationBody} {x : ConversationItem} {n : NormalizedConversationItem}

theorem Agree.symm (h : Agree left right) : Agree right left := by
  unfold Agree at h ⊢
  tauto

theorem readableReasoningPartsMatch_iff : readableReasoningPartsMatch left right ↔
      Agree (readableReasoningParts left) (readableReasoningParts right) := by
  simp [readableReasoningPartsMatch, Agree, or_assoc]

theorem reasoningBodyMatches_of_encoded {e : Text × Text} (h : reasoningEncodedPart left = some e) :
    reasoningBodyMatches left right ↔ reasoningEncodedPart right = some e ∧
      Agree (readableReasoningParts left) (readableReasoningParts right) := by
  unfold reasoningBodyMatches
  split
  · rename_i hbody
    have hsaid := conversationBodyMatches_iff.mp hbody
    rw [← reasoningEncodedPart_said right, ← readableReasoningParts_said right, ← hsaid,
      reasoningEncodedPart_said, readableReasoningParts_said, h]
    simp [Agree]
  · rw [h]
    cases reasoningEncodedPart right with
    | none => simp
    | some e' =>
      simp only [Bool.and_eq_true, decide_eq_true_eq, readableReasoningPartsMatch_iff,
        Option.some.injEq]
      rw [eq_comm]

theorem reasoningBodyMatches_of_none (h : reasoningEncodedPart left = none) :
    reasoningBodyMatches left right ↔ conversationBodyMatches left right := by
  unfold reasoningBodyMatches
  split
  · simp [*]
  · simp [*]

theorem conversationItemMatches_iff : conversationItemMatches x n ↔
      x.normalized.key = n.key ∧ Agree x.normalized.readable n.readable := by
  unfold conversationItemMatches
  simp only [Bool.and_eq_true, decide_eq_true_eq, NormalizedConversationItem.key,
    NormalizedConversationItem.readable, NormalizedConversationItem.encodedPart,
    ConversationItem.normalized, ItemKey.mk.injEq]
  by_cases hkind : x.kind = n.kind
  · by_cases hn : n.kind = .reasoning
    · simp only [hkind, hn, and_self, if_true]
      cases henc : reasoningEncodedPart x.body with
      | some e =>
        rw [reasoningBodyMatches_of_encoded henc]
        cases henc' : reasoningEncodedPart n.body with
        | none => simp
        | some e' =>
          tauto
      | none =>
        rw [reasoningBodyMatches_of_none henc, conversationBodyMatches_iff]
        cases henc' : reasoningEncodedPart n.body with
        | none =>
          tauto
        | some e' =>
          have hne : x.body.map ConversationPart.said ≠ n.body.map ConversationPart.said := by
            intro hsaid
            rw [← reasoningEncodedPart_said, hsaid, reasoningEncodedPart_said, henc'] at henc
            cases henc
          simp [hne]
    · have hx : x.kind ≠ .reasoning := hkind ▸ hn
      simp only [hx, hn, and_self, if_false, conversationBodyMatches_iff, Option.isSome_none,
        Bool.false_eq_true, Agree, true_or, and_true]
      tauto
  · simp [hkind]

theorem conversationItemMatches_self (x : ConversationItem) :
    conversationItemMatches x x.normalized :=
  conversationItemMatches_iff.mpr ⟨rfl, .inr (.inr rfl)⟩

/-! ## Sightings -/

theorem NormalizedConversationItem.encodedPart_of_key {m : NormalizedConversationItem}
    (h : n.key = m.key) : n.encodedPart = m.encodedPart := congrArg ItemKey.encoded h

theorem reasoningBodyMatches_of_matches (hkind : x.kind = .reasoning)
    (h : conversationItemMatches x n) : reasoningBodyMatches x.body n.body := by
  unfold conversationItemMatches at h
  simp only [Bool.and_eq_true, decide_eq_true_eq] at h
  have hn : n.kind = .reasoning := h.1.1.2 ▸ hkind
  simpa [hkind, hn] using h.1.2

theorem mergeReasoningBody_isSome (hkind : x.kind = .reasoning) (h : conversationItemMatches x n) :
    ∃ body, mergeReasoningBody x.body n.body = some body := by
  unfold mergeReasoningBody
  rw [if_neg (not_not_intro (reasoningBodyMatches_of_matches hkind h))]
  split
  · exact ⟨_, rfl⟩
  · split
    · exact ⟨_, rfl⟩
    · exact ⟨_, rfl⟩

/-- The readable parts of an item and of a sighting of it, put together. -/
def joined (existing incoming : ConversationBody) : ConversationBody :=
  if existing = [] then incoming else existing

theorem mergeReasoningBody_spec {body : ConversationBody} (hkind : x.kind = .reasoning)
    (h : conversationItemMatches x n) (hmerge : mergeReasoningBody x.body n.body = some body) :
    ({ x with body := body } : ConversationItem).normalized.key = x.normalized.key ∧
      ({ x with body := body } : ConversationItem).normalized.readable =
        joined x.normalized.readable n.readable := by
  have hkeys := (conversationItemMatches_iff.mp h).1
  have hn : n.kind = .reasoning := (congrArg ItemKey.kind hkeys).symm.trans hkind
  have henc : reasoningEncodedPart x.body = reasoningEncodedPart n.body := by
    have hpart := NormalizedConversationItem.encodedPart_of_key hkeys
    simpa [NormalizedConversationItem.encodedPart, ConversationItem.normalized, hkind, hn]
      using hpart
  unfold mergeReasoningBody at hmerge
  rw [if_neg (not_not_intro (reasoningBodyMatches_of_matches hkind h))] at hmerge
  simp only [NormalizedConversationItem.key, NormalizedConversationItem.readable,
    NormalizedConversationItem.encodedPart, ConversationItem.normalized, hkind, hn, if_true, henc]
  split at hmerge
  · rename_i hsame
    cases hmerge
    have hsaid := conversationBodyMatches_iff.mp hsame
    have hreadable : readableReasoningParts x.body = readableReasoningParts n.body := by
      rw [← readableReasoningParts_said, hsaid, readableReasoningParts_said]
    simp [henc, hreadable, joined]
  · rename_i hdiff
    cases he : reasoningEncodedPart n.body with
    | none =>
      rw [← henc] at he
      have hmatch := reasoningBodyMatches_of_matches hkind h
      rw [reasoningBodyMatches_of_none he] at hmatch
      exact absurd hmatch hdiff
    | some e =>
      split at hmerge
      · rename_i hempty
        cases hmerge
        have hnil := List.isEmpty_iff.mp hempty.1
        simp [he, hnil, joined]
      · rename_i hempty
        cases hmerge
        by_cases hnil : readableReasoningParts x.body = []
        · have hnil' : readableReasoningParts n.body = [] := by
            simpa [hnil] using hempty
          simp [henc, he, hnil, hnil', joined]
        · simp [henc, he, hnil, joined]

end Codex.RolloutTrace
