import Codex.Foundation.Json
import Codex.Foundation.Utf8
import Codex.RolloutTrace.Items

/-!
# Items of a payload

The items of a request or response payload, as the fields of conversation items. Parts
that stand for something the payload holds bear the payload's id: an item seen again in
another payload has the same parts with the other id.
-/

namespace Codex.RolloutTrace

open Foundation

inductive Failure where
  | bail (message : Text)
  | panic (message : Text)

abbrev Reduced (α : Type) := Except Failure α

def bail {α : Type} (message : Text) : Reduced α := .error (.bail message)

/-- The JSON text library. -/
structure JsonText where
  fromStr : Text → Option Json
  toString : Json → Option Text

def strField (item : Json) (key : String) : Option Text := (item.get key.toList).bind Json.asStr

def payloadRefPart (label : Text) (rawPayloadId : Text) : ConversationPart :=
  .payloadRef label rawPayloadId

def maxJsonSummaryLen : ℕ := 240

def truncateBytes : ℕ → Text → Option Text
  | 0, _ => some []
  | _ + 1, [] => some []
  | n + 1, c :: s =>
    if c.utf8Size ≤ n + 1 then (truncateBytes (n + 1 - c.utf8Size) s).map (c :: ·) else none
termination_by _ s => s.length

variable (jsonText : JsonText)

def summarizeJson (value : Json) : Reduced Text :=
  let summary := (jsonText.toString value).getD "<unserializable json>".toList
  if maxJsonSummaryLen < (utf8 summary).length then
    match truncateBytes maxJsonSummaryLen summary with
    | some start => .ok (start ++ "...".toList)
    | none => .error (.panic "assertion failed: self.is_char_boundary(new_len)".toList)
  else .ok summary

def jsonBody (value : Json) (rawPayloadId : Text) : Reduced ConversationBody := do
  let summary ← summarizeJson jsonText value
  return [.json summary rawPayloadId]

def rawTextOrJsonBody (value : Option Json) (rawPayloadId : Text) : Reduced ConversationBody :=
  match value with
  | some (.string text) =>
    match jsonText.fromStr text with
    | some json => jsonBody jsonText json rawPayloadId
    | none => .ok [.text text]
  | some value => jsonBody jsonText value rawPayloadId
  | none => .ok [payloadRefPart "payload".toList rawPayloadId]

def contentPart (part : Json) (rawPayloadId : Text) : List ConversationPart :=
  match strField part "type" with
  | some type =>
    if type = "input_text".toList ∨ type = "output_text".toList ∨ type = "text".toList then
      (strField part "text").toList.map .text
    else [payloadRefPart type rawPayloadId]
  | none => [payloadRefPart "content".toList rawPayloadId]

def contentParts (content : Option Json) (rawPayloadId : Text) : List ConversationPart :=
  match content.bind Json.asArray with
  | none => [payloadRefPart "content".toList rawPayloadId]
  | some content =>
    let parts := content.flatMap fun part => contentPart part rawPayloadId
    if parts.isEmpty then [payloadRefPart "empty_content".toList rawPayloadId] else parts

def toolOutputBody (output : Option Json) (rawPayloadId : Text) : Reduced ConversationBody :=
  match output with
  | some (.string text) => .ok [.text text]
  | some (.array _) => .ok (contentParts output rawPayloadId)
  | some value => jsonBody jsonText value rawPayloadId
  | none => .ok [payloadRefPart "tool_output".toList rawPayloadId]

def customToolCallBody (item : Json) (rawPayloadId : Text) : Reduced ConversationBody :=
  match strField item "input" with
  | none => jsonBody jsonText item rawPayloadId
  | some input =>
    if strField item "name" = some "exec".toList then .ok [.code "javascript".toList input]
    else .ok [.text input]

def compactionBody (item : Json) (rawPayloadId : Text) : Reduced ConversationBody :=
  match strField item "encrypted_content" with
  | some encryptedContent => .ok [.encoded "encrypted_content".toList encryptedContent]
  | none => bail ("compaction item in payload ".toList ++ rawPayloadId ++
      " did not contain string encrypted_content".toList)

/-! ## Messages and reasoning -/

def roleFromStr (role : Text) : Option ConversationRole :=
  if role = "system".toList then some .system
  else if role = "developer".toList then some .developer
  else if role = "user".toList then some .user
  else if role = "assistant".toList then some .assistant
  else if role = "tool".toList then some .tool
  else none

def channelFromPhase (phase : Text) : Option ConversationChannel :=
  if phase = "commentary".toList then some .commentary
  else if phase = "final_answer".toList then some .final
  else if phase = "summary".toList then some .summary
  else none

def normalizeMessageItem (item : Json) (rawPayloadId : Text) :
    Reduced NormalizedConversationItem :=
  match strField item "role" with
  | none => bail ("message item in payload ".toList ++ rawPayloadId ++
      " did not contain a string role".toList)
  | some role =>
    match roleFromStr role with
    | none => bail ("unsupported message role ".toList ++ role ++ " in payload ".toList ++
        rawPayloadId)
    | some role => .ok
        { role := role
          channel := (strField item "phase").bind channelFromPhase
          kind := .message
          body := contentParts (item.get "content".toList) rawPayloadId
          callId := none }

inductive ReasoningPartKind where
  | content
  | summary
deriving DecidableEq

def ReasoningPartKind.key : ReasoningPartKind → Text
  | .content => "content".toList
  | .summary => "summary".toList

def ReasoningPartKind.allows (kind : ReasoningPartKind) (type : Text) : Bool :=
  match kind with
  | .content => type = "reasoning_text".toList || type = "text".toList
  | .summary => type = "summary_text".toList

def ReasoningPartKind.part : ReasoningPartKind → Text → ConversationPart
  | .content, text => .text text
  | .summary, text => .summary text

def reasoningPart (kind : ReasoningPartKind) (rawPayloadId : Text) (contentItem : Json) :
    Reduced ConversationPart :=
  let reasoning := "reasoning item in payload ".toList ++ rawPayloadId ++ " had ".toList
  match strField contentItem "type" with
  | none => bail (reasoning ++ kind.key ++ " entry without string type".toList)
  | some type =>
    if ¬ kind.allows type then
      bail (reasoning ++ "unsupported ".toList ++ kind.key ++ " type ".toList ++ type)
    else
      match strField contentItem "text" with
      | none => bail (reasoning ++ kind.key ++ " entry without string text".toList)
      | some text => .ok (kind.part text)

def reasoningParts (item : Json) (kind : ReasoningPartKind) (rawPayloadId : Text) :
    Reduced (List ConversationPart) :=
  match item.get kind.key with
  | none => .ok []
  | some .null =>
    if kind = .content then .ok []
    else bail ("reasoning item in payload ".toList ++ rawPayloadId ++ " had non-array ".toList ++
        kind.key)
  | some (.array items) => items.mapM (reasoningPart kind rawPayloadId)
  | some _ => bail ("reasoning item in payload ".toList ++ rawPayloadId ++
      " had non-array ".toList ++ kind.key)

def encryptedParts (item : Json) (rawPayloadId : Text) : Reduced (List ConversationPart) :=
  match item.get "encrypted_content".toList with
  | none => .ok []
  | some .null => .ok []
  | some (.string encryptedContent) =>
    .ok [.encoded "encrypted_content".toList encryptedContent]
  | some _ => bail ("reasoning item in payload ".toList ++ rawPayloadId ++
      " had non-string encrypted_content".toList)

def normalizeReasoningItem (item : Json) (rawPayloadId : Text) :
    Reduced NormalizedConversationItem := do
  let content ← reasoningParts item .content rawPayloadId
  let summary ← reasoningParts item .summary rawPayloadId
  let encrypted ← encryptedParts item rawPayloadId
  let parts := content ++ summary ++ encrypted
  if parts.isEmpty then
    bail ("reasoning item in payload ".toList ++ rawPayloadId ++
      " contained no content, summary, or encrypted_content".toList)
  else
    return ⟨.assistant, some .analysis, .reasoning, parts, none⟩

/-- A call is the assistant's, an output the tool's; both go over the commentary channel. -/
def toolItem (role : ConversationRole) (kind : ConversationItemKind) (item : Json)
    (body : Reduced ConversationBody) : Reduced NormalizedConversationItem := do
  let parts ← body
  return ⟨role, some .commentary, kind, parts, strField item "call_id"⟩

def normalizeModelItem (item : Json) (rawPayloadId : Text) : Reduced NormalizedConversationItem :=
  match strField item "type" with
  | none => bail ("model item in payload ".toList ++ rawPayloadId ++
      " did not contain a string type".toList)
  | some type =>
    if type = "message".toList then normalizeMessageItem item rawPayloadId
    else if type = "reasoning".toList then normalizeReasoningItem item rawPayloadId
    else if type = "function_call".toList then
      toolItem .assistant .functionCall item
        (rawTextOrJsonBody jsonText (item.get "arguments".toList) rawPayloadId)
    else if type = "function_call_output".toList then
      toolItem .tool .functionCallOutput item
        (toolOutputBody jsonText (item.get "output".toList) rawPayloadId)
    else if type = "custom_tool_call".toList then
      toolItem .assistant .customToolCall item (customToolCallBody jsonText item rawPayloadId)
    else if type = "custom_tool_call_output".toList then
      toolItem .tool .customToolCallOutput item
        (toolOutputBody jsonText (item.get "output".toList) rawPayloadId)
    else if type = "tool_search_call".toList ∨ type = "web_search_call".toList ∨
        type = "image_generation_call".toList ∨ type = "local_shell_call".toList then
      toolItem .assistant .functionCall item (jsonBody jsonText item rawPayloadId)
    else if type = "tool_search_output".toList ∨ type = "mcp_tool_call_output".toList then
      toolItem .tool .functionCallOutput item (jsonBody jsonText item rawPayloadId)
    else if type = "compaction".toList ∨ type = "compaction_summary".toList then do
      let parts ← compactionBody item rawPayloadId
      return ⟨.assistant, some .summary, .message, parts, none⟩
    else bail ("unsupported model item type ".toList ++ type ++ " in payload ".toList ++
      rawPayloadId)

def normalizeModelItems (items : List Json) (rawPayloadId : Text) :
    Reduced (List NormalizedConversationItem) :=
  items.mapM fun item => normalizeModelItem jsonText item rawPayloadId

end Codex.RolloutTrace
