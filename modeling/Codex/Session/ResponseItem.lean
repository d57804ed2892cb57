import Codex.Foundation.Text
import Mathlib.Algebra.GroupWithZero.Nat

/-!
# Response items and their truncation

The items of a conversation, and the predicates that tell ordinary user messages
from injected context. Values no function here looks into (JSON values, shell and
web-search actions, reasoning entries) are kept as their serialised text.

The middle of a text that is over its budget is replaced by a marker. Budgets and
lengths are in bytes of UTF-8, or in tokens of four bytes; they are added below the
word size, so sums do not saturate.
-/

namespace Codex

open Foundation

/-! ## Response items and what they mean for turns -/

inductive ImageDetail where
  | auto
  | low
  | high
  | original
deriving DecidableEq

inductive ContentItem where
  | inputText (text : Text)
  | inputImage (imageUrl : Text) (detail : Option ImageDetail)
  | outputText (text : Text)
deriving DecidableEq

inductive FunctionCallOutputContentItem where
  | inputText (text : Text)
  | inputImage (imageUrl : Text) (detail : Option ImageDetail)
deriving DecidableEq

inductive FunctionCallOutputBody where
  | text (content : Text)
  | contentItems (items : List FunctionCallOutputContentItem)
deriving DecidableEq

structure FunctionCallOutputPayload where
  body : FunctionCallOutputBody
  success : Option Bool
deriving DecidableEq

inductive MessagePhase where
  | commentary
  | finalAnswer
deriving DecidableEq

inductive ResponseItem where
  | message (id : Option Text) (role : Text) (content : List ContentItem)
      (phase : Option MessagePhase)
  | reasoning (id : Text) (summary content : Text) (encryptedContent : Option Text)
  | localShellCall (id callId : Option Text) (status action : Text)
  | functionCall (id : Option Text) (name : Text) (namespace_ : Option Text)
      (arguments callId : Text)
  | toolSearchCall (id callId status : Option Text) (execution arguments : Text)
  | functionCallOutput (callId : Text) (output : FunctionCallOutputPayload)
  | customToolCall (id status : Option Text) (callId name input : Text)
  | customToolCallOutput (callId : Text) (name : Option Text) (output : FunctionCallOutputPayload)
  | toolSearchOutput (callId : Option Text) (status execution : Text) (tools : List Text)
  | webSearchCall (id status action : Option Text)
  | imageGenerationCall (id status : Text) (revisedPrompt : Option Text) (result : Text)
  | compaction (encryptedContent : Text)
  | other
deriving DecidableEq

/-! ## Contextual fragments -/

/-- The readers of embedded formats that are libraries of their own: whether a text
is a hook-prompt fragment (XML), or an inter-agent message (JSON). -/
structure EmbeddedFormats where
  isHookPromptFragment : Text → Bool
  isInterAgentCommunication : Text → Bool

def startsWithIgnoreAsciiCase (marker text : Text) : Bool :=
  eqIgnoreAsciiCase (text.take marker.length) marker

def endsWithIgnoreAsciiCase (marker text : Text) : Bool :=
  eqIgnoreAsciiCase (text.drop (text.length - marker.length)) marker

structure FragmentMarkers where
  startMarker : Text
  endMarker : Text

def FragmentMarkers.matchesText (m : FragmentMarkers) (text : Text) : Bool :=
  if m.startMarker = [] ∨ m.endMarker = [] then false
  else
    let trimmed := trimStart text
    startsWithIgnoreAsciiCase m.startMarker trimmed &&
      endsWithIgnoreAsciiCase m.endMarker (trimEnd trimmed)

def CONTEXTUAL_USER_FRAGMENTS : List FragmentMarkers :=
  [⟨"# AGENTS.md instructions for ".toList, "</INSTRUCTIONS>".toList⟩,
    ⟨"<environment_context>".toList, "</environment_context>".toList⟩,
    ⟨"<skill>".toList, "</skill>".toList⟩,
    ⟨"<user_shell_command>".toList, "</user_shell_command>".toList⟩,
    ⟨"<turn_aborted>".toList, "</turn_aborted>".toList⟩,
    ⟨"<subagent_notification>".toList, "</subagent_notification>".toList⟩]

def isStandardContextualUserText (text : Text) : Bool :=
  CONTEXTUAL_USER_FRAGMENTS.any (·.matchesText text)

def CONTEXTUAL_DEVELOPER_PREFIXES : List Text :=
  ["<permissions instructions>".toList, "<model_switch>".toList, "<collaboration_mode>".toList,
    "<realtime_conversation>".toList, "<personality_spec>".toList]

def isContextualDevFragment : ContentItem → Bool
  | .inputText text => CONTEXTUAL_DEVELOPER_PREFIXES.any fun p =>
      startsWithIgnoreAsciiCase p (trimStart text)
  | _ => false

def isContextualDevMessageContent (message : List ContentItem) : Bool :=
  message.any isContextualDevFragment

def hasNonContextualDevMessageContent (message : List ContentItem) : Bool :=
  message.any fun item => !isContextualDevFragment item

section
variable (formats : EmbeddedFormats)

def isContextualUserFragment : ContentItem → Bool
  | .inputText text => formats.isHookPromptFragment text || isStandardContextualUserText text
  | _ => false

def isContextualUserMessageContent (message : List ContentItem) : Bool :=
  message.any (isContextualUserFragment formats)

def isInterAgentInstructionContent : List ContentItem → Bool
  | [.inputText text] => formats.isInterAgentCommunication text
  | [.outputText text] => formats.isInterAgentCommunication text
  | _ => false

def USER : Text := "user".toList
def ASSISTANT : Text := "assistant".toList
def DEVELOPER : Text := "developer".toList
def SYSTEM : Text := "system".toList

def isUserTurnBoundary : ResponseItem → Bool
  | .message _ role content _ =>
    (role == USER && !isContextualUserMessageContent formats content) ||
      (role == ASSISTANT && isInterAgentInstructionContent formats content)
  | _ => false

/-! ## Turn items -/

inductive UserInput where
  | text (text : Text)
  | image (imageUrl : Text)
deriving DecidableEq

/-- The turn item a response item is shown as; only user messages are looked into. -/
inductive TurnItem where
  | hookPrompt
  | userMessage (content : List UserInput)
  | other
deriving DecidableEq

def IMAGE_OPEN_TAG : Text := "<image>".toList
def IMAGE_CLOSE_TAG : Text := "</image>".toList
def LOCAL_IMAGE_OPEN_TAG_PREFIX : Text := "<image name=".toList
def LOCAL_IMAGE_OPEN_TAG_SUFFIX : Text := ">".toList

def isLocalImageOpenTagText (text : Text) : Bool :=
  match stripPrefix LOCAL_IMAGE_OPEN_TAG_PREFIX text with
  | some rest => LOCAL_IMAGE_OPEN_TAG_SUFFIX.isSuffixOf rest
  | none => false

def isImageOpenTagText (text : Text) : Bool := text == IMAGE_OPEN_TAG

def isImageCloseTagText (text : Text) : Bool := text == IMAGE_CLOSE_TAG

def isImage : Option ContentItem → Bool
  | some (.inputImage _ _) => true
  | _ => false

/-- One content item as user input; tag texts around an image are left out. -/
def userInputAt (message : List ContentItem) (idx : Nat) : Option UserInput :=
  match message[idx]? with
  | some (.inputText text) =>
    if (isLocalImageOpenTagText text || isImageOpenTagText text) && isImage message[idx + 1]? ||
        (0 < idx && isImageCloseTagText text && isImage message[idx - 1]?) then none
    else some (.text text)
  | some (.inputImage imageUrl _) => some (.image imageUrl)
  | _ => none

def parseUserMessage (message : List ContentItem) : Option (List UserInput) :=
  if isContextualUserMessageContent formats message then none
  else some ((List.range message.length).filterMap (userInputAt message))

/-- Whether all fragments are contextual and at least one is a hook prompt. -/
def parseVisibleHookPromptMessage (content : List ContentItem) : Bool :=
  content.all (isContextualUserFragment formats) && content.any fun
    | .inputText text => formats.isHookPromptFragment text
    | _ => false

def parseTurnItem : ResponseItem → Option TurnItem
  | .message _ role content _ =>
    if role = USER then
      if parseVisibleHookPromptMessage formats content then some .hookPrompt
      else (parseUserMessage formats content).map .userMessage
    else if role = ASSISTANT then some .other
    else none
  | .reasoning .. => some .other
  | .webSearchCall .. => some .other
  | .imageGenerationCall .. => some .other
  | _ => none

def userMessageText (content : List UserInput) : Text :=
  content.flatMap fun
    | .text text => text
    | .image _ => []

end

/-! ## Truncation of long texts -/

def APPROX_BYTES_PER_TOKEN : Nat := 4

inductive TruncationPolicy where
  | bytes (limit : Nat)
  | tokens (limit : Nat)
deriving DecidableEq

def byteLen (text : Text) : Nat := (text.map Char.utf8Size).sum

def approxTokenCount (text : Text) : Nat :=
  (byteLen text + (APPROX_BYTES_PER_TOKEN - 1)) / APPROX_BYTES_PER_TOKEN

def approxBytesForTokens (tokens : Nat) : Nat := tokens * APPROX_BYTES_PER_TOKEN

def approxTokensFromByteCount (bytes : Nat) : Nat :=
  (bytes + (APPROX_BYTES_PER_TOKEN - 1)) / APPROX_BYTES_PER_TOKEN

def splitBudget (budget : Nat) : Nat × Nat := (budget / 2, budget - budget / 2)

/-- The loop of `split_string` at byte `idx`: the characters that end within the
first `beginning` bytes, the number removed, and the characters from
`tailStart` on. -/
def splitLoop (beginning tailStart : Nat) : Nat → Text → Text × Nat × Text
  | _, [] => ([], 0, [])
  | idx, ch :: rest =>
    let (left, removed, right) := splitLoop beginning tailStart (idx + ch.utf8Size) rest
    if idx + ch.utf8Size ≤ beginning then (ch :: left, removed, right)
    else if tailStart ≤ idx then (left, removed, ch :: right)
    else (left, removed + 1, right)

def splitString (s : Text) (beginningBytes endBytes : Nat) : Nat × Text × Text :=
  let (left, removed, right) := splitLoop beginningBytes (byteLen s - endBytes) 0 s
  (removed, left, right)

def formatTruncationMarker (useTokens : Bool) (removedCount : Nat) : Text :=
  '…' :: ((Nat.repr removedCount).toList ++
    (if useTokens then " tokens truncated…".toList else " chars truncated…".toList))

def removedUnits (useTokens : Bool) (removedBytes removedChars : Nat) : Nat :=
  if useTokens then approxTokensFromByteCount removedBytes else removedChars

def truncateWithByteEstimate (s : Text) (maxBytes : Nat) (useTokens : Bool) : Text :=
  if s = [] then []
  else if maxBytes = 0 then
    formatTruncationMarker useTokens (removedUnits useTokens (byteLen s) s.length)
  else if byteLen s ≤ maxBytes then s
  else
    let (leftBudget, rightBudget) := splitBudget maxBytes
    let (removedChars, left, right) := splitString s leftBudget rightBudget
    let marker := formatTruncationMarker useTokens
      (removedUnits useTokens (byteLen s - maxBytes) removedChars)
    left ++ marker ++ right

def truncateMiddleChars (s : Text) (maxBytes : Nat) : Text :=
  truncateWithByteEstimate s maxBytes false

/-- The text within the budget, and the original token count if it was cut. -/
def truncateMiddleWithTokenBudget (s : Text) (maxTokens : Nat) : Text × Option Nat :=
  if s = [] then ([], none)
  else if 0 < maxTokens ∧ byteLen s ≤ approxBytesForTokens maxTokens then (s, none)
  else
    let truncated := truncateWithByteEstimate s (approxBytesForTokens maxTokens) true
    if truncated = s then (truncated, none) else (truncated, some (approxTokenCount s))

def truncateText (content : Text) : TruncationPolicy → Text
  | .bytes bytes => truncateMiddleChars content bytes
  | .tokens tokens => (truncateMiddleWithTokenBudget content tokens).1

/-! ## Tool output -/

def itemCost (policy : TruncationPolicy) (text : Text) : Nat :=
  match policy with
  | .bytes _ => byteLen text
  | .tokens _ => approxTokenCount text

def snippetPolicy (policy : TruncationPolicy) (remaining : Nat) : TruncationPolicy :=
  match policy with
  | .bytes _ => .bytes remaining
  | .tokens _ => .tokens remaining

/-- The loop over the items with the remaining budget: the items kept and the number
of text items omitted. -/
def truncateItemsLoop (policy : TruncationPolicy) :
    Nat → List FunctionCallOutputContentItem → List FunctionCallOutputContentItem × Nat
  | _, [] => ([], 0)
  | remaining, .inputImage imageUrl detail :: items =>
    let (out, omitted) := truncateItemsLoop policy remaining items
    (.inputImage imageUrl detail :: out, omitted)
  | remaining, .inputText text :: items =>
    if remaining = 0 then
      let (out, omitted) := truncateItemsLoop policy 0 items
      (out, omitted + 1)
    else if itemCost policy text ≤ remaining then
      let (out, omitted) := truncateItemsLoop policy (remaining - itemCost policy text) items
      (.inputText text :: out, omitted)
    else
      let snippet := truncateText text (snippetPolicy policy remaining)
      let (out, omitted) := truncateItemsLoop policy 0 items
      if snippet = [] then (out, omitted + 1) else (.inputText snippet :: out, omitted)

def truncateFunctionOutputItemsWithPolicy (items : List FunctionCallOutputContentItem)
    (policy : TruncationPolicy) : List FunctionCallOutputContentItem :=
  let budget := match policy with
    | .bytes bytes => bytes
    | .tokens tokens => tokens
  let (out, omitted) := truncateItemsLoop policy budget items
  if 0 < omitted then
    out ++ [.inputText ("[omitted ".toList ++ (Nat.repr omitted).toList ++
      " text items ...]".toList)]
  else out

def truncateFunctionOutputPayload (output : FunctionCallOutputPayload)
    (policy : TruncationPolicy) : FunctionCallOutputPayload :=
  { output with
    body := match output.body with
      | .text content => .text (truncateText content policy)
      | .contentItems items => .contentItems (truncateFunctionOutputItemsWithPolicy items policy) }

end Codex
