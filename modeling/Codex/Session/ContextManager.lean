import Codex.Session.ResponseItem
import Codex.Foundation.Splice

/-!
# The context manager and its prompts

The transcript of a thread: items are recorded, replaced as a whole, or dropped
from a user turn on. What happens to the items depends on the items alone
(the `_items` lemmas), not on the version or the reference context.

Before the items are sent, each call without an output gets one, outputs without a call
are removed, and images are taken out for a model that does not read them. What the
source reports with `error_or_panic` stops a build with debug assertions.
-/

namespace Codex

open Foundation

/-! ## The context manager -/

/-- The context settings recorded for a turn. `settings` is the rest of the record,
which is copied and never looked into here. -/
structure TurnContextItem where
  turnId : Option Text
  model : Text
  realtimeActive : Option Bool
  settings : Text
deriving DecidableEq

structure ContextManager where
  items : List ResponseItem
  historyVersion : Nat
  referenceContextItem : Option TurnContextItem
deriving DecidableEq

/-- What recording and replaying is given: the readers of embedded formats, the
truncation policy of the turn, and the budget scaled up for serialisation. -/
structure ReplayContext where
  formats : EmbeddedFormats
  truncationPolicy : TruncationPolicy
  withSerializationBudget : Nat → Nat

def ReplayContext.outputPolicy (ctx : ReplayContext) : TruncationPolicy :=
  match ctx.truncationPolicy with
  | .bytes bytes => .bytes (ctx.withSerializationBudget bytes)
  | .tokens tokens => .tokens (ctx.withSerializationBudget tokens)

def isApiMessage : ResponseItem → Bool
  | .message _ role _ _ => role != SYSTEM
  | .other => false
  | _ => true

namespace ContextManager

def new : ContextManager := ⟨[], 0, none⟩

def replace (h : ContextManager) (items : List ResponseItem) : ContextManager :=
  { h with items := items, historyVersion := min (h.historyVersion + 1) (2 ^ 64 - 1) }

def processItem (ctx : ReplayContext) : ResponseItem → ResponseItem
  | .functionCallOutput callId output =>
    .functionCallOutput callId (truncateFunctionOutputPayload output ctx.outputPolicy)
  | .customToolCallOutput callId name output =>
    .customToolCallOutput callId name (truncateFunctionOutputPayload output ctx.outputPolicy)
  | item => item

def recordItem (ctx : ReplayContext) (h : ContextManager) (item : ResponseItem) :
    ContextManager :=
  if isApiMessage item then { h with items := h.items ++ [processItem ctx item] } else h

/-! ## Dropping user turns -/

def userMessagePositions (formats : EmbeddedFormats) (items : List ResponseItem) : List Nat :=
  (List.range items.length).filter fun idx =>
    match items[idx]? with
    | some item => isUserTurnBoundary formats item
    | none => false

/-- Walks back from the cut over injected context, at most to the first user turn.
The flag says that a bundle mixed with other developer text was passed. -/
def trimPreTurnContextUpdates (formats : EmbeddedFormats) (snapshot : List ResponseItem)
    (firstInstructionTurnIdx : Nat) : Nat → Nat × Bool
  | 0 => (0, false)
  | cutIdx + 1 =>
    if firstInstructionTurnIdx < cutIdx + 1 then
      match snapshot[cutIdx]? with
      | some (.message _ role content _) =>
        if role = DEVELOPER ∧ isContextualDevMessageContent content then
          let (cut, mixed) := trimPreTurnContextUpdates formats snapshot firstInstructionTurnIdx cutIdx
          (cut, mixed || hasNonContextualDevMessageContent content)
        else if role = USER ∧ isContextualUserMessageContent formats content then
          trimPreTurnContextUpdates formats snapshot firstInstructionTurnIdx cutIdx
        else (cutIdx + 1, false)
      | _ => (cutIdx + 1, false)
    else (cutIdx + 1, false)

def dropLastNUserTurns (formats : EmbeddedFormats) (h : ContextManager) (numTurns : Nat) :
    ContextManager :=
  if numTurns = 0 then h
  else
    let snapshot := h.items
    let userPositions := userMessagePositions formats snapshot
    match userPositions with
    | [] => h.replace snapshot
    | firstInstructionTurnIdx :: _ =>
      let cutIdx :=
        if userPositions.length ≤ numTurns then firstInstructionTurnIdx
        else userPositions[userPositions.length - numTurns]?.getD 0
      let (cut, mixed) := trimPreTurnContextUpdates formats snapshot firstInstructionTurnIdx cutIdx
      let h := if mixed then { h with referenceContextItem := none } else h
      h.replace (snapshot.take cut)

theorem recordItem_items {h h' : ContextManager} (e : h.items = h'.items) (ctx : ReplayContext)
    (item : ResponseItem) : (h.recordItem ctx item).items = (h'.recordItem ctx item).items := by
  unfold recordItem
  split
  · rw [e]
  · exact e

theorem dropLastNUserTurns_items {h h' : ContextManager} (e : h.items = h'.items)
    (formats : EmbeddedFormats) (numTurns : Nat) : (h.dropLastNUserTurns formats numTurns).items =
      (h'.dropLastNUserTurns formats numTurns).items := by
  unfold dropLastNUserTurns
  rw [e]
  by_cases hn : numTurns = 0
  · rw [if_pos hn, if_pos hn]
    exact e
  · rw [if_neg hn, if_neg hn]
    simp only
    cases userMessagePositions formats h'.items with
    | nil | cons first rest => rfl

end ContextManager

/-- The id that pairs a call with its output, in one of three name spaces. A local shell
call is answered by a function call output. -/
inductive PairKey where
  | function (callId : Text)
  | toolSearch (callId : Text)
  | custom (callId : Text)
deriving DecidableEq

def callKey : ResponseItem → Option PairKey
  | .functionCall _ _ _ _ callId => some (.function callId)
  | .localShellCall _ (some callId) _ _ => some (.function callId)
  | .toolSearchCall _ (some callId) _ _ _ => some (.toolSearch callId)
  | .customToolCall _ _ callId _ _ => some (.custom callId)
  | _ => none

def outputKey : ResponseItem → Option PairKey
  | .functionCallOutput callId _ => some (.function callId)
  | .toolSearchOutput (some callId) _ _ _ => some (.toolSearch callId)
  | .customToolCallOutput callId _ _ => some (.custom callId)
  | _ => none

def hasCall (items : List ResponseItem) (key : PairKey) : Bool :=
  items.any fun i => callKey i = some key

def hasOutput (items : List ResponseItem) (key : PairKey) : Bool :=
  items.any fun i => outputKey i = some key

def FunctionCallOutputPayload.fromText (content : Text) : FunctionCallOutputPayload :=
  ⟨.text content, none⟩

def ABORTED : FunctionCallOutputPayload := .fromText "aborted".toList

def CLIENT : Text := "client".toList
def SERVER : Text := "server".toList

def syntheticOutput : PairKey → ResponseItem
  | .function callId => .functionCallOutput callId ABORTED
  | .toolSearch callId => .toolSearchOutput (some callId) "completed".toList CLIENT []
  | .custom callId => .customToolCallOutput callId none ABORTED

def missingOutput (items : List ResponseItem) (item : ResponseItem) : Option ResponseItem :=
  match callKey item with
  | some key => if hasOutput items key then none else some (syntheticOutput key)
  | none => none

/-- A missing output is reported for custom tool calls and local shell calls. -/
def missingReport (items : List ResponseItem) : ResponseItem → Option Text
  | .customToolCall _ _ callId _ _ =>
    if hasOutput items (.custom callId) then none
    else some ("Custom tool call output is missing for call id: ".toList ++ callId)
  | .localShellCall _ (some callId) _ _ =>
    if hasOutput items (.function callId) then none
    else some ("Local shell call output is missing for call id: ".toList ++ callId)
  | _ => none

def ensureCallOutputsPresent (items : List ResponseItem) : List ResponseItem :=
  insertBehind (behind (missingOutput items) items) items

/-- An output whose call is gone. The source collects the ids of the calls of a name space
in one set, those of function calls and local shell calls in two. An output that the server
made, or without an id, needs no call. -/
def isOrphanOutput (items : List ResponseItem) : ResponseItem → Bool
  | .functionCallOutput callId _ => !hasCall items (.function callId)
  | .customToolCallOutput callId _ _ => !hasCall items (.custom callId)
  | .toolSearchOutput (some callId) _ execution _ =>
    execution != SERVER && !hasCall items (.toolSearch callId)
  | _ => false

def orphanReport (items : List ResponseItem) (item : ResponseItem) : Option Text :=
  if isOrphanOutput items item then
    match outputKey item with
    | some (.function callId) =>
      some ("Orphan function call output for call id: ".toList ++ callId)
    | some (.custom callId) =>
      some ("Orphan custom tool call output for call id: ".toList ++ callId)
    | some (.toolSearch callId) =>
      some ("Orphan tool search output for call id: ".toList ++ callId)
    | none => none
  else none

def removeOrphanOutputs (items : List ResponseItem) : List ResponseItem :=
  items.filter fun item => !isOrphanOutput items item

/-! ## Images -/

inductive InputModality where
  | text
  | image
deriving DecidableEq

def IMAGE_CONTENT_OMITTED_PLACEHOLDER : Text :=
  "image content omitted because you do not support image input".toList

def stripContentItem : ContentItem → ContentItem
  | .inputImage _ _ => .inputText IMAGE_CONTENT_OMITTED_PLACEHOLDER
  | item => item

def stripOutputItem : FunctionCallOutputContentItem → FunctionCallOutputContentItem
  | .inputImage _ _ => .inputText IMAGE_CONTENT_OMITTED_PLACEHOLDER
  | item => item

def stripBody : FunctionCallOutputBody → FunctionCallOutputBody
  | .contentItems items => .contentItems (items.map stripOutputItem)
  | .text content => .text content

def stripPayload (output : FunctionCallOutputPayload) : FunctionCallOutputPayload :=
  { output with body := stripBody output.body }

def stripItem : ResponseItem → ResponseItem
  | .message id role content phase => .message id role (content.map stripContentItem) phase
  | .functionCallOutput callId output => .functionCallOutput callId (stripPayload output)
  | .customToolCallOutput callId name output =>
    .customToolCallOutput callId name (stripPayload output)
  | .imageGenerationCall id status revisedPrompt _ =>
    .imageGenerationCall id status revisedPrompt []
  | item => item

def stripImages (inputModalities : List InputModality) (item : ResponseItem) : ResponseItem :=
  if .image ∈ inputModalities then item else stripItem item

def stripImagesWhenUnsupported (inputModalities : List InputModality)
    (items : List ResponseItem) : List ResponseItem :=
  if .image ∈ inputModalities then items else items.map stripItem

/-- A report ends the program in a build with debug assertions. -/
def errorOrPanic (debugAssertions : Bool) (reports : List Text) : Except Text Unit :=
  match debugAssertions, reports with
  | true, message :: _ => .error message
  | _, _ => .ok ()

def normalizeHistory (inputModalities : List InputModality) (items : List ResponseItem) :
    List ResponseItem :=
  stripImagesWhenUnsupported inputModalities (removeOrphanOutputs (ensureCallOutputsPresent items))

def ContextManager.forPrompt (debugAssertions : Bool) (inputModalities : List InputModality)
    (h : ContextManager) : Except Text (List ResponseItem) := do
  errorOrPanic debugAssertions (h.items.filterMap (missingReport h.items))
  let items := ensureCallOutputsPresent h.items
  errorOrPanic debugAssertions (items.filterMap (orphanReport items))
  .ok (normalizeHistory inputModalities h.items)

end Codex
