import Codex.Foundation.Decimal
import Codex.Foundation.Entries
import Codex.RolloutTrace.Normalize

/-!
# Reconciling payload items with the conversation

A request or response payload is reduced to item ids. An item already in the compared
snapshot keeps its id, others are created. What else a sighting does (tool calls, code
cells, agent edges) is `Linking`: it may change the rest of the graph, and of an item only
its producers.
-/

namespace Codex.RolloutTrace

open Foundation

inductive ExecutionStatus where
  | running
  | completed
  | failed
  | cancelled
  | aborted
deriving DecidableEq

structure InferenceCall where
  threadId : Text
  codexTurnId : Text
  status : ExecutionStatus
  upstreamRequestId : Option Text
  requestItemIds : List Text
  responseItemIds : List Text
deriving DecidableEq

/-- `threads` are the conversation item ids of each thread, `codexTurns` the thread of each
turn, `compactions` the ids of those installed, `graph` is the rest. -/
structure Reducer (G : Type) where
  conversationItems : Entries ConversationItem
  nextConversationItemOrdinal : ℕ
  threadConversationSnapshots : Entries (List Text)
  pendingCompactionReplacementItemIds : Entries (List Text)
  threads : Entries (List Text)
  codexTurns : Entries Text
  inferenceCalls : Entries InferenceCall
  compactions : List Text
  graph : G

structure RawPayload where
  rawPayloadId : Text
  json : Reduced Json

/-- The links from a sighting to the rest of the graph: the graph after it, and producers
for some items. `flush` starts the code cells whose source item has come. -/
structure Linking (G : Type) where
  attach : Reducer G → Text → Option Text → ConversationItemKind →
    Reduced (G × List (Text × ProducerRef))
  flush : Reducer G → Reduced (G × List (Text × ProducerRef))

/-- Where no tool, code cell or agent event came, a sighting has nothing to link to. -/
def Linking.none {G : Type} : Linking G := ⟨fun r _ _ _ => .ok (r.graph, []), fun r => .ok (r.graph, [])⟩

inductive ReconcileMode where
  | fullSnapshot
  | appendOnly
deriving DecidableEq

structure ReconcileItems where
  threadId : Text
  codexTurnId : Text
  wallTimeUnixMs : ℤ
  producedBy : List ProducerRef
  startIndex : ℕ
  mode : ReconcileMode
  snapshotOverride : Option (List Text)

structure DetachedReconcileItems where
  threadId : Text
  codexTurnId : Text
  wallTimeUnixMs : ℤ
  producedBy : List ProducerRef
  candidates : List Text

def pushProducers (producedBy : List ProducerRef) (item : ConversationItem) : ConversationItem :=
  { item with
    producedBy := producedBy.foldl (fun l p => if p ∈ l then l else l ++ [p]) item.producedBy }

def conversationItemId (ordinal : ℕ) : Text := "conversation_item:".toList ++ decimal ordinal

namespace Reducer
variable {G : Type}

def itemMatches (r : Reducer G) (itemId : Text) (n : NormalizedConversationItem) : Bool :=
  (getEntry itemId r.conversationItems).any fun item => conversationItemMatches item n

def findMatchingSnapshotItem (r : Reducer G) (previousSnapshot usedItemIds : List Text)
    (n : NormalizedConversationItem) : Option Text :=
  previousSnapshot.find? fun itemId => itemId ∉ usedItemIds && r.itemMatches itemId n

def ensureCallIdConsistency (r : Reducer G) (threadId : Text) (n : NormalizedConversationItem) :
    Reduced Unit :=
  match n.callId with
  | none => .ok ()
  | some callId =>
    if r.conversationItems.any fun e => e.2.threadId = threadId && e.2.callId = some callId &&
        e.2.kind = n.kind && !conversationItemMatches e.2 n then
      bail ("model-visible call id ".toList ++ callId ++
        " was reused with different content".toList)
    else .ok ()

def ensureReasoningConsistency (r : Reducer G) (threadId : Text)
    (n : NormalizedConversationItem) : Reduced Unit :=
  if n.kind ≠ .reasoning then .ok ()
  else
    match reasoningEncodedPart n.body with
    | none => .ok ()
    | some encoded =>
      if r.conversationItems.any fun e => e.2.threadId = threadId && e.2.kind = .reasoning &&
          e.2.channel = n.channel && reasoningEncodedPart e.2.body = some encoded &&
          !reasoningBodyMatches e.2.body n.body then
        bail "reasoning encrypted_content was reused with different readable content".toList
      else .ok ()

/-! ## Items -/

def putItem (r : Reducer G) (itemId : Text) (item : ConversationItem) : Reducer G :=
  { r with conversationItems := setEntry itemId item r.conversationItems }

def createConversationItem (r : Reducer G) (threadId : Text) (codexTurnId : Option Text)
    (firstSeenAtUnixMs : ℤ) (n : NormalizedConversationItem) (producedBy : List ProducerRef) :
    Reducer G × Text :=
  let itemId := conversationItemId r.nextConversationItemOrdinal
  let item : ConversationItem :=
    ⟨itemId, threadId, codexTurnId, firstSeenAtUnixMs, n.role, n.channel, n.kind, n.body, n.callId,
      producedBy⟩
  ({ r.putItem itemId item with
      nextConversationItemOrdinal := r.nextConversationItemOrdinal + 1 }, itemId)

def updateConversationItemFromSighting (r : Reducer G) (itemId : Text)
    (n : NormalizedConversationItem) (producedBy : List ProducerRef) : Reduced (Reducer G) :=
  match getEntry itemId r.conversationItems with
  | none => bail ("conversation item ".toList ++ itemId ++
      " was referenced before it was created".toList)
  | some item =>
    if item.kind = .reasoning then
      match mergeReasoningBody item.body n.body with
      | some body => .ok (r.putItem itemId (pushProducers producedBy { item with body := body }))
      | none =>
        bail "reasoning encrypted_content was reused with different readable content".toList
    else .ok (r.putItem itemId (pushProducers producedBy item))

def addProducer (r : Reducer G) (link : Text × ProducerRef) : Reducer G :=
  match getEntry link.1 r.conversationItems with
  | some item => r.putItem link.1 (pushProducers [link.2] item)
  | none => r

def linked (r : Reducer G) (links : G × List (Text × ProducerRef)) : Reducer G :=
  links.2.foldl addProducer { r with graph := links.1 }

def threadItemIds (r : Reducer G) (threadId : Text) : Reduced (List Text) :=
  match getEntry threadId r.threads with
  | some ids => .ok ids
  | none => bail ("trace event referenced unknown thread ".toList ++ threadId)

def appendThreadConversationItems (r : Reducer G) (threadId : Text) (itemIds : List Text) :
    Reduced (Reducer G) := do
  let ids ← r.threadItemIds threadId
  let ids := itemIds.foldl (fun l i => if i ∈ l then l else l ++ [i]) ids
  return { r with threads := setEntry threadId ids r.threads }

/-! ## Reconciliation -/

variable (linking : Linking G)

def sight (r : Reducer G) (itemId : Text) (n : NormalizedConversationItem)
    (producedBy : List ProducerRef) : Reduced (Reducer G) := do
  let r ← r.updateConversationItemFromSighting itemId n producedBy
  let links ← linking.attach r itemId n.callId n.kind
  return r.linked links

def createFor (r : Reducer G) (threadId codexTurnId : Text) (wallTimeUnixMs : ℤ)
    (producedBy : List ProducerRef) (n : NormalizedConversationItem) : Reducer G × Text :=
  r.createConversationItem threadId (some codexTurnId) wallTimeUnixMs n producedBy

def findOrCreate (r : Reducer G) (context : ReconcileItems)
    (previousSnapshot itemIds : List Text) (n : NormalizedConversationItem) : Reducer G × Text :=
  match r.findMatchingSnapshotItem previousSnapshot itemIds n with
  | some itemId => (r, itemId)
  | none => r.createFor context.threadId context.codexTurnId context.wallTimeUnixMs
      context.producedBy n

/-- The id of the item at `index`. -/
def identify (r : Reducer G) (context : ReconcileItems) (previousSnapshot itemIds : List Text)
    (n : NormalizedConversationItem) : Reduced (Reducer G × Text) :=
  let index := context.startIndex + itemIds.length
  match previousSnapshot[index]? with
  | some previousItemId =>
    if r.itemMatches previousItemId n then .ok (r, previousItemId)
    else if context.mode = .fullSnapshot then
      .ok (r.findOrCreate context previousSnapshot itemIds n)
    else
      bail ("model conversation mismatch while reducing turn ".toList ++ context.codexTurnId ++
        " for thread ".toList ++ context.threadId ++ " at item index ".toList ++ decimal index ++
        ": existing item ".toList ++ previousItemId ++
        " does not match the current model payload item".toList)
  | none =>
    if context.mode = .fullSnapshot then
      .ok (r.findOrCreate context previousSnapshot itemIds n)
    else .ok (r.createFor context.threadId context.codexTurnId context.wallTimeUnixMs
      context.producedBy n)

def reconcileItem (context : ReconcileItems) (previousSnapshot : List Text)
    (state : Reducer G × List Text) (n : NormalizedConversationItem) :
    Reduced (Reducer G × List Text) := do
  let (r, itemIds) := state
  r.ensureCallIdConsistency context.threadId n
  r.ensureReasoningConsistency context.threadId n
  let (r, itemId) ← r.identify context previousSnapshot itemIds n
  let r ← r.sight linking itemId n context.producedBy
  return (r, itemIds ++ [itemId])

def snapshotOf (r : Reducer G) (threadId : Text) : List Text :=
  (getEntry threadId r.threadConversationSnapshots).getD []

def reconcileConversationItems (r : Reducer G) (items : List NormalizedConversationItem)
    (context : ReconcileItems) : Reduced (Reducer G × List Text) := do
  let previousSnapshot := context.snapshotOverride.getD (r.snapshotOf context.threadId)
  let (r, itemIds) ← items.foldlM (reconcileItem linking context previousSnapshot) (r, [])
  let links ← linking.flush r
  return (r.linked links, itemIds)

def reconcileDetachedItem (context : DetachedReconcileItems) (state : Reducer G × List Text)
    (n : NormalizedConversationItem) : Reduced (Reducer G × List Text) := do
  let (r, itemIds) := state
  r.ensureCallIdConsistency context.threadId n
  r.ensureReasoningConsistency context.threadId n
  let (r, itemId) :=
    match r.findMatchingSnapshotItem context.candidates itemIds n with
    | some itemId => (r, itemId)
    | none => r.createFor context.threadId context.codexTurnId context.wallTimeUnixMs
        context.producedBy n
  let r ← r.sight linking itemId n context.producedBy
  return (r, itemIds ++ [itemId])

def reconcileDetachedConversationItems (r : Reducer G) (items : List NormalizedConversationItem)
    (context : DetachedReconcileItems) : Reduced (Reducer G × List Text) := do
  let (r, itemIds) ← items.foldlM (reconcileDetachedItem linking context) (r, [])
  let links ← linking.flush r
  return (r.linked links, itemIds)

end Reducer

end Codex.RolloutTrace
