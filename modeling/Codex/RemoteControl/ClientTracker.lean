import Codex.Foundation.Run
import Codex.Foundation.Table
import Codex.Foundation.Text

/-!
# The clients of the remote control transport

A client and a stream name a connection. The tracker opens it on `initialize`, forwards
its messages, and closes it; an outbound task serves each connection and reports only its
client and stream when it ends. The tracker is behind a lock: one envelope, one collected
task or one sweep is one step.
-/

namespace Codex.RemoteControl

open Foundation

structure ClientId where
  text : Text
deriving DecidableEq

structure StreamId where
  text : Text
deriving DecidableEq

abbrev ClientKey := ClientId × StreamId

abbrev ConnectionId := ℕ

inductive JSONRPCMessage (β : Type) where
  | request (method : Text) (body : β)
  | notification (body : β)
  | response (body : β)
  | error (body : β)
deriving DecidableEq

inductive ClientEvent (β : Type) where
  | clientMessage (message : JSONRPCMessage β)
  | ack
  | ping
  | clientClosed
deriving DecidableEq

structure ClientEnvelope (β : Type) where
  event : ClientEvent β
  clientId : ClientId
  streamId : Option StreamId
  seqId : Option ℕ
  cursor : Option Text

inductive PongStatus where
  | active
  | unknown
deriving DecidableEq

inductive TransportEvent (β : Type) where
  | connectionOpened (connectionId : ConnectionId)
  | incomingMessage (connectionId : ConnectionId) (message : JSONRPCMessage β)
  | connectionClosed (connectionId : ConnectionId)
deriving DecidableEq

/-! ## The tracker -/

structure ClientState where
  connectionId : ConnectionId
  lastActivityAt : ℕ
  lastInboundSeqId : Option ℕ
  statusTx : List PongStatus
deriving DecidableEq

inductive TaskEnd where
  | returned
  | panicked
deriving DecidableEq

/-- An outbound task in the join set. It returns `key`; the connection it serves is known
only to the channels and the token it holds. -/
structure OutboundTask where
  key : ClientKey
  connectionId : ConnectionId
  cancelled : Bool
  ended : Option TaskEnd
deriving DecidableEq

/-- The tracker with the channels it sends on. The receiver of transport events takes
`receiver` more of them before it is dropped, or any number. -/
structure ClientTracker (β : Type) where
  clients : Table ClientKey ClientState
  legacyStreamIds : Table ClientId StreamId
  joinSet : List OutboundTask
  unknownPongs : List ClientKey
  transportEvents : List (TransportEvent β)
  receiver : Option ℕ
  isShutdown : Bool
  nextConnectionId : ConnectionId
  clock : ℕ
  openedFor : List (ConnectionId × ClientKey)

inductive Stopped where
  | stopped
deriving DecidableEq

abbrev Tracked (β α : Type) : Type := Eff (ClientTracker β) Stopped α

variable {β : Type}

def ClientTracker.new (receiver : Option ℕ) (connectionId clock : ℕ) : ClientTracker β :=
  ⟨∅, ∅, [], [], [], receiver, false, connectionId, clock, []⟩

def remoteControlClientIdleTimeout : ℕ := 10 * 60 * 1000000000

def remoteControlMessageStartsConnection : JSONRPCMessage β → Bool
  | .request method _ => method = "initialize".toList
  | _ => false

def remoteControlClientIsAlive (client : ClientState) (now : ℕ) : Bool :=
  now - client.lastActivityAt < remoteControlClientIdleTimeout

def sendTransportEvent (event : TransportEvent β) : Tracked β Unit := fun s =>
  match s.receiver with
  | some 0 => (.error .stopped, s)
  | some (n + 1) =>
    (.ok (), { s with receiver := some n, transportEvents := s.transportEvents ++ [event] })
  | none => (.ok (), { s with transportEvents := s.transportEvents ++ [event] })

/-- `close_client` up to its event: the client and its legacy stream are forgotten, and the
token of its outbound task is cancelled. -/
def ClientTracker.removeClient (s : ClientTracker β) (key : ClientKey) (client : ClientState) :
    ClientTracker β :=
  { s with
    clients := s.clients.erase key
    legacyStreamIds :=
      if s.legacyStreamIds.lookup key.1 = some key.2 then s.legacyStreamIds.erase key.1
      else s.legacyStreamIds
    joinSet := s.joinSet.map fun task =>
      if task.connectionId = client.connectionId then { task with cancelled := true } else task }

def closeClient (key : ClientKey) : Tracked β Unit := fun s =>
  match s.clients.lookup key with
  | none => (.ok (), s)
  | some client =>
    sendTransportEvent (.connectionClosed client.connectionId) (s.removeClient key client)

/-! ## Messages -/

def ClientEnvelope.isInitialize (e : ClientEnvelope β) : Bool :=
  match e.event with
  | .clientMessage message => remoteControlMessageStartsConnection message
  | _ => false

/-- The stream of an envelope. `newRandom` is the stream id drawn for a legacy client. -/
def ClientEnvelope.stream (e : ClientEnvelope β) (newRandom : StreamId) (s : ClientTracker β) :
    StreamId :=
  match e.streamId with
  | some streamId => streamId
  | none =>
    (s.legacyStreamIds.lookup e.clientId).getD
      (if e.isInitialize then newRandom
        else
          match e.event with
          | .ping => newRandom
          | _ => ⟨[]⟩)

def ClientEnvelope.key (e : ClientEnvelope β) (newRandom : StreamId) (s : ClientTracker β) :
    ClientKey := (e.clientId, e.stream newRandom s)

/-- A legacy `initialize` takes the stream of its client out of the table. -/
def ClientTracker.takeLegacyStream (s : ClientTracker β) (e : ClientEnvelope β) :
    ClientTracker β :=
  if e.streamId.isNone && e.isInitialize then
    { s with legacyStreamIds := s.legacyStreamIds.erase e.clientId }
  else s

def ClientTracker.alreadySeen (s : ClientTracker β) (key : ClientKey) (seqId : Option ℕ) : Bool :=
  match seqId, s.clients.lookup key with
  | some seqId, some client => client.lastInboundSeqId.any fun last => seqId ≤ last
  | _, _ => false

def ClientTracker.touch (s : ClientTracker β) (key : ClientKey) (client : ClientState)
    (seqId : Option ℕ) : ClientTracker β :=
  { s with
    clients := s.clients.insert key
      { client with
        lastActivityAt := s.clock
        lastInboundSeqId := seqId.or client.lastInboundSeqId } }

def ClientTracker.insertClient (s : ClientTracker β) (key : ClientKey)
    (connectionId : ConnectionId) (isLegacy : Bool) (seqId : Option ℕ) : ClientTracker β :=
  { s with
    clients := s.clients.insert key ⟨connectionId, s.clock, if isLegacy then none else seqId, []⟩
    legacyStreamIds :=
      if isLegacy then s.legacyStreamIds.insert key.1 key.2 else s.legacyStreamIds
    joinSet := s.joinSet ++ [⟨key, connectionId, s.isShutdown, none⟩]
    openedFor := s.openedFor ++ [(connectionId, key)] }

def openConnection (key : ClientKey) (isLegacy : Bool) (seqId : Option ℕ)
    (message : JSONRPCMessage β) : Tracked β Unit := fun s =>
  let connectionId := s.nextConnectionId
  let drawn := { s with nextConnectionId := s.nextConnectionId + 1 }
  match sendTransportEvent (.connectionOpened connectionId) drawn with
  | (.error e, s) => (.error e, s)
  | (.ok (), s) =>
    sendTransportEvent (.incomingMessage connectionId message)
      (s.insertClient key connectionId isLegacy seqId)

/-- The message goes to the connection of its client; an `initialize` opens one. -/
def routeMessage (key : ClientKey) (isLegacy : Bool) (seqId : Option ℕ)
    (message : JSONRPCMessage β) : Tracked β Unit := fun s =>
  match s.clients.lookup key with
  | some client =>
    sendTransportEvent (.incomingMessage client.connectionId message) (s.touch key client seqId)
  | none =>
    if remoteControlMessageStartsConnection message then
      openConnection key isLegacy seqId message s
    else (.ok (), s)

def handleClientMessage (key : ClientKey) (isLegacy : Bool) (seqId : Option ℕ)
    (message : JSONRPCMessage β) : Tracked β Unit := fun s =>
  if s.alreadySeen key seqId && !remoteControlMessageStartsConnection message then (.ok (), s)
  else if remoteControlMessageStartsConnection message then
    (do closeClient key; routeMessage key isLegacy seqId message : Tracked β Unit) s
  else routeMessage key isLegacy seqId message s

def ClientTracker.ping (s : ClientTracker β) (key : ClientKey) : ClientTracker β :=
  match s.clients.lookup key with
  | some client =>
    { s with
      clients := s.clients.insert key
        { client with lastActivityAt := s.clock, statusTx := client.statusTx ++ [.active] } }
  | none => { s with unknownPongs := s.unknownPongs ++ [key] }

def handleMessage (newRandom : StreamId) (e : ClientEnvelope β) : Tracked β Unit := fun s =>
  let key := e.key newRandom s
  let s := s.takeLegacyStream e
  if key.2.text = [] then (.ok (), s)
  else
    match e.event with
    | .clientMessage message => handleClientMessage key e.streamId.isNone e.seqId message s
    | .ack => (.ok (), s)
    | .ping => (.ok (), s.ping key)
    | .clientClosed => closeClient key s

def closeClients : List ClientKey → Tracked β Unit
  | [] => .ok ()
  | key :: keys => do
    closeClient key
    closeClients keys

/-- `keys` are the keys of the map in the order of its iterator. -/
def closeExpiredClients (keys : List ClientKey) : Tracked β Unit := fun s =>
  closeClients
    (keys.filter fun key =>
      (s.clients.lookup key).any fun client => !remoteControlClientIsAlive client s.clock)
    s

def ClientTracker.shutdown (s : ClientTracker β) (keys : List ClientKey) : ClientTracker β :=
  let s := { s with
    isShutdown := true
    joinSet := s.joinSet.map fun task => { task with cancelled := true } }
  { keys.foldl (fun s key => (closeClient key s).2) s with joinSet := [] }

inductive Action (β : Type) where
  | handleMessage (newRandom : StreamId) (envelope : ClientEnvelope β)
  | taskEnds (connectionId : ConnectionId) (how : TaskEnd)
  | bookkeep (connectionId : ConnectionId)
  | closeExpired (keys : List ClientKey)
  | shutdown (keys : List ClientKey)
  | otherConnection
  | tick (elapsed : ℕ)

inductive Disabled where
  | disabled
deriving DecidableEq

def ClientTracker.endedTask (s : ClientTracker β) (connectionId : ConnectionId) :
    Option OutboundTask :=
  s.joinSet.find? fun task => task.connectionId = connectionId && task.ended.isSome

def ClientTracker.collect (s : ClientTracker β) (task : OutboundTask) : ClientTracker β :=
  let s := { s with joinSet := s.joinSet.erase task }
  match task.ended with
  | some .returned => (closeClient task.key s).2
  | _ => s

def step (s : ClientTracker β) : Action β → Except Disabled (ClientTracker β)
  | .handleMessage newRandom envelope => .ok (handleMessage newRandom envelope s).2
  | .taskEnds connectionId how =>
    .ok { s with
      joinSet := s.joinSet.map fun task =>
        if task.connectionId = connectionId && task.ended.isNone then
          { task with ended := some how }
        else task }
  | .bookkeep connectionId =>
    match s.endedTask connectionId with
    | some task => .ok (s.collect task)
    | none => .error .disabled
  | .closeExpired keys =>
    if keys.Perm s.clients.keys then .ok (closeExpiredClients keys s).2 else .error .disabled
  | .shutdown keys =>
    if keys.Perm s.clients.keys then .ok (s.shutdown keys) else .error .disabled
  | .otherConnection => .ok { s with nextConnectionId := s.nextConnectionId + 1 }
  | .tick elapsed => .ok { s with clock := s.clock + elapsed }

end Codex.RemoteControl
