import Codex.RemoteControl.ClientTracker

/-!
# Envelopes to the remote clients

The writer of a connection first sends what is buffered, then takes envelopes from the
queue, numbers, buffers and sends them. The reader drops what is acknowledged. Both hold
the lock on the state only while they change it, and a connection may end whenever the
writer waits.
-/

namespace Codex.RemoteControl

open Foundation

def channelCapacity : ℕ := 128

def saturatingSucc (n : ℕ) : ℕ := min (n + 1) (UInt64.size - 1)

structure QueuedServerEnvelope (ε : Type) where
  event : ε
  clientId : ClientId
  streamId : StreamId

structure ServerEnvelope (ε : Type) where
  event : ε
  clientId : ClientId
  streamId : StreamId
  seqId : ℕ

variable {ε β : Type}

def ServerEnvelope.key (envelope : ServerEnvelope ε) : ClientKey :=
  (envelope.clientId, envelope.streamId)

structure BoundedOutboundBuffer (ε : Type) where
  bufferByStream : Table ClientKey (List (ServerEnvelope ε))
  used : ℕ

namespace BoundedOutboundBuffer

def new : BoundedOutboundBuffer ε := ⟨∅, 0⟩

def buffered (b : BoundedOutboundBuffer ε) (key : ClientKey) : List (ServerEnvelope ε) :=
  (b.bufferByStream.lookup key).getD []

def insert (b : BoundedOutboundBuffer ε) (envelope : ServerEnvelope ε) :
    BoundedOutboundBuffer ε where
  bufferByStream := b.bufferByStream.insert envelope.key (b.buffered envelope.key ++ [envelope])
  used := b.used + 1

def popAcked (ackedSeqId : ℕ) :
    List (ServerEnvelope ε) → ℕ → List (ServerEnvelope ε) × ℕ
  | [], used => ([], used)
  | envelope :: buffer, used =>
    if envelope.seqId ≤ ackedSeqId then popAcked ackedSeqId buffer (used - 1)
    else (envelope :: buffer, used)

def ack (b : BoundedOutboundBuffer ε) (key : ClientKey) (ackedSeqId : ℕ) :
    BoundedOutboundBuffer ε :=
  match b.bufferByStream.lookup key with
  | none => b
  | some buffer =>
    let (buffer, used) := popAcked ackedSeqId buffer b.used
    { bufferByStream :=
        if buffer.isEmpty then b.bufferByStream.erase key
        else b.bufferByStream.insert key buffer
      used := used }

/-- All envelopes, the streams in the order of the map's iterator. -/
def serverEnvelopes (b : BoundedOutboundBuffer ε) (keys : List ClientKey) :
    List (ServerEnvelope ε) :=
  keys.flatMap b.buffered

end BoundedOutboundBuffer

structure WebsocketState (ε : Type) where
  outboundBuffer : BoundedOutboundBuffer ε
  subscribeCursor : Option Text
  nextSeqIdByStream : Table ClientKey ℕ

namespace WebsocketState

def new : WebsocketState ε := ⟨.new, none, ∅⟩

def nextSeqId (s : WebsocketState ε) (key : ClientKey) : ℕ :=
  (s.nextSeqIdByStream.lookup key).getD 1

/-- The writer's block under the lock: the envelope gets its number and is buffered. -/
def number (s : WebsocketState ε) (queued : QueuedServerEnvelope ε) :
    ServerEnvelope ε × WebsocketState ε :=
  let key := (queued.clientId, queued.streamId)
  let seqId := s.nextSeqId key
  let envelope : ServerEnvelope ε := ⟨queued.event, queued.clientId, queued.streamId, seqId⟩
  (envelope,
    { s with
      outboundBuffer := s.outboundBuffer.insert envelope
      nextSeqIdByStream := s.nextSeqIdByStream.insert key (saturatingSucc seqId) })

def acked (e : ClientEnvelope β) : Option (ClientKey × ℕ) :=
  match e.event, e.seqId, e.streamId with
  | .ack, some ackedSeqId, some streamId => some ((e.clientId, streamId), ackedSeqId)
  | _, _, _ => none

/-- The reader's block under the lock. -/
def receive (s : WebsocketState ε) (e : ClientEnvelope β) : WebsocketState ε :=
  let s := { s with subscribeCursor := e.cursor.or s.subscribeCursor }
  match acked e with
  | some (key, ackedSeqId) => { s with outboundBuffer := s.outboundBuffer.ack key ackedSeqId }
  | none => s

end WebsocketState

/-! ## The writer -/

/-- Where `run_server_writer_inner` is. -/
inductive Writer (ε : Type) where
  | stopped
  | started
  | resending (rest : List (ServerEnvelope ε))
  | looping
  | waiting (outboundHasCapacity : Bool)
  | taken (queued : QueuedServerEnvelope ε)
  | sending (envelope : ServerEnvelope ε)

/-- The state with the writer of the current connection, what was sent on it, what was
numbered and what was acknowledged since the start. -/
structure Outbound (ε : Type) where
  state : WebsocketState ε
  writer : Writer ε
  sent : List (ServerEnvelope ε)
  numbered : List (ServerEnvelope ε)
  acks : List (ClientKey × ℕ)

inductive OutboundAction (ε β : Type) where
  | connect
  | snapshot (keys : List ClientKey)
  | send
  | resent
  | checkCapacity
  | wake
  | take (queued : QueuedServerEnvelope ε)
  | number
  | disconnect (arrived : Bool)
  | receive (envelope : ClientEnvelope β)

namespace Outbound

def new : Outbound ε := ⟨.new, .stopped, [], [], []⟩

def step (s : Outbound ε) : OutboundAction ε β → Except Disabled (Outbound ε)
  | .connect =>
    match s.writer with
    | .stopped => .ok { s with writer := .started, sent := [] }
    | _ => .error .disabled
  | .snapshot keys =>
    match s.writer with
    | .started =>
      if keys.Perm s.state.outboundBuffer.bufferByStream.keys then
        .ok { s with writer := .resending (s.state.outboundBuffer.serverEnvelopes keys) }
      else .error .disabled
    | _ => .error .disabled
  | .send =>
    match s.writer with
    | .resending (envelope :: rest) =>
      .ok { s with writer := .resending rest, sent := s.sent ++ [envelope] }
    | .sending envelope => .ok { s with writer := .looping, sent := s.sent ++ [envelope] }
    | _ => .error .disabled
  | .resent =>
    match s.writer with
    | .resending [] => .ok { s with writer := .looping }
    | _ => .error .disabled
  | .checkCapacity =>
    match s.writer with
    | .looping =>
      .ok { s with writer := .waiting (s.state.outboundBuffer.used < channelCapacity) }
    | _ => .error .disabled
  | .wake =>
    match s.writer with
    | .waiting _ => .ok { s with writer := .looping }
    | _ => .error .disabled
  | .take queued =>
    match s.writer with
    | .waiting true => .ok { s with writer := .taken queued }
    | _ => .error .disabled
  | .number =>
    match s.writer with
    | .taken queued =>
      let (envelope, state) := s.state.number queued
      .ok { s with
        state := state
        writer := .sending envelope
        numbered := s.numbered ++ [envelope] }
    | _ => .error .disabled
  | .disconnect arrived =>
    match s.writer with
    | .resending (envelope :: _) | .sending envelope =>
      .ok { s with
        writer := .stopped
        sent := if arrived then s.sent ++ [envelope] else s.sent }
    | .waiting _ => .ok { s with writer := .stopped }
    | _ => .error .disabled
  | .receive envelope =>
    .ok { s with
      state := s.state.receive envelope
      acks := s.acks ++ (WebsocketState.acked envelope).toList }

end Outbound

end Codex.RemoteControl
