import Codex.ExecServer.Client
import Codex.Foundation.Decimal
import Mathlib.Data.Finset.Basic

/-!
# Streamed response bodies

The reader task routes the deltas of a body into the channel of its request, which the
consumer drains at its own pace. A full channel fails the stream: the failure is recorded
before the route goes, and the consumer looks for it when its channel has closed. The
clones of a sender that tasks hold keep the channel open.
-/

namespace Codex.ExecServer

open Foundation

structure HttpRequestBodyDelta where
  request : ℕ
  seq : ℕ
  delta : List UInt8
  done : Bool
  error : Option Text
deriving DecidableEq

def HttpRequestBodyDelta.terminal (delta : HttpRequestBodyDelta) : Bool :=
  delta.done || delta.error.isSome

def httpRequestId (request : ℕ) : Text := "http-".toList ++ decimal request

def failingDelta (request : ℕ) (message : Text) : HttpRequestBodyDelta :=
  ⟨request, 1, [], true, some message⟩

def streamFailed (request : ℕ) (error : Text) : Text :=
  "http response stream `".toList ++ httpRequestId request ++ "` failed: ".toList ++ error

def outOfSequence (request seq nextSeq : ℕ) : Text :=
  "http response stream `".toList ++ httpRequestId request ++ "` received seq ".toList ++
    decimal seq ++ ", expected ".toList ++ decimal nextSeq

def channelFilled : Text := "body delta channel filled before delivery".toList

/-! ## Streams -/

/-- What a call of `recv` returns: a chunk, the end of the body or a protocol error. -/
abbrev Received := Except Text (Option (List UInt8))

/-- Where a call of `recv` is. It finishes the stream by removing its route. -/
inductive Recv where
  | idle
  | finishing (result : Received) (pendingEof : Bool)
  | finishingClosed
  | takingFailure
deriving DecidableEq

/-- `sent` is what the server has sent of the body, `returned` what `recv` has returned. -/
structure BodyStream where
  sent : List HttpRequestBodyDelta
  capacity : ℕ
  channel : List HttpRequestBodyDelta
  opened : Bool
  dropped : Bool
  nextSeq : ℕ
  pendingEof : Bool
  closed : Bool
  recv : Recv
  returned : List Received

namespace BodyStream

def new (capacity : ℕ) : BodyStream :=
  ⟨[], capacity, [], false, false, 1, false, false, .idle, []⟩

/-- `finish_remote_stream`, which returns at once when it ran before. -/
def finish (s : BodyStream) (result : Received) (pendingEof : Bool) : BodyStream :=
  if s.closed then { s with returned := s.returned ++ [result], pendingEof := pendingEof }
  else { s with closed := true, recv := .finishing result pendingEof }

/-- `recv` behind a delta from the channel. -/
def receive (s : BodyStream) (delta : HttpRequestBodyDelta) : BodyStream :=
  if delta.seq ≠ s.nextSeq then
    s.finish (.error (outOfSequence delta.request delta.seq s.nextSeq)) s.pendingEof
  else
    let s := { s with nextSeq := s.nextSeq + 1 }
    match delta.error with
    | some error => s.finish (.error (streamFailed delta.request error)) s.pendingEof
    | none =>
      if delta.done then
        if delta.delta.isEmpty then s.finish (.ok none) s.pendingEof
        else s.finish (.ok (some delta.delta)) true
      else { s with returned := s.returned ++ [.ok (some delta.delta)] }

end BodyStream

/-! ## The client -/

inductive HttpEvent where
  | delta (delta : HttpRequestBodyDelta)
  | failed (message : Text)
  | other

/-- Where the reader task is with the streams. It holds clones of senders. -/
inductive BodyReader where
  | receiving
  | sending (delta : HttpRequestBodyDelta)
  | recording (request : ℕ)
  | removing (request : ℕ)
  | draining (message : Text)
  | failing (message : Text) (requests : Finset ℕ)
  | recordingFailed (message : Text) (request : ℕ) (requests : Finset ℕ)
  | stopped

/-- `fail_all_http_body_streams` holds the lock on the tables all along. -/
def BodyReader.locks : BodyReader → Bool
  | .failing _ _ => true
  | .recordingFailed _ _ _ => true
  | _ => false

def BodyReader.holds (request : ℕ) : BodyReader → Bool
  | .sending delta => delta.request = request
  | .recording request' => request' = request
  | .removing request' => request' = request
  | .failing _ requests => request ∈ requests
  | .recordingFailed _ request' requests => request' = request || request ∈ requests
  | _ => false

structure HttpClient where
  streams : ℕ → BodyStream
  registered : ℕ
  routes : Finset ℕ
  failures : Table ℕ Text
  queue : List HttpEvent
  ended : Bool
  reader : BodyReader

inductive HttpAction where
  | register (capacity : ℕ)
  | respond (request : ℕ)
  | reject (request : ℕ)
  | send (delta : HttpRequestBodyDelta)
  | arrive
  | fail (message : Text)
  | reader
  | failStream (request : ℕ)
  | recv (request : ℕ)
  | drop (request : ℕ)
  | removeDropped (request : ℕ)

namespace HttpClient

def new : HttpClient := ⟨fun _ => .new 0, 0, ∅, ∅, [], false, .receiving⟩

def setStream (c : HttpClient) (request : ℕ) (s : BodyStream) : HttpClient :=
  { c with streams := Function.update c.streams request s }

def removeRoute (c : HttpClient) (request : ℕ) : HttpClient :=
  { c with routes := c.routes.erase request }

def recordFailure (c : HttpClient) (request : ℕ) (message : Text) : HttpClient :=
  { c with failures := c.failures.insert request message }

def senderAlive (c : HttpClient) (request : ℕ) : Bool :=
  request ∈ c.routes || c.reader.holds request

/-- `http_request_stream` before its call: the number of the request is fresh. -/
def register (c : HttpClient) (capacity : ℕ) : HttpClient :=
  { c.setStream c.registered (.new capacity) with
    registered := c.registered + 1
    routes := insert c.registered c.routes
    failures := c.failures.erase c.registered }

/-- The server numbers the deltas of a body from one and sends nothing behind the last. -/
def Sends (c : HttpClient) (delta : HttpRequestBodyDelta) : Prop :=
  let sent := (c.streams delta.request).sent
  delta.request < c.registered ∧ delta.seq = sent.length + 1 ∧
    ∀ last ∈ sent.getLast?, last.terminal = false

instance sendsDecidable (c : HttpClient) (delta : HttpRequestBodyDelta) :
    Decidable (c.Sends delta) := by
  unfold Sends
  infer_instance

def send (c : HttpClient) (delta : HttpRequestBodyDelta) : HttpClient :=
  let s := c.streams delta.request
  { c.setStream delta.request { s with sent := s.sent ++ [delta] } with
    queue := c.queue ++ [.delta delta] }

/-! ## The reader task -/

/-- `try_send` and what follows from its result. -/
def trySend (c : HttpClient) (delta : HttpRequestBodyDelta) : HttpClient :=
  let s := c.streams delta.request
  if s.dropped then { c with reader := .removing delta.request }
  else if s.channel.length < s.capacity then
    { c.setStream delta.request { s with channel := s.channel ++ [delta] } with
      reader := if delta.terminal then .removing delta.request else .receiving }
  else { c with reader := .recording delta.request }

def handle (c : HttpClient) : HttpEvent → HttpClient
  | .delta delta => if delta.request ∈ c.routes then { c with reader := .sending delta } else c
  | .failed message => { c with reader := .draining message }
  | .other => c

def readerStep (c : HttpClient) : Option HttpClient :=
  match c.reader with
  | .receiving =>
    match c.queue with
    | [] => none
    | event :: queue => some ({ c with queue := queue }.handle event)
  | .sending delta => some (c.trySend delta)
  | .recording request =>
    some { c.recordFailure request channelFilled with reader := .removing request }
  | .removing request => some { c.removeRoute request with reader := .receiving }
  | .draining message => some { c with routes := ∅, reader := .failing message c.routes }
  | .failing _ requests => if requests = ∅ then some { c with reader := .stopped } else none
  | .recordingFailed message request requests =>
    some { c.recordFailure request message with reader := .failing message requests }
  | .stopped => none

def failStream (c : HttpClient) (request : ℕ) : Option HttpClient :=
  match c.reader with
  | .failing message requests =>
    if request ∈ requests then
      let s := c.streams request
      let requests := requests.erase request
      if s.dropped || decide (s.channel.length ≥ s.capacity) then
        some { c with reader := .recordingFailed message request requests }
      else
        some { c.setStream request
            { s with channel := s.channel ++ [failingDelta request message] } with
          reader := .failing message requests }
    else none
  | _ => none

/-- A step of `recv`. It waits while the channel is empty and open. -/
def recvStep (c : HttpClient) (request : ℕ) : Option HttpClient :=
  let s := c.streams request
  match s.recv with
  | .idle =>
    if s.pendingEof then
      some (c.setStream request ({ s with pendingEof := false }.finish (.ok none) false))
    else
      match s.channel with
      | delta :: channel =>
        some (c.setStream request ({ s with channel := channel }.receive delta))
      | [] =>
        if c.senderAlive request then none
        else if s.closed then some (c.setStream request { s with recv := .takingFailure })
        else some (c.setStream request { s with closed := true, recv := .finishingClosed })
  | .finishing result pendingEof =>
    if c.reader.locks then none
    else
      some ((c.removeRoute request).setStream request
        { s with recv := .idle, returned := s.returned ++ [result], pendingEof := pendingEof })
  | .finishingClosed =>
    if c.reader.locks then none
    else some ((c.removeRoute request).setStream request { s with recv := .takingFailure })
  | .takingFailure =>
    if c.reader.locks then none
    else
      match c.failures.lookup request with
      | some error =>
        some ({ c with failures := c.failures.erase request }.setStream request
          { s with
            recv := .idle
            returned := s.returned ++ [Except.error (streamFailed request error)] })
      | none =>
        some (c.setStream request { s with recv := .idle, returned := s.returned ++ [.ok none] })

def stepOption (c : HttpClient) : HttpAction → Option HttpClient
  | .register capacity =>
    if 0 < capacity ∧ c.reader.locks = false then some (c.register capacity) else none
  | .respond request =>
    if request < c.registered then
      some (c.setStream request { c.streams request with opened := true })
    else none
  | .reject request =>
    if request < c.registered ∧ (c.streams request).opened = false ∧ c.reader.locks = false then
      some ((c.removeRoute request).setStream request { c.streams request with dropped := true })
    else none
  | .send delta => if c.ended = false ∧ c.Sends delta then some (c.send delta) else none
  | .arrive => if c.ended then none else some { c with queue := c.queue ++ [.other] }
  | .fail message =>
    if c.ended then none else some { c with queue := c.queue ++ [.failed message], ended := true }
  | .reader => c.readerStep
  | .failStream request => c.failStream request
  | .recv request =>
    if (c.streams request).opened ∧ (c.streams request).dropped = false then c.recvStep request
    else none
  | .drop request =>
    if (c.streams request).opened then
      some (c.setStream request { c.streams request with dropped := true })
    else none
  | .removeDropped request =>
    if (c.streams request).dropped ∧ c.reader.locks = false then some (c.removeRoute request)
    else none

def step (c : HttpClient) (action : HttpAction) : Except Disabled HttpClient :=
  match c.stepOption action with
  | some c' => .ok c'
  | none => .error .disabled

end HttpClient

end Codex.ExecServer
