import Codex.ExecServer.LocalProcess
import Codex.Foundation.Sequencer

/-!
# The client of the exec server

One reader task takes the notifications of all processes from a queue and publishes the
events of each session in order. When the transport has closed it fails the sessions that
are left. A call of `Session::read` that finds the transport closed fails its own session.
-/

namespace Codex.ExecServer

open Foundation

/-! ## Sessions -/

/-- `events` is everything published so far. -/
structure SessionState where
  wake : ℕ
  events : List ExecProcessEvent
  orderedEvents : Sequencer ExecProcessEvent
  failure : Option Text

namespace SessionState

def new : SessionState := ⟨0, [], .new, none⟩

def noteChange (state : SessionState) (seq : ℕ) : SessionState :=
  { state with wake := max state.wake seq }

def publish (state : SessionState) (event : ExecProcessEvent) : SessionState :=
  { state with events := state.events ++ [event] }

/-- The block of `publish_ordered_event` under the lock. What is ready is published behind
it. -/
def takeReady (state : SessionState) (seq : ℕ) (event : ExecProcessEvent) :
    SessionState × List ExecProcessEvent :=
  let (orderedEvents, ready) := state.orderedEvents.accept seq event
  ({ state with orderedEvents := orderedEvents }, ready)

/-- `set_failure` up to the event, which only the first failure publishes. -/
def recordFailure (state : SessionState) (message : Text) : SessionState :=
  { state with
    failure := some (state.failure.getD message)
    wake := min (state.wake + 1) (UInt64.size - 1) }

def publishedClosed (state : SessionState) : Bool :=
  state.events.any ExecProcessEvent.isClosed

end SessionState

inductive RpcCallError where
  | closed
  | json
  | server (code : Int) (message : Text)
deriving DecidableEq

inductive ExecServerError where
  | closed
  | disconnected (message : Text)
  | json
  | server (code : Int) (message : Text)
deriving DecidableEq

def RpcCallError.toExecServerError : RpcCallError → ExecServerError
  | .closed => .closed
  | .json => .json
  | .server code message => .server code message

def isTransportClosedError : ExecServerError → Bool
  | .closed => true
  | .disconnected _ => true
  | .server code message => code = -32000 && message = "JSON-RPC transport closed".toList
  | .json => false

def disconnectedMessage : Option Text → Text
  | some reason => "exec-server transport disconnected: ".toList ++ reason
  | none => "exec-server transport disconnected".toList

/-! ## The client -/

/-- What arrives for the reader task: a notification of a process, one whose parameters do
not parse, or one that concerns no session. -/
inductive ServerNotification where
  | process (notification : ProcessNotification)
  | malformed (error : Text)
  | other

inductive RpcClientEvent where
  | notification (notification : ServerNotification)
  | disconnected (reason : Option Text)

/-- Where the reader task is. A session is the number of its registration. -/
inductive Reader where
  | receiving
  | publishing (processId : ProcessId) (session : ℕ) (ready : List ExecProcessEvent)
      (publishedClosed : Bool)
  | draining (message : Text)
  | failing (message : Text) (sessions : List ℕ)
  | publishingFailed (message : Text) (session : ℕ) (sessions : List ℕ)
  | stopped

def Reader.taken (session : ℕ) : Reader → List ExecProcessEvent
  | .publishing _ session' ready _ => if session' = session then ready else []
  | _ => []

inductive ReadCall where
  | returned
  | starting (session : ℕ)
  | awaiting (session : ℕ)
  | failing (session : ℕ)
  | publishing (session : ℕ) (message : Text)

structure ExecServerClient where
  sessions : Table ProcessId ℕ
  states : ℕ → SessionState
  registered : ℕ
  disconnected : Option Text
  transportClosed : Bool
  rpcEnded : Bool
  queue : List RpcClientEvent
  reader : Reader
  reads : List ReadCall

inductive ClientAction where
  | register (processId : ProcessId)
  | unregister (processId : ProcessId)
  | arrive (event : RpcClientEvent)
  | closeTransport
  | reader
  | failSession (session : ℕ)
  | read (session : ℕ)
  | start (call : ℕ)
  | returns (call : ℕ) (result : Except RpcCallError Unit)
  | setFailure (call : ℕ)
  | publishFailed (call : ℕ)

def ProcessNotification.seq (n : ProcessNotification) : ℕ := n.event.seq.get n.numbered

namespace ExecServerClient

def new : ExecServerClient :=
  ⟨∅, fun _ => .new, 0, none, false, false, [], .receiving, []⟩

def setState (c : ExecServerClient) (session : ℕ) (state : SessionState) : ExecServerClient :=
  { c with states := Function.update c.states session state }

def setRead (c : ExecServerClient) (call : ℕ) (pc : ReadCall) : ExecServerClient :=
  { c with reads := c.reads.set call pc }

def recordDisconnected (c : ExecServerClient) (message : Text) : Text × ExecServerClient :=
  (c.disconnected.getD message, { c with disconnected := some (c.disconnected.getD message) })

/-- `register_session`, where an error leaves the registry as it was. -/
def registerSession (c : ExecServerClient) (processId : ProcessId) : ExecServerClient :=
  if c.disconnected.isSome || (c.sessions.lookup processId).isSome then c
  else
    { c with
      sessions := c.sessions.insert processId c.registered
      registered := c.registered + 1 }

def removeSession (c : ExecServerClient) (processId : ProcessId) : ExecServerClient :=
  { c with sessions := c.sessions.erase processId }

/-! ## The reader task -/

/-- `handle_server_notification` up to the first event it publishes. -/
def handleProcess (c : ExecServerClient) (n : ProcessNotification) : ExecServerClient :=
  match c.sessions.lookup n.processId with
  | none => c
  | some session =>
    let (state, ready) := ((c.states session).noteChange n.seq).takeReady n.seq n.event
    { c.setState session state with reader := .publishing n.processId session ready false }

def drain (c : ExecServerClient) (message : Text) : ExecServerClient :=
  let (message, c) := c.recordDisconnected message
  { c with reader := .draining message }

def handle (c : ExecServerClient) : RpcClientEvent → ExecServerClient
  | .notification (.process n) => c.handleProcess n
  | .notification (.malformed error) =>
    c.drain ("exec-server notification handling failed: ".toList ++ error)
  | .notification .other => c
  | .disconnected reason => c.drain (disconnectedMessage reason)

def readerStep (c : ExecServerClient) : Option ExecServerClient :=
  match c.reader with
  | .receiving =>
    match c.queue with
    | [] => none
    | event :: queue => some ({ c with queue := queue }.handle event)
  | .publishing processId session (event :: ready) publishedClosed =>
    some { c.setState session ((c.states session).publish event) with
      reader := .publishing processId session ready (publishedClosed || event.isClosed) }
  | .publishing processId _ [] publishedClosed =>
    some { (if publishedClosed then c.removeSession processId else c) with reader := .receiving }
  | .draining message =>
    some { c with
      sessions := ∅
      reader := .failing message (c.sessions.entries.map fun entry => entry.2) }
  | .failing _ [] => some { c with reader := .stopped }
  | .failing _ (_ :: _) => none
  | .publishingFailed message session sessions =>
    some { c.setState session ((c.states session).publish (.failed message)) with
      reader := .failing message sessions }
  | .stopped => none

/-- The sessions fail in any order. -/
def failSession (c : ExecServerClient) (session : ℕ) : Option ExecServerClient :=
  match c.reader with
  | .failing message sessions =>
    if session ∈ sessions then
      some { c.setState session ((c.states session).recordFailure message) with
        reader :=
          if (c.states session).failure.isNone then
            .publishingFailed message session (sessions.erase session)
          else .failing message (sessions.erase session) }
    else none
  | _ => none

/-! ## Reads -/

def callReturns (c : ExecServerClient) (call session : ℕ) :
    Except RpcCallError Unit → ExecServerClient
  | .ok () => c.setRead call .returned
  | .error error =>
    if isTransportClosedError error.toExecServerError then
      (c.recordDisconnected (disconnectedMessage none)).2.setRead call (.failing session)
    else c.setRead call .returned

def readStep (c : ExecServerClient) : ClientAction → Option ExecServerClient
  | .read session =>
    if session < c.registered then
      if (c.states session).failure.isSome then some c
      else some { c with reads := c.reads ++ [.starting session] }
    else none
  | .start call =>
    match c.reads[call]? with
    | some (.starting session) =>
      -- the error of an earlier disconnect counts as a closed transport
      if c.disconnected.isSome then some (c.setRead call (.failing session))
      else some (c.setRead call (.awaiting session))
    | _ => none
  | .returns call result =>
    match c.reads[call]? with
    | some (.awaiting session) =>
      if result = .error .closed ∧ c.transportClosed = false then none
      else some (c.callReturns call session result)
    | _ => none
  | .setFailure call =>
    match c.reads[call]? with
    | some (.failing session) =>
      let message := disconnectedMessage none
      some ((c.setState session ((c.states session).recordFailure message)).setRead call
        (if (c.states session).failure.isNone then .publishing session message else .returned))
    | _ => none
  | .publishFailed call =>
    match c.reads[call]? with
    | some (.publishing session message) =>
      some ((c.setState session ((c.states session).publish (.failed message))).setRead call
        .returned)
    | _ => none
  | _ => none

def arrive (c : ExecServerClient) (event : RpcClientEvent) : ExecServerClient :=
  match event with
  | .notification _ => { c with queue := c.queue ++ [event] }
  | .disconnected _ =>
    { c with queue := c.queue ++ [event], transportClosed := true, rpcEnded := true }

def stepOption (c : ExecServerClient) : ClientAction → Option ExecServerClient
  | .register processId => some (c.registerSession processId)
  | .unregister processId => some (c.removeSession processId)
  | .arrive event => if c.rpcEnded then none else some (c.arrive event)
  | .closeTransport => some { c with transportClosed := true }
  | .reader => c.readerStep
  | .failSession session => c.failSession session
  | action => c.readStep action

def step (c : ExecServerClient) (action : ClientAction) : Except Disabled ExecServerClient :=
  match c.stepOption action with
  | some c' => .ok c'
  | none => .error .disabled

end ExecServerClient

end Codex.ExecServer
