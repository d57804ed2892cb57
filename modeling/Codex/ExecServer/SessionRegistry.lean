import Codex.ExecServer.Client
import Mathlib.Algebra.Group.Nat.Defs
import Mathlib.Data.Finset.Basic

/-!
# Sessions and the connections attached to them

A call of `attach` holds the lock on the sessions from its lookup to its end, and takes the
locks of the entry one after the other. `detach` and the expiry behind it are other tasks,
and `detach` takes no lock on the sessions.
-/

namespace Codex.ExecServer

open Foundation

abbrev ConnectionId := ℕ

/-- Nanoseconds. -/
def detachedSessionTtl : ℕ := 10 * 10 ^ 9

structure AttachmentState where
  currentConnectionId : Option ConnectionId
  detachedConnectionId : Option ConnectionId
  detachedExpiresAt : Option ℕ
deriving DecidableEq

/-- `notifications` is the connection whose sender the processes of the session use. -/
structure SessionEntry where
  attachment : AttachmentState
  notifications : Option ConnectionId
  shutDown : Bool
deriving DecidableEq

namespace SessionEntry

def new (connection : ConnectionId) : SessionEntry :=
  ⟨⟨some connection, none, none⟩, some connection, false⟩

def vacant : SessionEntry := ⟨⟨none, none, none⟩, none, false⟩

def attach (e : SessionEntry) (connection : ConnectionId) : SessionEntry :=
  { e with attachment := ⟨some connection, none, none⟩ }

def isAttachedTo (e : SessionEntry) (connection : ConnectionId) : Bool :=
  e.attachment.currentConnectionId = some connection

/-- `detach` for a connection that is attached. -/
def detach (e : SessionEntry) (connection : ConnectionId) (now : ℕ) : SessionEntry :=
  { e with attachment := ⟨none, some connection, some (now + detachedSessionTtl)⟩ }

def hasActiveConnection (e : SessionEntry) : Bool := e.attachment.currentConnectionId.isSome

def isExpired (e : SessionEntry) (now : ℕ) : Bool :=
  e.attachment.detachedExpiresAt.any (· ≤ now)

def isDetachedConnectionExpired (e : SessionEntry) (connection : ConnectionId) (now : ℕ) : Bool :=
  e.attachment.currentConnectionId.isNone &&
    decide (e.attachment.detachedConnectionId = some connection) && e.isExpired now

def setNotificationSender (e : SessionEntry) (notifications : Option ConnectionId) :
    SessionEntry :=
  { e with notifications := notifications }

def shutdown (e : SessionEntry) : SessionEntry := { e with shutDown := true }

end SessionEntry

def unknownSession (sessionId : Text) : Text := "unknown session id ".toList ++ sessionId

def alreadyAttached (sessionId : Text) : Text :=
  "session ".toList ++ sessionId ++ " is already attached to another connection".toList

/-! ## Tasks -/

/-- Where a connection is, from its call of `attach` to the end of its `detach`. -/
inductive ConnectionPhase where
  | idle
  | waiting (resumeSessionId : Option Text)
  | checkingExpired (sessionId : Text)
  | removing (sessionId : Text)
  | checkingActive (sessionId : Text)
  | installing (sessionId : Text)
  | attaching (sessionId : Text)
  | shuttingDown (sessionId : Text)
  | refused (error : Text)
  | dropped
  | attached (sessionId : Text)
  | clearing (sessionId : Text)
  | spawning (sessionId : Text)
  | detached (sessionId : Text)
deriving DecidableEq

def ConnectionPhase.handle : ConnectionPhase → Option Text
  | .attached sessionId => some sessionId
  | .clearing sessionId => some sessionId
  | .spawning sessionId => some sessionId
  | .detached sessionId => some sessionId
  | _ => none

inductive ExpiryPhase where
  | absent
  | spawned (sessionId : Text)
  | sleeping (sessionId : Text) (wake : ℕ)
  | removing (sessionId : Text)
  | shuttingDown (sessionId : Text)
  | ended
deriving DecidableEq

inductive SessionsLock where
  | attach (connection : ConnectionId)
  | expire (connection : ConnectionId)
deriving DecidableEq

/-- `sessions` are the keys of the map. An entry outlives its removal from the map. -/
structure SessionRegistry where
  now : ℕ
  sessions : Finset Text
  created : Finset Text
  entries : Text → SessionEntry
  lock : Option SessionsLock
  phases : ConnectionId → ConnectionPhase
  expiries : ConnectionId → ExpiryPhase

inductive SessionAction where
  | elapse (duration : ℕ)
  | call (connection : ConnectionId) (resumeSessionId : Option Text)
  | create (connection : ConnectionId) (sessionId : Text)
  | attach (connection : ConnectionId)
  | cancel (connection : ConnectionId)
  | detach (connection : ConnectionId)
  | finishDetach (connection : ConnectionId)
  | expire (connection : ConnectionId)

namespace SessionRegistry

def new : SessionRegistry :=
  ⟨0, ∅, ∅, fun _ => .vacant, none, fun _ => .idle, fun _ => .absent⟩

def setEntry (r : SessionRegistry) (sessionId : Text) (e : SessionEntry) : SessionRegistry :=
  { r with entries := Function.update r.entries sessionId e }

def setPhase (r : SessionRegistry) (connection : ConnectionId) (phase : ConnectionPhase) :
    SessionRegistry :=
  { r with phases := Function.update r.phases connection phase }

def setExpiry (r : SessionRegistry) (connection : ConnectionId) (expiry : ExpiryPhase) :
    SessionRegistry :=
  { r with expiries := Function.update r.expiries connection expiry }

def setLock (r : SessionRegistry) (lock : Option SessionsLock) : SessionRegistry :=
  { r with lock := lock }

def remove (r : SessionRegistry) (sessionId : Text) : SessionRegistry :=
  { r with sessions := r.sessions.erase sessionId }

/-- `attach` without a session to resume. The id is fresh. -/
def create (r : SessionRegistry) (connection : ConnectionId) (sessionId : Text) :
    SessionRegistry :=
  { (r.setEntry sessionId (.new connection)).setPhase connection (.attached sessionId) with
    sessions := insert sessionId r.sessions
    created := insert sessionId r.created }

def attachStep (r : SessionRegistry) (connection : ConnectionId) : Option SessionRegistry :=
  match r.phases connection with
  | .waiting (some sessionId) =>
    if r.lock ≠ none then none
    else if sessionId ∈ r.sessions then
      some ((r.setLock (some (.attach connection))).setPhase connection
        (.checkingExpired sessionId))
    else some (r.setPhase connection (.refused (unknownSession sessionId)))
  | .checkingExpired sessionId =>
    if (r.entries sessionId).isExpired r.now then
      some (r.setPhase connection (.removing sessionId))
    else some (r.setPhase connection (.checkingActive sessionId))
  | .removing sessionId =>
    some (((r.remove sessionId).setLock none).setPhase connection (.shuttingDown sessionId))
  | .checkingActive sessionId =>
    if (r.entries sessionId).hasActiveConnection then
      some ((r.setLock none).setPhase connection (.refused (alreadyAttached sessionId)))
    else some (r.setPhase connection (.installing sessionId))
  | .installing sessionId =>
    some ((r.setEntry sessionId
      ((r.entries sessionId).setNotificationSender (some connection))).setPhase connection
        (.attaching sessionId))
  | .attaching sessionId =>
    some (((r.setEntry sessionId ((r.entries sessionId).attach connection)).setLock none).setPhase
      connection (.attached sessionId))
  | .shuttingDown sessionId =>
    some ((r.setEntry sessionId (r.entries sessionId).shutdown).setPhase connection
      (.refused (unknownSession sessionId)))
  | _ => none

/-- The future of `attach` is dropped where it waits. -/
def cancel (r : SessionRegistry) (connection : ConnectionId) : Option SessionRegistry :=
  match r.phases connection with
  | .waiting _ => some (r.setPhase connection .dropped)
  | .shuttingDown _ => some (r.setPhase connection .dropped)
  | _ => none

/-! ## Detach -/

/-- The first step of `detach`, which a handle may be asked for again. -/
def detach (r : SessionRegistry) (connection : ConnectionId) : Option SessionRegistry :=
  match (r.phases connection).handle with
  | some sessionId =>
    let e := r.entries sessionId
    if e.attachment.currentConnectionId ≠ some connection then some r
    else
      some ((r.setEntry sessionId (e.detach connection r.now)).setPhase connection
        (.clearing sessionId))
  | none => none

def finishDetach (r : SessionRegistry) (connection : ConnectionId) : Option SessionRegistry :=
  match r.phases connection with
  | .clearing sessionId =>
    some ((r.setEntry sessionId ((r.entries sessionId).setNotificationSender none)).setPhase
      connection (.spawning sessionId))
  | .spawning sessionId =>
    some ((r.setExpiry connection (.spawned sessionId)).setPhase connection (.detached sessionId))
  | _ => none

def expireStep (r : SessionRegistry) (connection : ConnectionId) : Option SessionRegistry :=
  match r.expiries connection with
  | .spawned sessionId =>
    some (r.setExpiry connection (.sleeping sessionId (r.now + detachedSessionTtl)))
  | .sleeping sessionId wake =>
    if r.now < wake ∨ r.lock ≠ none then none
    else if sessionId ∈ r.sessions ∧
        (r.entries sessionId).isDetachedConnectionExpired connection r.now then
      some ((r.setLock (some (.expire connection))).setExpiry connection (.removing sessionId))
    else some (r.setExpiry connection .ended)
  | .removing sessionId =>
    some (((r.remove sessionId).setLock none).setExpiry connection (.shuttingDown sessionId))
  | .shuttingDown sessionId =>
    some ((r.setEntry sessionId (r.entries sessionId).shutdown).setExpiry connection .ended)
  | _ => none

def stepOption (r : SessionRegistry) : SessionAction → Option SessionRegistry
  | .elapse duration => some { r with now := r.now + duration }
  | .call connection resumeSessionId =>
    if r.phases connection = .idle then some (r.setPhase connection (.waiting resumeSessionId))
    else none
  | .create connection sessionId =>
    if r.phases connection = .waiting none ∧ r.lock = none ∧ sessionId ∉ r.created then
      some (r.create connection sessionId)
    else none
  | .attach connection => r.attachStep connection
  | .cancel connection => r.cancel connection
  | .detach connection => r.detach connection
  | .finishDetach connection => r.finishDetach connection
  | .expire connection => r.expireStep connection

def step (r : SessionRegistry) (action : SessionAction) : Except Disabled SessionRegistry :=
  match r.stepOption action with
  | some r' => .ok r'
  | none => .error .disabled

end SessionRegistry

end Codex.ExecServer
