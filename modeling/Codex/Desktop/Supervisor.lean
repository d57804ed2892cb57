import Codex.Desktop.Wal
import Mathlib.Data.Finset.Option

/-!
# The supervisor and its turn logs

Each run of the supervisor numbers its prompts from one and keeps at most one log open.
A log is a file that its name may lose: completing a turn renames `<turn>.wal` to
`<turn>.wal.done`, over whatever has that name. A crash leaves a part of the last record.
-/

namespace Codex.Desktop

open Foundation

/-- `s<n>` for a submission, and the sentinel for notifications before the first one. -/
inductive TurnId where
  | submission (n : ℕ)
  | preboot
deriving DecidableEq

structure Cbor where
  walUserOp : (prompt : Text) → (tsUnixMs : ℕ) → List UInt8
  walNotif : (method paramsJson : Text) → (tsUnixMs : ℕ) → List UInt8

/-- An open log appends to its file, whatever becomes of the name. -/
structure TurnLog where
  turn : TurnId
  file : ℕ
deriving DecidableEq

inductive LogEvent where
  | wrote (turn : TurnId) (file : ℕ) (submission : Option TurnId)
  | completed (turn : TurnId) (file : ℕ)
deriving DecidableEq

/-- `finished` are the records of a file whose append has finished, `pruned` the files that
the garbage collector has removed, `history` what the present run has done. -/
structure Bridge where
  contents : ℕ → List UInt8
  created : ℕ
  wal : TurnId → Option ℕ
  done : TurnId → Option ℕ
  running : Bool
  current : Option TurnLog
  currentTurnId : Option TurnId
  submitCounter : ℕ
  finished : ℕ → List Record
  pruned : Finset ℕ
  history : List LogEvent

inductive BridgeAction where
  | start (gc : Finset TurnId)
  | prompt (text : Text) (tsUnixMs : ℕ)
  | notification (method paramsJson : Text) (tsUnixMs : ℕ) (received : Bool)
  | exit
  | crashInPrompt (text : Text) (tsUnixMs : ℕ) (written : ℕ)
  | crashInNotification (method paramsJson : Text) (tsUnixMs : ℕ) (written : ℕ)

def messageDelta : Text := "agent/message_delta".toList

def turnCompleted : Text := "agent/turn_completed".toList

namespace Bridge

def new : Bridge :=
  ⟨fun _ => [], 0, fun _ => none, fun _ => none, false, none, none, 0, fun _ => [], ∅, []⟩

/-! ## Logs -/

def openTurn (b : Bridge) (turn : TurnId) : Bridge :=
  match b.wal turn with
  | some file => { b with current := some ⟨turn, file⟩ }
  | none =>
    { b with
      created := b.created + 1
      wal := Function.update b.wal turn (some b.created)
      current := some ⟨turn, b.created⟩ }

def ensureOpen (b : Bridge) (turn : TurnId) : Bridge :=
  match b.current with
  | some _ => b
  | none => b.openTurn turn

def append (b : Bridge) (log : TurnLog) (r : Record) (submission : Option TurnId) : Bridge :=
  if r.Fits then
    { b with
      contents := Function.update b.contents log.file (b.contents log.file ++ r.encode)
      finished := Function.update b.finished log.file (b.finished log.file ++ [r])
      history := b.history ++ [.wrote log.turn log.file submission] }
  else b

def appendPart (b : Bridge) (log : TurnLog) (r : Record) (written : ℕ) : Bridge :=
  { b with
    contents := Function.update b.contents log.file (b.contents log.file ++ r.encode.take written) }

def record (b : Bridge) (turn : TurnId) (r : Record) (submission : Option TurnId) : Bridge :=
  let b := b.ensureOpen turn
  match b.current with
  | some log => b.append log r submission
  | none => b

def recordPart (b : Bridge) (turn : TurnId) (r : Record) (written : ℕ) : Bridge :=
  let b := b.ensureOpen turn
  match b.current with
  | some log => b.appendPart log r written
  | none => b

def completeTurn (b : Bridge) : Bridge :=
  match b.current with
  | none => b
  | some log =>
    { b with
      current := none
      wal := Function.update b.wal log.turn none
      done := Function.update b.done log.turn (some log.file)
      history := b.history ++ [.completed log.turn log.file] }

/-! ## The supervisor -/

def start (b : Bridge) (gc : Finset TurnId) : Bridge :=
  { b with
    done := fun turn => if turn ∈ gc then none else b.done turn
    pruned := b.pruned ∪ gc.biUnion fun turn => (b.done turn).toFinset
    running := true
    current := none
    currentTurnId := none
    submitCounter := 0
    history := [] }

def stop (b : Bridge) : Bridge := { b with running := false, current := none }

variable (cbor : Cbor)

def userOp (text : Text) (tsUnixMs : ℕ) : Record := ⟨.userOp, cbor.walUserOp text tsUnixMs⟩

def serverNotification (method paramsJson : Text) (tsUnixMs : ℕ) : Record :=
  ⟨.serverNotification, cbor.walNotif method paramsJson tsUnixMs⟩

def nextSubmission (b : Bridge) : TurnId := .submission (b.submitCounter + 1)

def prompt (b : Bridge) (text : Text) (tsUnixMs : ℕ) : Bridge :=
  let id := b.nextSubmission
  { { b with submitCounter := b.submitCounter + 1 }.record id (userOp cbor text tsUnixMs)
      (some id) with
    currentTurnId := some id }

def notifiedTurn (b : Bridge) : TurnId := b.currentTurnId.getD .preboot

def logged (method : Text) : Bool := "agent/".toList.isPrefixOf method

/-- `received` is false when the receiver of the interface is gone, which ends the run where
an event would be sent. -/
def notification (b : Bridge) (method paramsJson : Text) (tsUnixMs : ℕ) (received : Bool) :
    Bridge :=
  let b :=
    if logged method then
      b.record b.notifiedTurn (serverNotification cbor method paramsJson tsUnixMs) none
    else b
  if (method = messageDelta ∨ method = turnCompleted) ∧ received = false then b.stop
  else if method = turnCompleted then { b.completeTurn with currentTurnId := none }
  else b

def stepOption (b : Bridge) : BridgeAction → Option Bridge
  | .start gc => if b.running then none else some (b.start gc)
  | .prompt text tsUnixMs => if b.running then some (b.prompt cbor text tsUnixMs) else none
  | .notification method paramsJson tsUnixMs received =>
    if b.running then some (b.notification cbor method paramsJson tsUnixMs received) else none
  | .exit => if b.running then some b.stop else none
  | .crashInPrompt text tsUnixMs written =>
    let r := userOp cbor text tsUnixMs
    if b.running ∧ r.Fits ∧ written < r.encode.length then
      some (b.recordPart b.nextSubmission r written).stop
    else none
  | .crashInNotification method paramsJson tsUnixMs written =>
    let r := serverNotification cbor method paramsJson tsUnixMs
    if b.running ∧ logged method ∧ r.Fits ∧ written < r.encode.length then
      some (b.recordPart b.notifiedTurn r written).stop
    else none

def step (b : Bridge) (action : BridgeAction) : Except Unit Bridge :=
  match b.stepOption cbor action with
  | some b' => .ok b'
  | none => .error ()

end Bridge

end Codex.Desktop
