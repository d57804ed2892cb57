import Codex.Foundation.Decimal
import Codex.Foundation.Json
import Codex.Foundation.Table
import Mathlib.Data.Finset.Basic

/-!
# Requests to an agent backend

Three backends share one shape. A call takes an id, leaves the sender of its response in
the pending map, and has its message written. The reader task hands each inbound value to
the call whose id it bears, or to the subscribers. The backends differ in the ids they make
and in what they do with a value that has both an id and a method.
-/

namespace Codex.AgentBackend

open Foundation

inductive BackendKind where
  | codex
  | claude
  | process
deriving DecidableEq

inductive BackendError where
  | closed
  | transport (message : Text)
  | rejected (message : Text)
deriving DecidableEq

abbrev Response := Except BackendError Json

inductive IncomingServerNotification where
  | known (method : Text) (params : Json) (recognisedAs : Option Text)
  | unknown (method : Text) (params : Json)

abbrev KnownVariantRegistry := Finset Text

def IncomingServerNotification.classify (method : Text) (params : Json)
    (registry : KnownVariantRegistry) : IncomingServerNotification :=
  if method ∈ registry then .known method params (some method) else .unknown method params

def requestId (kind : BackendKind) (n : ℕ) : Text :=
  match kind with
  | .codex => 'r' :: decimal n
  | .claude => 'c' :: decimal n
  | .process => 'r' :: decimal n

inductive CallPhase where
  | allocated
  | writing
  | waiting
  | done (response : Response)

structure Call where
  id : Text
  phase : CallPhase
  received : Option Response

structure Backend where
  nextId : ℕ
  pending : Table Text ℕ
  calls : List Call
  readerEnded : Bool
  inbound : List Json
  notifications : List IncomingServerNotification
  completed : List (ℕ × Response)

namespace Backend

def new : Backend := ⟨0, ∅, [], false, [], [], []⟩

def put (b : Backend) (i : ℕ) (c : Call) : Backend := { b with calls := b.calls.set i c }

section
variable (printJson : Json → Text)

def responseOf (value : Json) : Response :=
  match value.get "error".toList with
  | some err => .error (.rejected (printJson err))
  | none => .ok ((value.get "result".toList).getD .null)

def idOf (value : Json) : Option Text := (value.get "id".toList).bind Json.asStr

def methodOf (value : Json) : Option Text := (value.get "method".toList).bind Json.asStr

def paramsOf (value : Json) : Json := (value.get "params".toList).getD .null

def deliverResponse (b : Backend) (id : Text) (value : Json) : Backend :=
  match b.pending.lookup id with
  | some i =>
    { b with
      pending := b.pending.erase id
      calls := b.calls.modify i fun c => { c with received := some (responseOf printJson value) } }
  | none => b

def notify (b : Backend) (notification : IncomingServerNotification) : Backend :=
  { b with notifications := b.notifications ++ [notification] }

def dispatchIncoming (kind : BackendKind) (registry : KnownVariantRegistry) (b : Backend)
    (value : Json) : Backend :=
  match kind with
  | .process =>
    match idOf value, methodOf value with
    | some id, _ => b.deliverResponse printJson id value
    | none, some method => b.notify (.unknown method (paramsOf value))
    | none, none => b
  | _ =>
    match idOf value, methodOf value with
    | some id, none => b.deliverResponse printJson id value
    | some id, some method =>
      if id ∈ b.pending then b.deliverResponse printJson id value
      else b.notify (.classify method (paramsOf value) registry)
    | none, some method => b.notify (.classify method (paramsOf value) registry)
    | none, none => b

end

/-! ## Steps -/

inductive Action where
  | allocate
  | register (call : ℕ)
  | written (call : ℕ)
  | writeFails (call : ℕ) (error : BackendError)
  | receive (value : Json)
  | readerEnds
  | takeResponse (call : ℕ)
  | senderGone (call : ℕ)

def allocate (kind : BackendKind) (b : Backend) : Backend :=
  { b with
    nextId := b.nextId + 1
    calls := b.calls ++ [⟨requestId kind (b.nextId + 1), .allocated, none⟩] }

def finish (b : Backend) (i : ℕ) (c : Call) (response : Response) : Backend :=
  { b.put i { c with phase := .done response } with
    completed := b.completed ++ [(i, response)] }

/-- A write fails with an I/O error, or, with a writer task between, because that task is
gone. -/
def WriteError (kind : BackendKind) : BackendError → Prop
  | .transport _ => True
  | .closed => kind ≠ .process
  | .rejected _ => False

instance instDecidableWriteError (kind : BackendKind) (e : BackendError) :
    Decidable (WriteError kind e) := by
  cases e <;> unfold WriteError <;> infer_instance

def stepOption (printJson : Json → Text) (kind : BackendKind) (registry : KnownVariantRegistry)
    (b : Backend) : Action → Option Backend
  | .allocate => some (b.allocate kind)
  | .register i =>
    match b.calls[i]? with
    | some ⟨id, .allocated, received⟩ =>
      some { b.put i ⟨id, .writing, received⟩ with pending := b.pending.insert id i }
    | _ => none
  | .written i =>
    match b.calls[i]? with
    | some ⟨id, .writing, received⟩ => some (b.put i ⟨id, .waiting, received⟩)
    | _ => none
  | .writeFails i error =>
    match b.calls[i]? with
    | some ⟨id, .writing, received⟩ =>
      if WriteError kind error then some (b.finish i ⟨id, .writing, received⟩ (.error error))
      else none
    | _ => none
  | .receive value =>
    if b.readerEnded then none
    else some (dispatchIncoming printJson kind registry
      { b with inbound := b.inbound ++ [value] } value)
  | .readerEnds => if b.readerEnded then none else some { b with readerEnded := true }
  | .takeResponse i =>
    match b.calls[i]? with
    | some ⟨id, .waiting, some response⟩ =>
      some (b.finish i ⟨id, .waiting, some response⟩ response)
    | _ => none
  | .senderGone i =>
    match b.calls[i]? with
    | some ⟨id, .waiting, none⟩ =>
      if b.pending.lookup id = some i then none
      else some (b.finish i ⟨id, .waiting, none⟩ (.error .closed))
    | _ => none

def step (printJson : Json → Text) (kind : BackendKind) (registry : KnownVariantRegistry)
    (b : Backend) (action : Action) : Except Unit Backend :=
  match b.stepOption printJson kind registry action with
  | some b' => .ok b'
  | none => .error ()

theorem step_eq_ok {printJson : Json → Text} {kind : BackendKind} {registry : KnownVariantRegistry}
    {b b' : Backend} {action : Action} : b.step printJson kind registry action = .ok b' ↔
      b.stepOption printJson kind registry action = some b' := by
  unfold step
  cases b.stepOption printJson kind registry action <;> simp

end Backend

end Codex.AgentBackend
