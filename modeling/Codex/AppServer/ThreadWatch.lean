import Codex.Foundation.Table
import Codex.Foundation.Text
import Codex.Foundation.Run
import Mathlib.Algebra.Group.Nat.Defs

/-!
# The status of threads and its watch

What is known of each thread at runtime, and the status that follows from it. Each
operation returns the notification that the change calls for.

An operation changes the state under the lock, and sends what it has found there after it
has given the lock up. A guard that is dropped is released by a task of its own.
-/

namespace Codex.AppServer

open Foundation

inductive ThreadActiveFlag where
  | waitingOnApproval
  | waitingOnUserInput
deriving DecidableEq

inductive ThreadStatus where
  | notLoaded
  | idle
  | systemError
  | active (activeFlags : List ThreadActiveFlag)
deriving DecidableEq

structure ThreadStatusChanged where
  threadId : Text
  status : ThreadStatus
deriving DecidableEq

inductive GuardType where
  | permission
  | userInput
deriving DecidableEq

def GuardType.flag : GuardType → ThreadActiveFlag
  | .permission => .waitingOnApproval
  | .userInput => .waitingOnUserInput

/-! ## Runtime facts -/

def u32Max : ℕ := 2 ^ 32 - 1

/-- The counters are 32 bits wide and saturate. -/
structure RuntimeFacts where
  isLoaded : Bool := false
  running : Bool := false
  pendingPermissionRequests : ℕ := 0
  pendingUserInputRequests : ℕ := 0
  hasSystemError : Bool := false
deriving DecidableEq

namespace RuntimeFacts

def pending (r : RuntimeFacts) : GuardType → ℕ
  | .permission => r.pendingPermissionRequests
  | .userInput => r.pendingUserInputRequests

def setPending (r : RuntimeFacts) (n : ℕ) : GuardType → RuntimeFacts
  | .permission => { r with pendingPermissionRequests := n }
  | .userInput => { r with pendingUserInputRequests := n }

def load (r : RuntimeFacts) : RuntimeFacts := { r with isLoaded := true }

def turnStarted (r : RuntimeFacts) : RuntimeFacts :=
  { r with isLoaded := true, running := true, hasSystemError := false }

def clearActiveState (r : RuntimeFacts) : RuntimeFacts :=
  { r with running := false, pendingPermissionRequests := 0, pendingUserInputRequests := 0 }

def threadShutdown (r : RuntimeFacts) : RuntimeFacts :=
  { r with
    running := false
    pendingPermissionRequests := 0
    pendingUserInputRequests := 0
    isLoaded := false }

def systemError (r : RuntimeFacts) : RuntimeFacts :=
  { r with
    running := false
    pendingPermissionRequests := 0
    pendingUserInputRequests := 0
    hasSystemError := true }

def requested (guardType : GuardType) (r : RuntimeFacts) : RuntimeFacts :=
  let r := { r with isLoaded := true }
  r.setPending (min (r.pending guardType + 1) u32Max) guardType

def released (guardType : GuardType) (r : RuntimeFacts) : RuntimeFacts :=
  r.setPending (r.pending guardType - 1) guardType

end RuntimeFacts

def loadedThreadStatus (runtime : RuntimeFacts) : ThreadStatus :=
  if runtime.isLoaded = false then .notLoaded
  else
    let activeFlags :=
      (if runtime.pendingPermissionRequests > 0 then [.waitingOnApproval] else []) ++
        (if runtime.pendingUserInputRequests > 0 then [.waitingOnUserInput] else [])
    if runtime.running = true ∨ activeFlags ≠ [] then .active activeFlags
    else if runtime.hasSystemError then .systemError
    else .idle

/-! ## The state behind the lock -/

structure Watcher where
  current : ThreadStatus
  receivers : ℕ
deriving DecidableEq

structure ThreadWatchState where
  runtimeByThreadId : Table Text RuntimeFacts := ∅
  statusWatcherByThreadId : Table Text Watcher := ∅

namespace ThreadWatchState

def statusFor (s : ThreadWatchState) (threadId : Text) : Option ThreadStatus :=
  (s.runtimeByThreadId.lookup threadId).map loadedThreadStatus

def loadedStatusForThread (s : ThreadWatchState) (threadId : Text) : ThreadStatus :=
  (s.statusFor threadId).getD .notLoaded

/-- Every update looks at the receivers afterwards, and a sender that has none is dropped. -/
def updateStatusWatcher (s : ThreadWatchState) (threadId : Text) (status : ThreadStatus) :
    ThreadWatchState :=
  match s.statusWatcherByThreadId.lookup threadId with
  | none => s
  | some sender =>
    { s with
      statusWatcherByThreadId :=
        if sender.receivers = 0 then s.statusWatcherByThreadId.erase threadId
        else s.statusWatcherByThreadId.insert threadId { sender with current := status } }

def updateStatusWatcherForThread (s : ThreadWatchState) (threadId : Text) : ThreadWatchState :=
  s.updateStatusWatcher threadId (s.loadedStatusForThread threadId)

def statusChangedNotification (s : ThreadWatchState) (threadId : Text)
    (previousStatus : Option ThreadStatus) : Option ThreadStatusChanged :=
  match s.statusFor threadId with
  | none => none
  | some status => if previousStatus = some status then none else some ⟨threadId, status⟩

def upsertThread (s : ThreadWatchState) (threadId : Text) (emitNotification : Bool) :
    ThreadWatchState × Option ThreadStatusChanged :=
  let previousStatus := s.statusFor threadId
  let runtime := (s.runtimeByThreadId.lookup threadId).getD {}
  let s := { s with runtimeByThreadId := s.runtimeByThreadId.insert threadId runtime.load }
  let s := s.updateStatusWatcherForThread threadId
  (s, if emitNotification then s.statusChangedNotification threadId previousStatus else none)

def removeThread (s : ThreadWatchState) (threadId : Text) :
    ThreadWatchState × Option ThreadStatusChanged :=
  let previousStatus := s.statusFor threadId
  let s := { s with runtimeByThreadId := s.runtimeByThreadId.erase threadId }
  let s := s.updateStatusWatcher threadId .notLoaded
  (s, if previousStatus ≠ none ∧ previousStatus ≠ some .notLoaded then
    some ⟨threadId, .notLoaded⟩ else none)

def updateRuntime (s : ThreadWatchState) (threadId : Text) (mutate : RuntimeFacts → RuntimeFacts) :
    ThreadWatchState × Option ThreadStatusChanged :=
  let previousStatus := s.statusFor threadId
  let runtime := (s.runtimeByThreadId.lookup threadId).getD {}
  let s := { s with
    runtimeByThreadId := s.runtimeByThreadId.insert threadId (mutate runtime.load) }
  let s := s.updateStatusWatcherForThread threadId
  (s, s.statusChangedNotification threadId previousStatus)

def subscribe (s : ThreadWatchState) (threadId : Text) : ThreadWatchState :=
  let sender := (s.statusWatcherByThreadId.lookup threadId).getD
    ⟨s.loadedStatusForThread threadId, 0⟩
  { s with
    statusWatcherByThreadId := s.statusWatcherByThreadId.insert threadId
      { sender with receivers := sender.receivers + 1 } }

def unsubscribe (s : ThreadWatchState) (threadId : Text) : ThreadWatchState :=
  match s.statusWatcherByThreadId.lookup threadId with
  | none => s
  | some sender =>
    { s with
      statusWatcherByThreadId := s.statusWatcherByThreadId.insert threadId
        { sender with receivers := sender.receivers - 1 } }

def runningTurnCount (s : ThreadWatchState) : ℕ :=
  total (fun runtime => if runtime.running then 1 else 0) s.runtimeByThreadId

/-! ## What the operations do -/

def facts (s : ThreadWatchState) (threadId : Text) : RuntimeFacts :=
  (s.runtimeByThreadId.lookup threadId).getD {}

variable {s : ThreadWatchState} {threadId : Text} (s : ThreadWatchState)

theorem loadedStatus_facts (threadId : Text) :
    s.loadedStatusForThread threadId = loadedThreadStatus (s.facts threadId) := by
  unfold loadedStatusForThread statusFor facts
  cases s.runtimeByThreadId.lookup threadId with
  | none | some runtime => rfl

@[simp] theorem runtime_updateStatusWatcher (threadId : Text) (status : ThreadStatus) :
    (s.updateStatusWatcher threadId status).runtimeByThreadId = s.runtimeByThreadId := by
  unfold updateStatusWatcher
  cases s.statusWatcherByThreadId.lookup threadId <;> rfl

theorem facts_upsertThread (threadId : Text) (emitNotification : Bool) (threadId' : Text) :
    (s.upsertThread threadId emitNotification).1.facts threadId' =
      if threadId' = threadId then (s.facts threadId).load else s.facts threadId' := by
  simp only [upsertThread, updateStatusWatcherForThread, facts, runtime_updateStatusWatcher,
    lookup_insert_ite]
  by_cases h : threadId' = threadId <;> simp [h]

theorem facts_removeThread (threadId threadId' : Text) :
    (s.removeThread threadId).1.facts threadId' =
      if threadId' = threadId then {} else s.facts threadId' := by
  simp only [removeThread, facts, runtime_updateStatusWatcher, lookup_erase_ite]
  by_cases h : threadId' = threadId <;> simp [h]

theorem facts_updateRuntime (threadId : Text) (mutate : RuntimeFacts → RuntimeFacts)
    (threadId' : Text) : (s.updateRuntime threadId mutate).1.facts threadId' =
      if threadId' = threadId then mutate (s.facts threadId).load else s.facts threadId' := by
  simp only [updateRuntime, updateStatusWatcherForThread, facts, runtime_updateStatusWatcher,
    lookup_insert_ite]
  by_cases h : threadId' = threadId <;> simp [h]

/-- A notification carries the new status of the thread, and where there is none the status
is as it was. -/
def Announces (s s' : ThreadWatchState) (threadId : Text) (n : Option ThreadStatusChanged) :
    Prop :=
  n = some ⟨threadId, s'.loadedStatusForThread threadId⟩ ∨
    n = none ∧ s'.loadedStatusForThread threadId = s.loadedStatusForThread threadId

theorem announces_statusChanged {s s' : ThreadWatchState} {runtime : RuntimeFacts}
    (h : s'.runtimeByThreadId.lookup threadId = some runtime) :
    Announces s s' threadId (s'.statusChangedNotification threadId (s.statusFor threadId)) := by
  have hstatus : s'.statusFor threadId = some (loadedThreadStatus runtime) := by
    rw [statusFor, h]
    rfl
  unfold Announces statusChangedNotification loadedStatusForThread
  rw [hstatus]
  by_cases hsame : s.statusFor threadId = some (loadedThreadStatus runtime)
  · simp [hsame]
  · simp [hsame]

theorem announces_upsertThread (threadId : Text) :
    Announces s (s.upsertThread threadId true).1 threadId (s.upsertThread threadId true).2 := by
  have hruntime : (s.upsertThread threadId true).1.runtimeByThreadId.lookup threadId =
      some (s.facts threadId).load := by
    simp [upsertThread, updateStatusWatcherForThread, facts]
  exact announces_statusChanged hruntime

theorem announces_updateRuntime (threadId : Text) (mutate : RuntimeFacts → RuntimeFacts) :
    Announces s (s.updateRuntime threadId mutate).1 threadId
      (s.updateRuntime threadId mutate).2 := by
  have hruntime : (s.updateRuntime threadId mutate).1.runtimeByThreadId.lookup threadId =
      some (mutate (s.facts threadId).load) := by
    simp [updateRuntime, updateStatusWatcherForThread, facts]
  exact announces_statusChanged hruntime

theorem announces_removeThread (threadId : Text) :
    Announces s (s.removeThread threadId).1 threadId (s.removeThread threadId).2 := by
  have hstatus : (s.removeThread threadId).1.loadedStatusForThread threadId = .notLoaded := by
    simp [removeThread, loadedStatusForThread, statusFor]
  unfold Announces
  rw [hstatus]
  unfold removeThread loadedStatusForThread
  cases hprevious : s.statusFor threadId with
  | none => simp
  | some status => by_cases hloaded : status = .notLoaded <;> simp [hloaded]

end ThreadWatchState

/-! ## The watch manager -/

structure Publication where
  runningTurnCount : Option ℕ
  notification : Option ThreadStatusChanged
deriving DecidableEq

def Publication.finished (p : Publication) : Prop :=
  p.runningTurnCount = none ∧ p.notification = none

instance finishedDecidable (p : Publication) : Decidable p.finished := instDecidableAnd

inductive GuardPhase where
  | held
  | dropped
  | released
deriving DecidableEq

/-- `operation` is the one that noted the request. The request is `current` until the turn
or the thread ends. -/
structure ThreadWatchActiveGuard where
  threadId : Text
  guardType : GuardType
  operation : ℕ
  phase : GuardPhase
  current : Bool
deriving DecidableEq

/-- The turn or the thread ends, and with it what was requested in it. -/
def ThreadWatchActiveGuard.endIn (ended : Text) (g : ThreadWatchActiveGuard) :
    ThreadWatchActiveGuard :=
  if g.threadId = ended then { g with current := false } else g

inductive ThreadOp where
  | upsert (threadId : Text) (emitNotification : Bool)
  | remove (threadId : Text)
  | turnStarted (threadId : Text)
  | turnCompleted (threadId : Text) (failed : Bool)
  | turnInterrupted (threadId : Text)
  | threadShutdown (threadId : Text)
  | systemError (threadId : Text)
  | requested (threadId : Text) (guardType : GuardType)
deriving DecidableEq

namespace ThreadOp

def threadId : ThreadOp → Text
  | .upsert threadId _ => threadId
  | .remove threadId => threadId
  | .turnStarted threadId => threadId
  | .turnCompleted threadId _ => threadId
  | .turnInterrupted threadId => threadId
  | .threadShutdown threadId => threadId
  | .systemError threadId => threadId
  | .requested threadId _ => threadId

def mutate (op : ThreadOp) (s : ThreadWatchState) :
    ThreadWatchState × Option ThreadStatusChanged :=
  match op with
  | .upsert threadId emitNotification => s.upsertThread threadId emitNotification
  | .remove threadId => s.removeThread threadId
  | .turnStarted threadId => s.updateRuntime threadId .turnStarted
  | .turnCompleted threadId _ => s.updateRuntime threadId .clearActiveState
  | .turnInterrupted threadId => s.updateRuntime threadId .clearActiveState
  | .threadShutdown threadId => s.updateRuntime threadId .threadShutdown
  | .systemError threadId => s.updateRuntime threadId .systemError
  | .requested threadId guardType => s.updateRuntime threadId (.requested guardType)

def ends : ThreadOp → Bool
  | .remove _ | .turnCompleted _ _ | .turnInterrupted _ | .threadShutdown _ | .systemError _ => true
  | _ => false

def unloads : ThreadOp → Option Bool
  | .remove _ | .threadShutdown _ => some true
  | .upsert _ _ | .turnStarted _ | .requested _ _ => some false
  | _ => none

end ThreadOp

/-- `operations` are in the order of their locked sections. `counts` are the values sent on
the watch channel, which keeps a value only while it has a receiver: the server subscribes
before it reads its first message and holds on to the receiver. The last two fields tell
which threads are unloaded, and whose status a silent upsert has changed since the last
notification. -/
structure ThreadWatchManager where
  state : ThreadWatchState
  outgoing : Bool
  operations : List Publication
  counts : List ℕ
  sent : List ThreadStatusChanged
  guards : List ThreadWatchActiveGuard
  unloaded : Text → Bool
  silenced : Text → Bool

inductive WatchAction where
  | call (op : ThreadOp)
  | drop (guard : ℕ)
  | release (guard : ℕ)
  | subscribe (threadId : Text)
  | unsubscribe (threadId : Text)
  | sendCount (operation : ℕ)
  | notify (operation : ℕ)

namespace ThreadWatchManager

def new (outgoing : Bool) : ThreadWatchManager :=
  ⟨{}, outgoing, [], [0], [], [], fun _ => false, fun _ => false⟩

/-- The locked section of `mutate_and_publish`. -/
def mutate (m : ThreadWatchManager)
    (result : ThreadWatchState × Option ThreadStatusChanged) : ThreadWatchManager :=
  { m with
    state := result.1
    operations := m.operations ++
      [⟨some result.1.runningTurnCount, if m.outgoing then result.2 else none⟩]
    silenced := fun threadId =>
      m.silenced threadId && decide (result.2.map (·.threadId) ≠ some threadId) }

def account (m : ThreadWatchManager) (op : ThreadOp) (noted : ℕ) : ThreadWatchManager :=
  { m with
    guards :=
      let guards :=
        if op.ends then m.guards.map (ThreadWatchActiveGuard.endIn op.threadId) else m.guards
      match op with
      | .requested threadId guardType => guards ++ [⟨threadId, guardType, noted, .held, true⟩]
      | _ => guards
    unloaded :=
      match op.unloads with
      | some unloaded => Function.update m.unloaded op.threadId unloaded
      | none => m.unloaded }

def call (m : ThreadWatchManager) (op : ThreadOp) : ThreadWatchManager :=
  let result := op.mutate m.state
  let m' := (m.mutate result).account op m.operations.length
  match op with
  | .upsert threadId false =>
    let changed := m.state.loadedStatusForThread threadId ≠ result.1.loadedStatusForThread threadId
    { m' with
      silenced := Function.update m'.silenced threadId (m.silenced threadId || decide changed) }
  | _ => m'

def setPhase (m : ThreadWatchManager) (guard : ℕ) (g : ThreadWatchActiveGuard)
    (phase : GuardPhase) : ThreadWatchManager :=
  { m with guards := m.guards.set guard { g with phase := phase } }

def release (m : ThreadWatchManager) (guard : ℕ) (g : ThreadWatchActiveGuard) :
    ThreadWatchManager :=
  (m.mutate (m.state.updateRuntime g.threadId (.released g.guardType))).setPhase guard g .released

def stepOption (m : ThreadWatchManager) : WatchAction → Option ThreadWatchManager
  | .call op => some (m.call op)
  | .drop guard =>
    match m.guards[guard]? with
    | none => none
    | some g =>
      -- the guard is made when the operation that noted the request has sent all it had to
      if g.phase = .held ∧ ∀ p, m.operations[g.operation]? = some p → p.finished then
        some (m.setPhase guard g .dropped)
      else none
  | .release guard =>
    match m.guards[guard]? with
    | none => none
    | some g => if g.phase = .dropped then some (m.release guard g) else none
  | .subscribe threadId => some { m with state := m.state.subscribe threadId }
  | .unsubscribe threadId => some { m with state := m.state.unsubscribe threadId }
  | .sendCount operation =>
    match m.operations[operation]? with
    | some ⟨some count, notification⟩ =>
      some { m with
        counts := m.counts ++ [count]
        operations := m.operations.set operation ⟨none, notification⟩ }
    | _ => none
  | .notify operation =>
    match m.operations[operation]? with
    | some ⟨none, some notification⟩ =>
      some { m with
        sent := m.sent ++ [notification]
        operations := m.operations.set operation ⟨none, none⟩ }
    | _ => none

def step (m : ThreadWatchManager) (action : WatchAction) : Except Unit ThreadWatchManager :=
  match m.stepOption action with
  | some m' => .ok m'
  | none => .error ()

end ThreadWatchManager

end Codex.AppServer
