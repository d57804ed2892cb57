import Codex.AgentJobs.Store
import Codex.Foundation.Run
import Codex.Foundation.Table

/-!
# The runner of an agent job

One runner works through the items of a job while its workers report results and end. The
step of the world is one call of the store, or one choice of what lies outside: which thread
a spawn gives, which workers have ended or run too long, when a call of the store fails.

Few of the steps touch the items of the job, and each of those sets one row. `step_cases`
says once which they are.
-/

namespace Codex.AgentJobs

open Foundation

variable {ρ : Type}

/-! ## Where the runner stands -/

structure JobRunnerOptions where
  jobId : Text
  maxConcurrency : ℕ
  runtimeTimeout : Text

inductive Pc (ρ : Type) where
  | created
  | recovering
  | starting
  | top
  | listing
  | spawning (rest : List (AgentJobItem ρ))
  | assigning (item : AgentJobItem ρ) (threadId : ThreadId) (rest : List (AgentJobItem ρ))
  | requeueing (item : AgentJobItem ρ)
  | recording (item : AgentJobItem ρ) (err : Text) (rest : List (AgentJobItem ρ))
  | staling
  | reaping (stale : List (ThreadId × Text))
  | finding
  | checking
  | finalizing (finished : List (ThreadId × Text))
  | settling (threadId : ThreadId) (itemId : Text) (hasResult : Bool)
      (finished : List (ThreadId × Text))
  | exporting
  | exportFailed (err : Text)
  | closing
  | completing
  | emitting
  | failing (err : Text)
  | ended

/-- The call may fail, and then the loop returns its error. -/
def Pc.fallible : Pc ρ → Bool
  | .recovering | .starting | .top | .listing | .spawning (_ :: _) | .assigning .. | .requeueing _
  | .recording .. | .reaping (_ :: _) | .checking | .finalizing (_ :: _) | .settling .. | .exporting
  | .exportFailed _ | .closing | .completing | .emitting => true
  | .created | .spawning [] | .staling | .reaping [] | .finding | .finalizing [] | .failing _
  | .ended => false

inductive Outcome where
  | next
  | started (threadId : ThreadId)
  | agentLimitReached
  | error (err : Text)
  /-- The items whose workers have run too long, in any order. -/
  | stale (items : List (ThreadId × Text))
  /-- The items whose workers have ended, in any order. -/
  | finished (items : List (ThreadId × Text))
  | dropped
deriving DecidableEq

structure Answer (ρ : Type) where
  threadId : ThreadId
  itemId : Text
  result : ρ
  accepted : Bool

structure World (ρ : Type) where
  clock : ℤ
  store : StateRuntime ρ
  pc : Pc ρ
  activeItems : Table ThreadId Text
  cancelRequested : Bool
  /-- The threads that have been started, and those of them that have ended. -/
  threads : List ThreadId
  terminated : List ThreadId
  /-- Accepted reports whose request to stop is still to be written. -/
  stopping : ℕ
  /-- The worker started last for each item, unless the item was requeued since. -/
  attempts : Table Text ThreadId
  answers : List (Answer ρ)
  /-- The items workers were to be started for, and what came of it. -/
  spawns : List (Text × Outcome)
  /-- A cancellation has had effect. -/
  cancelled : Bool

def start (now : ℤ) (items : List AgentJobItemCreateParams)
    (h : (items.map AgentJobItemCreateParams.itemId).Nodup) : World ρ where
  clock := now
  store := StateRuntime.createAgentJob now items h
  pc := .created
  activeItems := ∅
  cancelRequested := false
  threads := []
  terminated := []
  stopping := 0
  attempts := ∅
  answers := []
  spawns := []
  cancelled := false

/-! ## The steps of the runner -/

open StateRuntime

namespace World

def workersEnded (w : World ρ) : List (ThreadId × Text) :=
  (w.activeItems.entries.map fun e => (e.1, e.2)).filter fun e => w.terminated.contains e.1

def dismiss (w : World ρ) (threadId : ThreadId) : World ρ :=
  { w with
    terminated := threadId :: w.terminated
    activeItems := w.activeItems.erase threadId }

def passEnded (w : World ρ) : Pc ρ :=
  let progress := getAgentJobProgress w.store
  if w.cancelRequested then
    if progress.runningItems = 0 ∧ w.activeItems.entries = [] then .exporting else .top
  else if progress.pendingItems = 0 ∧ progress.runningItems = 0 ∧ w.activeItems.entries = [] then
    .exporting
  else .top

def assign (w : World ρ) (item : AgentJobItem ρ) (threadId : ThreadId)
    (rest : List (AgentJobItem ρ)) : World ρ :=
  let (store, assigned) := markAgentJobItemRunningWithThread w.clock item.itemId threadId w.store
  if assigned then
    { w with
      store
      activeItems := w.activeItems.insert threadId item.itemId
      pc := .spawning rest }
  else { w with store, terminated := threadId :: w.terminated, pc := .spawning rest }

def requeue (w : World ρ) (item : AgentJobItem ρ) : World ρ :=
  let (store, requeued) := markAgentJobItemPending w.clock item.itemId none w.store
  { w with
    store
    attempts := if requeued then w.attempts.erase item.itemId else w.attempts
    pc := .staling }

def recordSpawnFailure (w : World ρ) (item : AgentJobItem ρ) (err : Text)
    (rest : List (AgentJobItem ρ)) : World ρ :=
  { w with
    store := (markAgentJobItemFailed w.clock item.itemId
      ("failed to spawn worker: ".toList ++ err) w.store).1
    pc := .spawning rest }

def reap (w : World ρ) (options : JobRunnerOptions) (threadId : ThreadId) (itemId : Text)
    (rest : List (ThreadId × Text)) : World ρ :=
  dismiss { w with
    store := (markAgentJobItemFailed w.clock itemId
      ("worker exceeded max runtime of ".toList ++ options.runtimeTimeout) w.store).1
    pc := .reaping rest } threadId

def readFinished (w : World ρ) (options : JobRunnerOptions) (threadId : ThreadId) (itemId : Text)
    (rest : List (ThreadId × Text)) : World ρ :=
  match getAgentJobItem itemId w.store with
  | none =>
    { w with pc := .failing ("job item not found for finalization: ".toList ++ options.jobId ++
        "/".toList ++ itemId) }
  | some item =>
    if item.status = .running then
      { w with pc := .settling threadId itemId item.resultJson.isSome rest }
    else dismiss { w with pc := .finalizing rest } threadId

def settle (w : World ρ) (threadId : ThreadId) (itemId : Text) (hasResult : Bool)
    (rest : List (ThreadId × Text)) : World ρ :=
  dismiss { w with
    store :=
      if hasResult then (markAgentJobItemCompleted w.clock itemId w.store).1
      else (markAgentJobItemFailed w.clock itemId
        "worker finished without calling report_agent_job_result".toList w.store).1
    pc := .finalizing rest } threadId

end World

def advance (options : JobRunnerOptions) (w : World ρ) (outcome : Outcome) :
    Except Unit (World ρ) :=
  match w.pc, outcome with
  | .created, .next =>
    .ok { w with store := markAgentJobRunning w.clock w.store, pc := .recovering }
  | .created, .error err =>
    .ok { w with store := markAgentJobFailed w.clock err w.store, pc := .ended }
  | .recovering, .next =>
    -- a job that has just been created has no running items to recover
    if listAgentJobItems .running w.store = [] then .ok { w with pc := .starting } else .error ()
  | .starting, .next =>
    .ok { w with cancelRequested := isAgentJobCancelled w.store, pc := .top }
  | .top, .next =>
    .ok { w with
      cancelRequested := w.cancelRequested || isAgentJobCancelled w.store, pc := .listing }
  | .listing, .next =>
    if !w.cancelRequested && w.activeItems.keys.length < options.maxConcurrency then
      .ok { w with pc := .spawning ((listAgentJobItems .pending w.store).take
        (options.maxConcurrency - w.activeItems.keys.length)) }
    else .ok { w with pc := .staling }
  | .spawning [], .next => .ok { w with pc := .staling }
  | .spawning (item :: rest), .started threadId =>
    if threadId ∈ w.threads then .error ()
    else .ok { w with
      threads := threadId :: w.threads
      attempts := w.attempts.insert item.itemId threadId
      spawns := (item.itemId, .started threadId) :: w.spawns
      pc := .assigning item threadId rest }
  | .spawning (item :: _), .agentLimitReached =>
    .ok { w with
      spawns := (item.itemId, .agentLimitReached) :: w.spawns, pc := .requeueing item }
  | .spawning (item :: rest), .error err =>
    .ok { w with spawns := (item.itemId, .error err) :: w.spawns, pc := .recording item err rest }
  | .assigning item threadId rest, .next => .ok (w.assign item threadId rest)
  | .requeueing item, .next => .ok (w.requeue item)
  | .recording item err rest, .next => .ok (w.recordSpawnFailure item err rest)
  | .staling, .stale items =>
    if (items.map Prod.fst).Nodup ∧ ∀ e ∈ items, w.activeItems.lookup e.1 = some e.2 then
      .ok { w with pc := .reaping items }
    else .error ()
  | .reaping [], .next => .ok { w with pc := .finding }
  | .reaping ((threadId, itemId) :: rest), .next => .ok (w.reap options threadId itemId rest)
  | .finding, .finished items =>
    if items.Perm w.workersEnded then
      .ok { w with pc := if items = [] then .checking else .finalizing items }
    else .error ()
  | .checking, .next => .ok { w with pc := w.passEnded }
  | .finalizing [], .next => .ok { w with pc := .top }
  | .finalizing ((threadId, itemId) :: rest), .next => .ok (w.readFinished options threadId itemId rest)
  | .settling threadId itemId hasResult rest, .next =>
    .ok (w.settle threadId itemId hasResult rest)
  | .exporting, .next => .ok { w with pc := .closing }
  | .exporting, .error err => .ok { w with pc := .exportFailed err }
  | .exportFailed err, .next =>
    .ok { w with
      store := markAgentJobFailed w.clock ("auto-export failed: ".toList ++ err) w.store
      pc := .ended }
  | .closing, .next =>
    if w.cancelRequested || isAgentJobCancelled w.store then
      .ok { w with pc := .emitting }
    else .ok { w with pc := .completing }
  | .completing, .next =>
    .ok { w with store := markAgentJobCompleted w.clock w.store, pc := .emitting }
  | .emitting, .next => .ok { w with pc := .ended }
  | .failing err, .next =>
    .ok { w with
      store := markAgentJobFailed w.clock ("job runner failed: ".toList ++ err) w.store
      pc := .ended }
  | .failing _, .dropped => .ok { w with pc := .ended }
  | _, _ => .error ()

inductive Act (ρ : Type) where
  | tick (now : ℤ)
  | advance (outcome : Outcome)
  | fail (err : Text)
  /-- Any thread may report for any item. -/
  | report (threadId : ThreadId) (itemId : Text) (result : ρ) (stop : Bool)
  /-- The second call of a report that was accepted and asks for a stop. -/
  | cancel
  | terminate (threadId : ThreadId)

namespace World

def accepts (w : World ρ) (threadId : ThreadId) (itemId : Text) (result : ρ) : Bool :=
  (reportAgentJobItemResult w.clock itemId threadId result w.store).2

def report (w : World ρ) (threadId : ThreadId) (itemId : Text) (result : ρ) (stop : Bool) :
    World ρ :=
  { w with
    store := (reportAgentJobItemResult w.clock itemId threadId result w.store).1
    answers := ⟨threadId, itemId, result, w.accepts threadId itemId result⟩ :: w.answers
    stopping := if w.accepts threadId itemId result && stop then w.stopping + 1 else w.stopping }

def cancel (w : World ρ) : World ρ :=
  let (store, cancelled) :=
    markAgentJobCancelled w.clock "cancelled by worker request".toList w.store
  { w with store, stopping := w.stopping - 1, cancelled := w.cancelled || cancelled }

end World

def step (options : JobRunnerOptions) (w : World ρ) : Act ρ → Except Unit (World ρ)
  | .tick now => .ok { w with clock := now }
  | .advance outcome => advance options w outcome
  | .fail err => if w.pc.fallible then .ok { w with pc := .failing err } else .error ()
  | .report threadId itemId result stop => .ok (w.report threadId itemId result stop)
  | .cancel => if 0 < w.stopping then .ok w.cancel else .error ()
  | .terminate threadId => .ok { w with terminated := threadId :: w.terminated }

/-! ## What a step does to the items -/

variable {options : JobRunnerOptions} {w v : World ρ} {a : Act ρ}

@[simp] theorem requeue_store (w : World ρ) (item : AgentJobItem ρ) :
    (w.requeue item).store = (markAgentJobItemPending w.clock item.itemId none w.store).1 := rfl

variable (threadId : ThreadId)

@[simp] theorem report_store (w : World ρ) (itemId : Text) (result : ρ) (stop : Bool) :
    (w.report threadId itemId result stop).store =
      (reportAgentJobItemResult w.clock itemId threadId result w.store).1 := rfl

def Pc.queue : Pc ρ → List (AgentJobItem ρ)
  | .spawning rest => rest
  | .assigning item _ rest | .recording item _ rest => item :: rest
  | .requeueing item => [item]
  | _ => []

structure Quiet (w v : World ρ) : Prop where
  items : v.store.items = w.store.items
  attempts : v.attempts = w.attempts
  answers : v.answers = w.answers
  queue : v.pc.queue.Sublist w.pc.queue
  assigning : ∀ item threadId rest, v.pc = .assigning item threadId rest → v.pc = w.pc

structure Sets (w v : World ρ) (store : StateRuntime ρ) : Prop where
  items : v.store.items = store.items
  attempts : v.attempts = w.attempts
  answers : v.answers = w.answers
  queue : v.pc.queue.Sublist w.pc.queue
  assigning : ∀ item threadId rest, v.pc = .assigning item threadId rest → v.pc = w.pc

variable (w a v) in
inductive Stepped : Prop where
  | quiet (h : Quiet w v)
  | listed (hpc : w.pc = .listing) (hcancel : w.cancelRequested = false)
      (hitems : v.store.items = w.store.items) (hattempts : v.attempts = w.attempts)
      (hanswers : v.answers = w.answers)
      (hqueue : v.pc.queue.Sublist (listAgentJobItems .pending w.store))
      (hassigning : ∀ item threadId rest, v.pc ≠ .assigning item threadId rest)
  | begun (item : AgentJobItem ρ) (threadId : ThreadId) (rest : List (AgentJobItem ρ))
      (hpc : w.pc = .spawning (item :: rest)) (hitems : v.store.items = w.store.items)
      (hattempts : v.attempts = w.attempts.insert item.itemId threadId)
      (hanswers : v.answers = w.answers) (hnext : v.pc = .assigning item threadId rest)
  | assigned (item : AgentJobItem ρ) (threadId : ThreadId) (rest : List (AgentJobItem ρ))
      (hpc : w.pc = .assigning item threadId rest)
      (h : Sets w v (markAgentJobItemRunningWithThread w.clock item.itemId threadId w.store).1)
      (hqueue : v.pc.queue = rest)
  | requeued (item : AgentJobItem ρ) (hpc : w.pc = .requeueing item) (h : v = w.requeue item)
  | failed (itemId : Text) (err : Text)
      (hmessage : (∃ item e rest, w.pc = .recording item e rest ∧ item.itemId = itemId) ∨
        err.head? = some 'w')
      (h : Sets w v (markAgentJobItemFailed w.clock itemId err w.store).1)
  | completed (itemId : Text) (h : Sets w v (markAgentJobItemCompleted w.clock itemId w.store).1)
  | reported (threadId : ThreadId) (itemId : Text) (result : ρ) (stop : Bool)
      (ha : a = .report threadId itemId result stop) (h : v = w.report threadId itemId result stop)

theorem quiet_pc {w' : World ρ} (hitems : w'.store.items = w.store.items)
    (hattempts : w'.attempts = w.attempts) (hanswers : w'.answers = w.answers)
    (hqueue : w'.pc.queue.Sublist w.pc.queue)
    (hassigning : ∀ item threadId rest, w'.pc ≠ .assigning item threadId rest) : Stepped w w' a :=
  .quiet ⟨hitems, hattempts, hanswers, hqueue,
    fun item threadId rest h => absurd h (hassigning item threadId rest)⟩

theorem sets_pc {w' : World ρ} {store : StateRuntime ρ} (hitems : w'.store.items = store.items)
    (hattempts : w'.attempts = w.attempts) (hanswers : w'.answers = w.answers)
    (hqueue : w'.pc.queue.Sublist w.pc.queue)
    (hassigning : ∀ item threadId rest, w'.pc ≠ .assigning item threadId rest) : Sets w w' store :=
  ⟨hitems, hattempts, hanswers, hqueue,
    fun item threadId rest h => absurd h (hassigning item threadId rest)⟩

theorem passEnded_cases (w : World ρ) : w.passEnded = .exporting ∨ w.passEnded = .top := by
  unfold World.passEnded
  dsimp only
  split
  · split
    · exact .inl rfl
    · exact .inr rfl
  · split
    · exact .inl rfl
    · exact .inr rfl

theorem readFinished_quiet (itemId : Text) (rest : List (ThreadId × Text)) :
    Stepped w (w.readFinished options threadId itemId rest) a := by
  unfold World.readFinished
  split
  · exact quiet_pc rfl rfl rfl (List.nil_sublist _) (by simp)
  · split
    · exact quiet_pc rfl rfl rfl (List.nil_sublist _) (by simp)
    · exact quiet_pc rfl rfl rfl (List.nil_sublist _) (by simp [World.dismiss])

theorem assign_stepped {item : AgentJobItem ρ} {threadId : ThreadId} {rest : List (AgentJobItem ρ)}
    (hpc : w.pc = .assigning item threadId rest) : Stepped w (w.assign item threadId rest) a := by
  refine .assigned item threadId rest hpc ?_ ?_
  · unfold World.assign
    dsimp only
    split
    · exact sets_pc rfl rfl rfl (by simp [Pc.queue, hpc]) (by simp)
    · exact sets_pc rfl rfl rfl (by simp [Pc.queue, hpc]) (by simp)
  · unfold World.assign
    dsimp only
    split
    · rfl
    · rfl

theorem settle_stepped (itemId : Text) (hasResult : Bool) (rest : List (ThreadId × Text)) :
    Stepped w (w.settle threadId itemId hasResult rest) a := by
  unfold World.settle
  cases hasResult with
  | false =>
    exact .failed itemId _ (.inr rfl)
      (sets_pc rfl rfl rfl (List.nil_sublist _) (by simp [World.dismiss]))
  | true => exact .completed itemId (sets_pc rfl rfl rfl (List.nil_sublist _) (by simp [World.dismiss]))

theorem advance_cases {outcome : Outcome} (h : advance options w outcome = .ok v) :
    Stepped w v a := by
  have hempty : ∀ w' : World ρ, Except.ok (ε := Unit) w' = .ok v → w'.store.items = w.store.items →
      w'.attempts = w.attempts → w'.answers = w.answers → w'.pc.queue = [] →
      (∀ item threadId rest, w'.pc ≠ .assigning item threadId rest) → Stepped w v a := by
    intro w' hv hitems hattempts hanswers hqueue hassigning
    cases hv
    exact quiet_pc hitems hattempts hanswers (by rw [hqueue]; exact List.nil_sublist _) hassigning
  unfold advance at h
  split at h
  · exact hempty _ h rfl rfl rfl rfl (by simp)
  · exact hempty _ h rfl rfl rfl rfl (by simp)
  · split at h
    · exact hempty _ h rfl rfl rfl rfl (by simp)
    · cases h
  · exact hempty _ h rfl rfl rfl rfl (by simp)
  · exact hempty _ h rfl rfl rfl rfl (by simp)
  · next hpc =>
    split at h
    · next hopen =>
      cases h
      have hcancel : w.cancelRequested = false := by
        simpa using (Bool.and_eq_true_iff.mp hopen).1
      exact .listed hpc hcancel rfl rfl rfl (List.take_sublist _ _) (by simp)
    · exact hempty _ h rfl rfl rfl rfl (by simp)
  · exact hempty _ h rfl rfl rfl rfl (by simp)
  · next item rest threadId hpc =>
    split at h
    · cases h
    · cases h
      exact .begun item threadId rest hpc rfl rfl rfl rfl
  · next item rest hpc =>
    cases h
    exact quiet_pc rfl rfl rfl (by simp [Pc.queue, hpc]) (by simp)
  · next item rest err hpc =>
    cases h
    exact quiet_pc rfl rfl rfl (by simp [Pc.queue, hpc]) (by simp)
  · next item threadId rest hpc =>
    cases h
    exact assign_stepped hpc
  · next item hpc =>
    cases h
    exact .requeued item hpc rfl
  · next item err rest hpc =>
    cases h
    exact .failed item.itemId _ (.inl ⟨item, err, rest, hpc, rfl⟩) (sets_pc rfl rfl rfl
      (by simp [Pc.queue, hpc, World.recordSpawnFailure]) (by simp [World.recordSpawnFailure]))
  · split at h
    · exact hempty _ h rfl rfl rfl rfl (by simp)
    · cases h
  · exact hempty _ h rfl rfl rfl rfl (by simp)
  · cases h
    exact .failed _ _ (.inr rfl)
      (sets_pc rfl rfl rfl (List.nil_sublist _) (by simp [World.reap, World.dismiss]))
  · split at h
    · split at h
      · exact hempty _ h rfl rfl rfl rfl (by simp)
      · exact hempty _ h rfl rfl rfl rfl (by simp)
    · cases h
  · rcases passEnded_cases w with hend | hend
    · exact hempty _ h rfl rfl rfl (by simp [hend, Pc.queue]) (by simp [hend])
    · exact hempty _ h rfl rfl rfl (by simp [hend, Pc.queue]) (by simp [hend])
  · exact hempty _ h rfl rfl rfl rfl (by simp)
  · cases h
    exact readFinished_quiet _ _ _
  · cases h
    exact settle_stepped _ _ _ _
  · exact hempty _ h rfl rfl rfl rfl (by simp)
  · exact hempty _ h rfl rfl rfl rfl (by simp)
  · exact hempty _ h rfl rfl rfl rfl (by simp)
  · split at h
    · exact hempty _ h rfl rfl rfl rfl (by simp)
    · exact hempty _ h rfl rfl rfl rfl (by simp)
  · exact hempty _ h rfl rfl rfl rfl (by simp)
  · exact hempty _ h rfl rfl rfl rfl (by simp)
  · exact hempty _ h rfl rfl rfl rfl (by simp)
  · exact hempty _ h rfl rfl rfl rfl (by simp)
  · cases h

theorem step_cases (h : step options w a = .ok v) : Stepped w v a := by
  cases a with
  | tick now =>
    cases h
    exact .quiet ⟨rfl, rfl, rfl, .refl _, fun _ _ _ _ => rfl⟩
  | advance outcome => exact advance_cases h
  | fail err =>
    dsimp only [step] at h
    split at h
    · cases h
      exact quiet_pc rfl rfl rfl (List.nil_sublist _) (by simp)
    · cases h
  | report threadId itemId result stop =>
    cases h
    exact .reported threadId itemId result stop rfl rfl
  | cancel =>
    dsimp only [step] at h
    split at h
    · cases h
      refine .quiet ⟨?_, rfl, rfl, .refl _, fun _ _ _ _ => rfl⟩
      unfold World.cancel markAgentJobCancelled
      dsimp only
      split
      · rfl
      · rfl
    · cases h
  | terminate threadId =>
    cases h
    exact .quiet ⟨rfl, rfl, rfl, .refl _, fun _ _ _ _ => rfl⟩

end Codex.AgentJobs
