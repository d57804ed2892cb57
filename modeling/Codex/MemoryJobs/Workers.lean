import Codex.Foundation.Rows
import Codex.Foundation.Table
import Codex.Foundation.Text
import Mathlib.Algebra.Order.Ring.Int

/-!
# Jobs of the memory pipeline and their workers

A job of the first stage for every thread, and one that consolidates what they put out. The
calls of the workers are transactions on the rows of the jobs and on the outputs, each given
the time it runs at.

Any number of workers make their calls, one at a time and in any order, while the clock goes
on. A claim that is granted gives a lease to the worker; its heartbeats extend it, and its
success or failure ends it. The leases given out and what was reported are history.
-/

namespace Codex.MemoryJobs

open Foundation

def defaultRetryRemaining : ℤ := 3

def phase2SuccessCooldownSeconds : ℤ := 6 * 60 * 60

def saturatingAdd (a b : ℤ) : ℤ := max (-9223372036854775808) (min (a + b) 9223372036854775807)

def saturatingSub (a b : ℤ) : ℤ := saturatingAdd a (-b)

/-! ## The tables -/

inductive JobKey where
  | stage1 (threadId : Text)
  | consolidateGlobal
deriving DecidableEq

inductive JobStatus where
  | pending
  | running
  | done
  | error
deriving DecidableEq

structure Job where
  key : JobKey
  status : JobStatus
  workerId : Option Text
  ownershipToken : Option Text
  startedAt : Option ℤ
  finishedAt : Option ℤ
  leaseUntil : Option ℤ
  retryAt : Option ℤ
  retryRemaining : ℤ
  lastError : Option Text
  inputWatermark : Option ℤ
  lastSuccessWatermark : Option ℤ
deriving DecidableEq

structure Stage1Output where
  sourceUpdatedAt : ℤ
  rawMemory : Text
  rolloutSummary : Text
  rolloutSlug : Option Text
  generatedAt : ℤ
  selectedForPhase2 : Bool
  selectedForPhase2SourceUpdatedAt : Option ℤ
deriving DecidableEq

structure StateRuntime where
  jobs : List Job
  distinct : (jobs.map Job.key).Nodup
  stage1Outputs : Table Text Stage1Output

namespace StateRuntime

def empty : StateRuntime := ⟨[], List.nodup_nil, ∅⟩

def job (key : JobKey) (s : StateRuntime) : Option Job := rowAt Job.key key s.jobs

/-- `UPDATE jobs SET … WHERE kind = ? AND job_key = ? AND …`, and whether a row was affected. -/
def updateJob (key : JobKey) (guard : Job → Bool) (set : Job → Job)
    (hset : ∀ row, (set row).key = row.key) (s : StateRuntime) : StateRuntime × Bool :=
  ({ s with
    jobs := (updateRowAt Job.key key guard set s.jobs).1
    distinct := by rw [keys_updateRowAt hset]; exact s.distinct },
    (updateRowAt Job.key key guard set s.jobs).2)

/-- `INSERT INTO jobs`, of a row whose key is not there. -/
def insertJob (row : Job) (s : StateRuntime) (h : s.job row.key = none) : StateRuntime :=
  { s with
    jobs := s.jobs ++ [row]
    distinct := by
      rw [List.map_append, List.map_singleton]
      refine List.nodup_append.mpr ⟨s.distinct, List.nodup_singleton _, ?_⟩
      intro key hkey key' hkey' heq
      obtain ⟨other, hother, rfl⟩ := List.mem_map.mp hkey
      rw [List.mem_singleton.mp hkey'] at heq
      have hfound := rowAt_of_mem s.distinct hother
      rw [heq] at hfound
      exact Option.some_ne_none other (hfound.symm.trans h) }

/-! ## The first stage -/

def leased (now : ℤ) (row : Job) : Bool :=
  row.status = .running && match row.leaseUntil with
    | some leaseUntil => now < leaseUntil
    | none => false

def isStage1 : JobKey → Bool
  | .stage1 _ => true
  | .consolidateGlobal => false

def runningStage1 (now : ℤ) (s : StateRuntime) : ℕ :=
  s.jobs.countP fun row => isStage1 row.key && leased now row

def runningStage1Except (now : ℤ) (key : JobKey) (s : StateRuntime) : ℕ :=
  s.jobs.countP fun row => isStage1 row.key && leased now row && row.key ≠ key

def advanced (sourceUpdatedAt : ℤ) (row : Job) : Bool :=
  row.inputWatermark.getD (-1) < sourceUpdatedAt

/-- The row conditions of the upsert. -/
def claimGuard (now sourceUpdatedAt : ℤ) (row : Job) : Bool :=
  (row.status ≠ .running || row.leaseUntil.all fun leaseUntil => leaseUntil ≤ now) &&
    ((row.retryAt.all fun retryAt => retryAt ≤ now) || advanced sourceUpdatedAt row) &&
    (0 < row.retryRemaining || advanced sourceUpdatedAt row)

inductive Stage1JobClaimOutcome where
  | claimed (ownershipToken : Text)
  | skippedUpToDate
  | skippedRunning
  | skippedRetryBackoff
  | skippedRetryExhausted
deriving DecidableEq

def upToDate (threadId : Text) (sourceUpdatedAt : ℤ) (s : StateRuntime) : Bool :=
  (s.stage1Outputs.lookup threadId).any (fun output => sourceUpdatedAt ≤ output.sourceUpdatedAt) ||
    ((s.job (.stage1 threadId)).bind Job.lastSuccessWatermark).any
      fun watermark => sourceUpdatedAt ≤ watermark

def claimable (now : ℤ) (threadId : Text) (sourceUpdatedAt : ℤ) (maxRunningJobs : ℕ)
    (s : StateRuntime) : Bool :=
  !upToDate threadId sourceUpdatedAt s && runningStage1 now s < maxRunningJobs &&
    (s.job (.stage1 threadId)).all fun row =>
      claimGuard now sourceUpdatedAt row &&
        runningStage1Except now (.stage1 threadId) s < maxRunningJobs

def skipOutcome (now : ℤ) (threadId : Text) (s : StateRuntime) : Stage1JobClaimOutcome :=
  match s.job (.stage1 threadId) with
  | none => .skippedRunning
  | some row =>
    if row.retryRemaining ≤ 0 then .skippedRetryExhausted
    else if row.retryAt.any fun retryAt => now < retryAt then .skippedRetryBackoff
    else .skippedRunning

def claimRow (now : ℤ) (threadId workerId ownershipToken : Text)
    (sourceUpdatedAt leaseSeconds : ℤ) (s : StateRuntime) : StateRuntime :=
  let leaseUntil := saturatingAdd now (max leaseSeconds 0)
  match h : s.job (.stage1 threadId) with
  | none =>
    s.insertJob
      ⟨.stage1 threadId, .running, some workerId, some ownershipToken, some now, none,
        some leaseUntil, none, defaultRetryRemaining, none, some sourceUpdatedAt, none⟩ h
  | some _ =>
    (s.updateJob (.stage1 threadId) (fun _ => true)
      (fun row => { row with
        status := .running
        workerId := some workerId
        ownershipToken := some ownershipToken
        startedAt := some now
        finishedAt := none
        leaseUntil := some leaseUntil
        retryAt := none
        retryRemaining :=
          if advanced sourceUpdatedAt row then defaultRetryRemaining else row.retryRemaining
        lastError := none
        inputWatermark := some sourceUpdatedAt })
      fun _ => rfl).1

def tryClaimStage1Job (now : ℤ) (threadId workerId ownershipToken : Text)
    (sourceUpdatedAt leaseSeconds : ℤ) (maxRunningJobs : ℕ) (s : StateRuntime) :
    StateRuntime × Stage1JobClaimOutcome :=
  if upToDate threadId sourceUpdatedAt s then (s, .skippedUpToDate)
  else if claimable now threadId sourceUpdatedAt maxRunningJobs s then
    (s.claimRow now threadId workerId ownershipToken sourceUpdatedAt leaseSeconds,
      .claimed ownershipToken)
  else (s, skipOutcome now threadId s)

def owned (ownershipToken : Text) (row : Job) : Bool :=
  row.status = .running && row.ownershipToken = some ownershipToken

/-- The first statement of both successes of the first stage. -/
def finishStage1 (now : ℤ) (threadId ownershipToken : Text) :
    StateRuntime → StateRuntime × Bool :=
  updateJob (.stage1 threadId) (owned ownershipToken)
    (fun row => { row with
      status := .done
      finishedAt := some now
      leaseUntil := none
      lastError := none
      lastSuccessWatermark := row.inputWatermark })
    fun _ => rfl

/-- The upsert of an output keeps one with a later source. -/
def storeOutput (now : ℤ) (threadId : Text) (sourceUpdatedAt : ℤ)
    (rawMemory rolloutSummary : Text) (rolloutSlug : Option Text) (s : StateRuntime) :
    StateRuntime :=
  match s.stage1Outputs.lookup threadId with
  | none =>
    let output := ⟨sourceUpdatedAt, rawMemory, rolloutSummary, rolloutSlug, now, false, none⟩
    { s with stage1Outputs := s.stage1Outputs.insert threadId output }
  | some output =>
    if output.sourceUpdatedAt ≤ sourceUpdatedAt then
      let output :=
        { output with
          sourceUpdatedAt, rawMemory, rolloutSummary, rolloutSlug, generatedAt := now }
      { s with stage1Outputs := s.stage1Outputs.insert threadId output }
    else s

/-! ## The consolidation -/

def enqueueGlobalConsolidation (inputWatermark : ℤ) (s : StateRuntime) : StateRuntime :=
  match h : s.job .consolidateGlobal with
  | none =>
    s.insertJob
      ⟨.consolidateGlobal, .pending, none, none, none, none, none, none, defaultRetryRemaining,
        none, some inputWatermark, some 0⟩ h
  | some _ =>
    (s.updateJob .consolidateGlobal (fun _ => true)
      (fun row => { row with
        status := if row.status = .running then .running else .pending
        retryAt := if row.status = .running then row.retryAt else none
        retryRemaining := max row.retryRemaining defaultRetryRemaining
        inputWatermark :=
          if row.inputWatermark.getD 0 < inputWatermark then some inputWatermark
          else some (row.inputWatermark.getD 0 + 1) })
      fun _ => rfl).1

def markStage1JobSucceeded (now : ℤ) (threadId ownershipToken : Text) (sourceUpdatedAt : ℤ)
    (rawMemory rolloutSummary : Text) (rolloutSlug : Option Text) (s : StateRuntime) :
    StateRuntime × Bool :=
  let (s, affected) := s.finishStage1 now threadId ownershipToken
  if affected then
    (((s.storeOutput now threadId sourceUpdatedAt rawMemory rolloutSummary
      rolloutSlug).enqueueGlobalConsolidation sourceUpdatedAt), true)
  else (s, false)

def markStage1JobSucceededNoOutput (now : ℤ) (threadId ownershipToken : Text)
    (s : StateRuntime) : StateRuntime × Bool :=
  let (finished, affected) := s.finishStage1 now threadId ownershipToken
  if affected then
    match (finished.job (.stage1 threadId)).bind Job.inputWatermark with
    -- the read fails, and the transaction is rolled back
    | none => (s, false)
    | some sourceUpdatedAt =>
      let deleted : StateRuntime :=
        { finished with stage1Outputs := finished.stage1Outputs.erase threadId }
      if (finished.stage1Outputs.lookup threadId).isSome then
        (deleted.enqueueGlobalConsolidation sourceUpdatedAt, true)
      else (deleted, true)
  else (finished, false)

def markStage1JobFailed (now : ℤ) (threadId ownershipToken failureReason : Text)
    (retryDelaySeconds : ℤ) : StateRuntime → StateRuntime × Bool :=
  updateJob (.stage1 threadId) (owned ownershipToken)
    (fun row => { row with
      status := .error
      finishedAt := some now
      leaseUntil := none
      retryAt := some (saturatingAdd now (max retryDelaySeconds 0))
      retryRemaining := row.retryRemaining - 1
      lastError := some failureReason })
    fun _ => rfl

inductive Phase2JobClaimOutcome where
  | claimed (ownershipToken : Text) (inputWatermark : ℤ)
  | skippedRetryUnavailable
  | skippedRunning
  | skippedCooldown
deriving DecidableEq

/-- The row conditions of the update that claims the consolidation. -/
def phase2Guard (now : ℤ) (row : Job) : Bool :=
  (row.status ≠ .running || row.leaseUntil.all fun leaseUntil => leaseUntil ≤ now) &&
    (row.retryAt.all fun retryAt => retryAt ≤ now) &&
    (row.lastError.isSome || row.finishedAt.all fun finishedAt =>
      finishedAt ≤ saturatingSub now phase2SuccessCooldownSeconds)

def tryClaimGlobalPhase2Job (now : ℤ) (workerId ownershipToken : Text) (leaseSeconds : ℤ)
    (s : StateRuntime) : StateRuntime × Phase2JobClaimOutcome :=
  let leaseUntil := saturatingAdd now (max leaseSeconds 0)
  let cooldownCutoff := saturatingSub now phase2SuccessCooldownSeconds
  match h : s.job .consolidateGlobal with
  | none =>
    (s.insertJob
      ⟨.consolidateGlobal, .running, some workerId, some ownershipToken, some now, none,
        some leaseUntil, none, defaultRetryRemaining, none, some 0, some 0⟩ h,
      .claimed ownershipToken 0)
  | some existing =>
    if existing.retryAt.any fun retryAt => now < retryAt then (s, .skippedRetryUnavailable)
    else if leased now existing then (s, .skippedRunning)
    else if existing.lastError.isNone &&
        existing.finishedAt.any fun finishedAt => cooldownCutoff < finishedAt then
      (s, .skippedCooldown)
    else
      let (s, affected) := s.updateJob .consolidateGlobal (phase2Guard now)
        (fun row => { row with
          status := .running
          workerId := some workerId
          ownershipToken := some ownershipToken
          startedAt := some now
          finishedAt := none
          leaseUntil := some leaseUntil
          retryAt := none
          lastError := none })
        fun _ => rfl
      (s, if affected then .claimed ownershipToken (existing.inputWatermark.getD 0)
        else .skippedRunning)

def heartbeatGlobalPhase2Job (now : ℤ) (ownershipToken : Text) (leaseSeconds : ℤ) :
    StateRuntime → StateRuntime × Bool :=
  updateJob .consolidateGlobal (owned ownershipToken)
    (fun row => { row with leaseUntil := some (saturatingAdd now (max leaseSeconds 0)) })
    fun _ => rfl

def markGlobalPhase2JobSucceededRow (now : ℤ) (ownershipToken : Text) (completedWatermark : ℤ) :
    StateRuntime → StateRuntime × Bool :=
  updateJob .consolidateGlobal (owned ownershipToken)
    (fun row => { row with
      status := .done
      finishedAt := some now
      leaseUntil := none
      lastError := none
      lastSuccessWatermark := some (max (row.lastSuccessWatermark.getD 0) completedWatermark) })
    fun _ => rfl

/-- Every selection is taken back, then the selected snapshots that are still there are set. -/
def selectOutputs (selectedOutputs : List (Text × ℤ)) (s : StateRuntime) : StateRuntime :=
  { s with stage1Outputs := mapValues (fun threadId output =>
      if (threadId, output.sourceUpdatedAt) ∈ selectedOutputs then
        { output with
          selectedForPhase2 := true
          selectedForPhase2SourceUpdatedAt := some output.sourceUpdatedAt }
      else
        { output with
          selectedForPhase2 := false
          selectedForPhase2SourceUpdatedAt := none }) s.stage1Outputs }

def markGlobalPhase2JobSucceeded (now : ℤ) (ownershipToken : Text) (completedWatermark : ℤ)
    (selectedOutputs : List (Text × ℤ)) (s : StateRuntime) : StateRuntime × Bool :=
  let (s, affected) := s.markGlobalPhase2JobSucceededRow now ownershipToken completedWatermark
  if affected then (s.selectOutputs selectedOutputs, true) else (s, false)

/-- The failure of the consolidation, for a row under a guard. -/
def failGlobalPhase2Job (guard : Job → Bool) (now : ℤ) (failureReason : Text)
    (retryDelaySeconds : ℤ) : StateRuntime → StateRuntime × Bool :=
  updateJob .consolidateGlobal guard
    (fun row => { row with
      status := .error
      finishedAt := some now
      leaseUntil := none
      retryAt := some (saturatingAdd now (max retryDelaySeconds 0))
      retryRemaining := max (row.retryRemaining - 1) 0
      lastError := some failureReason })
    fun _ => rfl

def markGlobalPhase2JobFailed (now : ℤ) (ownershipToken : Text) :
    Text → ℤ → StateRuntime → StateRuntime × Bool :=
  failGlobalPhase2Job (owned ownershipToken) now

def ownedOrUnowned (ownershipToken : Text) (row : Job) : Bool :=
  row.status = .running && (row.ownershipToken = some ownershipToken || row.ownershipToken.isNone)

def markGlobalPhase2JobFailedIfUnowned (now : ℤ) (ownershipToken : Text) :
    Text → ℤ → StateRuntime → StateRuntime × Bool :=
  failGlobalPhase2Job (ownedOrUnowned ownershipToken) now

end StateRuntime

open StateRuntime

/-! ## Workers of the memory pipeline -/

/-- What a worker was given when its claim was granted, as far as it was extended. -/
structure Lease where
  key : JobKey
  ownershipToken : Text
  workerId : Text
  leaseUntil : ℤ
deriving DecidableEq

structure World where
  clock : ℤ
  store : StateRuntime
  issued : List (JobKey × Text)
  leases : List Lease
  /-- The source timestamps that ended in a success. -/
  processed : List (Text × ℤ)
  /-- The source timestamps whose claim ended in a reported failure. -/
  failures : List (Text × ℤ)

def start (now : ℤ) : World := ⟨now, .empty, [], [], [], []⟩

inductive Act where
  | tick (now : ℤ)
  | claimStage1 (threadId workerId ownershipToken : Text) (sourceUpdatedAt leaseSeconds : ℤ)
  | stage1Succeeded (threadId ownershipToken : Text) (sourceUpdatedAt : ℤ)
      (rawMemory rolloutSummary : Text) (rolloutSlug : Option Text)
  | stage1SucceededNoOutput (threadId ownershipToken : Text)
  | stage1Failed (threadId ownershipToken failureReason : Text) (retryDelaySeconds : ℤ)
  | enqueue (inputWatermark : ℤ)
  | claimPhase2 (workerId ownershipToken : Text) (leaseSeconds : ℤ)
  | heartbeat (ownershipToken : Text) (leaseSeconds : ℤ)
  | phase2Succeeded (ownershipToken : Text) (completedWatermark : ℤ)
      (selectedOutputs : List (Text × ℤ))
  | phase2Failed (ownershipToken failureReason : Text) (retryDelaySeconds : ℤ)
  | phase2FailedIfUnowned (ownershipToken failureReason : Text) (retryDelaySeconds : ℤ)

namespace World

def lastIssued (key : JobKey) (w : World) : Option Text :=
  (w.issued.find? fun given => given.1 = key).map Prod.snd

def grant (key : JobKey) (ownershipToken workerId : Text) (leaseSeconds : ℤ)
    (store : StateRuntime) (w : World) : World :=
  { w with
    store
    issued := (key, ownershipToken) :: w.issued
    leases :=
      ⟨key, ownershipToken, workerId, saturatingAdd w.clock (max leaseSeconds 0)⟩ :: w.leases }

def extend (key : JobKey) (ownershipToken : Text) (leaseSeconds : ℤ) (store : StateRuntime)
    (w : World) : World :=
  { w with
    store
    leases := w.leases.map fun l =>
      if l.key = key ∧ l.ownershipToken = ownershipToken then
        { l with leaseUntil := saturatingAdd w.clock (max leaseSeconds 0) }
      else l }

def release (key : JobKey) (ownershipToken : Text) (store : StateRuntime) (w : World) : World :=
  { w with
    store
    leases := w.leases.filter fun l => !(l.key = key ∧ l.ownershipToken = ownershipToken) }

def claimedFor (threadId : Text) (w : World) : List (Text × ℤ) :=
  (((w.store.job (.stage1 threadId)).bind Job.inputWatermark).map (threadId, ·)).toList

end World

open World in
/-- All claims pass the same limit, and tokens are never given out twice. -/
def step (maxRunningJobs : ℕ) (w : World) : Act → Except Unit World
  | .tick now => if now < w.clock then .error () else .ok { w with clock := now }
  | .claimStage1 threadId workerId ownershipToken sourceUpdatedAt leaseSeconds =>
    if ownershipToken ∈ w.issued.map Prod.snd then .error ()
    else
      match w.store.tryClaimStage1Job w.clock threadId workerId ownershipToken sourceUpdatedAt
        leaseSeconds maxRunningJobs with
      | (store, .claimed _) =>
        .ok (w.grant (.stage1 threadId) ownershipToken workerId leaseSeconds store)
      | (store, _) => .ok { w with store }
  | .stage1Succeeded threadId ownershipToken sourceUpdatedAt rawMemory rolloutSummary
      rolloutSlug =>
    match w.store.markStage1JobSucceeded w.clock threadId ownershipToken sourceUpdatedAt
      rawMemory rolloutSummary rolloutSlug with
    | (store, true) =>
      .ok { w.release (.stage1 threadId) ownershipToken store with
        processed := (threadId, sourceUpdatedAt) :: (w.claimedFor threadId ++ w.processed) }
    | (store, false) => .ok { w with store }
  | .stage1SucceededNoOutput threadId ownershipToken =>
    match w.store.markStage1JobSucceededNoOutput w.clock threadId ownershipToken with
    | (store, true) =>
      .ok { w.release (.stage1 threadId) ownershipToken store with
        processed := w.claimedFor threadId ++ w.processed }
    | (store, false) => .ok { w with store }
  | .stage1Failed threadId ownershipToken failureReason retryDelaySeconds =>
    match w.store.markStage1JobFailed w.clock threadId ownershipToken failureReason
      retryDelaySeconds with
    | (store, true) =>
      .ok { w.release (.stage1 threadId) ownershipToken store with
        failures := w.claimedFor threadId ++ w.failures }
    | (store, false) => .ok { w with store }
  | .enqueue inputWatermark =>
    .ok { w with store := w.store.enqueueGlobalConsolidation inputWatermark }
  | .claimPhase2 workerId ownershipToken leaseSeconds =>
    if ownershipToken ∈ w.issued.map Prod.snd then .error ()
    else
      match w.store.tryClaimGlobalPhase2Job w.clock workerId ownershipToken leaseSeconds with
      | (store, .claimed _ _) =>
        .ok (w.grant .consolidateGlobal ownershipToken workerId leaseSeconds store)
      | (store, _) => .ok { w with store }
  | .heartbeat ownershipToken leaseSeconds =>
    match w.store.heartbeatGlobalPhase2Job w.clock ownershipToken leaseSeconds with
    | (store, true) => .ok (w.extend .consolidateGlobal ownershipToken leaseSeconds store)
    | (store, false) => .ok { w with store }
  | .phase2Succeeded ownershipToken completedWatermark selectedOutputs =>
    match w.store.markGlobalPhase2JobSucceeded w.clock ownershipToken completedWatermark
      selectedOutputs with
    | (store, true) => .ok (w.release .consolidateGlobal ownershipToken store)
    | (store, false) => .ok { w with store }
  | .phase2Failed ownershipToken failureReason retryDelaySeconds =>
    match w.store.markGlobalPhase2JobFailed w.clock ownershipToken failureReason
      retryDelaySeconds with
    | (store, true) => .ok (w.release .consolidateGlobal ownershipToken store)
    | (store, false) => .ok { w with store }
  | .phase2FailedIfUnowned ownershipToken failureReason retryDelaySeconds =>
    match w.store.markGlobalPhase2JobFailedIfUnowned w.clock ownershipToken failureReason
      retryDelaySeconds with
    | (store, true) => .ok (w.release .consolidateGlobal ownershipToken store)
    | (store, false) => .ok { w with store }

end Codex.MemoryJobs
