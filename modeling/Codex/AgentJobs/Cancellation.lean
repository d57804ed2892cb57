import Codex.AgentJobs.Attempts

/-!
# Cancelling an agent job

A cancellation is written under a guard, and the final status without one. Once the runner
has seen that its job is cancelled it starts no worker; the cancellation lasts exactly if the
runner writes no final status over it.
-/

namespace Codex.AgentJobs

open Foundation StateRuntime

variable {ρ : Type} {options : JobRunnerOptions} {w v : World ρ} {a : Act ρ}

/-! ## The status of the job -/

/-- How far the runner has come; the loop is stage three. -/
def Pc.stage : Pc ρ → ℕ
  | .created => 0
  | .recovering => 1
  | .starting => 2
  | .exporting | .exportFailed _ | .closing | .completing | .emitting => 4
  | .failing _ | .ended => 5
  | _ => 3

variable (w a) in
/-- The runner writes the final status: the job is completed, or its export failed, or the
loop returned an error. -/
def WritesFinal : Prop :=
  a = .advance .next ∧
    (w.pc = .completing ∨ (∃ err, w.pc = .exportFailed err) ∨ ∃ err, w.pc = .failing err)

theorem job_cases (h : step options w a = .ok v) :
    v.store.job = w.store.job ∧ v.cancelled = w.cancelled ∨
      w.pc = .created ∧ v.cancelled = w.cancelled ∨
      WritesFinal w a ∧ v.store.job.status ≠ .cancelled ∧ v.cancelled = w.cancelled ∨
      a = .cancel ∧ v = w.cancel := by
  cases a with
  | advance outcome =>
    dsimp only [step] at h
    unfold advance at h
    split at h
    case h_1 hpc => cases h; exact .inr (.inl ⟨hpc, rfl⟩)
    case h_2 hpc => cases h; exact .inr (.inl ⟨hpc, rfl⟩)
    case h_24 hpc =>
      cases h
      exact .inr (.inr (.inl ⟨⟨rfl, .inr (.inl ⟨_, hpc⟩)⟩, by simp [markAgentJobFailed], rfl⟩))
    case h_26 hpc =>
      cases h
      exact .inr (.inr (.inl ⟨⟨rfl, .inl hpc⟩, by simp [markAgentJobCompleted], rfl⟩))
    case h_28 hpc =>
      cases h
      exact .inr (.inr (.inl ⟨⟨rfl, .inr (.inr ⟨_, hpc⟩)⟩, by simp [markAgentJobFailed], rfl⟩))
    case h_11 =>
      cases h
      unfold World.assign
      dsimp only
      split
      · exact .inl ⟨rfl, rfl⟩
      · exact .inl ⟨rfl, rfl⟩
    case h_20 =>
      cases h
      unfold World.readFinished
      split
      · exact .inl ⟨rfl, rfl⟩
      · split
        · exact .inl ⟨rfl, rfl⟩
        · exact .inl ⟨rfl, rfl⟩
    case h_21 hasResult _ _ =>
      cases h
      cases hasResult
      · exact .inl ⟨rfl, rfl⟩
      · exact .inl ⟨rfl, rfl⟩
    case h_30 => cases h
    all_goals first
      | (cases h; exact .inl ⟨rfl, rfl⟩)
      | (split at h <;> cases h <;> exact .inl ⟨rfl, rfl⟩)
  | fail err =>
    dsimp only [step] at h
    split at h
    · cases h; exact .inl ⟨rfl, rfl⟩
    · cases h
  | cancel =>
    dsimp only [step] at h
    split at h
    · cases h; exact .inr (.inr (.inr ⟨rfl, rfl⟩))
    · cases h
  | tick now | report threadId itemId result stop
  | terminate threadId => cases h; exact .inl ⟨rfl, rfl⟩

theorem stage_over {pc : Pc ρ} (h : pc.over = true) : pc.stage = 5 := by
  cases pc <;> first | rfl | cases h

theorem advance_stage {outcome : Outcome} (h : advance options w outcome = .ok v) :
    w.pc.stage ≤ v.pc.stage := by
  unfold advance at h
  split at h
  case h_11 hpc =>
    cases h
    rw [hpc, assign_pc]
    exact Nat.le_refl 3
  case h_17 hpc =>
    split at h
    · cases h
      rw [hpc]
      split
      · exact Nat.le_refl 3
      · exact Nat.le_refl 3
    · cases h
  case h_18 hpc =>
    cases h
    rw [hpc]
    rcases passEnded_cases w with hend | hend
    · rw [hend]
      exact Nat.le_of_ble_eq_true rfl
    · rw [hend]
      exact Nat.le_refl 3
  case h_20 hpc =>
    cases h
    rw [hpc]
    unfold World.readFinished
    split
    · exact Nat.le_of_ble_eq_true rfl
    · split
      · exact Nat.le_refl 3
      · exact Nat.le_refl 3
  case h_30 => cases h
  all_goals
    next hpc =>
    rw [hpc]
    first
      | (cases h; exact Nat.le_of_ble_eq_true rfl)
      | (split at h <;> cases h <;> exact Nat.le_of_ble_eq_true rfl)

theorem advance_cancel {outcome : Outcome} (h : advance options w outcome = .ok v)
    (hstage : 3 ≤ w.pc.stage) (hcancel : w.cancelRequested = true) : v.cancelRequested = true := by
  unfold advance at h
  split at h
  case h_4 hpc =>
    rw [hpc] at hstage
    exact absurd hstage (Nat.not_succ_le_self 2)
  case h_5 =>
    cases h
    simp [hcancel]
  case h_11 =>
    cases h
    simp [hcancel]
  case h_20 =>
    cases h
    simp [hcancel]
  case h_30 => cases h
  all_goals first
    | (cases h; exact hcancel)
    | (split at h <;> cases h <;> exact hcancel)

theorem stage_step (h : step options w a = .ok v) : w.pc.stage ≤ v.pc.stage ∧
    (3 ≤ w.pc.stage → w.cancelRequested = true → v.cancelRequested = true) := by
  rcases stays_or h with ⟨hstays | hover, hcancel, -⟩ | ⟨outcome, rfl⟩
  · rw [hstays, hcancel]
    exact ⟨Nat.le_refl _, fun _ => id⟩
  · rw [stage_over hover, hcancel]
    refine ⟨?_, fun _ => id⟩
    cases w.pc <;> exact Nat.le_of_ble_eq_true rfl
  · exact ⟨advance_stage h, advance_cancel h⟩

/-! ## What is asked of the runner -/

/-- A cancellation that has had effect is what the store says of the job. -/
def World.CancelKept (w : World ρ) : Prop :=
  w.cancelled = true → w.store.job.status = .cancelled

variable (w a) in
def Observes : Prop :=
  a = .advance .next ∧ (w.pc = .starting ∨ w.pc = .top ∨ w.pc = .closing) ∧
    isAgentJobCancelled w.store = true

structure NoMore (w : World ρ) : Prop where
  stage : 3 ≤ w.pc.stage
  queue : w.pc.queue = []
  stopped : w.cancelRequested = true ∨ 4 ≤ w.pc.stage

theorem observes_noMore (h : step options w a = .ok v) (hobserves : Observes w a) : NoMore v := by
  obtain ⟨rfl, hpc, hcancelled⟩ := hobserves
  dsimp only [step] at h
  unfold advance at h
  rcases hpc with hpc | hpc | hpc
  · rw [hpc] at h
    cases h
    exact ⟨Nat.le_refl 3, rfl, .inl hcancelled⟩
  · rw [hpc] at h
    cases h
    exact ⟨Nat.le_refl 3, rfl, .inl (by simp [hcancelled])⟩
  · rw [hpc] at h
    simp only [hcancelled, Bool.or_true, if_true] at h
    cases h
    exact ⟨Nat.le_succ 3, rfl, .inr (Nat.le_refl 4)⟩

theorem noMore_step (hn : NoMore w) (h : step options w a = .ok v) : NoMore v := by
  obtain ⟨hstage, hcancel⟩ := stage_step h
  refine ⟨hn.stage.trans hstage, ?_, hn.stopped.imp (hcancel hn.stage) fun h => h.trans hstage⟩
  have hnil : ∀ queue : List (AgentJobItem ρ), queue.Sublist w.pc.queue → queue = [] :=
    fun queue hqueue => List.sublist_nil.mp (hn.queue ▸ hqueue)
  cases step_cases h with
  | quiet hq => exact hnil _ hq.queue
  | listed hpc hopen =>
    rcases hn.stopped with hstopped | hstopped
    · rw [hopen] at hstopped
      cases hstopped
    · rw [hpc] at hstopped
      exact absurd hstopped (Nat.not_succ_le_self 3)
  | begun item threadId rest hpc =>
    have hqueue := hn.queue
    rw [hpc] at hqueue
    cases hqueue
  | assigned item threadId rest hpc hs => exact hnil _ hs.queue
  | requeued item hpc hv =>
    have hqueue := hn.queue
    rw [hpc] at hqueue
    cases hqueue
  | failed itemId err hmessage hs | completed itemId hs => exact hnil _ hs.queue
  | reported threadId itemId result stop ha hv =>
    rw [hv]
    exact hn.queue

theorem noMore_started (hn : NoMore w) {threadId : ThreadId}
    (h : step options w (.advance (.started threadId)) = .ok v) : False := by
  have hqueue := hn.queue
  dsimp only [step] at h
  unfold advance at h
  split at h
  case h_8 hpc _ =>
    rw [hpc] at hqueue
    cases hqueue
  case h_30 => cases h
  all_goals
    next hout =>
    cases hout

structure Untouched (w : World ρ) : Prop where
  cancelled : w.cancelled = false
  stopping : w.stopping = 0
  rows : ∀ i row, getAgentJobItem i w.store = some row → row.status = .pending

theorem created_from (h : step options w a = .ok v) (hpc : v.pc = .created) :
    w.pc = .created ∧ ∀ outcome, a ≠ .advance outcome := by
  have hle := (stage_step h).1
  rw [hpc] at hle
  have hwpc : w.pc = .created := by
    cases hw : w.pc <;> rw [hw] at hle <;> first | rfl | exact absurd hle (Nat.not_succ_le_zero _)
  refine ⟨hwpc, fun outcome ha => ?_⟩
  subst ha
  dsimp only [step] at h
  unfold advance at h
  rw [hwpc] at h
  cases outcome with
  | next | error err => cases h; cases hpc
  | _ => cases h

theorem untouched_step (hu : w.pc = .created → Untouched w) (h : step options w a = .ok v)
    (hpc : v.pc = .created) : Untouched v := by
  obtain ⟨hwpc, hnot⟩ := created_from h hpc
  obtain ⟨hcancelled, hstopping, hrows⟩ := hu hwpc
  cases a with
  | advance outcome => exact absurd rfl (hnot outcome)
  | tick now | terminate threadId => cases h; exact ⟨hcancelled, hstopping, hrows⟩
  | fail err =>
    dsimp only [step] at h
    rw [hwpc] at h
    cases h
  | cancel =>
    dsimp only [step] at h
    rw [if_neg (by omega)] at h
    cases h
  | report threadId itemId result stop =>
    cases h
    have hnone : w.accepts threadId itemId result = false := by
      apply Bool.eq_false_iff.mpr
      intro haccepts
      obtain ⟨row, hrow, hrunning, -⟩ := accepts_iff.mp haccepts
      rw [hrows itemId row hrow] at hrunning
      cases hrunning
    refine ⟨hcancelled, ?_, fun i row hrow => ?_⟩
    · simp [World.report, hnone, hstopping]
    · rw [report_store] at hrow
      obtain ⟨row', hrow', rfl | ⟨-, hguard, rfl⟩⟩ := row_before hrow
      · exact hrows i _ hrow'
      · simp [hrows i row' hrow'] at hguard

/-! ## Cancellations that last -/

theorem status_of_writes (h : step options w a = .ok v) (hwrites : WritesFinal w a) :
    v.store.job.status ≠ .cancelled := by
  obtain ⟨rfl, hpc⟩ := hwrites
  dsimp only [step] at h
  unfold advance at h
  rcases hpc with hpc | ⟨err, hpc⟩ | ⟨err, hpc⟩
  · rw [hpc] at h
    cases h
    simp [markAgentJobCompleted]
  · rw [hpc] at h
    cases h
    simp [markAgentJobFailed]
  · rw [hpc] at h
    cases h
    simp [markAgentJobFailed]

theorem cancel_kept (hp : w.CancelKept) : w.cancel.CancelKept := by
  unfold World.CancelKept World.cancel markAgentJobCancelled
  dsimp only
  split
  · simp
  · rw [Bool.or_false]
    exact hp

theorem cancelKept_step_iff (hu : w.pc = .created → Untouched w) (hp : w.CancelKept)
    (h : step options w a = .ok v) : v.CancelKept ↔ ¬ (w.cancelled = true ∧ WritesFinal w a) := by
  constructor
  · rintro hv ⟨hcancelled, hwrites⟩
    have hstatus := status_of_writes h hwrites
    rcases job_cases h with ⟨-, hsame⟩ | ⟨-, hsame⟩ | ⟨-, -, hsame⟩ | ⟨rfl, -⟩
    · exact hstatus (hv (hsame.trans hcancelled))
    · exact hstatus (hv (hsame.trans hcancelled))
    · exact hstatus (hv (hsame.trans hcancelled))
    · cases hwrites.1
  · intro hno hcancelled
    rcases job_cases h with ⟨hjob, hsame⟩ | ⟨hpc, hsame⟩ | ⟨hwrites, -, hsame⟩ | ⟨-, rfl⟩
    · rw [hjob]
      exact hp (hsame.symm.trans hcancelled)
    · rw [hsame, (hu hpc).cancelled] at hcancelled
      cases hcancelled
    · exact absurd ⟨hsame.symm.trans hcancelled, hwrites⟩ hno
    · exact cancel_kept hp hcancelled

/-- In every run a cancellation lasts, and the runner starts no worker after it has seen it,
exactly if the runner writes no final status over a cancellation. -/
theorem cancellation_final_iff {now : ℤ} {items : List AgentJobItemCreateParams}
    {h : (items.map AgentJobItemCreateParams.itemId).Nodup} {acts : List (Act ρ)} {w : World ρ}
    (hrun : acts.foldlM (step options) (start now items h) = .ok w) :
    ((∀ pre u, pre <+: acts → pre.foldlM (step options) (start now items h) = .ok u →
        u.CancelKept) ∧
      ∀ pre a more threadId u,
        pre ++ [a] ++ more ++ [.advance (.started threadId)] <+: acts →
          pre.foldlM (step options) (start now items h) = .ok u → ¬ Observes u a) ↔
      ∀ pre a u, pre ++ [a] <+: acts → pre.foldlM (step options) (start now items h) = .ok u →
        ¬ (u.cancelled = true ∧ WritesFinal u a) := by
  have hlast := always_iff_given (I := fun u : World ρ => u.pc = .created → Untouched u)
    (P := World.CancelKept) (C := fun u a => ¬ (u.cancelled = true ∧ WritesFinal u a))
    (fun u a v hu hv hpc => untouched_step hu hv hpc)
    (fun u a v hu hp hv => cancelKept_step_iff hu hp hv)
    (fun _ => ⟨rfl, rfl, fun i row hrow => ?_⟩) (fun hcancelled => by cases hcancelled) hrun
  · refine ⟨fun hall => hlast.mp hall.1, fun hall => ⟨hlast.mpr hall, ?_⟩⟩
    intro pre a more threadId u hpre hu hobserves
    obtain ⟨v, hv⟩ := run_prefix_ok hpre hrun
    obtain ⟨v', hv', hstarted⟩ := run_snoc.mp hv
    rw [List.foldlM_append] at hv'
    cases hmid : (pre ++ [a]).foldlM (step options) (start now items h) with
    | error e =>
      rw [hmid] at hv'
      cases hv'
    | ok s =>
      rw [hmid] at hv'
      obtain ⟨u', hu', hs⟩ := run_snoc.mp hmid
      rw [hu] at hu'
      cases hu'
      have hnoMore : NoMore v' :=
        run_keeps (fun u a v hn hv => noMore_step hn hv) (observes_noMore hs hobserves) hv'
      exact noMore_started hnoMore hstarted
  · obtain ⟨item, -, rfl⟩ := List.mem_map.mp (rowAt_mem hrow)
    rfl

/-! ## A worker that asks for a stop -/

/-- The worker asks for the stop while its job runs; the runner goes on to its end. -/
def cancelledRun : List (Act Bool) :=
  untilStarted ++
    [.advance .next, .report "w".toList "row-1".toList true true, .cancel,
      .terminate "w".toList, .advance .next, .advance (.stale []), .advance .next,
      .advance (.finished [("w".toList, "row-1".toList)]), .advance .next, .advance .next,
      .advance .next, .advance .next, .advance (.stale []), .advance .next,
      .advance (.finished []), .advance .next, .advance .next, .advance .next, .advance .next]

theorem early_cancellation_lasts :
    (∃ u, cancelledRun.foldlM (step oneWorker) (start 0 [rowOne] (by decide)) = .ok u ∧
      u.pc = .ended ∧ u.store.job.status = .cancelled) ∧
      (∀ pre u, pre <+: cancelledRun →
        pre.foldlM (step oneWorker) (start 0 [rowOne] (by decide)) = .ok u → u.CancelKept) ∧
      ∀ pre a more threadId u,
        pre ++ [a] ++ more ++ [.advance (.started threadId)] <+: cancelledRun →
          pre.foldlM (step oneWorker) (start 0 [rowOne] (by decide)) = .ok u → ¬ Observes u a := by
  refine ⟨⟨_, rfl, rfl, rfl⟩, (cancellation_final_iff rfl).mpr fun pre a u hpre hu => ?_⟩
  have halong : Along (step oneWorker) (fun u a => ¬ (u.cancelled = true ∧ WritesFinal u a))
      (start 0 [rowOne] (by decide)) cancelledRun := by
    have hquiet : ∀ (u : World Bool) (a : Act Bool), u.pc ≠ .completing →
        (∀ err, u.pc ≠ .exportFailed err) → (∀ err, u.pc ≠ .failing err) →
        ¬ (u.cancelled = true ∧ WritesFinal u a) := by
      rintro u a hcompleting hexport hfailing ⟨-, -, hpc | ⟨err, hpc⟩ | ⟨err, hpc⟩⟩
      · exact hcompleting hpc
      · exact hexport err hpc
      · exact hfailing err hpc
    repeat refine Along.cons_ok rfl (hquiet _ _ (by rintro ⟨⟩) (by rintro _ ⟨⟩) (by rintro _ ⟨⟩)) ?_
    trivial
  exact halong.at hpre hu

/-- The request to stop is written between the runner's last look at the job and its last
word on it. -/
def cancelledThenCompleted : List (Act Bool) :=
  untilStarted ++
    [.advance .next, .report "w".toList "row-1".toList true true, .terminate "w".toList,
      .advance .next, .advance (.stale []), .advance .next,
      .advance (.finished [("w".toList, "row-1".toList)]), .advance .next, .advance .next,
      .advance .next, .advance .next, .advance .next, .advance (.stale []), .advance .next,
      .advance (.finished []), .advance .next, .advance .next, .advance .next, .cancel,
      .advance .next]

theorem completed_over_cancellation : ∃ u : World Bool,
    cancelledThenCompleted.foldlM (step oneWorker) (start 0 [rowOne] (by decide)) = .ok u ∧
      ¬ u.CancelKept := by
  refine ⟨_, rfl, fun h => ?_⟩
  cases h rfl

end Codex.AgentJobs
