import Codex.AgentJobs.Runner

/-!
# Results of workers

Which worker an item belongs to is known to the store from the moment the runner writes it,
and until then the worker already runs. A result is accepted once, from that worker and for
good; one that comes before is refused, and nothing else is.
-/

namespace Codex.AgentJobs

open Foundation StateRuntime

variable {ρ : Type} {options : JobRunnerOptions} {w v : World ρ} {a : Act ρ}

section
variable {s : StateRuntime ρ} {itemId i : Text} {guard : AgentJobItem ρ → Bool}
  {set : AgentJobItem ρ → AgentJobItem ρ} {hset : ∀ row, (set row).itemId = row.itemId}
  {row row' : AgentJobItem ρ}

theorem getItem_congr {s s' : StateRuntime ρ} (h : s'.items = s.items) (i : Text) :
    getAgentJobItem i s' = getAgentJobItem i s := by
  unfold getAgentJobItem
  rw [h]

theorem row_before (h : getAgentJobItem i (updateItem itemId guard set hset s).1 = some row') :
    ∃ row, getAgentJobItem i s = some row ∧
      (row' = row ∨ i = itemId ∧ guard row = true ∧ row' = set row) := by
  rw [getItem_update] at h
  split at h
  · next hi =>
    obtain ⟨row, hrow, hrow'⟩ := Option.map_eq_some_iff.mp h
    refine ⟨row, hi ▸ hrow, ?_⟩
    split at hrow'
    · next hguard => exact .inr ⟨hi, hguard, hrow'.symm⟩
    · exact .inl hrow'.symm
  · exact ⟨row', h, .inl rfl⟩

theorem row_kept (h : getAgentJobItem i s = some row) (hguard : i = itemId → guard row = false) :
    getAgentJobItem i (updateItem itemId guard set hset s).1 = some row := by
  by_cases hi : i = itemId
  · subst hi
    rw [getItem_update_of_not h (hguard rfl), h]
  · rw [getItem_update, if_neg hi, h]

theorem row_set (h : getAgentJobItem itemId s = some row) (hguard : guard row = true) :
    getAgentJobItem itemId (updateItem itemId guard set hset s).1 = some (set row) := by
  rw [getItem_update, if_pos rfl, h, Option.map_some, if_pos hguard]

end

/-! ## Rows through the steps -/

def Settled (row : AgentJobItem ρ) : Prop := row.status = .completed ∨ row.status = .failed

variable {row : AgentJobItem ρ}

theorem Settled.not_pending (h : Settled row) : row.status ≠ .pending := by
  rcases h with h | h <;> simp [h]

theorem Settled.not_running (h : Settled row) : row.status ≠ .running := by
  rcases h with h | h <;> simp [h]

theorem settled_kept (hstep : step options w a = .ok v) {i : Text}
    (hrow : getAgentJobItem i w.store = some row) (hsettled : Settled row) :
    getAgentJobItem i v.store = some row := by
  have hpending := hsettled.not_pending
  have hrunning := hsettled.not_running
  cases step_cases hstep with
  | quiet h => rw [getItem_congr h.items, hrow]
  | listed hpc hcancel hitems
  | begun item threadId rest hpc hitems => rw [getItem_congr hitems, hrow]
  | assigned item threadId rest hpc h hqueue =>
    rw [getItem_congr h.items]
    exact row_kept hrow fun _ => by simp [hpending]
  | requeued item hpc h =>
    rw [h, requeue_store]
    exact row_kept hrow fun _ => by simp [hrunning]
  | failed itemId err hmessage h | completed itemId h =>
    rw [getItem_congr h.items]
    exact row_kept hrow fun _ => by simp [hrunning]
  | reported threadId itemId result stop ha h =>
    rw [h, report_store]
    exact row_kept hrow fun _ => by simp [hrunning]

/-- What the runner has listed is still pending, and what runs belongs to the worker that was
started last for it. What has been accepted is there to stay. -/
structure Tracked (w : World ρ) : Prop where
  queued : ∀ item ∈ w.pc.queue, ∃ row,
    getAgentJobItem item.itemId w.store = some row ∧ row.status = .pending
  distinct : (w.pc.queue.map AgentJobItem.itemId).Nodup
  assigning : ∀ item threadId rest, w.pc = .assigning item threadId rest →
    w.attempts.lookup item.itemId = some threadId
  running : ∀ i row, getAgentJobItem i w.store = some row → row.status = .running →
    row.assignedThreadId = w.attempts.lookup i
  answered : ∀ ans ∈ w.answers, ans.accepted = true → ∃ row,
    getAgentJobItem ans.itemId w.store = some row ∧ row.status = .completed ∧
      row.resultJson = some ans.result

theorem start_tracked (now : ℤ) (items : List AgentJobItemCreateParams)
    (h : (items.map AgentJobItemCreateParams.itemId).Nodup) :
    Tracked (start now items h : World ρ) := by
  refine ⟨by simp [start, Pc.queue], by simp [start, Pc.queue], by simp [start], ?_,
    by simp [start]⟩
  intro i row hrow hrunning
  obtain ⟨item, -, rfl⟩ := List.mem_map.mp (rowAt_mem hrow)
  cases hrunning

theorem Tracked.queue_sublist (ht : Tracked w) {queue : List (AgentJobItem ρ)}
    (hqueue : queue.Sublist w.pc.queue) : (∀ item ∈ queue, ∃ row,
      getAgentJobItem item.itemId w.store = some row ∧ row.status = .pending) ∧
      (queue.map AgentJobItem.itemId).Nodup :=
  ⟨fun item hitem => ht.queued item (hqueue.subset hitem),
    ht.distinct.sublist (hqueue.map AgentJobItem.itemId)⟩

theorem Tracked.sets (ht : Tracked w) {itemId : Text} {guard : AgentJobItem ρ → Bool}
    {set : AgentJobItem ρ → AgentJobItem ρ} {hset : ∀ row, (set row).itemId = row.itemId}
    (hguard : ∀ row, guard row = true → row.status = .running)
    (hstatus : ∀ row, (set row).status ≠ .running)
    (h : Sets w v (updateItem itemId guard set hset w.store).1) : Tracked v := by
  have hkept : ∀ i row, getAgentJobItem i w.store = some row → row.status ≠ .running →
      getAgentJobItem i v.store = some row := by
    intro i row hrow hnot
    rw [getItem_congr h.items]
    exact row_kept hrow fun _ => by
      cases hg : guard row with
      | false => rfl
      | true => exact absurd (hguard row hg) hnot
  obtain ⟨hqueued, hdistinct⟩ := ht.queue_sublist h.queue
  refine ⟨fun item hitem => ?_, hdistinct, fun item threadId rest hpc => ?_,
    fun i row' hrow' hrunning => ?_, fun ans hans haccepted => ?_⟩
  · obtain ⟨row, hrow, hpending⟩ := hqueued item hitem
    exact ⟨row, hkept _ row hrow (by simp [hpending]), hpending⟩
  · rw [h.attempts]
    exact ht.assigning item threadId rest ((h.assigning item threadId rest hpc).symm.trans hpc)
  · rw [getItem_congr h.items] at hrow'
    obtain ⟨row, hrow, rfl | ⟨-, -, rfl⟩⟩ := row_before hrow'
    · rw [h.attempts]
      exact ht.running i _ hrow hrunning
    · exact absurd hrunning (hstatus row)
  · rw [h.answers] at hans
    obtain ⟨row, hrow, hcompleted, hresult⟩ := ht.answered ans hans haccepted
    exact ⟨row, hkept _ row hrow (by simp [hcompleted]), hcompleted, hresult⟩

theorem accepts_iff {threadId : ThreadId} {i : Text} {result : ρ} :
    w.accepts threadId i result = true ↔ ∃ row, getAgentJobItem i w.store = some row ∧
      row.status = .running ∧ row.assignedThreadId = some threadId := by
  unfold World.accepts reportAgentJobItemResult
  rw [updateItem_affects]
  simp

theorem step_tracked (ht : Tracked w) (hstep : step options w a = .ok v) : Tracked v := by
  cases step_cases hstep with
  | quiet h =>
    obtain ⟨hqueued, hdistinct⟩ := ht.queue_sublist h.queue
    refine ⟨?_, hdistinct, fun item threadId rest hpc => ?_, ?_, ?_⟩
    · simp only [getItem_congr h.items]
      exact hqueued
    · rw [h.attempts]
      exact ht.assigning item threadId rest ((h.assigning item threadId rest hpc).symm.trans hpc)
    · simp only [getItem_congr h.items, h.attempts]
      exact ht.running
    · simp only [getItem_congr h.items, h.answers]
      exact ht.answered
  | listed hpc hcancel hitems hattempts hanswers hqueue hassigning =>
    refine ⟨fun item hitem => ?_, ?_, fun item threadId rest hpc =>
      absurd hpc (hassigning item threadId rest), ?_, ?_⟩
    · rw [getItem_congr hitems]
      exact ⟨item, getItem_of_mem_list (hqueue.subset hitem)⟩
    · exact (list_distinct .pending w.store).sublist (hqueue.map AgentJobItem.itemId)
    · simp only [getItem_congr hitems, hattempts]
      exact ht.running
    · simp only [getItem_congr hitems, hanswers]
      exact ht.answered
  | begun item threadId rest hpc hitems hattempts hanswers hnext =>
    have hqueue : w.pc.queue = item :: rest := by simp [hpc, Pc.queue]
    refine ⟨?_, ?_, ?_, fun i row hrow hrunning => ?_, ?_⟩
    · simp only [getItem_congr hitems, hnext, Pc.queue]
      rw [← hqueue]
      exact ht.queued
    · simp only [hnext, Pc.queue]
      rw [← hqueue]
      exact ht.distinct
    · intro item' threadId' rest' hpc'
      obtain ⟨rfl, rfl, -⟩ := Pc.assigning.inj (hnext.symm.trans hpc')
      rw [hattempts]
      simp
    · rw [getItem_congr hitems] at hrow
      -- the item started for is pending, so the one that runs is another
      have hne : i ≠ item.itemId := by
        rintro rfl
        obtain ⟨row', hrow', hpending⟩ := ht.queued item (by simp [hqueue])
        rw [hrow] at hrow'
        cases hrow'
        rw [hrunning] at hpending
        cases hpending
      rw [hattempts, lookup_insert_ite, if_neg hne]
      exact ht.running i row hrow hrunning
    · simp only [getItem_congr hitems, hanswers]
      exact ht.answered
  | assigned item threadId rest hpc h hqueue =>
    have hwhole : w.pc.queue = item :: rest := by simp [hpc, Pc.queue]
    have hdistinct := ht.distinct
    rw [hwhole, List.map_cons, List.nodup_cons] at hdistinct
    refine ⟨fun other hother => ?_, ?_, fun item threadId rest hpc => ?_,
      fun i row' hrow' hrunning => ?_, fun ans hans haccepted => ?_⟩
    · rw [hqueue] at hother
      obtain ⟨row, hrow, hpending⟩ := ht.queued other (by simp [hwhole, hother])
      have hne : other.itemId ≠ item.itemId := fun he =>
        hdistinct.1 (he ▸ List.mem_map_of_mem hother)
      rw [getItem_congr h.items]
      exact ⟨row, row_kept hrow fun he => absurd he hne, hpending⟩
    · rw [hqueue]
      exact hdistinct.2
    · rw [h.attempts]
      exact ht.assigning item threadId rest ((h.assigning item threadId rest hpc).symm.trans hpc)
    · rw [getItem_congr h.items] at hrow'
      rw [h.attempts]
      obtain ⟨row, hrow, rfl | ⟨rfl, -, rfl⟩⟩ := row_before hrow'
      · exact ht.running i _ hrow hrunning
      · exact (ht.assigning item threadId rest hpc).symm
    · rw [h.answers] at hans
      obtain ⟨row, hrow, hcompleted, hresult⟩ := ht.answered ans hans haccepted
      rw [getItem_congr h.items]
      exact ⟨row, row_kept hrow fun _ => by simp [hcompleted], hcompleted, hresult⟩
  | requeued item hpc h =>
    -- a listed item is pending, and only a running one is requeued
    obtain ⟨row, hrow, hpending⟩ := ht.queued item (by simp [hpc, Pc.queue])
    have hsame : ∀ i, getAgentJobItem i v.store = getAgentJobItem i w.store := by
      intro i
      rw [h, requeue_store]
      exact getItem_update_of_not hrow (by simp [hpending]) i
    have hnone : (markAgentJobItemPending w.clock item.itemId none w.store).2 = false := by
      apply Bool.eq_false_iff.mpr
      intro haffects
      obtain ⟨row', hrow', hrunning⟩ := updateItem_affects.mp haffects
      rw [hrow] at hrow'
      cases hrow'
      simp [hpending] at hrunning
    have hattempts : v.attempts = w.attempts := by
      rw [h]
      unfold World.requeue
      dsimp only
      rw [hnone]
      rfl
    subst h
    refine ⟨by simp [World.requeue, Pc.queue], by simp [World.requeue, Pc.queue],
      by simp [World.requeue], ?_, ?_⟩
    · simp only [hsame, hattempts]
      exact ht.running
    · simp only [hsame]
      exact ht.answered
  | failed itemId err hmessage h => exact ht.sets (by simp) (by simp) h
  | completed itemId h =>
    refine ht.sets (fun row hguard => ?_) (by simp) h
    exact of_decide_eq_true (Bool.and_eq_true_iff.mp hguard).1
  | reported threadId itemId result stop ha h =>
    have hsets : Sets w { v with answers := w.answers }
        (reportAgentJobItemResult w.clock itemId threadId result w.store).1 := by
      subst h
      exact ⟨rfl, rfl, rfl, .refl _, fun _ _ _ _ => rfl⟩
    have hrest : Tracked { v with answers := w.answers } := by
      refine ht.sets (fun row hguard => ?_) (by simp) hsets
      exact of_decide_eq_true (Bool.and_eq_true_iff.mp hguard).1
    refine ⟨hrest.queued, hrest.distinct, hrest.assigning, hrest.running,
      fun ans hans haccepted => ?_⟩
    subst h
    rcases List.mem_cons.mp hans with rfl | hans
    · have haccepts : w.accepts threadId itemId result = true := haccepted
      obtain ⟨row, hrow, hrunning, hassigned⟩ := accepts_iff.mp haccepts
      have hset : getAgentJobItem itemId
          (reportAgentJobItemResult w.clock itemId threadId result w.store).1 = some _ :=
        row_set hrow (by simp [hrunning, hassigned])
      exact ⟨_, hset, rfl, rfl⟩
    · exact hrest.answered ans hans haccepted

/-! ## What is asked of a step -/

/-- The worker was started last for the item, and the item is neither completed, failed nor
requeued since. -/
def World.Owed (w : World ρ) (threadId : ThreadId) (i : Text) : Prop :=
  w.attempts.lookup i = some threadId ∧ ∃ row, getAgentJobItem i w.store = some row ∧ ¬ Settled row

variable (options w a) in
structure Lawful : Prop where
  once : ∀ threadId i result stop, a = .report threadId i result stop →
    w.accepts threadId i result = true → ∀ ans ∈ w.answers, ans.accepted = true → ans.itemId ≠ i
  owner : ∀ threadId i result stop, a = .report threadId i result stop →
    w.accepts threadId i result = true → w.attempts.lookup i = some threadId
  settled : ∀ v, step options w a = .ok v → ∀ i row,
    getAgentJobItem i w.store = some row → Settled row → getAgentJobItem i v.store = some row
  answered : ∀ ans ∈ w.answers, ans.accepted = true → ∃ row,
    getAgentJobItem ans.itemId w.store = some row ∧ row.resultJson = some ans.result
  heard : ∀ threadId i result stop, a = .report threadId i result stop →
    w.Owed threadId i → w.accepts threadId i result = true

variable (w a) in
def Early : Prop :=
  ∃ threadId i result stop row, a = .report threadId i result stop ∧
    w.attempts.lookup i = some threadId ∧ getAgentJobItem i w.store = some row ∧
      row.status = .pending

theorem heard_iff (ht : Tracked w) {threadId : ThreadId} {i : Text} {result : ρ}
    (howed : w.Owed threadId i) : w.accepts threadId i result = true ↔
      ∀ row, getAgentJobItem i w.store = some row → row.status ≠ .pending := by
  obtain ⟨hattempt, row, hrow, hnot⟩ := howed
  rw [accepts_iff]
  constructor
  · rintro ⟨row', hrow', hrunning, -⟩ row'' hrow''
    rw [hrow'] at hrow''
    cases hrow''
    simp [hrunning]
  · intro hpending
    have hrunning : row.status = .running := by
      have hthis := hpending row hrow
      cases hstatus : row.status with
      | pending => exact absurd hstatus hthis
      | running => rfl
      | completed => exact absurd (.inl hstatus) hnot
      | failed => exact absurd (.inr hstatus) hnot
    exact ⟨row, hrow, hrunning, (ht.running i row hrow hrunning).trans hattempt⟩

theorem lawful_iff (ht : Tracked w) : Lawful options w a ↔ ¬ Early w a := by
  constructor
  · rintro h ⟨threadId, i, result, stop, row, ha, hattempt, hrow, hpending⟩
    have howed : w.Owed threadId i := ⟨hattempt, row, hrow, fun hs => hs.not_pending hpending⟩
    exact (heard_iff ht howed).mp (h.heard threadId i result stop ha howed) row hrow hpending
  · intro hearly
    refine ⟨?_, ?_, fun v hv i row => settled_kept hv, fun ans hans haccepted => ?_,
      fun threadId i result stop ha howed => (heard_iff ht howed).mpr fun row hrow hpending =>
        hearly ⟨threadId, i, result, stop, row, ha, howed.1, hrow, hpending⟩⟩
    · rintro threadId i result stop - haccepts ans hans haccepted rfl
      obtain ⟨row, hrow, hrunning, -⟩ := accepts_iff.mp haccepts
      obtain ⟨row', hrow', hcompleted, -⟩ := ht.answered ans hans haccepted
      rw [hrow] at hrow'
      cases hrow'
      rw [hrunning] at hcompleted
      cases hcompleted
    · intro threadId i result stop _ haccepts
      obtain ⟨row, hrow, hrunning, hassigned⟩ := accepts_iff.mp haccepts
      exact (ht.running i row hrow hrunning).symm.trans hassigned
    · obtain ⟨row, hrow, -, hresult⟩ := ht.answered ans hans haccepted
      exact ⟨row, hrow, hresult⟩

/-- In every run the results are accepted as they should be, exactly if no worker reports
before the store knows that its item is its own. -/
theorem results_lawful_iff {now : ℤ} {items : List AgentJobItemCreateParams}
    {h : (items.map AgentJobItemCreateParams.itemId).Nodup} {acts : List (Act ρ)} :
    (∀ pre a u, pre ++ [a] <+: acts → pre.foldlM (step options) (start now items h) = .ok u →
        Lawful options u a) ↔
      ∀ pre a u, pre ++ [a] <+: acts → pre.foldlM (step options) (start now items h) = .ok u →
        ¬ Early u a := by
  have htracked : ∀ (pre : List (Act ρ)) u,
      pre.foldlM (step options) (start now items h) = .ok u → Tracked u :=
    fun pre u hu => run_keeps (fun w a v ht hv => step_tracked ht hv) (start_tracked now items h) hu
  constructor
  · exact fun hall pre a u hpre hu => (lawful_iff (htracked pre u hu)).mp (hall pre a u hpre hu)
  · exact fun hall pre a u hpre hu => (lawful_iff (htracked pre u hu)).mpr (hall pre a u hpre hu)

def rowOne : AgentJobItemCreateParams := ⟨"row-1".toList, 0⟩

def untilStarted : List (Act Bool) :=
  [.advance .next, .advance .next, .advance .next, .advance .next, .advance .next,
    .advance (.started "w".toList)]

def oneWorker : JobRunnerOptions := ⟨"job".toList, 1, "1800s".toList⟩

theorem report_after_assignment : ∃ u : World Bool,
    (untilStarted ++ [Act.advance .next]).foldlM (step oneWorker) (start 0 [rowOne] (by decide)) =
        .ok u ∧
      Lawful oneWorker u (.report "w".toList "row-1".toList true false) := by
  have halong : Along (step oneWorker) (fun u a => ¬ Early u a) (start 0 [rowOne] (by decide))
      (untilStarted ++ [.advance .next, .report "w".toList "row-1".toList true false]) := by
    iterate 7 refine Along.cons_ok rfl (by simp [Early]) ?_
    refine Along.cons_ok rfl ?_ trivial
    rintro ⟨threadId, i, result, stop, row, ha, -, hrow, hpending⟩
    cases ha
    cases hrow
    cases hpending
  have hlawful := results_lawful_iff.mpr fun pre a u hpre hu => halong.at hpre hu
  exact ⟨_, rfl, hlawful (untilStarted ++ [Act.advance .next]) _ _ ⟨[], rfl⟩ rfl⟩

/-- A worker that reports as soon as it runs is refused. -/
theorem early_result_refused : ∃ u : World Bool,
    untilStarted.foldlM (step oneWorker) (start 0 [rowOne] (by decide)) = .ok u ∧
      ¬ Lawful oneWorker u (.report "w".toList "row-1".toList true false) := by
  refine ⟨_, rfl, fun h => ?_⟩
  have hheard := h.heard _ _ _ _ rfl ⟨rfl, _, rfl, by simp [Settled]⟩
  exact absurd hheard (by decide)

end Codex.AgentJobs
