import Codex.AgentJobs.Results

/-!
# Attempts at the items

A worker that cannot be started leaves its item pending, as only a running item is marked
failed, so the item is tried again. Apart from that the loop makes no more attempts than there
are items, and it ends with all of them settled.
-/

namespace Codex.AgentJobs

open Foundation StateRuntime List

variable {ρ : Type} {options : JobRunnerOptions} {w v : World ρ} {a : Act ρ}

/-! ## Where the runner comes from -/

/-- The loop has returned an error, or the runner has ended. -/
def Pc.over : Pc ρ → Bool
  | .failing _ | .ended => true
  | _ => false

def Pc.afterLoop : Pc ρ → Bool
  | .exporting | .exportFailed _ | .closing | .completing | .emitting => true
  | _ => false

variable (threadId : ThreadId) (item : AgentJobItem ρ)

@[simp] theorem assign_spawns (w : World ρ) (rest : List (AgentJobItem ρ)) :
    (w.assign item threadId rest).spawns = w.spawns := by
  unfold World.assign
  dsimp only
  split
  · rfl
  · rfl

@[simp] theorem assign_pc (w : World ρ) (rest : List (AgentJobItem ρ)) :
    (w.assign item threadId rest).pc = .spawning rest := by
  unfold World.assign
  dsimp only
  split
  · rfl
  · rfl

variable (rest : List (ThreadId × Text))

@[simp] theorem readFinished_spawns (w : World ρ) (itemId : Text) :
    (w.readFinished options threadId itemId rest).spawns = w.spawns := by
  unfold World.readFinished
  split
  · rfl
  · split
    · rfl
    · rfl

@[simp] theorem assign_cancelRequested (w : World ρ) (rest : List (AgentJobItem ρ)) :
    (w.assign item threadId rest).cancelRequested = w.cancelRequested := by
  unfold World.assign
  dsimp only
  split
  · rfl
  · rfl

@[simp] theorem readFinished_cancelRequested (w : World ρ) (itemId : Text) :
    (w.readFinished options threadId itemId rest).cancelRequested = w.cancelRequested := by
  unfold World.readFinished
  split
  · rfl
  · split
    · rfl
    · rfl

theorem readFinished_afterLoop (w : World ρ) (itemId : Text) :
    (w.readFinished options threadId itemId rest).pc.afterLoop = false := by
  unfold World.readFinished
  split
  · rfl
  · split
    · rfl
    · rfl

section
variable (h : step options w a = .ok v)
include h

theorem stays_or : (v.pc = w.pc ∨ v.pc.over = true) ∧ v.cancelRequested = w.cancelRequested ∧
        v.spawns = w.spawns ∨
      ∃ outcome, a = .advance outcome := by
  cases a with
  | advance outcome => exact .inr ⟨outcome, rfl⟩
  | fail err =>
    dsimp only [step] at h
    split at h
    · cases h; exact .inl ⟨.inr rfl, rfl, rfl⟩
    · cases h
  | cancel =>
    dsimp only [step] at h
    split at h
    · cases h; exact .inl ⟨.inl rfl, rfl, rfl⟩
    · cases h
  | tick now | report threadId itemId result stop
  | terminate threadId => cases h; exact .inl ⟨.inl rfl, rfl, rfl⟩

theorem spawns_cases : v.spawns = w.spawns ∨ ∃ item rest outcome, w.pc = .spawning (item :: rest) ∧
      v.spawns = (item.itemId, outcome) :: w.spawns ∧ v.store = w.store ∧
      ((∃ threadId, outcome = .started threadId ∧ v.pc = .assigning item threadId rest) ∨
        outcome = .agentLimitReached ∧ v.pc = .requeueing item ∨
        ∃ err, outcome = .error err ∧ v.pc = .recording item err rest) := by
  rcases stays_or h with ⟨-, -, hspawns⟩ | ⟨outcome, rfl⟩
  · exact .inl hspawns
  · dsimp only [step] at h
    unfold advance at h
    split at h
    case h_8 item rest threadId hpc =>
      split at h
      · cases h
      · cases h
        exact .inr ⟨item, rest, _, hpc, rfl, rfl, .inl ⟨threadId, rfl, rfl⟩⟩
    case h_9 item rest hpc =>
      cases h
      exact .inr ⟨item, rest, _, hpc, rfl, rfl, .inr (.inl ⟨rfl, rfl⟩)⟩
    case h_10 item rest err hpc =>
      cases h
      exact .inr ⟨item, rest, _, hpc, rfl, rfl, .inr (.inr ⟨err, rfl, rfl⟩)⟩
    case h_11 => cases h; exact .inl (by simp)
    case h_20 => cases h; exact .inl (by simp)
    case h_30 => cases h
    all_goals first
      | (cases h; exact .inl rfl)
      | (split at h <;> cases h <;> exact .inl rfl)

theorem over_step (hover : w.pc.over = true) : v.pc.over = true := by
  rcases stays_or h with ⟨hstays | hover', -⟩ | ⟨outcome, rfl⟩
  · rw [hstays]
    exact hover
  · exact hover'
  · dsimp only [step] at h
    unfold advance at h
    split at h
    case h_28 => cases h; rfl
    case h_29 => cases h; rfl
    case h_30 => cases h
    all_goals
      next hpc =>
      rw [hpc] at hover
      cases hover

end

variable {item : AgentJobItem ρ} {rest : List (AgentJobItem ρ)} {row : AgentJobItem ρ}

theorem recording_step {err : Text} (hpc : w.pc = .recording item err rest)
    (h : step options w a = .ok v) :
    v.pc = w.pc ∨ v.pc.over = true ∨ a = .advance .next ∧ v = w.recordSpawnFailure item err rest := by
  rcases stays_or h with ⟨hstays | hover, -⟩ | ⟨outcome, rfl⟩
  · exact .inl hstays
  · exact .inr (.inl hover)
  · dsimp only [step] at h
    unfold advance at h
    rw [hpc] at h
    cases outcome with
    | next => exact .inr (.inr ⟨rfl, (Except.ok.inj h).symm⟩)
    | _ => cases h

theorem assigning_step {threadId : ThreadId} (hpc : w.pc = .assigning item threadId rest)
    (h : step options w a = .ok v) :
    v.pc = w.pc ∨ v.pc.over = true ∨ v = w.assign item threadId rest := by
  rcases stays_or h with ⟨hstays | hover, -⟩ | ⟨outcome, rfl⟩
  · exact .inl hstays
  · exact .inr (.inl hover)
  · dsimp only [step] at h
    unfold advance at h
    rw [hpc] at h
    cases outcome with
    | next => exact .inr (.inr (Except.ok.inj h).symm)
    | _ => cases h

theorem afterLoop_step (h : step options w a = .ok v) (hafter : v.pc.afterLoop = true) :
    v.cancelRequested = w.cancelRequested ∧
      (w.pc.afterLoop = true ∨ w.passEnded = .exporting ∧ v.store = w.store) := by
  rcases stays_or h with ⟨hstays | hover, hcancel, -⟩ | ⟨outcome, rfl⟩
  · rw [hstays] at hafter
    exact ⟨hcancel, .inl hafter⟩
  · cases hpc : v.pc <;> simp [hpc, Pc.over, Pc.afterLoop] at hover hafter
  · dsimp only [step] at h
    unfold advance at h
    split at h
    case h_11 => cases h; simp [Pc.afterLoop] at hafter
    case h_18 hpc =>
      cases h
      refine ⟨rfl, .inr ⟨?_, rfl⟩⟩
      rcases passEnded_cases w with hend | hend
      · exact hend
      · simp [hend, Pc.afterLoop] at hafter
    case h_20 => cases h; simp [readFinished_afterLoop] at hafter
    case h_22 hpc => cases h; exact ⟨rfl, .inl (by rw [hpc]; rfl)⟩
    case h_23 hpc => cases h; exact ⟨rfl, .inl (by rw [hpc]; rfl)⟩
    case h_25 hpc =>
      split at h
      · cases h; exact ⟨rfl, .inl (by rw [hpc]; rfl)⟩
      · cases h; exact ⟨rfl, .inl (by rw [hpc]; rfl)⟩
    case h_26 hpc => cases h; exact ⟨rfl, .inl (by rw [hpc]; rfl)⟩
    case h_17 =>
      split at h
      · cases h
        split at hafter
        · cases hafter
        · cases hafter
      · cases h
    case h_30 => cases h
    all_goals first
      | (cases h; cases hafter)
      | (split at h <;> cases h <;> cases hafter)

theorem recording_from (h : step options w a = .ok v) {err : Text}
    (hpc : v.pc = .recording item err rest) :
    v.pc = w.pc ∨ (item.itemId, .error err) ∈ v.spawns := by
  rcases stays_or h with ⟨hstays | hover, -⟩ | ⟨outcome, rfl⟩
  · exact .inl hstays
  · rw [hpc] at hover
    cases hover
  · dsimp only [step] at h
    unfold advance at h
    split at h
    case h_10 =>
      cases h
      cases hpc
      exact .inr mem_cons_self
    case h_11 => cases h; simp at hpc
    case h_17 =>
      split at h
      · cases h
        split at hpc
        · cases hpc
        · cases hpc
      · cases h
    case h_18 =>
      cases h
      rcases passEnded_cases w with hend | hend
      · simp [hend] at hpc
      · simp [hend] at hpc
    case h_20 =>
      cases h
      unfold World.readFinished at hpc
      split at hpc
      · cases hpc
      · split at hpc
        · cases hpc
        · cases hpc
    case h_30 => cases h
    all_goals first
      | (cases h; cases hpc)
      | (split at h <;> cases h <;> cases hpc)

/-! ## What holds in every run -/

def Outcome.isStarted : Outcome → Bool
  | .started _ => true
  | _ => false

@[simp] theorem isStarted_started : (Outcome.started threadId).isStarted = true := rfl

@[simp] theorem isStarted_limit : Outcome.agentLimitReached.isStarted = false := rfl

@[simp] theorem isStarted_error (err : Text) : (Outcome.error err).isStarted = false := rfl

def World.startedCount (w : World ρ) : ℕ := w.spawns.countP fun e => e.2.isStarted

def Pc.assigningCount : Pc ρ → ℕ
  | .assigning .. => 1
  | _ => 0

def notPending (row : AgentJobItem ρ) : Bool := row.status ≠ .pending

theorem length_step (h : step options w a = .ok v) :
    v.store.items.length = w.store.items.length := by
  cases step_cases h with
  | quiet hq => rw [hq.items]
  | listed hpc hcancel hitems | begun item threadId rest hpc hitems => rw [hitems]
  | assigned item threadId rest hpc hs => rw [hs.items]; exact length_update
  | requeued item hpc hv => rw [hv, requeue_store]; exact length_update
  | failed itemId err hmessage hs | completed itemId hs => rw [hs.items]; exact length_update
  | reported threadId itemId result stop ha hv => rw [hv, report_store]; exact length_update

theorem row_earlier (h : step options w a = .ok v) {i : Text}
    (hrow : getAgentJobItem i v.store = some row) :
    ∃ row, getAgentJobItem i w.store = some row := by
  cases step_cases h with
  | quiet hq => exact ⟨row, by rwa [getItem_congr hq.items] at hrow⟩
  | listed hpc hcancel hitems
  | begun item threadId rest hpc hitems => exact ⟨row, by rwa [getItem_congr hitems] at hrow⟩
  | assigned item threadId rest hpc hs =>
    rw [getItem_congr hs.items] at hrow
    exact (row_before hrow).imp fun _ => And.left
  | requeued item hpc hv =>
    rw [hv, requeue_store] at hrow
    exact (row_before hrow).imp fun _ => And.left
  | failed itemId err hmessage hs | completed itemId hs =>
    rw [getItem_congr hs.items] at hrow
    exact (row_before hrow).imp fun _ => And.left
  | reported threadId itemId result stop ha hv =>
    rw [hv, report_store] at hrow
    exact (row_before hrow).imp fun _ => And.left

theorem notPending_step (ht : Tracked w) (h : step options w a = .ok v) :
    w.store.items.countP notPending ≤ v.store.items.countP notPending := by
  cases step_cases h with
  | quiet hq => rw [hq.items]
  | listed hpc hcancel hitems | begun item threadId rest hpc hitems => rw [hitems]
  | assigned item threadId rest hpc hs => rw [hs.items]; exact count_le_update (by simp [notPending])
  | requeued item hpc hv =>
    obtain ⟨row, hrow, hpending⟩ := ht.queued item (by simp [hpc, Pc.queue])
    have hsame : (markAgentJobItemPending w.clock item.itemId none w.store).1.items =
        w.store.items := items_update_of_not hrow (by simp [hpending])
    rw [hv, requeue_store, hsame]
  | failed itemId err hmessage hs
  | completed itemId hs => rw [hs.items]; exact count_le_update (by simp [notPending])
  | reported threadId itemId result stop ha hv =>
    rw [hv, report_store]
    exact count_le_update (by simp [notPending])

structure Supported (w : World ρ) : Prop where
  tracked : Tracked w
  counted : w.pc.over = false →
    w.startedCount ≤ w.store.items.countP notPending + w.pc.assigningCount
  spawned : ∀ item err rest, w.pc = .recording item err rest → (item.itemId, .error err) ∈ w.spawns
  messages : ∀ i row err, getAgentJobItem i w.store = some row → row.status = .failed →
    row.lastError ≠ some ("failed to spawn worker: ".toList ++ err)
  outcomes : ∀ e ∈ w.spawns, e.2.isStarted = true ∨ e.2 = .agentLimitReached ∨
    ∃ err, e.2 = .error err
  done : w.pc.afterLoop = true → w.cancelRequested = false → ∀ row ∈ w.store.items, Settled row

theorem start_supported (now : ℤ) (items : List AgentJobItemCreateParams)
    (h : (items.map AgentJobItemCreateParams.itemId).Nodup) :
    Supported (start now items h : World ρ) := by
  refine ⟨start_tracked now items h, by simp [start, World.startedCount], by simp [start], ?_,
    by simp [start], by simp [start, Pc.afterLoop]⟩
  intro i row err hrow hfailed
  obtain ⟨item, -, rfl⟩ := mem_map.mp (rowAt_mem hrow)
  cases hfailed

theorem assign_counts (ht : Tracked w) {threadId : ThreadId}
    (hpc : w.pc = .assigning item threadId rest) :
    (w.assign item threadId rest).store.items.countP notPending =
      w.store.items.countP notPending + 1 := by
  obtain ⟨row, hrow, hpending⟩ := ht.queued item (by simp [hpc, Pc.queue])
  have hstore : (w.assign item threadId rest).store =
      (markAgentJobItemRunningWithThread w.clock item.itemId threadId w.store).1 := by
    unfold World.assign
    dsimp only
    split
    · rfl
    · rfl
  have hcount : (markAgentJobItemRunningWithThread w.clock item.itemId threadId
      w.store).1.items.countP notPending + (notPending row).toNat =
        w.store.items.countP notPending + 1 := count_update notPending hrow (by simp [hpending])
  have hrowPending : (notPending row).toNat = 0 := by simp [notPending, hpending]
  rw [hstore]
  omega

theorem counted_step (hs : Supported w) (h : step options w a = .ok v) (hover : v.pc.over = false) :
    v.startedCount ≤ v.store.items.countP notPending + v.pc.assigningCount := by
  have hbefore : w.pc.over = false := by
    cases hw : w.pc.over with
    | false => rfl
    | true => exact absurd (over_step h hw) (by simp [hover])
  have hcounted := hs.counted hbefore
  have hmono := notPending_step hs.tracked h
  rcases spawns_cases h with hsame | ⟨item, rest, outcome, hpc, hspawns, hstore, hnext⟩
  · have hstarted : v.startedCount = w.startedCount := by
      unfold World.startedCount
      rw [hsame]
    cases hpc : w.pc with
    | assigning item threadId rest =>
      rw [hpc] at hcounted
      rcases assigning_step hpc h with hstays | hv | rfl
      · rw [hstays, hpc]
        omega
      · rw [hover] at hv
        cases hv
      · have hassigned := assign_counts hs.tracked hpc
        simp only [Pc.assigningCount] at hcounted
        omega
    | _ =>
      simp only [hpc, Pc.assigningCount] at hcounted
      omega
  · rw [hpc] at hcounted
    unfold World.startedCount at hcounted ⊢
    rw [hspawns, hstore, countP_cons]
    simp only [Pc.assigningCount] at hcounted
    rcases hnext with ⟨threadId, rfl, hv⟩ | ⟨rfl, hv⟩ | ⟨err, rfl, hv⟩
    · simp only [hv, Pc.assigningCount, isStarted_started, if_true]
      omega
    · simp only [isStarted_limit, Bool.false_eq_true, if_false]
      omega
    · simp only [isStarted_error, Bool.false_eq_true, if_false]
      omega

theorem settled_of_passEnded (hend : w.passEnded = .exporting) (hcancel : w.cancelRequested = false)
    (hrow : row ∈ w.store.items) : Settled row := by
  unfold World.passEnded at hend
  rw [hcancel, if_neg Bool.false_ne_true] at hend
  split at hend
  · next hzero =>
    obtain ⟨hpending, hrunning, -⟩ := hzero
    have hp := countP_eq_zero.mp hpending row hrow
    have hr := countP_eq_zero.mp hrunning row hrow
    unfold Settled
    cases hstatus : row.status <;> simp_all
  · cases hend

theorem done_step (hs : Supported w) (h : step options w a = .ok v) (hafter : v.pc.afterLoop = true)
    (hcancel : v.cancelRequested = false) : ∀ row ∈ v.store.items, Settled row := by
  obtain ⟨hsame, hw | ⟨hend, hstore⟩⟩ := afterLoop_step h hafter
  · intro row hrow
    have hlater := rowAt_of_mem v.store.distinct hrow
    obtain ⟨row', hrow'⟩ := row_earlier h hlater
    have hsettled := hs.done hw (hsame ▸ hcancel) row' (rowAt_mem hrow')
    have hkept := settled_kept h hrow' hsettled
    have heq : some row = some row' := hlater.symm.trans hkept
    cases heq
    exact hsettled
  · rw [hstore]
    exact fun row hrow => settled_of_passEnded hend (hsame ▸ hcancel) hrow

theorem messages_step (hs : Supported w) (h : step options w a = .ok v) {i : Text} (err : Text)
    (hrow : getAgentJobItem i v.store = some row) (hfailed : row.status = .failed) :
    row.lastError ≠ some ("failed to spawn worker: ".toList ++ err) := by
  cases step_cases h with
  | quiet hq => exact hs.messages i row err (by rwa [getItem_congr hq.items] at hrow) hfailed
  | listed hpc hcancel hitems => exact hs.messages i row err (by rwa [getItem_congr hitems] at hrow) hfailed
  | begun item threadId rest hpc hitems =>
    exact hs.messages i row err (by rwa [getItem_congr hitems] at hrow) hfailed
  | assigned item threadId rest hpc hset =>
    rw [getItem_congr hset.items] at hrow
    obtain ⟨row', hrow', rfl | ⟨-, -, rfl⟩⟩ := row_before hrow
    · exact hs.messages i _ err hrow' hfailed
    · cases hfailed
  | requeued item hpc hv =>
    rw [hv, requeue_store] at hrow
    obtain ⟨row', hrow', rfl | ⟨-, -, rfl⟩⟩ := row_before hrow
    · exact hs.messages i _ err hrow' hfailed
    · cases hfailed
  | failed itemId err' hmessage hset =>
    rw [getItem_congr hset.items] at hrow
    obtain ⟨row', hrow', rfl | ⟨rfl, hguard, rfl⟩⟩ := row_before hrow
    · exact hs.messages i _ err hrow' hfailed
    · rcases hmessage with ⟨item, e, rest, hpc, rfl⟩ | hhead
      · -- the row of the item whose worker did not start is pending, so it is not set
        obtain ⟨row, hrow, hpending⟩ := hs.tracked.queued item (by simp [hpc, Pc.queue])
        rw [hrow'] at hrow
        cases hrow
        simp [hpending] at hguard
      · intro heq
        have herr := Option.some.inj heq
        rw [herr] at hhead
        cases hhead
  | completed itemId hset =>
    rw [getItem_congr hset.items] at hrow
    obtain ⟨row', hrow', rfl | ⟨-, -, rfl⟩⟩ := row_before hrow
    · exact hs.messages i _ err hrow' hfailed
    · cases hfailed
  | reported threadId itemId result stop ha hv =>
    rw [hv, report_store] at hrow
    obtain ⟨row', hrow', rfl | ⟨-, -, rfl⟩⟩ := row_before hrow
    · exact hs.messages i _ err hrow' hfailed
    · cases hfailed

theorem step_supported (hs : Supported w) (h : step options w a = .ok v) : Supported v := by
  refine ⟨step_tracked hs.tracked h, counted_step hs h, fun item err rest hpc => ?_,
    fun i row err hrow hfailed => messages_step hs h err hrow hfailed, ?_, done_step hs h⟩
  · rcases recording_from h hpc with hstays | hmem
    · rcases spawns_cases h with hsame | ⟨item', rest', outcome, hpc', hspawns, -⟩
      · rw [hsame]
        exact hs.spawned item err rest (hstays.symm.trans hpc)
      · rw [hspawns]
        exact mem_cons_of_mem _ (hs.spawned item err rest (hstays.symm.trans hpc))
    · exact hmem
  · intro e he
    rcases spawns_cases h with hsame | ⟨item, rest, outcome, hpc, hspawns, hstore, hnext⟩
    · rw [hsame] at he
      exact hs.outcomes e he
    · rw [hspawns] at he
      rcases mem_cons.mp he with rfl | he
      · rcases hnext with ⟨threadId, rfl, -⟩ | ⟨rfl, -⟩ | ⟨err, rfl, -⟩
        · exact .inl rfl
        · exact .inr (.inl rfl)
        · exact .inr (.inr ⟨err, rfl⟩)
      · exact hs.outcomes e he

/-! ## What is asked of the runner -/

/-- The failure to start a worker has not been written yet, or the runner got no further. -/
def World.Unrecorded (w : World ρ) (i : Text) (err : Text) : Prop :=
  (∃ item rest, w.pc = .recording item err rest ∧ item.itemId = i) ∨ w.pc.over = true

structure Attempted (w : World ρ) : Prop where
  recorded : ∀ i err, (i, .error err) ∈ w.spawns → w.Unrecorded i err ∨ ∃ row,
    getAgentJobItem i w.store = some row ∧ row.status = .failed ∧
      row.lastError = some ("failed to spawn worker: ".toList ++ err)
  once : ∀ newer i err older, w.spawns = newer ++ (i, .error err) :: older → ∀ e ∈ newer, e.1 ≠ i
  bounded : (w.spawns.countP fun e => e.2 ≠ .agentLimitReached) ≤ w.store.items.length
  settled : w.pc.afterLoop = true → w.cancelRequested = false →
    let progress := getAgentJobProgress w.store
    progress.pendingItems = 0 ∧ progress.runningItems = 0 ∧
      progress.completedItems + progress.failedItems = progress.totalItems

variable (w a) in
/-- The loop writes that a worker could not be started, for another reason than the limit of
agents. -/
def RecordsFailure : Prop :=
  a = .advance .next ∧ ∃ item err rest, w.pc = .recording item err rest

theorem settled_progress {s : StateRuntime ρ} (h : ∀ row ∈ s.items, Settled row) :
    let progress := getAgentJobProgress s
    progress.pendingItems = 0 ∧ progress.runningItems = 0 ∧
      progress.completedItems + progress.failedItems = progress.totalItems := by
  refine ⟨?_, ?_, ?_⟩
  · exact countP_eq_zero.mpr fun row hrow => by simp [(h row hrow).not_pending]
  · exact countP_eq_zero.mpr fun row hrow => by simp [(h row hrow).not_running]
  · have hfailed : (s.items.countP fun row => decide (row.status = .failed)) =
        s.items.countP fun row => !decide (row.status = .completed) := by
      apply countP_congr
      intro row hrow
      rcases h row hrow with hs | hs <;> simp [hs]
    have hlength := length_eq_countP_add_countP (l := s.items)
      fun row => decide (row.status = .completed)
    simp only [decide_eq_true_eq, decide_not] at hlength
    dsimp only [getAgentJobProgress]
    rw [hfailed]
    exact hlength.symm

theorem no_errors (hs : Supported w) (hp : Attempted w) (hover : w.pc.over = false)
    (hrecording : ∀ item err rest, w.pc ≠ .recording item err rest) (i : Text) (err : Text) :
    (i, .error err) ∉ w.spawns := by
  intro hmem
  rcases hp.recorded i err hmem with (⟨item, rest, hpc, -⟩ | hw) | ⟨row, hrow, hfailed, herror⟩
  · exact hrecording item err rest hpc
  · rw [hover] at hw
    cases hw
  · exact hs.messages i row err hrow hfailed herror

theorem attempts_lt (hs : Supported w) (hp : Attempted w) {item : AgentJobItem ρ}
    {rest : List (AgentJobItem ρ)} (hpc : w.pc = .spawning (item :: rest)) :
    (w.spawns.countP fun e => e.2 ≠ .agentLimitReached) < w.store.items.length := by
  have hsame : (w.spawns.countP fun e => e.2 ≠ .agentLimitReached) = w.startedCount := by
    apply countP_congr
    intro e he
    rcases hs.outcomes e he with h | h | ⟨err, h⟩
    · cases hout : e.2 <;> simp_all [Outcome.isStarted]
    · simp [h]
    · have hno := no_errors hs hp (by simp [hpc, Pc.over]) (by simp [hpc]) e.1 err
      exact absurd (h ▸ he) hno
  have hcounted := hs.counted (by simp [hpc, Pc.over])
  obtain ⟨row, hrow, hpending⟩ := hs.tracked.queued item (by simp [hpc, Pc.queue])
  have hpos : 0 < w.store.items.countP fun row => !notPending row :=
    countP_pos_iff.mpr ⟨row, rowAt_mem hrow, by simp [notPending, hpending]⟩
  have hlength := length_eq_countP_add_countP (l := w.store.items) notPending
  simp only [hpc, Pc.assigningCount] at hcounted
  simp only [Bool.decide_eq_true, decide_not] at hlength
  omega

theorem not_attempted_of_records (hs : Supported w) (h : step options w a = .ok v)
    (hrecords : RecordsFailure w a) : ¬ Attempted v := by
  obtain ⟨rfl, item, err, rest, hpc⟩ := hrecords
  have hv : w.recordSpawnFailure item err rest = v := by
    dsimp only [step] at h
    unfold advance at h
    rw [hpc] at h
    exact Except.ok.inj h
  obtain ⟨row, hrow, hpending⟩ := hs.tracked.queued item (by simp [hpc, Pc.queue])
  have hkept : getAgentJobItem item.itemId (markAgentJobItemFailed w.clock item.itemId
      ("failed to spawn worker: ".toList ++ err) w.store).1 = some row :=
    row_kept hrow fun _ => by simp [hpending]
  subst hv
  intro hp
  rcases hp.recorded item.itemId err (hs.spawned item err rest hpc) with
    (⟨_, _, hrecording, -⟩ | hover) | ⟨row', hrow', hfailed, -⟩
  · cases hrecording
  · cases hover
  · have heq : some row = some row' := hkept.symm.trans hrow'
    cases heq
    rw [hpending] at hfailed
    cases hfailed

theorem attempted_step_iff (hs : Supported w) (hp : Attempted w)
    (h : step options w a = .ok v) : Attempted v ↔ ¬ RecordsFailure w a := by
  refine ⟨fun hv hrecords => not_attempted_of_records hs h hrecords hv, fun hno => ?_⟩
  have hlength := length_step h
  have hsettled : v.pc.afterLoop = true → v.cancelRequested = false → _ :=
    fun hafter hcancel => settled_progress (done_step hs h hafter hcancel)
  rcases spawns_cases h with hsame | ⟨item, rest, outcome, hpc, hspawns, hstore, hnext⟩
  · refine ⟨fun i err hmem => ?_, by rw [hsame]; exact hp.once, by rw [hsame, hlength]; exact hp.bounded,
      hsettled⟩
    rw [hsame] at hmem
    rcases hp.recorded i err hmem with (⟨item, rest, hpc, hitem⟩ | hover) | ⟨row, hrow, hfailed, herror⟩
    · rcases recording_step hpc h with hstays | hover | ⟨ha, -⟩
      · exact .inl (.inl ⟨item, rest, hstays.trans hpc, hitem⟩)
      · exact .inl (.inr hover)
      · exact absurd ⟨ha, item, err, rest, hpc⟩ hno
    · exact .inl (.inr (over_step h hover))
    · exact .inr ⟨row, settled_kept h hrow (.inr hfailed), hfailed, herror⟩
  · -- so far every attempt has come to something
    have hnone : ∀ i err, (i, .error err) ∉ w.spawns :=
      no_errors hs hp (by simp [hpc, Pc.over]) (by simp [hpc])
    have hlt := attempts_lt hs hp hpc
    refine ⟨fun i err hmem => ?_, fun newer i err older heq => ?_, ?_, hsettled⟩
    · rw [hspawns] at hmem
      rcases mem_cons.mp hmem with heq | hmem
      · obtain ⟨rfl, rfl⟩ := Prod.mk.inj heq
        rcases hnext with ⟨threadId, herr, -⟩ | ⟨herr, -⟩ | ⟨err', herr, hv⟩
        · cases herr
        · cases herr
        · cases herr
          exact .inl (.inl ⟨item, rest, hv, rfl⟩)
      · exact absurd hmem (hnone i err)
    · rw [hspawns] at heq
      cases newer with
      | nil => simp
      | cons e newer =>
        have hmem : (i, .error err) ∈ w.spawns := by
          rw [(List.cons.inj heq).2]
          exact mem_append_right _ mem_cons_self
        exact absurd hmem (hnone i err)
    · rw [hspawns, hlength, countP_cons]
      split
      · exact hlt
      · exact hlt.le

/-- In every run the attempts come to what they should, exactly if no failure to start a
worker is written, other than the limit of agents. -/
theorem attempts_iff {now : ℤ} {items : List AgentJobItemCreateParams}
    {h : (items.map AgentJobItemCreateParams.itemId).Nodup} {acts : List (Act ρ)} {w : World ρ}
    (hrun : acts.foldlM (step options) (start now items h) = .ok w) :
    (∀ pre u, pre <+: acts → pre.foldlM (step options) (start now items h) = .ok u →
        Attempted u) ↔
      ∀ pre a u, pre ++ [a] <+: acts → pre.foldlM (step options) (start now items h) = .ok u →
        ¬ RecordsFailure u a := by
  refine always_iff_given (I := Supported) (fun u a v hu hv => step_supported hu hv)
    (fun u a v hu hp hv => attempted_step_iff hu hp hv) (start_supported now items h) ?_ hrun
  exact ⟨by simp [start], by simp [start], by simp [start], by simp [start, Pc.afterLoop]⟩

def untilTriedAgain : List (Act Bool) :=
  [.advance .next, .advance .next, .advance .next, .advance .next, .advance .next,
    .advance (.error "no model".toList), .advance .next, .advance .next, .advance (.stale []),
    .advance .next, .advance (.finished []), .advance .next, .advance .next, .advance .next,
    .advance (.error "no model".toList)]

theorem spawn_failure_tried_again : ∃ u : World Bool,
    untilTriedAgain.foldlM (step oneWorker) (start 0 [rowOne] (by decide)) = .ok u ∧
      ¬ Attempted u := by
  refine ⟨_, rfl, fun h => ?_⟩
  exact h.once [("row-1".toList, .error "no model".toList)] "row-1".toList "no model".toList []
    rfl _ mem_cons_self rfl

theorem attempts_started : ∃ u : World Bool,
    untilStarted.foldlM (step oneWorker) (start 0 [rowOne] (by decide)) = .ok u ∧ Attempted u := by
  have halong : Along (step oneWorker) (fun u a => ¬ RecordsFailure u a)
      (start 0 [rowOne] (by decide)) untilStarted := by
    refine Along.cons_ok rfl (by simp [RecordsFailure, start]) ?_
    refine Along.cons_ok rfl (by simp [RecordsFailure]) ?_
    refine Along.cons_ok rfl (by simp [RecordsFailure]) ?_
    refine Along.cons_ok rfl (by simp [RecordsFailure]) ?_
    refine Along.cons_ok rfl (by simp [RecordsFailure]) ?_
    exact Along.cons_ok rfl (by simp [RecordsFailure]) trivial
  refine ⟨_, rfl, ?_⟩
  exact (attempts_iff rfl).mpr (fun pre a u hpre hu => halong.at hpre hu) untilStarted _
    prefix_rfl rfl

end Codex.AgentJobs
