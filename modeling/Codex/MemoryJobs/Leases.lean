import Codex.Foundation.Run
import Codex.MemoryJobs.Workers

/-!
# Leases of the memory pipeline

However the workers' calls interleave, a job is leased to one worker at a time, a call under
another token than the last does nothing, and what was processed is not claimed again. How
often a source timestamp can fail is bounded as long as no claim goes back to an older one.
-/

namespace Codex.MemoryJobs

open Foundation StateRuntime List

variable {maxRunningJobs : ℕ} {s s' : StateRuntime} {w v : World} {a : Act} {key : JobKey}
  {row row' : Job}

/-! ## What a statement does -/

/-- One row is set or inserted. -/
structure Sets (key : JobKey) (row' : Job) (s s' : StateRuntime) : Prop where
  job : ∀ key', s'.job key' = if key' = key then some row' else s.job key'
  outputs : s'.stage1Outputs = s.stage1Outputs
  running : ∀ now, runningStage1 now s' =
    runningStage1Except now key s + (isStage1 key && leased now row').toNat

theorem runningStage1Except_eq (now : ℤ) : runningStage1Except now key s =
    s.jobs.countP fun row =>
      (isStage1 row.key && leased now row) && decide (row.key ≠ key) := rfl

variable {set : Job → Job} {hset : ∀ row, (set row).key = row.key}

theorem sets_updateJob {guard : Job → Bool} (h : (s.updateJob key guard set hset).2 = true) :
    ∃ row, s.job key = some row ∧ guard row = true ∧
      Sets key (set row) s (s.updateJob key guard set hset).1 := by
  have haffected : (updateRowAt Job.key key guard set s.jobs).2 = true := h
  obtain ⟨row, hrow, hguard⟩ := (updateRowAt_affects s.distinct).mp haffected
  refine ⟨row, hrow, hguard, fun key' => ?_, rfl, fun now => ?_⟩
  · refine (rowAt_updateRowAt hset).trans ?_
    rw [hrow]
    simp [hguard, job]
  · let counts := fun row : Job => isStage1 row.key && leased now row
    have hcount : (updateRowAt Job.key key guard set s.jobs).1.countP counts +
        (counts row).toNat = s.jobs.countP counts + (counts (set row)).toNat :=
      countP_updateRowAt counts s.distinct hrow hguard
    have hexcept := countP_except counts s.distinct hrow
    have hkey : (set row).key = key := (hset row).trans (rowAt_key hrow)
    have hcounts : counts (set row) = (isStage1 key && leased now (set row)) := by
      simp only [counts, hkey]
    rw [runningStage1Except_eq, ← hcounts]
    change (updateRowAt Job.key key guard set s.jobs).1.countP counts = _
    change _ = s.jobs.countP (fun row => counts row && decide (row.key ≠ key)) + _
    omega

theorem updateJob_idle {guard : Job → Bool} (h : (s.updateJob key guard set hset).2 = false) :
    (s.updateJob key guard set hset).1 = s := by
  have hidle : (updateRowAt Job.key key guard set s.jobs).2 = false := h
  have hrows := updateRowAt_idle hidle
  obtain ⟨jobs, distinct, outputs⟩ := s
  simp only [updateJob, mk.injEq, and_true]
  exact hrows

theorem sets_insertJob (hkey : row'.key = key) (h : s.job row'.key = none) :
    Sets key row' s (s.insertJob row' h) := by
  subst hkey
  refine ⟨fun key' => ?_, rfl, fun now => ?_⟩
  · unfold job insertJob rowAt
    by_cases hkey : key' = row'.key
    · subst hkey
      have hnone : (s.jobs.find? fun row => row.key = row'.key) = none := h
      simp [hnone]
    · simp [hkey, Ne.symm hkey]
  · rw [runningStage1Except_eq, countP_except_none _ h]
    unfold runningStage1 insertJob
    rw [countP_append, countP_singleton]
    cases isStage1 row'.key && leased now row' <;> rfl

theorem sets_updateJob_true (hrow : s.job key = some row) :
    Sets key (set row) s (s.updateJob key (fun _ => true) set hset).1 := by
  have haffected : (updateRowAt Job.key key (fun _ => true) set s.jobs).2 = true :=
    (updateRowAt_affects s.distinct).mpr ⟨row, hrow, rfl⟩
  obtain ⟨row₁, hrow₁, -, hsets⟩ := sets_updateJob haffected
  rw [hrow] at hrow₁
  cases hrow₁
  exact hsets

/-- A row under which no worker gains or loses a lease. -/
structure Kept (before : Option Job) (row' : Job) : Prop where
  token : row'.ownershipToken = before.bind Job.ownershipToken
  running : row'.status = .running ↔ ∃ row, before = some row ∧ row.status = .running
  lease : ∀ row, before = some row → row'.leaseUntil = row.leaseUntil
  success : ∀ row, before = some row → row'.lastSuccessWatermark = row.lastSuccessWatermark

theorem sets_enqueue (s : StateRuntime) (inputWatermark : ℤ) :
    ∃ row', Sets .consolidateGlobal row' s (s.enqueueGlobalConsolidation inputWatermark) ∧
      Kept (s.job .consolidateGlobal) row' := by
  unfold enqueueGlobalConsolidation
  split
  · next h =>
    refine ⟨_, sets_insertJob (by rfl) h, ?_⟩
    rw [h]
    exact ⟨rfl, by simp, by simp, by simp⟩
  · next row h =>
    refine ⟨_, sets_updateJob_true h, ?_⟩
    rw [h]
    refine ⟨rfl, ?_, by simp, by simp⟩
    split
    · next hrunning => simp [hrunning]
    · next hrunning => simp [hrunning]

/-- The row of a job that has just been claimed. -/
structure Claims (now : ℤ) (ownershipToken : Text) (leaseSeconds : ℤ) (row' : Job) : Prop where
  running : row'.status = .running
  token : row'.ownershipToken = some ownershipToken
  lease : row'.leaseUntil = some (saturatingAdd now (max leaseSeconds 0))

theorem sets_claimRow (now : ℤ) (threadId workerId ownershipToken : Text)
    (sourceUpdatedAt leaseSeconds : ℤ) (s : StateRuntime) : ∃ row', Sets (.stage1 threadId) row' s
        (s.claimRow now threadId workerId ownershipToken sourceUpdatedAt leaseSeconds) ∧
      Claims now ownershipToken leaseSeconds row' ∧
      row'.inputWatermark = some sourceUpdatedAt ∧
      row'.lastSuccessWatermark = (s.job (.stage1 threadId)).bind Job.lastSuccessWatermark ∧
      row'.retryRemaining = match s.job (.stage1 threadId) with
        | none => defaultRetryRemaining
        | some row =>
          if advanced sourceUpdatedAt row then defaultRetryRemaining else row.retryRemaining := by
  unfold claimRow
  split
  · next h =>
    refine ⟨_, sets_insertJob (by rfl) h, ⟨rfl, rfl, rfl⟩, rfl, ?_⟩
    rw [h]
    exact ⟨rfl, rfl⟩
  · next row h =>
    refine ⟨_, sets_updateJob_true h, ⟨rfl, rfl, rfl⟩, rfl, ?_⟩
    rw [h]
    exact ⟨rfl, rfl⟩

theorem claimPhase2_cases (now : ℤ) (workerId ownershipToken : Text) (leaseSeconds : ℤ)
    (s : StateRuntime) :
    ((s.tryClaimGlobalPhase2Job now workerId ownershipToken leaseSeconds).1 = s ∧
        ∀ token watermark, (s.tryClaimGlobalPhase2Job now workerId ownershipToken
          leaseSeconds).2 ≠ .claimed token watermark) ∨
      ∃ row' watermark, Sets .consolidateGlobal row' s
          (s.tryClaimGlobalPhase2Job now workerId ownershipToken leaseSeconds).1 ∧
        (s.tryClaimGlobalPhase2Job now workerId ownershipToken leaseSeconds).2 =
          .claimed ownershipToken watermark ∧
        Claims now ownershipToken leaseSeconds row' ∧
        ∀ row, s.job .consolidateGlobal = some row → phase2Guard now row = true ∧
          row'.lastSuccessWatermark = row.lastSuccessWatermark := by
  unfold tryClaimGlobalPhase2Job
  dsimp only
  split
  · next hnone =>
    refine .inr ⟨_, _, sets_insertJob (by rfl) hnone, rfl, ⟨rfl, rfl, rfl⟩, fun row hrow => ?_⟩
    rw [hnone] at hrow
    cases hrow
  · next row hrow =>
    split
    · exact .inl ⟨rfl, by simp⟩
    · split
      · exact .inl ⟨rfl, by simp⟩
      · split
        · exact .inl ⟨rfl, by simp⟩
        · split
          · next haffected =>
            obtain ⟨row₁, hrow₁, hguard, hsets⟩ := sets_updateJob haffected
            refine .inr ⟨_, _, hsets, rfl, ⟨rfl, rfl, rfl⟩, fun row₂ hrow₂ => ?_⟩
            rw [hrow₁] at hrow₂
            cases hrow₂
            exact ⟨hguard, rfl⟩
          · next haffected =>
            exact .inl ⟨updateJob_idle (Bool.eq_false_of_not_eq_true haffected), by simp⟩

/-! ## Leases and tokens -/

/-- The row is running under the lease. -/
structure Lease.HeldIn (l : Lease) (row : Job) : Prop where
  running : row.status = .running
  token : row.ownershipToken = some l.ownershipToken
  lease : row.leaseUntil = some l.leaseUntil

variable (maxRunningJobs w) in
structure Fenced : Prop where
  held : ∀ l ∈ w.leases, w.clock < l.leaseUntil → ∃ row, w.store.job l.key = some row ∧ l.HeldIn row
  given : ∀ l ∈ w.leases, (l.key, l.ownershipToken) ∈ w.issued
  distinct : (w.leases.map Lease.ownershipToken).Nodup
  latest : ∀ key, (w.store.job key).bind Job.ownershipToken = w.lastIssued key
  running : ∀ key row, w.store.job key = some row → row.status = .running →
    row.ownershipToken.isSome = true
  bounded : runningStage1 w.clock w.store ≤ maxRunningJobs

theorem runningStage1Except_le (now : ℤ) : runningStage1Except now key s ≤ runningStage1 now s := by
  apply countP_mono_left
  intro row _ h
  exact (Bool.and_eq_true_iff.mp h).1

section
variable (h : Fenced maxRunningJobs w)
include h

theorem Fenced.sets (hsets : Sets key row' w.store v.store)
    (hheld : ∀ l ∈ v.leases, w.clock < l.leaseUntil →
      (l.key = key → l.HeldIn row') ∧ (l.key ≠ key → l ∈ w.leases))
    (hgiven : ∀ l ∈ v.leases, (l.key, l.ownershipToken) ∈ v.issued)
    (hdistinct : (v.leases.map Lease.ownershipToken).Nodup)
    (hlatest : ∀ key', v.lastIssued key' =
      if key' = key then row'.ownershipToken else w.lastIssued key')
    (hrunning : row'.status = .running → row'.ownershipToken.isSome = true)
    (hclock : v.clock = w.clock)
    (hbounded : runningStage1Except w.clock key w.store +
      (isStage1 key && leased w.clock row').toNat ≤ maxRunningJobs) :
    Fenced maxRunningJobs v := by
  refine ⟨fun l hl hunexpired => ?_, hgiven, hdistinct, fun key' => ?_, fun key' row hrow hrun => ?_,
    ?_⟩
  · rw [hclock] at hunexpired
    obtain ⟨hsame, hother⟩ := hheld l hl hunexpired
    rw [hsets.job]
    split
    · next hkey => exact ⟨row', rfl, hsame hkey⟩
    · next hkey => exact h.held l (hother hkey) hunexpired
  · rw [hsets.job, hlatest]
    split
    · rfl
    · exact h.latest key'
  · rw [hsets.job] at hrow
    split at hrow
    · cases hrow
      exact hrunning hrun
    · exact h.running key' row hrow hrun
  · rw [hclock, hsets.running]
    exact hbounded

theorem Fenced.jobs (hjobs : v.store.jobs = w.store.jobs)
    (hclock : v.clock = w.clock) (hissued : v.issued = w.issued) (hleases : v.leases = w.leases) :
    Fenced maxRunningJobs v := by
  have hjob : ∀ key, v.store.job key = w.store.job key := fun key => by
    unfold job
    rw [hjobs]
  refine ⟨?_, ?_, ?_, fun key => ?_, fun key row hrow => ?_, ?_⟩
  · rw [hleases, hclock]
    simpa only [hjob] using h.held
  · rw [hleases, hissued]
    exact h.given
  · rw [hleases]
    exact h.distinct
  · rw [hjob]
    unfold World.lastIssued
    rw [hissued]
    exact h.latest key
  · rw [hjob] at hrow
    exact h.running key row hrow
  · unfold runningStage1
    rw [hjobs, hclock]
    exact h.bounded

theorem Fenced.tick {now : ℤ} (hnow : w.clock ≤ now) :
    Fenced maxRunningJobs { w with clock := now } := by
  refine ⟨fun l hl hunexpired => h.held l hl (lt_of_le_of_lt hnow hunexpired), h.given, h.distinct,
    h.latest, h.running, Nat.le_trans (countP_mono_left fun row _ hrow => ?_) h.bounded⟩
  obtain ⟨hstage1, hleased⟩ := Bool.and_eq_true_iff.mp hrow
  refine Bool.and_eq_true_iff.mpr ⟨hstage1, ?_⟩
  unfold leased at hleased ⊢
  cases hlease : row.leaseUntil with
  | none => simp [hlease] at hleased
  | some leaseUntil =>
    simp only [hlease, Bool.and_eq_true, decide_eq_true_eq] at hleased ⊢
    exact ⟨hleased.1, lt_of_le_of_lt hnow hleased.2⟩

end

def Free (now : ℤ) (before : Option Job) : Prop :=
  ∀ row, before = some row → row.status = .running →
    ∀ leaseUntil, row.leaseUntil = some leaseUntil → leaseUntil ≤ now

variable (h : Fenced maxRunningJobs w)
include h

theorem Fenced.grant {ownershipToken workerId : Text}
    {leaseSeconds : ℤ} (hfresh : ownershipToken ∉ w.issued.map Prod.snd)
    (hfree : Free w.clock (w.store.job key)) (hsets : Sets key row' w.store s')
    (hclaims : Claims w.clock ownershipToken leaseSeconds row')
    (hbounded : runningStage1Except w.clock key w.store +
      (isStage1 key && leased w.clock row').toNat ≤ maxRunningJobs) :
    Fenced maxRunningJobs (w.grant key ownershipToken workerId leaseSeconds s') := by
  apply h.sets hsets
  · intro l hl hunexpired
    rcases mem_cons.mp hl with rfl | hl
    · exact ⟨fun _ => ⟨hclaims.running, hclaims.token, hclaims.lease⟩, fun hne => absurd rfl hne⟩
    · refine ⟨fun hkey => ?_, fun _ => hl⟩
      obtain ⟨row, hrow, hheld⟩ := h.held l hl hunexpired
      rw [hkey] at hrow
      have hexpired := hfree row hrow hheld.running l.leaseUntil hheld.lease
      omega
  · intro l hl
    rcases mem_cons.mp hl with rfl | hl
    · exact mem_cons_self
    · exact mem_cons_of_mem _ (h.given l hl)
  · refine nodup_cons.mpr ⟨fun hmem => ?_, h.distinct⟩
    obtain ⟨l, hl, htoken⟩ := mem_map.mp hmem
    have htoken : l.ownershipToken = ownershipToken := htoken
    apply hfresh
    rw [← htoken]
    exact mem_map_of_mem (h.given l hl)
  · intro key'
    unfold World.lastIssued World.grant
    rw [List.find?_cons, hclaims.token]
    by_cases hkey : key' = key
    · simp [hkey]
    · simp [hkey, Ne.symm hkey]
  · intro _
    rw [hclaims.token]
    rfl
  · rfl
  · exact hbounded

theorem Fenced.keep (hsets : Sets key row' w.store s')
    (hkept : Kept (w.store.job key) row') (hkey : isStage1 key = false) :
    Fenced maxRunningJobs { w with store := s' } := by
  apply h.sets hsets
  · intro l hl hunexpired
    refine ⟨fun hkey => ?_, fun _ => hl⟩
    obtain ⟨row, hrow, hheld⟩ := h.held l hl hunexpired
    rw [hkey] at hrow
    refine ⟨hkept.running.mpr ⟨row, hrow, hheld.running⟩, ?_, ?_⟩
    · rw [hkept.token, hrow]
      exact hheld.token
    · rw [hkept.lease row hrow]
      exact hheld.lease
  · exact h.given
  · exact h.distinct
  · intro key'
    split
    · next heq =>
      rw [hkept.token, heq]
      exact (h.latest key).symm
    · rfl
  · intro hrunning
    obtain ⟨row, hrow, hrun⟩ := hkept.running.mp hrunning
    rw [hkept.token, hrow]
    exact h.running key row hrow hrun
  · rfl
  · rw [hkey]
    exact Nat.le_trans (runningStage1Except_le w.clock) h.bounded

theorem Fenced.release {ownershipToken : Text}
    (hrow : w.store.job key = some row) (howned : row.ownershipToken = some ownershipToken)
    (hsets : Sets key row' w.store s') (htoken : row'.ownershipToken = row.ownershipToken)
    (hended : row'.status ≠ .running) :
    Fenced maxRunningJobs (w.release key ownershipToken s') := by
  apply h.sets hsets
  · intro l hl hunexpired
    obtain ⟨hl, hother⟩ := mem_filter.mp hl
    refine ⟨fun hkey => ?_, fun _ => hl⟩
    obtain ⟨row₁, hrow₁, hheld⟩ := h.held l hl hunexpired
    rw [hkey, hrow] at hrow₁
    cases hrow₁
    have hsame := hheld.token
    rw [howned, Option.some.injEq] at hsame
    simp [hkey, hsame] at hother
  · exact fun l hl => h.given l (mem_filter.mp hl).1
  · exact h.distinct.sublist (filter_sublist.map _)
  · intro key'
    split
    · next heq =>
      rw [htoken, heq]
      have hlatest := h.latest key
      rw [hrow] at hlatest
      exact hlatest.symm
    · rfl
  · exact fun hrunning => absurd hrunning hended
  · rfl
  · have hidle : leased w.clock row' = false := by simp [leased, hended]
    rw [hidle, Bool.and_false]
    exact Nat.le_trans (runningStage1Except_le w.clock) h.bounded

theorem Fenced.extend {ownershipToken : Text} {leaseSeconds : ℤ}
    (hrow : w.store.job key = some row) (howned : row.ownershipToken = some ownershipToken)
    (hsets : Sets key row' w.store s') (hclaims : Claims w.clock ownershipToken leaseSeconds row')
    (hkey : isStage1 key = false) :
    Fenced maxRunningJobs (w.extend key ownershipToken leaseSeconds s') := by
  have hmem : ∀ l ∈ (w.extend key ownershipToken leaseSeconds s').leases,
      ∃ l₁ ∈ w.leases, l.key = l₁.key ∧ l.ownershipToken = l₁.ownershipToken ∧
        (l₁.key = key ∧ l₁.ownershipToken = ownershipToken ∧
            l.leaseUntil = saturatingAdd w.clock (max leaseSeconds 0) ∨
          ¬ (l₁.key = key ∧ l₁.ownershipToken = ownershipToken) ∧ l = l₁) := by
    intro l hl
    obtain ⟨l₁, hl₁, rfl⟩ := mem_map.mp hl
    refine ⟨l₁, hl₁, ?_⟩
    split
    · next hsame => exact ⟨rfl, rfl, .inl ⟨hsame.1, hsame.2, rfl⟩⟩
    · next hother => exact ⟨rfl, rfl, .inr ⟨hother, rfl⟩⟩
  apply h.sets hsets
  · intro l hl hunexpired
    obtain ⟨l₁, hl₁, hkey₁, htoken₁, ⟨hsame, htoken, huntil⟩ | ⟨hother, rfl⟩⟩ := hmem l hl
    · refine ⟨fun _ => ⟨hclaims.running, ?_, ?_⟩, fun hne => absurd (hkey₁.trans hsame) hne⟩
      · rw [hclaims.token, htoken₁, htoken]
      · rw [hclaims.lease, huntil]
    · refine ⟨fun hk => ?_, fun _ => hl₁⟩
      obtain ⟨row₁, hrow₁, hheld⟩ := h.held l hl₁ hunexpired
      rw [hk, hrow] at hrow₁
      cases hrow₁
      have hsame := hheld.token
      rw [howned, Option.some.injEq] at hsame
      exact absurd ⟨hk, hsame.symm⟩ hother
  · intro l hl
    obtain ⟨l₁, hl₁, hkey₁, htoken₁, -⟩ := hmem l hl
    rw [hkey₁, htoken₁]
    exact h.given l₁ hl₁
  · have hsame : (w.extend key ownershipToken leaseSeconds s').leases.map Lease.ownershipToken =
        w.leases.map Lease.ownershipToken := by
      unfold World.extend
      rw [map_map]
      apply map_congr_left
      intro l _
      simp only [Function.comp_apply]
      split <;> rfl
    rw [hsame]
    exact h.distinct
  · intro key'
    split
    · next heq =>
      have hlatest := h.latest key
      rw [hrow] at hlatest
      rw [hclaims.token, ← howned, heq]
      exact hlatest.symm
    · rfl
  · intro _
    rw [hclaims.token]
    rfl
  · rfl
  · rw [hkey]
    exact Nat.le_trans (runningStage1Except_le w.clock) h.bounded

end Codex.MemoryJobs
