import Codex.MemoryJobs.Retries
import Mathlib.Data.List.Perm.Subperm

/-!
# The laws of the memory pipeline

What every call keeps, and from it what holds in all states of a run and of all its steps.
-/

namespace Codex.MemoryJobs

open Foundation StateRuntime List

variable {maxRunningJobs : ℕ} {s s' : StateRuntime} {w : World} {a : Act} {v : World}
  {key : JobKey} {row row' : Job} {threadId ownershipToken : Text}

variable (maxRunningJobs w) in
structure Lawful : Prop where
  oneHolder : ∀ l ∈ w.leases, ∀ l' ∈ w.leases, l.key = l'.key →
    w.clock < l.leaseUntil → w.clock < l'.leaseUntil → l = l'
  limited : (w.leases.filter fun l => isStage1 l.key && w.clock < l.leaseUntil).length ≤
    maxRunningJobs
  retried : ∀ threadId n, (w.failures.count (threadId, n) : ℤ) ≤ defaultRetryRemaining

def Act.presents : Act → Option (JobKey × Text)
  | .stage1Succeeded threadId ownershipToken _ _ _ _
  | .stage1SucceededNoOutput threadId ownershipToken
  | .stage1Failed threadId ownershipToken _ _ => some (.stage1 threadId, ownershipToken)
  | .heartbeat ownershipToken _ | .phase2Succeeded ownershipToken _ _
  | .phase2Failed ownershipToken _ _ | .phase2FailedIfUnowned ownershipToken _ _ =>
    some (.consolidateGlobal, ownershipToken)
  | _ => none

variable (maxRunningJobs w a v) in
structure LawfulStep : Prop where
  foreign : ∀ key ownershipToken, a.presents = some (key, ownershipToken) →
    w.lastIssued key ≠ some ownershipToken → v = w
  success : ∀ key n, successOf key w.store = some n → ∃ m, successOf key v.store = some m ∧ n ≤ m
  source : ∀ threadId n m, sourceOf threadId w.store = some n →
    sourceOf threadId v.store = some m → n ≤ m
  again : ∀ threadId workerId ownershipToken sourceUpdatedAt leaseSeconds,
    a = .claimStage1 threadId workerId ownershipToken sourceUpdatedAt leaseSeconds →
    (∃ n, (threadId, n) ∈ w.processed ∧ sourceUpdatedAt ≤ n) →
    (w.store.tryClaimStage1Job w.clock threadId workerId ownershipToken sourceUpdatedAt
      leaseSeconds maxRunningJobs).2 = .skippedUpToDate

variable (maxRunningJobs w) in
/-- The job of a thread is claimed for an older timestamp than it was claimed for before. -/
def Older : Act → Prop
  | .claimStage1 threadId _ _ sourceUpdatedAt _ =>
    claimable w.clock threadId sourceUpdatedAt maxRunningJobs w.store = true ∧
      ∃ row n, w.store.job (.stage1 threadId) = some row ∧ row.inputWatermark = some n ∧
        sourceUpdatedAt < n
  | _ => False

/-! ## What the calls do -/

theorem updateJob_cases (key : JobKey) (guard : Job → Bool) (set : Job → Job)
    (hset : ∀ row, (set row).key = row.key) (s : StateRuntime) :
    s.updateJob key guard set hset = (s, false) ∨
      ∃ row s', s.updateJob key guard set hset = (s', true) ∧ s.job key = some row ∧
        guard row = true ∧ Sets key (set row) s s' := by
  cases hafter : s.updateJob key guard set hset with
  | mk after affected =>
    cases affected with
    | false =>
      have hidle := updateJob_idle (by rw [hafter] : (s.updateJob key guard set hset).2 = false)
      rw [hafter] at hidle
      exact .inl (by rw [← hidle])
    | true =>
      obtain ⟨row, hrow, hguard, hsets⟩ :=
        sets_updateJob (by rw [hafter] : (s.updateJob key guard set hset).2 = true)
      rw [hafter] at hsets
      exact .inr ⟨row, after, rfl, hrow, hguard, hsets⟩

theorem owned_iff : owned ownershipToken row = true ↔
    row.status = .running ∧ row.ownershipToken = some ownershipToken := by
  simp [owned]

theorem sourceOf_storeOutput (now : ℤ) (threadId threadId' : Text) (sourceUpdatedAt : ℤ)
    (rawMemory rolloutSummary : Text) (rolloutSlug : Option Text) (s : StateRuntime) :
    sourceOf threadId' (s.storeOutput now threadId sourceUpdatedAt rawMemory rolloutSummary
        rolloutSlug) =
      if threadId' = threadId then
        some (((sourceOf threadId s).map (max · sourceUpdatedAt)).getD sourceUpdatedAt)
      else sourceOf threadId' s := by
  unfold storeOutput sourceOf
  split
  · next hnone =>
    rw [lookup_insert_ite, hnone]
    split
    · rfl
    · rfl
  · next output houtput =>
    rw [houtput]
    split
    · next hle =>
      rw [lookup_insert_ite]
      split
      · simp [hle]
      · rfl
    · next hlt =>
      split
      · next heq =>
        subst heq
        rw [houtput]
        simp [Int.le_of_lt (Int.not_le.mp hlt)]
      · rfl

theorem jobs_storeOutput (now : ℤ) (threadId : Text) (sourceUpdatedAt : ℤ)
    (rawMemory rolloutSummary : Text) (rolloutSlug : Option Text) (s : StateRuntime) :
    (s.storeOutput now threadId sourceUpdatedAt rawMemory rolloutSummary rolloutSlug).jobs =
      s.jobs := by
  unfold storeOutput
  split
  · rfl
  · split <;> rfl

theorem le_sourceOf_storeOutput (now : ℤ) (threadId : Text) (sourceUpdatedAt : ℤ)
    (rawMemory rolloutSummary : Text) (rolloutSlug : Option Text) (s : StateRuntime) {m : ℤ}
    (hm : (∃ k, sourceOf threadId s = some k ∧ m ≤ k) ∨ m ≤ sourceUpdatedAt) :
    ∃ k, sourceOf threadId (s.storeOutput now threadId sourceUpdatedAt rawMemory rolloutSummary
      rolloutSlug) = some k ∧ m ≤ k := by
  rw [sourceOf_storeOutput, if_pos rfl]
  refine ⟨_, rfl, ?_⟩
  cases hsource : sourceOf threadId s with
  | none =>
    rcases hm with ⟨k, hk, -⟩ | hm
    · rw [hsource] at hk
      cases hk
    · exact hm
  | some k =>
    rcases hm with ⟨k', hk', hle⟩ | hm
    · rw [hsource] at hk'
      cases hk'
      exact Int.le_trans hle (Int.le_max_left _ _)
    · exact Int.le_trans hm (Int.le_max_right _ _)

theorem sourceOf_storeOutput_mono (now : ℤ) (threadId threadId' : Text) (sourceUpdatedAt : ℤ)
    (rawMemory rolloutSummary : Text) (rolloutSlug : Option Text) (s : StateRuntime) {m k : ℤ}
    (hm : sourceOf threadId' s = some m)
    (hk : sourceOf threadId' (s.storeOutput now threadId sourceUpdatedAt rawMemory rolloutSummary
      rolloutSlug) = some k) : m ≤ k := by
  by_cases hthread : threadId' = threadId
  · subst hthread
    obtain ⟨k', hk', hle⟩ := le_sourceOf_storeOutput now threadId' sourceUpdatedAt rawMemory
      rolloutSummary rolloutSlug s (.inl ⟨m, hm, Int.le_refl m⟩)
    rw [hk] at hk'
    cases hk'
    exact hle
  · rw [sourceOf_storeOutput, if_neg hthread, hm] at hk
    exact (Option.some.inj hk).le

theorem sourceOf_selectOutputs (selectedOutputs : List (Text × ℤ)) :
    sourceOf threadId (s.selectOutputs selectedOutputs) = sourceOf threadId s := by
  unfold sourceOf selectOutputs
  rw [lookup_mapValues, Option.map_map]
  congr 1
  funext output
  simp only [Function.comp_apply]
  split <;> rfl

/-! ## One step -/

variable (s s') in
def SuccessLe : Prop :=
  ∀ key n, successOf key s = some n → ∃ m, successOf key s' = some m ∧ n ≤ m

theorem SuccessLe.refl (s : StateRuntime) : SuccessLe s s := fun _ n hn => ⟨n, hn, Int.le_refl n⟩

theorem SuccessLe.trans {s'' : StateRuntime} (h : SuccessLe s s') (h' : SuccessLe s' s'') :
    SuccessLe s s'' := by
  intro key n hn
  obtain ⟨m, hm, hle⟩ := h key n hn
  obtain ⟨k, hk, hle'⟩ := h' key m hm
  exact ⟨k, hk, Int.le_trans hle hle'⟩

theorem SuccessLe.jobs (h : s'.jobs = s.jobs) : SuccessLe s s' := by
  intro key n hn
  refine ⟨n, ?_, Int.le_refl n⟩
  unfold successOf job at hn ⊢
  rw [h]
  exact hn

theorem Sets.successLe (h : Sets key row' s s')
    (hrow' : ∀ row, s.job key = some row → ∀ n, row.lastSuccessWatermark = some n →
      ∃ m, row'.lastSuccessWatermark = some m ∧ n ≤ m) : SuccessLe s s' := by
  intro key' n hn
  unfold successOf at hn ⊢
  rw [h.job]
  split
  · next heq =>
    rw [heq] at hn
    obtain ⟨row, hrow, hlast⟩ := Option.bind_eq_some_iff.mp hn
    exact hrow' row hrow n hlast
  · exact ⟨n, hn, Int.le_refl n⟩

theorem Sets.successLe_same (h : Sets key row' s s') (hrow' : ∀ row, s.job key = some row →
      row'.lastSuccessWatermark = row.lastSuccessWatermark) : SuccessLe s s' :=
  h.successLe fun row hrow n hn => ⟨n, by rw [hrow' row hrow, hn], Int.le_refl n⟩

variable (maxRunningJobs w a v) in
structure Keeps : Prop where
  fenced : Fenced maxRunningJobs v
  fresh : Fresh v
  lawful : LawfulStep maxRunningJobs w a v
  budgeted : Budgeted w → ¬ Older maxRunningJobs w a → Budgeted v

theorem Fenced.latest_of (h : Fenced maxRunningJobs w) (hrow : w.store.job key = some row)
    (htoken : row.ownershipToken = some ownershipToken) :
    w.lastIssued key = some ownershipToken := by
  rw [← h.latest key, hrow]
  exact htoken

variable {workerId : Text} {sourceUpdatedAt leaseSeconds now : ℤ}

theorem again_skipped (hr : Fresh w) (h : ∃ n, (threadId, n) ∈ w.processed ∧ sourceUpdatedAt ≤ n) :
    w.store.tryClaimStage1Job w.clock threadId workerId ownershipToken sourceUpdatedAt
      leaseSeconds maxRunningJobs = (w.store, .skippedUpToDate) := by
  obtain ⟨n, hmem, hle⟩ := h
  have hup : upToDate threadId sourceUpdatedAt w.store = true := by
    rw [upToDate_iff]
    refine (upToDate_iff.mp (hr.processed threadId n hmem)).imp ?_ ?_
    · rintro ⟨m, hm, hm'⟩
      exact ⟨m, hm, Int.le_trans hle hm'⟩
    · rintro ⟨m, hm, hm'⟩
      exact ⟨m, hm, Int.le_trans hle hm'⟩
  unfold tryClaimStage1Job
  rw [if_pos hup]

theorem Keeps.idle (hf : Fenced maxRunningJobs w) (hr : Fresh w)
    (hstep : (.ok w : Except Unit World) = .ok v) : Keeps maxRunningJobs w a v := by
  cases hstep
  exact ⟨hf, hr, ⟨fun _ _ _ _ => rfl, SuccessLe.refl _, fun threadId n m hn hm => by
    rw [hn] at hm
    exact (Option.some.inj hm).le, fun _ _ _ _ _ _ h => by rw [again_skipped hr h]⟩,
    fun h _ => h⟩

theorem LawfulStep.owner (hf : Fenced maxRunningJobs w) (hpresents : a.presents = some (key, ownershipToken))
    (hrow : w.store.job key = some row) (htoken : row.ownershipToken = some ownershipToken)
    (hsuccess : SuccessLe w.store v.store)
    (hsource : ∀ threadId n m, sourceOf threadId w.store = some n →
      sourceOf threadId v.store = some m → n ≤ m) : LawfulStep maxRunningJobs w a v := by
  refine ⟨fun key' token hpresents' hforeign => ?_, hsuccess, hsource, ?_⟩
  · rw [hpresents] at hpresents'
    obtain ⟨rfl, rfl⟩ := Prod.mk.inj (Option.some.inj hpresents')
    exact absurd (hf.latest_of hrow htoken) hforeign
  · rintro _ _ _ _ _ rfl
    cases hpresents

theorem source_same (hsource : ∀ threadId, sourceOf threadId s' = sourceOf threadId s)
    (threadId : Text) (n m : ℤ) (hn : sourceOf threadId s = some n)
    (hm : sourceOf threadId s' = some m) : n ≤ m := by
  rw [hsource, hn] at hm
  exact (Option.some.inj hm).le

theorem claimedFor_eq {n : ℤ} (hrow : w.store.job (.stage1 threadId) = some row)
    (hn : row.inputWatermark = some n) : w.claimedFor threadId = [(threadId, n)] := by
  unfold World.claimedFor
  rw [hrow]
  simp [hn]

theorem enqueue_keeps (hf : Fenced maxRunningJobs w) (hr : Fresh w) (inputWatermark : ℤ) :
    Fenced maxRunningJobs { w with store := w.store.enqueueGlobalConsolidation inputWatermark } ∧
      Fresh { w with store := w.store.enqueueGlobalConsolidation inputWatermark } ∧
      SuccessLe w.store (w.store.enqueueGlobalConsolidation inputWatermark) ∧
      Untouched w.store (w.store.enqueueGlobalConsolidation inputWatermark) := by
  obtain ⟨row', hsets, hkept⟩ := sets_enqueue w.store inputWatermark
  have hsame := hsets.untouched rfl
  exact ⟨hf.keep hsets hkept rfl, hr.untouched hsame rfl, hsets.successLe_same hkept.success, hsame⟩

def finished (now : ℤ) (row : Job) : Job :=
  { row with
    status := .done
    finishedAt := some now
    leaseUntil := none
    lastError := none
    lastSuccessWatermark := row.inputWatermark }

theorem finished_not_running {row₁ : Job} (hsets : Sets (.stage1 threadId) (finished now row) s s')
    (hrow : s'.job (.stage1 threadId) = some row₁) : row₁.status ≠ .running := by
  rw [hsets.job, if_pos rfl] at hrow
  cases hrow
  simp [finished]

theorem finish_keeps (hf : Fenced maxRunningJobs w) (hr : Fresh w)
    (hrow : w.store.job (.stage1 threadId) = some row) (howned : owned ownershipToken row = true)
    (hsets : Sets (.stage1 threadId) (finished w.clock row) w.store s') :
    ∃ n, row.inputWatermark = some n ∧ upToDate threadId n w.store = false ∧
      Fenced maxRunningJobs { w.release (.stage1 threadId) ownershipToken s' with
        processed := w.claimedFor threadId ++ w.processed } ∧
      Fresh { w.release (.stage1 threadId) ownershipToken s' with
        processed := w.claimedFor threadId ++ w.processed } ∧
      SuccessLe w.store s' ∧
      (Budgeted w → Budgeted { w.release (.stage1 threadId) ownershipToken s' with
        processed := w.claimedFor threadId ++ w.processed }) := by
  obtain ⟨hrunning, htoken⟩ := owned_iff.mp howned
  obtain ⟨n, hn, hahead⟩ := hr.ahead threadId row hrow hrunning
  have hlater : ∀ m, successOf (.stage1 threadId) w.store = some m →
      ∃ k, (finished w.clock row).lastSuccessWatermark = some k ∧ m ≤ k := fun m hm =>
    ⟨n, hn, Int.le_of_lt ((upToDate_eq_false.mp hahead).2 m hm)⟩
  refine ⟨n, hn, hahead, ?_, ?_, hsets.successLe fun row₁ hrow₁ m hm => hlater m ?_, fun hb => ?_⟩
  · exact (hf.release hrow htoken hsets rfl (by simp [finished])).jobs rfl rfl rfl rfl
  · apply hr.sets hsets hlater
    · intro threadId' m hmem
      rw [claimedFor_eq hrow hn] at hmem
      rcases mem_append.mp hmem with hmem | hmem
      · obtain ⟨rfl, rfl⟩ := Prod.mk.inj (mem_singleton.mp hmem)
        exact .inr ⟨rfl, hn⟩
      · exact .inl hmem
    · intro h
      cases h
  · unfold successOf
    rw [hrow₁]
    exact hm
  · refine hb.sets hsets (fun _ _ => rfl) ?_
    exact (hb.claimed threadId row hrow).ends rfl rfl (by simp [finished])

theorem succeeded_cases (now : ℤ) (threadId ownershipToken : Text) (sourceUpdatedAt : ℤ)
    (rawMemory rolloutSummary : Text) (rolloutSlug : Option Text) (s : StateRuntime) :
    s.markStage1JobSucceeded now threadId ownershipToken sourceUpdatedAt rawMemory rolloutSummary
        rolloutSlug = (s, false) ∨
      ∃ row s₁, s.job (.stage1 threadId) = some row ∧ owned ownershipToken row = true ∧
        Sets (.stage1 threadId) (finished now row) s s₁ ∧
        s.markStage1JobSucceeded now threadId ownershipToken sourceUpdatedAt rawMemory
          rolloutSummary rolloutSlug =
            ((s₁.storeOutput now threadId sourceUpdatedAt rawMemory rolloutSummary
              rolloutSlug).enqueueGlobalConsolidation sourceUpdatedAt, true) := by
  unfold markStage1JobSucceeded finishStage1
  obtain hidle | ⟨row, s₁, hafter, hrow, howned, hsets⟩ := updateJob_cases (.stage1 threadId)
    (owned ownershipToken) (finished now) (fun _ => rfl) s
  · left
    unfold finished at hidle
    rw [hidle]
    rfl
  · right
    refine ⟨row, s₁, hrow, howned, hsets, ?_⟩
    unfold finished at hafter
    rw [hafter]
    rfl

theorem noOutput_cases (hr : Fresh w) (now : ℤ) (threadId ownershipToken : Text) :
    w.store.markStage1JobSucceededNoOutput now threadId ownershipToken = (w.store, false) ∨
      ∃ row n s₁, w.store.job (.stage1 threadId) = some row ∧ owned ownershipToken row = true ∧
        Sets (.stage1 threadId) (finished now row) w.store s₁ ∧
        row.inputWatermark = some n ∧
        w.store.markStage1JobSucceededNoOutput now threadId ownershipToken =
          (if (s₁.stage1Outputs.lookup threadId).isSome then
            StateRuntime.enqueueGlobalConsolidation n
              { s₁ with stage1Outputs := s₁.stage1Outputs.erase threadId }
          else { s₁ with stage1Outputs := s₁.stage1Outputs.erase threadId }, true) := by
  unfold markStage1JobSucceededNoOutput finishStage1
  obtain hidle | ⟨row, s₁, hafter, hrow, howned, hsets⟩ := updateJob_cases (.stage1 threadId)
    (owned ownershipToken) (finished now) (fun _ => rfl) w.store
  · left
    unfold finished at hidle
    rw [hidle]
    rfl
  · right
    obtain ⟨n, hn, -⟩ := hr.ahead threadId row hrow (owned_iff.mp howned).1
    refine ⟨row, n, s₁, hrow, howned, hsets, hn, ?_⟩
    unfold finished at hafter
    rw [hafter]
    have hinput : (s₁.job (.stage1 threadId)).bind Job.inputWatermark = some n := by
      rw [hsets.job, if_pos rfl]
      exact hn
    dsimp only
    rw [if_pos rfl, hinput]
    dsimp only
    split <;> rfl

theorem stage1Succeeded_keeps (hf : Fenced maxRunningJobs w) (hr : Fresh w)
    {rawMemory rolloutSummary : Text} {rolloutSlug : Option Text}
    (hstep : step maxRunningJobs w (.stage1Succeeded threadId ownershipToken sourceUpdatedAt
      rawMemory rolloutSummary rolloutSlug) = .ok v) :
    Keeps maxRunningJobs w (.stage1Succeeded threadId ownershipToken sourceUpdatedAt rawMemory
      rolloutSummary rolloutSlug) v := by
  dsimp only [step] at hstep
  obtain hidle | ⟨row, s₁, hrow, howned, hsets, hafter⟩ := succeeded_cases w.clock threadId
    ownershipToken sourceUpdatedAt rawMemory rolloutSummary rolloutSlug w.store
  · rw [hidle] at hstep
    exact .idle hf hr hstep
  · rw [hafter] at hstep
    cases hstep
    obtain ⟨n, hn, hahead, hf₁, hr₁, hle₁, hb₁⟩ := finish_keeps hf hr hrow howned hsets
    -- the output is stored, then the consolidation is enqueued
    let finished : World := { w.release (.stage1 threadId) ownershipToken s₁ with
      processed := w.claimedFor threadId ++ w.processed }
    let stored : World := { finished with
      store := s₁.storeOutput w.clock threadId sourceUpdatedAt rawMemory rolloutSummary rolloutSlug
      processed := (threadId, sourceUpdatedAt) :: finished.processed }
    have hjobs : stored.store.jobs = s₁.jobs := jobs_storeOutput ..
    have hup : ∀ m, (∃ k, sourceOf threadId s₁ = some k ∧ m ≤ k) ∨ m ≤ sourceUpdatedAt →
        ∃ k, sourceOf threadId stored.store = some k ∧ m ≤ k := fun m hm =>
      le_sourceOf_storeOutput w.clock threadId sourceUpdatedAt rawMemory rolloutSummary rolloutSlug
        s₁ hm
    have hsuccess : successOf (.stage1 threadId) stored.store = successOf (.stage1 threadId) s₁ := by
      unfold successOf job
      rw [hjobs]
    have hf₂ : Fenced maxRunningJobs stored := hf₁.jobs hjobs rfl rfl rfl
    have hr₂ : Fresh stored := by
      refine hr₁.output threadId hjobs (fun threadId' hne => ?_) (fun row₁ hrow₁ => ?_)
        (fun m hm => ?_) fun threadId' m hmem => ?_
      · exact (sourceOf_storeOutput ..).trans (if_neg hne)
      · exact finished_not_running hsets hrow₁
      · rw [upToDate_iff] at hm ⊢
        rw [hsuccess]
        exact hm.imp_left fun hk => hup m (.inl hk)
      · rcases mem_cons.mp hmem with heq | hmem
        · obtain ⟨rfl, rfl⟩ := Prod.mk.inj heq
          exact .inr ⟨rfl, upToDate_iff.mpr (.inl (hup m (.inr (Int.le_refl m))))⟩
        · exact .inl hmem
    obtain ⟨hf₃, hr₃, hle₃, hsame⟩ := enqueue_keeps hf₂ hr₂ sourceUpdatedAt
    refine ⟨hf₃, hr₃, ?_, fun hb _ => ?_⟩
    · refine LawfulStep.owner hf rfl hrow (owned_iff.mp howned).2
        ((hle₁.trans (SuccessLe.jobs hjobs)).trans hle₃) fun threadId' m k hm hk => ?_
      have hm₁ : sourceOf threadId' s₁ = some m := (sourceOf_congr hsets.outputs).trans hm
      exact sourceOf_storeOutput_mono w.clock threadId threadId' sourceUpdatedAt rawMemory
        rolloutSummary rolloutSlug s₁ hm₁ ((hsame.source threadId').symm.trans hk)
    · refine (hb₁ hb).same (fun threadId' => ?_) rfl
      refine (hsame.job threadId').trans ?_
      unfold job
      rw [hjobs]
      rfl

theorem sourceOf_erase (threadId threadId' : Text) (s : StateRuntime) :
    sourceOf threadId' { s with stage1Outputs := s.stage1Outputs.erase threadId } =
      if threadId' = threadId then none else sourceOf threadId' s := by
  unfold sourceOf
  rw [lookup_erase_ite]
  split <;> rfl

theorem stage1SucceededNoOutput_keeps (hf : Fenced maxRunningJobs w) (hr : Fresh w)
    (hstep : step maxRunningJobs w (.stage1SucceededNoOutput threadId ownershipToken) = .ok v) :
    Keeps maxRunningJobs w (.stage1SucceededNoOutput threadId ownershipToken) v := by
  dsimp only [step] at hstep
  obtain hidle | ⟨row, n, s₁, hrow, howned, hsets, hn, hafter⟩ :=
    noOutput_cases hr w.clock threadId ownershipToken
  · rw [hidle] at hstep
    exact .idle hf hr hstep
  · rw [hafter] at hstep
    cases hstep
    obtain ⟨n₁, hn₁, hahead, hf₁, hr₁, hle₁, hb₁⟩ := finish_keeps hf hr hrow howned hsets
    rw [hn] at hn₁
    cases hn₁
    let finished : World := { w.release (.stage1 threadId) ownershipToken s₁ with
      processed := w.claimedFor threadId ++ w.processed }
    let deleted : World := { finished with
      store := { s₁ with stage1Outputs := s₁.stage1Outputs.erase threadId } }
    have hsource : ∀ threadId', sourceOf threadId' deleted.store = _ :=
      fun threadId' => sourceOf_erase threadId threadId' s₁
    have hsuccess : successOf (.stage1 threadId) s₁ = some n := by
      unfold successOf
      rw [hsets.job, if_pos rfl]
      exact hn
    have hf₂ : Fenced maxRunningJobs deleted := hf₁.jobs rfl rfl rfl rfl
    have hr₂ : Fresh deleted := by
      refine hr₁.output threadId rfl (fun threadId' hne => ?_) (fun row₁ hrow₁ => ?_)
        (fun m hm => ?_) fun threadId' m hmem => .inl hmem
      · rw [hsource, if_neg hne]
        rfl
      · exact finished_not_running hsets hrow₁
      · rw [upToDate_iff] at hm ⊢
        refine .inr ⟨n, hsuccess, ?_⟩
        rcases hm with ⟨k, hk, hle⟩ | ⟨k, hk, hle⟩
        · have hk₁ : sourceOf threadId s₁ = some k := hk
          rw [sourceOf_congr hsets.outputs] at hk₁
          exact Int.le_of_lt (Int.lt_of_le_of_lt hle ((upToDate_eq_false.mp hahead).1 k hk₁))
        · have hk₁ : successOf (.stage1 threadId) s₁ = some k := hk
          rw [hsuccess] at hk₁
          cases hk₁
          exact hle
    have hgrows : ∀ threadId' m k, sourceOf threadId' w.store = some m →
        sourceOf threadId' deleted.store = some k → m ≤ k := by
      intro threadId' m k hm hk
      rw [hsource] at hk
      split at hk
      · cases hk
      · rw [sourceOf_congr hsets.outputs, hm] at hk
        exact (Option.some.inj hk).le
    have hb₂ : Budgeted w → Budgeted deleted := fun hb => (hb₁ hb).same (fun _ => rfl) rfl
    split
    · obtain ⟨hf₃, hr₃, hle₃, hsame⟩ := enqueue_keeps hf₂ hr₂ n
      refine ⟨hf₃, hr₃, LawfulStep.owner hf rfl hrow (owned_iff.mp howned).2
        ((hle₁.trans (SuccessLe.jobs rfl)).trans hle₃) fun threadId' m k hm hk => ?_,
        fun hb _ => (hb₂ hb).same hsame.job rfl⟩
      exact hgrows threadId' m k hm ((hsame.source threadId').symm.trans hk)
    · exact ⟨hf₂, hr₂, LawfulStep.owner hf rfl hrow (owned_iff.mp howned).2
        (hle₁.trans (SuccessLe.jobs rfl)) hgrows, fun hb _ => hb₂ hb⟩

theorem stage1Failed_keeps (hf : Fenced maxRunningJobs w) (hr : Fresh w) {failureReason : Text}
    {retryDelaySeconds : ℤ}
    (hstep : step maxRunningJobs w (.stage1Failed threadId ownershipToken failureReason
      retryDelaySeconds) = .ok v) :
    Keeps maxRunningJobs w (.stage1Failed threadId ownershipToken failureReason
      retryDelaySeconds) v := by
  dsimp only [step, markStage1JobFailed] at hstep
  obtain hidle | ⟨row, s₁, hafter, hrow, howned, hsets⟩ := updateJob_cases (.stage1 threadId)
    (owned ownershipToken) (fun row : Job =>
      { row with
        status := .error
        finishedAt := some w.clock
        leaseUntil := none
        retryAt := some (saturatingAdd w.clock (max retryDelaySeconds 0))
        retryRemaining := row.retryRemaining - 1
        lastError := some failureReason }) (fun _ => rfl) w.store
  · rw [hidle] at hstep
    exact .idle hf hr hstep
  · rw [hafter] at hstep
    cases hstep
    obtain ⟨hrunning, htoken⟩ := owned_iff.mp howned
    obtain ⟨n, hn, -⟩ := hr.ahead threadId row hrow hrunning
    have hclaimed := claimedFor_eq hrow hn
    refine ⟨(hf.release hrow htoken hsets rfl (by simp)).jobs rfl rfl rfl rfl, ?_,
      LawfulStep.owner hf rfl hrow htoken (hsets.successLe_same fun row₁ hrow₁ => ?_)
        (source_same fun _ => sourceOf_congr hsets.outputs), fun hb _ => ?_⟩
    · refine hr.sets hsets (fun m hm => ⟨m, ?_, Int.le_refl m⟩) (fun _ _ => .inl) (by simp)
      unfold successOf at hm
      rw [hrow] at hm
      exact hm
    · rw [hrow] at hrow₁
      cases hrow₁
      rfl
    · refine hb.sets hsets (fun threadId' hne => ?_) ?_
      · unfold failedAt
        rw [hclaimed]
        funext m
        simp [hne.symm]
      · refine (hb.claimed threadId row hrow).fails hrunning hn (fun m => ?_) rfl rfl (by simp)
        unfold failedAt
        rw [hclaimed, singleton_append, count_cons]
        simp only [beq_iff_eq, Prod.mk.injEq, true_and, eq_comm (a := n)]

theorem skipOutcome_ne (now : ℤ) (threadId token : Text) (s : StateRuntime) :
    skipOutcome now threadId s ≠ .claimed token := by
  unfold skipOutcome
  split
  · simp
  · split
    · simp
    · split <;> simp

theorem claimStage1_cases (now : ℤ) (threadId workerId ownershipToken : Text)
    (sourceUpdatedAt leaseSeconds : ℤ) (maxRunningJobs : ℕ) (s : StateRuntime) :
    (∃ outcome, s.tryClaimStage1Job now threadId workerId ownershipToken sourceUpdatedAt
        leaseSeconds maxRunningJobs = (s, outcome) ∧ ∀ token, outcome ≠ .claimed token) ∨
      claimable now threadId sourceUpdatedAt maxRunningJobs s = true ∧
        s.tryClaimStage1Job now threadId workerId ownershipToken sourceUpdatedAt leaseSeconds
          maxRunningJobs =
            (s.claimRow now threadId workerId ownershipToken sourceUpdatedAt leaseSeconds,
              .claimed ownershipToken) := by
  unfold tryClaimStage1Job
  split
  · exact .inl ⟨_, rfl, by simp⟩
  · split
    · next h => exact .inr ⟨h, rfl⟩
    · exact .inl ⟨_, rfl, fun token => skipOutcome_ne now threadId token s⟩

theorem claimable_iff : claimable now threadId sourceUpdatedAt maxRunningJobs s = true ↔
      upToDate threadId sourceUpdatedAt s = false ∧ runningStage1 now s < maxRunningJobs ∧
        ∀ row, s.job (.stage1 threadId) = some row → claimGuard now sourceUpdatedAt row = true ∧
          runningStage1Except now (.stage1 threadId) s < maxRunningJobs := by
  unfold claimable
  cases s.job (.stage1 threadId) with
  | none => simp
  | some row => simp [and_assoc]

theorem claimGuard_free (h : claimGuard now sourceUpdatedAt row = true) :
    row.status = .running → ∀ leaseUntil, row.leaseUntil = some leaseUntil → leaseUntil ≤ now := by
  intro hrunning leaseUntil hlease
  have hfree := (Bool.and_eq_true_iff.mp (Bool.and_eq_true_iff.mp h).1).1
  simpa [hrunning, hlease] using hfree

theorem claimStage1_keeps (hf : Fenced maxRunningJobs w) (hr : Fresh w)
    (hstep : step maxRunningJobs w (.claimStage1 threadId workerId ownershipToken sourceUpdatedAt
      leaseSeconds) = .ok v) :
    Keeps maxRunningJobs w (.claimStage1 threadId workerId ownershipToken sourceUpdatedAt
      leaseSeconds) v := by
  dsimp only [step] at hstep
  split at hstep
  · cases hstep
  · next hfresh =>
    obtain ⟨outcome, hafter, hskipped⟩ | ⟨hclaimable, hafter⟩ := claimStage1_cases w.clock threadId
      workerId ownershipToken sourceUpdatedAt leaseSeconds maxRunningJobs w.store
    · rw [hafter] at hstep
      cases outcome with
      | claimed token => exact absurd rfl (hskipped token)
      | _ => exact .idle hf hr hstep
    · rw [hafter] at hstep
      cases hstep
      obtain ⟨hahead, hlimit, hguard⟩ := claimable_iff.mp hclaimable
      obtain ⟨row', hsets, hclaims, hinput, hlast, hretry⟩ := sets_claimRow w.clock threadId
        workerId ownershipToken sourceUpdatedAt leaseSeconds w.store
      have hlast' : ∀ n, successOf (.stage1 threadId) w.store = some n →
          ∃ m, row'.lastSuccessWatermark = some m ∧ n ≤ m :=
        fun n hn => ⟨n, hlast.trans hn, Int.le_refl n⟩
      refine ⟨hf.grant hfresh (fun row hrow => claimGuard_free (hguard row hrow).1) hsets hclaims ?_,
        hr.sets hsets hlast' (fun _ _ => .inl) fun _ => ⟨sourceUpdatedAt, hinput, ?_⟩,
        ⟨fun _ _ h => (by cases h), hsets.successLe fun row hrow n hn => hlast' n ?_,
          source_same fun _ => sourceOf_congr hsets.outputs, fun _ _ _ _ _ ha h => ?_⟩,
        fun hb hforth => hb.sets hsets (fun _ _ => rfl) ?_⟩
      · have hone := Bool.toNat_le (isStage1 (.stage1 threadId) && leased w.clock row')
        have hexcept : runningStage1Except w.clock (.stage1 threadId) w.store ≤
            runningStage1 w.clock w.store := runningStage1Except_le w.clock
        omega
      · refine (upToDate_congr (sourceOf_congr hsets.outputs) ?_ sourceUpdatedAt).trans hahead
        unfold successOf
        rw [hsets.job, if_pos rfl]
        exact hlast
      · unfold successOf
        rw [hrow]
        exact hn
      · obtain ⟨rfl, rfl, rfl, rfl, rfl⟩ := Act.claimStage1.inj ha
        rw [again_skipped hr h]
      · cases hrow : w.store.job (.stage1 threadId) with
        | none =>
          rw [hrow] at hretry
          exact Within.first (hb.unclaimed threadId hrow) hinput hretry
        | some row =>
          rw [hrow] at hretry
          refine (hb.claimed threadId row hrow).claims (hguard row hrow).1 (fun m hm => ?_) hinput
            hretry
          exact Int.not_lt.mp fun hlt => hforth ⟨hclaimable, row, m, hrow, hm, hlt⟩

theorem phase2Guard_free (h : phase2Guard now row = true) :
    row.status = .running → ∀ leaseUntil, row.leaseUntil = some leaseUntil → leaseUntil ≤ now := by
  intro hrunning leaseUntil hlease
  have hfree := (Bool.and_eq_true_iff.mp (Bool.and_eq_true_iff.mp h).1).1
  simpa [hrunning, hlease] using hfree

section
variable (hf : Fenced maxRunningJobs w)
include hf

variable (hr : Fresh w)
include hr

theorem claimPhase2_keeps
    (hstep : step maxRunningJobs w (.claimPhase2 workerId ownershipToken leaseSeconds) = .ok v) :
    Keeps maxRunningJobs w (.claimPhase2 workerId ownershipToken leaseSeconds) v := by
  dsimp only [step] at hstep
  split at hstep
  · cases hstep
  · next hfresh =>
    have hcases := claimPhase2_cases w.clock workerId ownershipToken leaseSeconds w.store
    cases hafter : w.store.tryClaimGlobalPhase2Job w.clock workerId ownershipToken leaseSeconds with
    | mk after outcome =>
      rw [hafter] at hstep hcases
      obtain ⟨rfl, hskipped⟩ | ⟨row', watermark, hsets, rfl, hclaims, hguard⟩ := hcases
      · cases outcome with
        | claimed token watermark => exact absurd rfl (hskipped token watermark)
        | _ => exact .idle hf hr hstep
      · cases hstep
        have hsame := hsets.untouched rfl
        refine ⟨hf.grant hfresh (fun row hrow => phase2Guard_free (hguard row hrow).1) hsets hclaims
            ?_, hr.untouched hsame rfl,
          ⟨fun _ _ h => (by cases h), hsets.successLe_same fun row hrow => (hguard row hrow).2,
            source_same hsame.source, fun _ _ _ _ _ h => (by cases h)⟩,
          fun hb _ => hb.same hsame.job rfl⟩
        exact Nat.le_trans (runningStage1Except_le w.clock) hf.bounded

theorem heartbeat_keeps
    (hstep : step maxRunningJobs w (.heartbeat ownershipToken leaseSeconds) = .ok v) :
    Keeps maxRunningJobs w (.heartbeat ownershipToken leaseSeconds) v := by
  dsimp only [step, heartbeatGlobalPhase2Job] at hstep
  obtain hidle | ⟨row, s₁, hafter, hrow, howned, hsets⟩ := updateJob_cases .consolidateGlobal
    (owned ownershipToken)
    (fun row : Job =>
      { row with leaseUntil := some (saturatingAdd w.clock (max leaseSeconds 0)) })
    (fun _ => rfl) w.store
  · rw [hidle] at hstep
    exact .idle hf hr hstep
  · rw [hafter] at hstep
    cases hstep
    obtain ⟨hrunning, htoken⟩ := owned_iff.mp howned
    have hsame := hsets.untouched rfl
    refine ⟨hf.extend hrow htoken hsets ⟨hrunning, htoken, rfl⟩ rfl, hr.untouched hsame rfl,
      LawfulStep.owner hf rfl hrow htoken (hsets.successLe_same fun row₁ hrow₁ => ?_)
        (source_same hsame.source), fun hb _ => hb.same hsame.job rfl⟩
    rw [hrow] at hrow₁
    cases hrow₁
    rfl

theorem phase2_ends (hpresents : a.presents = some (.consolidateGlobal, ownershipToken))
    (hrow : w.store.job .consolidateGlobal = some row)
    (htoken : row.ownershipToken = some ownershipToken)
    (hsets : Sets .consolidateGlobal row' w.store s')
    (hkeeps : row'.ownershipToken = row.ownershipToken) (hended : row'.status ≠ .running)
    (hsuccess : ∀ n, row.lastSuccessWatermark = some n →
      ∃ m, row'.lastSuccessWatermark = some m ∧ n ≤ m) :
    Keeps maxRunningJobs w a (w.release .consolidateGlobal ownershipToken s') := by
  have hsame := hsets.untouched rfl
  refine ⟨hf.release hrow htoken hsets hkeeps hended, hr.untouched hsame rfl,
    LawfulStep.owner hf hpresents hrow htoken (hsets.successLe fun row₁ hrow₁ => ?_)
      (source_same hsame.source), fun hb _ => hb.same hsame.job rfl⟩
  rw [hrow] at hrow₁
  cases hrow₁
  exact hsuccess

theorem phase2Succeeded_keeps {completedWatermark : ℤ} {selectedOutputs : List (Text × ℤ)}
    (hstep : step maxRunningJobs w (.phase2Succeeded ownershipToken completedWatermark
      selectedOutputs) = .ok v) :
    Keeps maxRunningJobs w (.phase2Succeeded ownershipToken completedWatermark
      selectedOutputs) v := by
  dsimp only [step] at hstep
  unfold markGlobalPhase2JobSucceeded markGlobalPhase2JobSucceededRow at hstep
  obtain hidle | ⟨row, s₁, hafter, hrow, howned, hsets⟩ := updateJob_cases .consolidateGlobal
    (owned ownershipToken)
    (fun row : Job =>
      { row with
        status := .done
        finishedAt := some w.clock
        leaseUntil := none
        lastError := none
        lastSuccessWatermark := some (max (row.lastSuccessWatermark.getD 0) completedWatermark) })
    (fun _ => rfl) w.store
  · rw [hidle] at hstep
    exact .idle hf hr hstep
  · rw [hafter] at hstep
    cases hstep
    have hends := phase2_ends (a := .phase2Succeeded ownershipToken completedWatermark
      selectedOutputs) hf hr rfl hrow (owned_iff.mp howned).2 hsets rfl (by simp) fun n hn =>
        ⟨_, rfl, by rw [hn]; exact Int.le_max_left _ _⟩
    have hsame : Untouched s₁ (s₁.selectOutputs selectedOutputs) :=
      ⟨fun _ => rfl, fun _ => sourceOf_selectOutputs selectedOutputs⟩
    refine ⟨hends.fenced.jobs rfl rfl rfl rfl, hends.fresh.untouched hsame rfl,
      LawfulStep.owner hf rfl hrow (owned_iff.mp howned).2
        (SuccessLe.trans hends.lawful.success (SuccessLe.jobs rfl)) fun threadId n m hn hm => ?_,
      fun hb hforth => (hends.budgeted hb hforth).same hsame.job rfl⟩
    exact hends.lawful.source threadId n m hn ((hsame.source threadId).symm.trans hm)

theorem phase2_fails
    (hpresents : a.presents = some (.consolidateGlobal, ownershipToken)) {guard : Job → Bool}
    (hguard : ∀ row, guard row = true → row.status = .running ∧
      (row.ownershipToken = some ownershipToken ∨ row.ownershipToken = none))
    (failureReason : Text) (retryDelaySeconds : ℤ) :
    w.store.failGlobalPhase2Job guard w.clock failureReason retryDelaySeconds = (w.store, false) ∨
      ∃ s₁, w.store.failGlobalPhase2Job guard w.clock failureReason retryDelaySeconds =
        (s₁, true) ∧ Keeps maxRunningJobs w a (w.release .consolidateGlobal ownershipToken s₁) := by
  refine (updateJob_cases .consolidateGlobal guard (fun row : Job =>
    { row with
      status := .error
      finishedAt := some w.clock
      leaseUntil := none
      retryAt := some (saturatingAdd w.clock (max retryDelaySeconds 0))
      retryRemaining := max (row.retryRemaining - 1) 0
      lastError := some failureReason }) (fun _ => rfl) w.store).imp_right ?_
  rintro ⟨row, s₁, hafter, hrow, hheld, hsets⟩
  obtain ⟨hrunning, htoken⟩ := hguard row hheld
  -- a running row has a token
  have hsome := hf.running .consolidateGlobal row hrow hrunning
  have howned : row.ownershipToken = some ownershipToken :=
    htoken.resolve_right fun hnone => by simp [hnone] at hsome
  exact ⟨s₁, hafter, phase2_ends hf hr hpresents hrow howned hsets rfl (by simp) fun n hn =>
    ⟨n, hn, Int.le_refl n⟩⟩

end

theorem ownedOrUnowned_held (h : ownedOrUnowned ownershipToken row = true) : row.status = .running ∧
      (row.ownershipToken = some ownershipToken ∨ row.ownershipToken = none) := by
  simpa [ownedOrUnowned] using h

theorem step_keeps (hf : Fenced maxRunningJobs w) (hr : Fresh w)
    (hstep : step maxRunningJobs w a = .ok v) : Keeps maxRunningJobs w a v := by
  cases a with
  | tick now =>
    dsimp only [step] at hstep
    split at hstep
    · cases hstep
    · next hnow =>
      cases hstep
      refine ⟨hf.tick (Int.not_lt.mp hnow), ⟨hr.processed, hr.ahead⟩,
        ⟨fun _ _ h => (by cases h), SuccessLe.refl _, source_same fun _ => rfl,
          fun _ _ _ _ _ h => (by cases h)⟩, fun hb _ => ⟨hb.unclaimed, hb.claimed⟩⟩
  | claimStage1 threadId workerId token sourceUpdatedAt leaseSeconds =>
    exact claimStage1_keeps hf hr hstep
  | stage1Succeeded threadId token sourceUpdatedAt rawMemory rolloutSummary rolloutSlug =>
    exact stage1Succeeded_keeps hf hr hstep
  | stage1SucceededNoOutput threadId token => exact stage1SucceededNoOutput_keeps hf hr hstep
  | stage1Failed threadId token failureReason retryDelaySeconds =>
    exact stage1Failed_keeps hf hr hstep
  | enqueue inputWatermark =>
    cases hstep
    obtain ⟨hf', hr', hle, hsame⟩ := enqueue_keeps hf hr inputWatermark
    exact ⟨hf', hr', ⟨fun _ _ h => (by cases h), hle, source_same hsame.source,
      fun _ _ _ _ _ h => (by cases h)⟩, fun hb _ => hb.same hsame.job rfl⟩
  | claimPhase2 workerId token leaseSeconds => exact claimPhase2_keeps hf hr hstep
  | heartbeat token leaseSeconds => exact heartbeat_keeps hf hr hstep
  | phase2Succeeded token completedWatermark selectedOutputs =>
    exact phase2Succeeded_keeps hf hr hstep
  | phase2Failed token failureReason retryDelaySeconds =>
    dsimp only [step, markGlobalPhase2JobFailed] at hstep
    obtain hidle | ⟨s₁, hafter, hkeeps⟩ := phase2_fails hf hr
      (a := .phase2Failed token failureReason retryDelaySeconds) rfl
      (fun row h => (owned_iff.mp h).imp_right .inl) failureReason retryDelaySeconds
    · rw [hidle] at hstep
      exact .idle hf hr hstep
    · rw [hafter] at hstep
      cases hstep
      exact hkeeps
  | phase2FailedIfUnowned token failureReason retryDelaySeconds =>
    dsimp only [step, markGlobalPhase2JobFailedIfUnowned] at hstep
    obtain hidle | ⟨s₁, hafter, hkeeps⟩ := phase2_fails hf hr
      (a := .phase2FailedIfUnowned token failureReason retryDelaySeconds) rfl
      (fun row => ownedOrUnowned_held) failureReason retryDelaySeconds
    · rw [hidle] at hstep
      exact .idle hf hr hstep
    · rw [hafter] at hstep
      cases hstep
      exact hkeeps

/-! ## Whole runs -/

theorem Fenced.oneHolder (h : Fenced maxRunningJobs w) {l l' : Lease} (hl : l ∈ w.leases)
    (hl' : l' ∈ w.leases) (hkey : l.key = l'.key) (hunexpired : w.clock < l.leaseUntil)
    (hunexpired' : w.clock < l'.leaseUntil) : l = l' := by
  obtain ⟨row, hrow, hheld⟩ := h.held l hl hunexpired
  obtain ⟨row', hrow', hheld'⟩ := h.held l' hl' hunexpired'
  rw [← hkey, hrow] at hrow'
  cases hrow'
  have htoken := hheld.token.symm.trans hheld'.token
  exact inj_on_of_nodup_map h.distinct hl hl' (Option.some.inj htoken)

theorem Fenced.limited (h : Fenced maxRunningJobs w) :
    (w.leases.filter fun l => isStage1 l.key && w.clock < l.leaseUntil).length ≤
      maxRunningJobs := by
  let unexpired := w.leases.filter fun l => isStage1 l.key && w.clock < l.leaseUntil
  let rows := w.store.jobs.filter fun row => isStage1 row.key && leased w.clock row
  have hmem : ∀ l ∈ unexpired, l ∈ w.leases ∧ isStage1 l.key = true ∧ w.clock < l.leaseUntil := by
    intro l hl
    obtain ⟨hl, h⟩ := mem_filter.mp hl
    exact ⟨hl, by simpa using h⟩
  have hdistinct : (unexpired.map Lease.key).Nodup := by
    refine (nodup_map_iff_inj_on ?_).mpr fun l hl l' hl' hkey => ?_
    · exact (List.Nodup.of_map _ h.distinct).filter _
    · obtain ⟨hl, -, hunexpired⟩ := hmem l hl
      obtain ⟨hl', -, hunexpired'⟩ := hmem l' hl'
      exact h.oneHolder hl hl' hkey hunexpired hunexpired'
  have hsub : unexpired.map Lease.key ⊆ rows.map Job.key := by
    intro key hkey
    obtain ⟨l, hl, rfl⟩ := mem_map.mp hkey
    obtain ⟨hl, hstage1, hunexpired⟩ := hmem l hl
    obtain ⟨row, hrow, hheld⟩ := h.held l hl hunexpired
    refine mem_map.mpr ⟨row, mem_filter.mpr ⟨rowAt_mem hrow, ?_⟩, rowAt_key hrow⟩
    rw [rowAt_key hrow, hstage1]
    simp [leased, hheld.running, hheld.lease, hunexpired]
  calc unexpired.length
    _ = (unexpired.map Lease.key).length := (length_map _).symm
    _ ≤ (rows.map Job.key).length := (hdistinct.subperm hsub).length_le
    _ = runningStage1 w.clock w.store := by
      rw [length_map]
      exact (countP_eq_length_filter).symm
    _ ≤ maxRunningJobs := h.bounded

theorem start_fenced (maxRunningJobs : ℕ) (now : ℤ) : Fenced maxRunningJobs (start now) := by
  refine ⟨by simp [start], by simp [start], by simp [start], fun _ => rfl, ?_, Nat.zero_le _⟩
  rintro key row ⟨⟩

theorem start_fresh (now : ℤ) : Fresh (start now) := by
  refine ⟨by simp [start], ?_⟩
  rintro threadId row ⟨⟩

theorem start_budgeted (now : ℤ) : Budgeted (start now) := by
  refine ⟨fun _ _ _ => rfl, ?_⟩
  rintro threadId row ⟨⟩

/-- As long as no job is claimed for an older timestamp than before, all laws hold. -/
theorem leases_lawful {now : ℤ} {acts : List Act}
    (h : Along (step maxRunningJobs) (fun u a => ¬ Older maxRunningJobs u a) (start now) acts) :
    (∀ pre u, pre <+: acts → pre.foldlM (step maxRunningJobs) (start now) = .ok u →
      Lawful maxRunningJobs u) ∧
    ∀ pre a u v, pre ++ [a] <+: acts →
      pre.foldlM (step maxRunningJobs) (start now) = .ok u → step maxRunningJobs u a = .ok v →
      LawfulStep maxRunningJobs u a v := by
  have hkeeps : ∀ pre u, pre <+: acts → pre.foldlM (step maxRunningJobs) (start now) = .ok u →
      Fenced maxRunningJobs u ∧ Fresh u ∧ Budgeted u := by
    intro pre u hpre hu
    refine run_keeps_along
      (I := fun u => Fenced maxRunningJobs u ∧ Fresh u ∧ Budgeted u)
      (fun u a v hu hforth hstep => ?_)
      ⟨start_fenced maxRunningJobs now, start_fresh now, start_budgeted now⟩ h hpre hu
    obtain ⟨hf, hr, hb⟩ := hu
    have hkeeps := step_keeps hf hr hstep
    exact ⟨hkeeps.fenced, hkeeps.fresh, hkeeps.budgeted hb hforth⟩
  refine ⟨fun pre u hpre hu => ?_, fun pre a u v hpre hu hstep => ?_⟩
  · obtain ⟨hf, -, hb⟩ := hkeeps pre u hpre hu
    exact ⟨fun l hl l' hl' => hf.oneHolder hl hl', hf.limited, hb.bound⟩
  · obtain ⟨hf, hr, -⟩ := hkeeps pre u ((prefix_append pre [a]).trans hpre) hu
    exact (step_keeps hf hr hstep).lawful

def claimThenFail (token : Text) (sourceUpdatedAt : ℤ) : List Act :=
  [.claimStage1 "t".toList "w".toList token sourceUpdatedAt 60, .stage1Failed "t".toList token [] 0]

theorem failing_twice_lawful :
    (∀ pre u, pre <+: claimThenFail "a".toList 5 ++ claimThenFail "b".toList 10 →
      pre.foldlM (step 1) (start 0) = .ok u → Lawful 1 u) ∧
    ∀ pre a u v, pre ++ [a] <+: claimThenFail "a".toList 5 ++ claimThenFail "b".toList 10 →
      pre.foldlM (step 1) (start 0) = .ok u → step 1 u a = .ok v → LawfulStep 1 u a v := by
  apply leases_lawful
  refine Along.cons_ok rfl ?_ ?_
  · rintro ⟨-, row, n, ⟨⟩, -⟩
  · refine Along.cons_ok rfl (by simp [Older]) (Along.cons_ok rfl ?_ ?_)
    · rintro ⟨-, row, n, ⟨⟩, ⟨⟩, hlt⟩
      exact absurd hlt (by decide)
    · exact Along.cons_ok rfl (by simp [Older]) trivial

/-- The second claim is for an older timestamp, so the third gets all retries again. -/
theorem fails_four_times : ∃ u,
    (claimThenFail "a".toList 10 ++ claimThenFail "b".toList 5 ++ claimThenFail "c".toList 10 ++
      claimThenFail "d".toList 10 ++ claimThenFail "e".toList 10).foldlM (step 1) (start 0) =
        .ok u ∧ ¬ Lawful 1 u :=
  ⟨_, rfl, fun h => absurd (h.retried "t".toList 10) (by decide)⟩

end Codex.MemoryJobs
