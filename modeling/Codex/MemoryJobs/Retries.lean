import Codex.MemoryJobs.Leases

/-!
# Watermarks and retries of the memory pipeline

What a success leaves behind keeps older timestamps from being claimed. A claim with a later
timestamp than the row's gives all retries back; as the row is set to the timestamp of every
claim, one that goes back makes a timestamp later that has had its retries.
-/

namespace Codex.MemoryJobs

open Foundation StateRuntime

variable {maxRunningJobs : ℕ} {s s' : StateRuntime} {w v : World} {a : Act} {key : JobKey}
  {row row' : Job} {threadId : Text}

/-! ## What was processed -/

def sourceOf (threadId : Text) (s : StateRuntime) : Option ℤ :=
  (s.stage1Outputs.lookup threadId).map Stage1Output.sourceUpdatedAt

def successOf (key : JobKey) (s : StateRuntime) : Option ℤ :=
  (s.job key).bind Job.lastSuccessWatermark

theorem upToDate_eq (sourceUpdatedAt : ℤ) : upToDate threadId sourceUpdatedAt s =
    ((sourceOf threadId s).any (fun n => sourceUpdatedAt ≤ n) ||
      (successOf (.stage1 threadId) s).any fun n => sourceUpdatedAt ≤ n) := by
  unfold upToDate sourceOf successOf
  rw [Option.any_map]

theorem upToDate_iff {sourceUpdatedAt : ℤ} : upToDate threadId sourceUpdatedAt s = true ↔
    (∃ n, sourceOf threadId s = some n ∧ sourceUpdatedAt ≤ n) ∨
      ∃ n, successOf (.stage1 threadId) s = some n ∧ sourceUpdatedAt ≤ n := by
  simp [upToDate_eq, Option.any_eq_true]

theorem upToDate_eq_false {sourceUpdatedAt : ℤ} : upToDate threadId sourceUpdatedAt s = false ↔
    (∀ n, sourceOf threadId s = some n → n < sourceUpdatedAt) ∧
      ∀ n, successOf (.stage1 threadId) s = some n → n < sourceUpdatedAt := by
  rw [← Bool.not_eq_true, upToDate_iff]
  push Not
  rfl

variable (w) in
structure Fresh : Prop where
  processed : ∀ threadId n, (threadId, n) ∈ w.processed → upToDate threadId n w.store = true
  ahead : ∀ threadId row, w.store.job (.stage1 threadId) = some row → row.status = .running →
    ∃ n, row.inputWatermark = some n ∧ upToDate threadId n w.store = false

variable (s s') in
structure Untouched : Prop where
  job : ∀ threadId, s'.job (.stage1 threadId) = s.job (.stage1 threadId)
  source : ∀ threadId, sourceOf threadId s' = sourceOf threadId s

theorem sourceOf_congr (h : s'.stage1Outputs = s.stage1Outputs) :
    sourceOf threadId s' = sourceOf threadId s := by
  unfold sourceOf
  rw [h]

theorem upToDate_congr (hsource : sourceOf threadId s' = sourceOf threadId s)
    (hsuccess : successOf (.stage1 threadId) s' = successOf (.stage1 threadId) s) (n : ℤ) :
    upToDate threadId n s' = upToDate threadId n s := by
  rw [upToDate_eq, upToDate_eq, hsource, hsuccess]

theorem Untouched.upToDate (h : Untouched s s') (n : ℤ) :
    upToDate threadId n s' = upToDate threadId n s := by
  refine upToDate_congr (h.source threadId) ?_ n
  unfold successOf
  rw [h.job]

theorem Sets.untouched (h : Sets key row' s s') (hkey : isStage1 key = false) : Untouched s s' := by
  refine ⟨fun threadId => ?_, fun threadId => sourceOf_congr h.outputs⟩
  rw [h.job, if_neg]
  rintro rfl
  cases hkey

theorem Fresh.untouched (h : Fresh w) (hsame : Untouched w.store v.store)
    (hprocessed : v.processed = w.processed) : Fresh v := by
  refine ⟨fun threadId n hmem => ?_, fun threadId row hrow hrunning => ?_⟩
  · rw [hsame.upToDate]
    exact h.processed threadId n (hprocessed ▸ hmem)
  · rw [hsame.job] at hrow
    obtain ⟨n, hn, hahead⟩ := h.ahead threadId row hrow hrunning
    exact ⟨n, hn, (hsame.upToDate n).trans hahead⟩

theorem Fresh.sets (h : Fresh w) (hsets : Sets (.stage1 threadId) row' w.store v.store)
    (hsuccess : ∀ n, successOf (.stage1 threadId) w.store = some n →
      ∃ m, row'.lastSuccessWatermark = some m ∧ n ≤ m)
    (hprocessed : ∀ threadId' n, (threadId', n) ∈ v.processed → (threadId', n) ∈ w.processed ∨
      threadId' = threadId ∧ row'.lastSuccessWatermark = some n)
    (hahead : row'.status = .running →
      ∃ n, row'.inputWatermark = some n ∧ upToDate threadId n v.store = false) : Fresh v := by
  have hsource : ∀ threadId', sourceOf threadId' v.store = sourceOf threadId' w.store :=
    fun threadId' => sourceOf_congr hsets.outputs
  have hself : successOf (.stage1 threadId) v.store = row'.lastSuccessWatermark := by
    unfold successOf
    rw [hsets.job, if_pos rfl]
    rfl
  have hother : ∀ threadId', threadId' ≠ threadId → ∀ n,
      upToDate threadId' n v.store = upToDate threadId' n w.store := by
    intro threadId' hne n
    refine upToDate_congr (hsource threadId') ?_ n
    unfold successOf
    rw [hsets.job, if_neg (by simpa using hne)]
  refine ⟨fun threadId' n hmem => ?_, fun threadId' row hrow hrunning => ?_⟩
  · rcases hprocessed threadId' n hmem with hmem | ⟨rfl, hn⟩
    · have hbefore := h.processed threadId' n hmem
      by_cases hthread : threadId' = threadId
      · subst hthread
        rw [upToDate_iff] at hbefore ⊢
        rw [hsource, hself]
        refine hbefore.imp_right ?_
        rintro ⟨m, hm, hle⟩
        obtain ⟨m', hm', hle'⟩ := hsuccess m hm
        exact ⟨m', hm', Int.le_trans hle hle'⟩
      · rw [hother threadId' hthread]
        exact hbefore
    · rw [upToDate_iff, hself]
      exact .inr ⟨n, hn, Int.le_refl n⟩
  · rw [hsets.job] at hrow
    split at hrow
    · next hkey =>
      obtain rfl := JobKey.stage1.inj hkey
      cases hrow
      exact hahead hrunning
    · next hkey =>
      obtain ⟨n, hn, hlater⟩ := h.ahead threadId' row hrow hrunning
      refine ⟨n, hn, ?_⟩
      rw [hother threadId' fun heq => hkey (by rw [heq])]
      exact hlater

variable (threadId) in
theorem Fresh.output (h : Fresh w) (hjobs : v.store.jobs = w.store.jobs)
    (hother : ∀ threadId', threadId' ≠ threadId →
      sourceOf threadId' v.store = sourceOf threadId' w.store)
    (hidle : ∀ row, w.store.job (.stage1 threadId) = some row → row.status ≠ .running)
    (hkeeps : ∀ n, upToDate threadId n w.store = true → upToDate threadId n v.store = true)
    (hprocessed : ∀ threadId' n, (threadId', n) ∈ v.processed → (threadId', n) ∈ w.processed ∨
      threadId' = threadId ∧ upToDate threadId n v.store = true) : Fresh v := by
  have hjob : ∀ key, v.store.job key = w.store.job key := fun key => by
    unfold job
    rw [hjobs]
  have hsame : ∀ threadId', threadId' ≠ threadId → ∀ n,
      upToDate threadId' n v.store = upToDate threadId' n w.store := by
    intro threadId' hne n
    refine upToDate_congr (hother threadId' hne) ?_ n
    unfold successOf
    rw [hjob]
  refine ⟨fun threadId' n hmem => ?_, fun threadId' row hrow hrunning => ?_⟩
  · rcases hprocessed threadId' n hmem with hmem | ⟨rfl, hn⟩
    · have hbefore := h.processed threadId' n hmem
      by_cases hthread : threadId' = threadId
      · subst hthread
        exact hkeeps n hbefore
      · rw [hsame threadId' hthread]
        exact hbefore
    · exact hn
  · rw [hjob] at hrow
    by_cases hthread : threadId' = threadId
    · subst hthread
      exact absurd hrunning (hidle row hrow)
    · obtain ⟨n, hn, hlater⟩ := h.ahead threadId' row hrow hrunning
      exact ⟨n, hn, (hsame threadId' hthread n).trans hlater⟩

/-! ## Retries -/

/-- The retries of a row are enough for what has not failed yet at its timestamp, and no
later timestamp has failed. -/
structure Within (failed : ℤ → ℕ) (row : Job) : Prop where
  later : ∀ n, row.inputWatermark = some n → ∀ m, n < m → failed m = 0
  left : ∀ n, row.inputWatermark = some n → (failed n : ℤ) + row.retryRemaining ≤ defaultRetryRemaining
  earlier : ∀ m, (failed m : ℤ) ≤ defaultRetryRemaining
  claimed : row.inputWatermark.isSome = true
  nonneg : 0 ≤ row.retryRemaining
  running : row.status = .running → 0 < row.retryRemaining

variable (w) in
def failedAt (threadId : Text) (sourceUpdatedAt : ℤ) : ℕ :=
  w.failures.count (threadId, sourceUpdatedAt)

variable (w) in
structure Budgeted : Prop where
  unclaimed : ∀ threadId, w.store.job (.stage1 threadId) = none → ∀ n, failedAt w threadId n = 0
  claimed : ∀ threadId row, w.store.job (.stage1 threadId) = some row →
    Within (failedAt w threadId) row

theorem Budgeted.bound (h : Budgeted w) (threadId : Text) (n : ℤ) :
    (failedAt w threadId n : ℤ) ≤ defaultRetryRemaining := by
  cases hrow : w.store.job (.stage1 threadId) with
  | none =>
    rw [h.unclaimed threadId hrow n]
    decide
  | some row => exact (h.claimed threadId row hrow).earlier n

theorem Budgeted.same (h : Budgeted w)
    (hjob : ∀ threadId, v.store.job (.stage1 threadId) = w.store.job (.stage1 threadId))
    (hfailures : v.failures = w.failures) : Budgeted v := by
  refine ⟨fun threadId hrow n => ?_, fun threadId row hrow => ?_⟩
  · rw [hjob] at hrow
    unfold failedAt
    rw [hfailures]
    exact h.unclaimed threadId hrow n
  · rw [hjob] at hrow
    unfold failedAt
    rw [hfailures]
    exact h.claimed threadId row hrow

theorem Budgeted.sets (h : Budgeted w) (hsets : Sets (.stage1 threadId) row' w.store v.store)
    (hother : ∀ threadId', threadId' ≠ threadId → failedAt v threadId' = failedAt w threadId')
    (hself : Within (failedAt v threadId) row') : Budgeted v := by
  refine ⟨fun threadId' hrow n => ?_, fun threadId' row hrow => ?_⟩
  · rw [hsets.job] at hrow
    split at hrow
    · cases hrow
    · next hkey =>
      rw [hother threadId' fun heq => hkey (by rw [heq])]
      exact h.unclaimed threadId' hrow n
  · rw [hsets.job] at hrow
    split at hrow
    · next hkey =>
      obtain rfl := JobKey.stage1.inj hkey
      cases hrow
      exact hself
    · next hkey =>
      rw [hother threadId' fun heq => hkey (by rw [heq])]
      exact h.claimed threadId' row hrow

variable {failed : ℤ → ℕ} {n : ℤ}

theorem Within.ends (h : Within failed row) (hinput : row'.inputWatermark = row.inputWatermark)
    (hretry : row'.retryRemaining = row.retryRemaining) (hended : row'.status ≠ .running) :
    Within failed row' := by
  refine ⟨?_, ?_, h.earlier, ?_, ?_, fun hrunning => absurd hrunning hended⟩
  · rw [hinput]
    exact h.later
  · rw [hinput, hretry]
    exact h.left
  · rw [hinput]
    exact h.claimed
  · rw [hretry]
    exact h.nonneg

theorem Within.fails {failed' : ℤ → ℕ} (h : Within failed row) (hrunning : row.status = .running)
    (hn : row.inputWatermark = some n) (hcount : ∀ m, failed' m = failed m + if m = n then 1 else 0)
    (hinput : row'.inputWatermark = row.inputWatermark)
    (hretry : row'.retryRemaining = row.retryRemaining - 1) (hended : row'.status ≠ .running) :
    Within failed' row' := by
  have hleft := h.left n hn
  have hpositive := h.running hrunning
  refine ⟨fun k hk m hm => ?_, fun k hk => ?_, fun m => ?_, ?_, ?_,
    fun hrunning => absurd hrunning hended⟩
  · rw [hinput, hn] at hk
    cases hk
    rw [hcount, h.later n hn m hm, if_neg (by omega)]
  · rw [hinput, hn] at hk
    cases hk
    rw [hcount, if_pos rfl, hretry]
    omega
  · rw [hcount]
    have hearlier := h.earlier m
    split
    · next hm =>
      subst hm
      omega
    · simpa using hearlier
  · rw [hinput]
    exact h.claimed
  · omega

theorem Within.claims {now : ℤ} (h : Within failed row) (hguard : claimGuard now n row = true)
    (hforth : ∀ m, row.inputWatermark = some m → m ≤ n) (hinput : row'.inputWatermark = some n)
    (hretry : row'.retryRemaining =
      if advanced n row then defaultRetryRemaining else row.retryRemaining) :
    Within failed row' := by
  obtain ⟨m, hm⟩ := Option.isSome_iff_exists.mp h.claimed
  have hle := hforth m hm
  have hadvanced : advanced n row = decide (m < n) := by
    unfold advanced
    rw [hm]
    rfl
  have hpositive : 0 < row'.retryRemaining := by
    rw [hretry]
    split
    · decide
    · next hnot =>
      have hlast := (Bool.and_eq_true_iff.mp hguard).2
      simpa [hnot] using hlast
  refine ⟨fun k hk j hj => ?_, fun k hk => ?_, h.earlier, by simp [hinput],
    Int.le_of_lt hpositive, fun _ => hpositive⟩
  · rw [hinput] at hk
    cases hk
    exact h.later m hm j (Int.lt_of_le_of_lt hle hj)
  · rw [hinput] at hk
    cases hk
    rw [hretry, hadvanced]
    by_cases hlt : m < n
    · simp [hlt, h.later m hm n hlt]
    · obtain rfl : m = n := by omega
      simpa using h.left m hm

theorem Within.first (h : ∀ m, failed m = 0) (hinput : row'.inputWatermark = some n)
    (hretry : row'.retryRemaining = defaultRetryRemaining) : Within failed row' := by
  refine ⟨fun _ _ m _ => h m, fun k _ => ?_, fun m => ?_, by simp [hinput], ?_, fun _ => ?_⟩
  · simp [h k, hretry]
  · rw [h m]
    decide
  · rw [hretry]
    decide
  · rw [hretry]
    decide

end Codex.MemoryJobs
