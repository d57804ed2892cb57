import Codex.AppServer.PendingRequests

/-!
# What is published last

What has been sent, followed by what is still to be sent in the order of the locked
sections, ends with what is true now. Sends in that order leave this line as it is.
-/

namespace Codex.AppServer

open Foundation List Option

def Publication.noticeOf (threadId : Text) (p : Publication) : Option ThreadStatusChanged :=
  p.notification.filter (·.threadId = threadId)

namespace ThreadWatchManager

variable {m m' : ThreadWatchManager}

def countLine (m : ThreadWatchManager) : List ℕ :=
  m.counts ++ m.operations.filterMap Publication.runningTurnCount

def noticeLine (m : ThreadWatchManager) (threadId : Text) : List ThreadStatusChanged :=
  m.sent.filter (·.threadId = threadId) ++ m.operations.filterMap (Publication.noticeOf threadId)

structure Published (m : ThreadWatchManager) : Prop where
  count : m.countLine.getLast? = some m.state.runningTurnCount
  notice : ∀ threadId n, (m.noticeLine threadId).getLast? = some n →
    m.silenced threadId = false → n.status = m.state.loadedStatusForThread threadId
  unsent : m.outgoing = false → ∀ threadId, m.noticeLine threadId = []

/-- No operation sends its count, or a notification of a thread, before one whose locked
section came earlier. -/
def InOrder (m : ThreadWatchManager) : WatchAction → Prop
  | .sendCount operation => FirstItem Publication.runningTurnCount m.operations operation
  | .notify operation => ∀ p n, m.operations[operation]? = some p → p.notification = some n →
    FirstItem (Publication.noticeOf n.threadId) m.operations operation
  | _ => True

theorem published_new (outgoing : Bool) : (new outgoing).Published where
  count := rfl
  notice := nofun
  unsent := fun _ _ => rfl

/-! ## Locked sections -/

variable (result : ThreadWatchState × Option ThreadStatusChanged)

theorem countLine_mutate (m : ThreadWatchManager) :
    (m.mutate result).countLine = m.countLine ++ [result.1.runningTurnCount] := by
  simp [countLine, mutate]

theorem noticeLine_mutate (m : ThreadWatchManager) (threadId : Text) :
    (m.mutate result).noticeLine threadId = m.noticeLine threadId ++
      ((if m.outgoing then result.2 else none).filter (·.threadId = threadId)).toList := by
  unfold noticeLine mutate
  simp only [filterMap_append, List.append_assoc]
  congr 2

theorem published_mutate {threadId : Text} {result : ThreadWatchState × Option ThreadStatusChanged}
    (h : m.Published) (hannounces : ThreadWatchState.Announces m.state result.1 threadId result.2)
    (hother : ∀ threadId', threadId' ≠ threadId →
      result.1.loadedStatusForThread threadId' = m.state.loadedStatusForThread threadId') :
    (m.mutate result).Published := by
  refine ⟨?_, ?_, ?_⟩
  · rw [countLine_mutate]
    simp [mutate]
  · intro threadId' n hn hsilenced
    rw [noticeLine_mutate] at hn
    show n.status = result.1.loadedStatusForThread threadId'
    by_cases houtgoing : m.outgoing = false
    · rw [h.unsent houtgoing] at hn
      simp [houtgoing] at hn
    simp only [Bool.not_eq_false] at houtgoing
    rw [if_pos houtgoing] at hn
    have hsame : result.2.filter (·.threadId = threadId') = none →
        result.1.loadedStatusForThread threadId' = m.state.loadedStatusForThread threadId' →
        n.status = result.1.loadedStatusForThread threadId' := by
      intro hnone hstatus
      rw [hnone, toList_none, append_nil] at hn
      rw [hstatus]
      apply h.notice threadId' n hn
      by_contra hbefore
      simp only [Bool.not_eq_false] at hbefore
      simp only [mutate, hbefore, Bool.true_and, decide_eq_false_iff_not, not_not,
        map_eq_some_iff] at hsilenced
      obtain ⟨n', hn', hthread⟩ := hsilenced
      simp [hn', hthread] at hnone
    by_cases hthread : threadId' = threadId
    · rcases hannounces with hnotice | ⟨hnone, hstatus⟩
      · rw [hnotice] at hn
        simp only [hthread, filter_some, decide_true, if_true, toList_some,
          List.getLast?_append, List.getLast?_singleton, some_or, Option.some.injEq] at hn
        rw [← hn, hthread]
      · rw [← hthread] at hstatus
        exact hsame (by rw [hnone]; rfl) hstatus
    · apply hsame _ (hother threadId' hthread)
      rcases hannounces with hnotice | ⟨hnone, -⟩
      · rw [hnotice]
        simp [Ne.symm hthread]
      · rw [hnone]
        rfl
  · intro houtgoing threadId'
    have houtgoing : m.outgoing = false := houtgoing
    rw [noticeLine_mutate, h.unsent houtgoing]
    simp [houtgoing]

theorem status_mutate_other (op : ThreadOp) (s : ThreadWatchState) {threadId : Text}
    (hthread : threadId ≠ op.threadId) :
    (op.mutate s).1.loadedStatusForThread threadId = s.loadedStatusForThread threadId := by
  rw [ThreadWatchState.loadedStatus_facts, ThreadWatchState.loadedStatus_facts, op.facts_mutate,
    if_neg hthread]

theorem announces_mutate {op : ThreadOp} (s : ThreadWatchState)
    (hop : ∀ threadId, op ≠ .upsert threadId false) :
    ThreadWatchState.Announces s (op.mutate s).1 op.threadId (op.mutate s).2 := by
  cases op with
  | upsert threadId emitNotification =>
    cases emitNotification with
    | true => exact s.announces_upsertThread threadId
    | false => exact absurd rfl (hop threadId)
  | remove threadId => exact s.announces_removeThread threadId
  | _ => exact s.announces_updateRuntime _ _

theorem published_account (h : m.Published) (op : ThreadOp) (noted : ℕ) :
    (m.account op noted).Published := ⟨h.count, h.notice, h.unsent⟩

theorem published_silently (h : m.Published) (threadId : Text) :
    (m.call (.upsert threadId false)).Published := by
  let result := m.state.upsertThread threadId false
  have hline : ∀ threadId', (m.call (.upsert threadId false)).noticeLine threadId' =
      m.noticeLine threadId' := by
    intro threadId'
    show (m.mutate result).noticeLine threadId' = _
    rw [noticeLine_mutate]
    simp [result, ThreadWatchState.upsertThread]
  refine ⟨?_, ?_, ?_⟩
  · show (m.mutate result).countLine.getLast? = _
    rw [countLine_mutate]
    simp only [List.getLast?_append, List.getLast?_singleton, some_or]
    rfl
  · intro threadId' n hn hsilenced
    rw [hline] at hn
    show n.status = result.1.loadedStatusForThread threadId'
    by_cases hthread : threadId' = threadId
    · subst hthread
      have hkept : (m.silenced threadId' || decide (m.state.loadedStatusForThread threadId' ≠
          result.1.loadedStatusForThread threadId')) = false :=
        (Function.update_self ..).symm.trans hsilenced
      obtain ⟨hbefore, hsame⟩ := Bool.or_eq_false_iff.mp hkept
      rw [← not_not.mp (of_decide_eq_false hsame)]
      exact h.notice threadId' n hn hbefore
    · have hbefore : m.silenced threadId' = false := by
        simpa [call, mutate, account, ThreadOp.mutate, ThreadWatchState.upsertThread, hthread]
          using hsilenced
      exact (h.notice threadId' n hn hbefore).trans
        (status_mutate_other (.upsert threadId false) m.state hthread).symm
  · intro houtgoing threadId'
    rw [hline]
    apply h.unsent
    simpa [call, mutate, account] using houtgoing

theorem published_call (h : m.Published) (op : ThreadOp) : (m.call op).Published := by
  by_cases hop : ∃ threadId, op = .upsert threadId false
  · obtain ⟨threadId, rfl⟩ := hop
    exact published_silently h threadId
  · have hop : ∀ threadId, op ≠ .upsert threadId false := not_exists.mp hop
    have hcall : m.call op = (m.mutate (op.mutate m.state)).account op m.operations.length := by
      unfold call
      split
      · exact absurd rfl (hop _)
      · rfl
    rw [hcall]
    apply published_account
    exact published_mutate h (announces_mutate m.state hop)
      fun threadId hthread => status_mutate_other op m.state hthread

theorem published_release (h : m.Published) (guard : ℕ) (g : ThreadWatchActiveGuard) :
    (m.release guard g).Published := by
  have hmutated := published_mutate h
    (m.state.announces_updateRuntime g.threadId (.released g.guardType)) fun threadId hthread => by
      rw [ThreadWatchState.loadedStatus_facts, ThreadWatchState.loadedStatus_facts,
        ThreadWatchState.facts_updateRuntime, if_neg hthread]
  exact ⟨hmutated.count, hmutated.notice, hmutated.unsent⟩

/-! ## Sends -/

theorem published_sendCount {operation count : ℕ} {notification : Option ThreadStatusChanged}
    (h : m.Published) (hop : m.operations[operation]? = some ⟨some count, notification⟩)
    (hfirst : FirstItem Publication.runningTurnCount m.operations operation) : { m with
      counts := m.counts ++ [count]
      operations := m.operations.set operation ⟨none, notification⟩ }.Published := by
  have hnotice : ∀ threadId, (m.operations.set operation ⟨none, notification⟩).filterMap
      (Publication.noticeOf threadId) = m.operations.filterMap (Publication.noticeOf threadId) :=
    fun threadId => filterMap_slot_same hop rfl
  refine ⟨?_, ?_, ?_⟩
  · have hcount := filterMap_first hfirst hop rfl
      (show Publication.runningTurnCount ⟨none, notification⟩ = none from rfl)
    have hline := h.count
    rw [countLine, hcount, append_cons] at hline
    exact hline
  · intro threadId n hn hsilenced
    apply h.notice threadId n _ hsilenced
    rw [noticeLine, ← hnotice]
    exact hn
  · intro houtgoing threadId
    show m.sent.filter _ ++ _ = _
    rw [hnotice]
    exact h.unsent houtgoing threadId

theorem published_notify {operation : ℕ} {n : ThreadStatusChanged} (h : m.Published)
    (hop : m.operations[operation]? = some ⟨none, some n⟩)
    (hfirst : FirstItem (Publication.noticeOf n.threadId) m.operations operation) : { m with
      sent := m.sent ++ [n]
      operations := m.operations.set operation ⟨none, none⟩ }.Published := by
  have hline : ∀ threadId, (m.sent ++ [n]).filter (·.threadId = threadId) ++
      (m.operations.set operation ⟨none, none⟩).filterMap (Publication.noticeOf threadId) =
        m.noticeLine threadId := by
    intro threadId
    rw [filter_append, noticeLine]
    by_cases hthread : n.threadId = threadId
    · subst hthread
      have hnotice := filterMap_first hfirst hop (b := n) (by simp [Publication.noticeOf])
        (show Publication.noticeOf n.threadId ⟨none, none⟩ = none from rfl)
      rw [hnotice]
      simp
    · have hnotice := filterMap_slot_same (f := Publication.noticeOf threadId) hop
        (y := ⟨none, none⟩) (by simp [Publication.noticeOf, Option.filter, hthread])
      rw [hnotice]
      simp [hthread]
  refine ⟨?_, ?_, ?_⟩
  · have hcount := filterMap_slot_same (f := Publication.runningTurnCount) hop
      (y := ⟨none, none⟩) rfl
    show (m.counts ++ _).getLast? = _
    rw [hcount]
    exact h.count
  · intro threadId n' hn hsilenced
    apply h.notice threadId n' _ hsilenced
    rw [← hline]
    exact hn
  · intro houtgoing threadId
    exact (hline threadId).trans (h.unsent houtgoing threadId)

theorem published_step {action : WatchAction} (h : m.Published) (horder : m.InOrder action)
    (hstep : m.stepOption action = some m') : m'.Published := by
  unfold stepOption at hstep
  cases action with
  | call op =>
    cases hstep
    exact published_call h op
  | drop guard =>
    simp only at hstep
    split at hstep
    · cases hstep
    · simp only [ite_none_right_eq_some, Option.some.injEq] at hstep
      obtain ⟨-, rfl⟩ := hstep
      exact ⟨h.count, h.notice, h.unsent⟩
  | release guard =>
    simp only at hstep
    split at hstep
    · cases hstep
    · simp only [ite_none_right_eq_some, Option.some.injEq] at hstep
      obtain ⟨-, rfl⟩ := hstep
      exact published_release h guard _
  | subscribe threadId =>
    cases hstep
    exact ⟨h.count, h.notice, h.unsent⟩
  | unsubscribe threadId =>
    cases hstep
    have hruntime : (m.state.unsubscribe threadId).runtimeByThreadId =
        m.state.runtimeByThreadId := by
      unfold ThreadWatchState.unsubscribe
      cases m.state.statusWatcherByThreadId.lookup threadId <;> rfl
    refine ⟨?_, ?_, h.unsent⟩
    · unfold ThreadWatchState.runningTurnCount
      rw [hruntime]
      exact h.count
    · intro threadId' n hn hsilenced
      unfold ThreadWatchState.loadedStatusForThread ThreadWatchState.statusFor
      rw [hruntime]
      exact h.notice threadId' n hn hsilenced
  | sendCount operation =>
    simp only at hstep
    split at hstep
    · next hop =>
      cases hstep
      exact published_sendCount h hop horder
    · cases hstep
  | notify operation =>
    simp only at hstep
    split at hstep
    · next hop =>
      cases hstep
      exact published_notify h hop (horder _ _ hop rfl)
    · cases hstep

/-! ## Runs -/

variable {actions : List WatchAction} {outgoing : Bool}

theorem filterMap_of_finished {ops : List Publication} (h : ∀ p ∈ ops, p.finished) :
    ops.filterMap Publication.runningTurnCount = [] ∧
      ∀ threadId, ops.filterMap (Publication.noticeOf threadId) = [] := by
  constructor
  · exact filterMap_eq_nil_iff.mpr fun p hp => (h p hp).1
  · intro threadId
    apply filterMap_eq_nil_iff.mpr
    intro p hp
    unfold Publication.noticeOf
    rw [(h p hp).2]
    rfl

/-- Where no send overtakes another, the last count and the last notification of each thread
are true when all operations have finished. -/
theorem publication_consistent (hrun : actions.foldlM step (new outgoing) = .ok m)
    (horder : Along step InOrder (new outgoing) actions)
    (hfinished : ∀ p ∈ m.operations, p.finished) :
    m.counts.getLast? = some m.state.runningTurnCount ∧
      ∀ threadId n, (m.sent.filter (·.threadId = threadId)).getLast? = some n →
        m.silenced threadId = false → n.status = m.state.loadedStatusForThread threadId := by
  have hstep : ∀ u a v, u.Published → InOrder u a → step u a = .ok v → v.Published :=
    fun u a v hu ha hv => published_step hu ha (step_eq_ok.mp hv)
  have h : m.Published :=
    run_keeps_along hstep (published_new outgoing) horder (prefix_refl actions) hrun
  obtain ⟨hcounts, hnotices⟩ := filterMap_of_finished hfinished
  constructor
  · have hcount := h.count
    rw [countLine, hcounts, append_nil] at hcount
    exact hcount
  · intro threadId n hn
    apply h.notice threadId n
    rw [noticeLine, hnotices, append_nil]
    exact hn

def turnRuns : List WatchAction :=
  [.call (.upsert "t".toList true), .call (.turnStarted "t".toList), .sendCount 0, .notify 0,
    .sendCount 1, .notify 1]

theorem publication_consistent_turnRuns :
    ∃ m, turnRuns.foldlM step (new true) = .ok m ∧ m.sent.length = 2 ∧
      m.counts.getLast? = some m.state.runningTurnCount ∧
        ∀ threadId n, (m.sent.filter (·.threadId = threadId)).getLast? = some n →
          m.silenced threadId = false → n.status = m.state.loadedStatusForThread threadId := by
  have horder : Along step InOrder (new true) turnRuns := by
    refine ⟨trivial, fun t ht => ?_⟩
    cases ht
    refine ⟨trivial, fun t ht => ?_⟩
    cases ht
    refine ⟨(fun j x hj => absurd hj (Nat.not_lt_zero j)), fun t ht => ?_⟩
    cases ht
    refine ⟨(fun _ _ _ _ j x hj => absurd hj (Nat.not_lt_zero j)), fun t ht => ?_⟩
    cases ht
    refine ⟨fun j x hj hx => ?_, fun t ht => ?_⟩
    · obtain rfl : j = 0 := Nat.lt_one_iff.mp hj
      cases hx
      rfl
    cases ht
    refine ⟨fun _ _ _ _ j x hj hx => ?_, fun t ht => trivial⟩
    obtain rfl : j = 0 := Nat.lt_one_iff.mp hj
    cases hx
    rfl
  have hrun : ∃ m, turnRuns.foldlM step (new true) = .ok m ∧ m.sent.length = 2 ∧
      ∀ p ∈ m.operations, p.finished := ⟨_, rfl, rfl, by decide⟩
  obtain ⟨m, hrun, hlength, hfinished⟩ := hrun
  exact ⟨m, hrun, hlength, publication_consistent hrun horder hfinished⟩

/-- A thread that was removed is loaded again without a notification. -/
theorem silent_upsert_leaves_notification :
    ∃ m n, [.call (.upsert "t".toList true), .sendCount 0, .notify 0,
        .call (.remove "t".toList), .sendCount 1, .notify 1,
        .call (.upsert "t".toList false), .sendCount 2].foldlM step (new true) = .ok m ∧
      (∀ p ∈ m.operations, p.finished) ∧
        (m.sent.filter (·.threadId = "t".toList)).getLast? = some n ∧
          n.status ≠ m.state.loadedStatusForThread "t".toList :=
  ⟨_, _, rfl, by decide, rfl, by decide⟩

end ThreadWatchManager

end Codex.AppServer
