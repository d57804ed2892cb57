import Codex.AppServer.ThreadWatch
import Codex.Foundation.Slots

/-!
# Requests that wait

The counter of a thread is the number of its requests that wait, as long as no release comes
after the end of what it was requested in, and nothing but a load reaches a thread that is
unloaded.
-/

namespace Codex.AppServer

open Foundation

def ThreadStatus.activeFlags : ThreadStatus → List ThreadActiveFlag
  | .active activeFlags => activeFlags
  | _ => []

variable (r : RuntimeFacts) (guardType : GuardType)

theorem flag_mem_status : guardType.flag ∈ (loadedThreadStatus r).activeFlags ↔
      r.isLoaded = true ∧ 0 < r.pending guardType := by
  obtain ⟨isLoaded, running, permission, userInput, hasSystemError⟩ := r
  unfold loadedThreadStatus
  cases isLoaded <;> cases guardType <;> by_cases hp : 0 < permission <;>
    by_cases hu : 0 < userInput <;> cases running <;> cases hasSystemError <;>
    simp [hp, hu, ThreadStatus.activeFlags, GuardType.flag, RuntimeFacts.pending]

/-! ## What an operation means for a thread -/

variable (op : ThreadOp)

namespace ThreadOp

def effect : ThreadOp → RuntimeFacts → RuntimeFacts
  | .upsert _ _, r => r.load
  | .remove _, _ => {}
  | .turnStarted _, r => r.load.turnStarted
  | .turnCompleted _ _, r => r.load.clearActiveState
  | .turnInterrupted _, r => r.load.clearActiveState
  | .threadShutdown _, r => r.load.threadShutdown
  | .systemError _, r => r.load.systemError
  | .requested _ guardType, r => r.load.requested guardType

theorem facts_mutate (s : ThreadWatchState) (threadId : Text) : (op.mutate s).1.facts threadId =
      if threadId = op.threadId then op.effect (s.facts op.threadId) else s.facts threadId := by
  cases op with
  | upsert => exact ThreadWatchState.facts_upsertThread ..
  | remove => exact ThreadWatchState.facts_removeThread ..
  | turnStarted | turnCompleted | turnInterrupted | threadShutdown | systemError
  | requested => exact ThreadWatchState.facts_updateRuntime ..

def requests (op : ThreadOp) (guardType : GuardType) : Bool :=
  match op with
  | .requested _ guardType' => guardType' = guardType
  | _ => false

theorem pending_effect (hroom : op.requests guardType = true → r.pending guardType < u32Max) :
    (op.effect r).pending guardType =
      (if op.ends then 0 else r.pending guardType) + (op.requests guardType).toNat := by
  cases op with
  | requested threadId guardType' =>
    by_cases hsame : guardType' = guardType
    · subst hsame
      have hlt := hroom (by simp [requests])
      cases guardType' <;>
        simp [effect, RuntimeFacts.requested, RuntimeFacts.load, RuntimeFacts.pending,
          RuntimeFacts.setPending, requests, ends] at hlt ⊢ <;> omega
    · cases guardType' <;> cases guardType <;>
        simp [effect, RuntimeFacts.requested, RuntimeFacts.load, RuntimeFacts.pending,
          RuntimeFacts.setPending, requests, ends] at hsame ⊢
  | _ => cases guardType <;> rfl

theorem isLoaded_effect : (op.effect r).isLoaded = decide (op.unloads ≠ some true) := by
  cases op with
  | requested threadId guardType => cases guardType <;> rfl
  | _ => rfl

end ThreadOp

/-- The request was made since the last end, and its guard is not yet released. -/
def ThreadWatchActiveGuard.waits (threadId : Text) (guardType : GuardType)
    (g : ThreadWatchActiveGuard) : Bool :=
  g.threadId = threadId && g.guardType = guardType && g.current && decide (g.phase ≠ .released)

namespace ThreadWatchManager

variable {m m' : ThreadWatchManager}

/-! ## Requests that wait -/

def waiting (m : ThreadWatchManager) (threadId : Text) (guardType : GuardType) : ℕ :=
  m.guards.countP (ThreadWatchActiveGuard.waits threadId guardType)

/-- The status of each thread has the flags of the requests that wait, and a thread that is
unloaded has no other status. -/
structure Reflects (m : ThreadWatchManager) : Prop where
  flags : ∀ threadId guardType,
    guardType.flag ∈ (m.state.loadedStatusForThread threadId).activeFlags ↔
      ∃ g ∈ m.guards, g.waits threadId guardType = true
  unloaded : ∀ threadId, m.unloaded threadId = true →
    m.state.loadedStatusForThread threadId = .notLoaded

/-- A release comes before the end of what it was requested in, or finds a loaded thread
with nothing that waits. The end of a turn or an error finds a loaded thread, and a request
finds room in the counter. -/
def Timely (m : ThreadWatchManager) : WatchAction → Prop
  | .call op =>
    (op.unloads = none → m.unloaded op.threadId = false) ∧
      ∀ guardType, op.requests guardType = true → m.waiting op.threadId guardType < u32Max
  | .release guard => ∀ g, m.guards[guard]? = some g →
    g.current = true ∨ m.waiting g.threadId g.guardType = 0 ∧ m.unloaded g.threadId = false
  | _ => True

structure Counted (m : ThreadWatchManager) : Prop where
  pending : ∀ threadId guardType,
    (m.state.facts threadId).pending guardType = m.waiting threadId guardType
  quiet : ∀ threadId, (m.state.facts threadId).isLoaded = false →
    ∀ guardType, (m.state.facts threadId).pending guardType = 0
  unloaded : ∀ threadId, m.unloaded threadId = true → (m.state.facts threadId).isLoaded = false

theorem Counted.reflects (h : m.Counted) : m.Reflects where
  flags := by
    intro threadId guardType
    rw [ThreadWatchState.loadedStatus_facts, flag_mem_status, h.pending]
    unfold waiting
    rw [List.countP_pos_iff]
    apply and_iff_right_of_imp
    intro hwaits
    by_contra hloaded
    have hzero := h.quiet threadId (by simpa using hloaded) guardType
    rw [h.pending] at hzero
    exact absurd (List.countP_pos_iff.mpr hwaits) (by rw [waiting] at hzero; omega)
  unloaded := by
    intro threadId hunloaded
    rw [ThreadWatchState.loadedStatus_facts]
    unfold loadedThreadStatus
    rw [if_pos (h.unloaded threadId hunloaded)]

theorem counted_new (outgoing : Bool) : (new outgoing).Counted where
  pending := fun _ guardType => by cases guardType <;> rfl
  quiet := fun _ _ guardType => by cases guardType <;> rfl
  unloaded := nofun

/-! ## Steps -/

theorem countP_ended (guards : List ThreadWatchActiveGuard) (ended threadId : Text) :
    (guards.map (ThreadWatchActiveGuard.endIn ended)).countP
        (ThreadWatchActiveGuard.waits threadId guardType) =
      if threadId = ended then 0 else guards.countP (ThreadWatchActiveGuard.waits threadId guardType) := by
  rw [List.countP_map]
  by_cases hthread : threadId = ended
  · rw [if_pos hthread, List.countP_eq_zero]
    intro g hg
    by_cases hg : g.threadId = ended
    · simp [ThreadWatchActiveGuard.waits, ThreadWatchActiveGuard.endIn, hg]
    · simp [ThreadWatchActiveGuard.waits, ThreadWatchActiveGuard.endIn, hg, hthread]
  · rw [if_neg hthread]
    apply List.countP_congr
    intro g hg
    by_cases hg : g.threadId = ended
    · have hne : ended ≠ threadId := Ne.symm hthread
      simp [ThreadWatchActiveGuard.waits, ThreadWatchActiveGuard.endIn, hg, hne]
    · simp [ThreadWatchActiveGuard.endIn, hg]

theorem waiting_call (m : ThreadWatchManager) (threadId : Text) :
    (m.call op).waiting threadId guardType =
      if threadId = op.threadId then
        (if op.ends then 0 else m.waiting threadId guardType) + (op.requests guardType).toNat
      else m.waiting threadId guardType := by
  have hguards : (m.call op).guards = (m.account op m.operations.length).guards := by
    unfold call
    split <;> rfl
  unfold waiting
  rw [hguards]
  cases op with
  | requested threadId' guardType' =>
    by_cases hthread : threadId = threadId'
    · by_cases hsame : guardType' = guardType <;>
        simp [account, ThreadOp.ends, ThreadOp.requests, ThreadOp.threadId, hthread, hsame,
          ThreadWatchActiveGuard.waits]
    · simp [account, ThreadOp.ends, ThreadOp.threadId, hthread, Ne.symm hthread,
        ThreadWatchActiveGuard.waits]
  | _ =>
    simp [account, ThreadOp.ends, ThreadOp.requests, ThreadOp.threadId, countP_ended,
      -List.countP_map]

theorem counted_call {op : ThreadOp} (h : m.Counted) (htimely : m.Timely (.call op)) :
    (m.call op).Counted := by
  obtain ⟨hloaded, hroom⟩ := htimely
  have hfacts : ∀ threadId, (m.call op).state.facts threadId =
      if threadId = op.threadId then op.effect (m.state.facts op.threadId)
      else m.state.facts threadId := by
    intro threadId
    rw [← op.facts_mutate]
    unfold call
    split <;> rfl
  have hunloaded : (m.call op).unloaded =
      op.unloads.elim m.unloaded (Function.update m.unloaded op.threadId) := by
    unfold call
    split <;> simp only [account] <;> split <;> rename_i hunloads <;> rw [hunloads] <;> rfl
  refine ⟨?_, ?_, ?_⟩
  · intro threadId guardType
    rw [hfacts, waiting_call]
    by_cases hthread : threadId = op.threadId
    · rw [if_pos hthread, if_pos hthread, hthread, op.pending_effect, h.pending]
      rw [h.pending]
      exact hroom guardType
    · rw [if_neg hthread, if_neg hthread]
      exact h.pending threadId guardType
  · intro threadId
    rw [hfacts]
    by_cases hthread : threadId = op.threadId
    · rw [if_pos hthread, op.isLoaded_effect]
      intro hunloads guardType
      have hremoves : op.unloads = some true := by simpa using hunloads
      have hends : op.ends = true ∧ op.requests guardType = false := by
        cases op <;> simp [ThreadOp.unloads, ThreadOp.ends, ThreadOp.requests] at hremoves ⊢
      rw [op.pending_effect _ guardType (by simp [hends.2])]
      simp [hends]
    · rw [if_neg hthread]
      exact h.quiet threadId
  · intro threadId
    rw [hfacts, hunloaded]
    by_cases hthread : threadId = op.threadId
    · rw [if_pos hthread, op.isLoaded_effect, hthread]
      cases hunloads : op.unloads with
      | none => simp [hloaded hunloads]
      | some unloaded => cases unloaded <;> simp
    · rw [if_neg hthread]
      cases hunloads : op.unloads with
      | none => exact h.unloaded threadId
      | some unloaded => simpa [hthread] using h.unloaded threadId

theorem pending_released (guardType guardType' : GuardType) :
    (r.load.released guardType).pending guardType' =
      r.pending guardType' - (decide (guardType = guardType')).toNat := by
  cases guardType <;> cases guardType' <;> rfl

theorem isLoaded_released : (r.load.released guardType).isLoaded = true := by
  cases guardType <;> rfl

theorem counted_release {guard : ℕ} {g : ThreadWatchActiveGuard} (h : m.Counted)
    (hg : m.guards[guard]? = some g) (hdropped : g.phase = .dropped)
    (htimely : g.current = true ∨
      m.waiting g.threadId g.guardType = 0 ∧ m.unloaded g.threadId = false) :
    (m.release guard g).Counted := by
  have hfacts : ∀ threadId, (m.release guard g).state.facts threadId =
      if threadId = g.threadId then (m.state.facts g.threadId).load.released g.guardType
      else m.state.facts threadId := fun threadId =>
    ThreadWatchState.facts_updateRuntime m.state g.threadId (.released g.guardType) threadId
  have hslot := fun threadId guardType =>
    countP_slot (ThreadWatchActiveGuard.waits threadId guardType) hg { g with phase := .released }
  have hreleased : ∀ threadId guardType,
      ({ g with phase := .released } : ThreadWatchActiveGuard).waits threadId guardType = false := by
    simp [ThreadWatchActiveGuard.waits]
  simp only [hreleased, Bool.toNat_false, Nat.add_zero] at hslot
  change ∀ threadId guardType, (m.release guard g).waiting threadId guardType +
    (g.waits threadId guardType).toNat = m.waiting threadId guardType at hslot
  refine ⟨?_, ?_, ?_⟩
  · intro threadId guardType
    rw [hfacts]
    have hcount := hslot threadId guardType
    by_cases hthread : threadId = g.threadId
    · rw [if_pos hthread, pending_released, h.pending, ← hthread]
      by_cases htype : g.guardType = guardType
      · rcases htimely with hcurrent | ⟨hnone, -⟩
        · have hwaits : g.waits threadId guardType = true := by
            simp [ThreadWatchActiveGuard.waits, hthread, htype, hcurrent, hdropped]
          rw [hwaits] at hcount
          simp [htype] at hcount ⊢
          omega
        · rw [← hthread, htype] at hnone
          omega
      · have hwaits : g.waits threadId guardType = false := by
          simp [ThreadWatchActiveGuard.waits, htype]
        rw [hwaits] at hcount
        simpa [htype] using hcount.symm
    · have hwaits : g.waits threadId guardType = false := by
        simp [ThreadWatchActiveGuard.waits, Ne.symm hthread]
      rw [hwaits] at hcount
      rw [if_neg hthread, h.pending]
      exact hcount.symm
  · intro threadId
    rw [hfacts]
    by_cases hthread : threadId = g.threadId
    · rw [if_pos hthread, isLoaded_released]
      exact nofun
    · rw [if_neg hthread]
      exact h.quiet threadId
  · intro threadId hunloaded
    have hunloaded : m.unloaded threadId = true := hunloaded
    have hthread : threadId ≠ g.threadId := by
      rintro rfl
      rcases htimely with hcurrent | ⟨-, hloaded⟩
      · have hquiet := h.quiet g.threadId (h.unloaded g.threadId hunloaded) g.guardType
        rw [h.pending] at hquiet
        have hcount := hslot g.threadId g.guardType
        have hwaits : g.waits g.threadId g.guardType = true := by
          simp [ThreadWatchActiveGuard.waits, hcurrent, hdropped]
        rw [hwaits, hquiet] at hcount
        simp at hcount
      · rw [hloaded] at hunloaded
        cases hunloaded
    rw [hfacts, if_neg hthread]
    exact h.unloaded threadId hunloaded

theorem counted_drop {guard : ℕ} {g : ThreadWatchActiveGuard} (h : m.Counted)
    (hg : m.guards[guard]? = some g) (hheld : g.phase = .held) :
    (m.setPhase guard g .dropped).Counted := by
  have hwaiting : ∀ threadId guardType,
      (m.setPhase guard g .dropped).waiting threadId guardType = m.waiting threadId guardType := by
    intro threadId guardType
    have hslot := countP_slot (ThreadWatchActiveGuard.waits threadId guardType) hg
      { g with phase := .dropped }
    have hsame : ({ g with phase := .dropped } : ThreadWatchActiveGuard).waits threadId guardType =
        g.waits threadId guardType := by
      simp [ThreadWatchActiveGuard.waits, hheld]
    rw [hsame] at hslot
    exact Nat.add_right_cancel hslot
  refine ⟨?_, h.quiet, h.unloaded⟩
  intro threadId guardType
  rw [hwaiting]
  exact h.pending threadId guardType

theorem step_eq_ok {action : WatchAction} :
    m.step action = .ok m' ↔ m.stepOption action = some m' := by
  unfold step
  cases m.stepOption action <;> simp

theorem counted_step {action : WatchAction} (h : m.Counted) (htimely : m.Timely action)
    (hstep : m.stepOption action = some m') : m'.Counted := by
  unfold stepOption at hstep
  cases action with
  | call op =>
    cases hstep
    exact counted_call h htimely
  | drop guard =>
    cases hg : m.guards[guard]? with
    | none => simp [hg] at hstep
    | some g =>
      simp only [hg, Option.ite_none_right_eq_some, Option.some.injEq] at hstep
      obtain ⟨⟨hheld, -⟩, rfl⟩ := hstep
      exact counted_drop h hg hheld
  | release guard =>
    cases hg : m.guards[guard]? with
    | none => simp [hg] at hstep
    | some g =>
      simp only [hg, Option.ite_none_right_eq_some, Option.some.injEq] at hstep
      obtain ⟨hdropped, rfl⟩ := hstep
      exact counted_release h hg hdropped (htimely g hg)
  | subscribe threadId =>
    cases hstep
    exact ⟨h.pending, h.quiet, h.unloaded⟩
  | unsubscribe threadId =>
    cases hstep
    have hfacts : ∀ threadId', (m.state.unsubscribe threadId).facts threadId' =
        m.state.facts threadId' := by
      intro threadId'
      unfold ThreadWatchState.unsubscribe
      cases m.state.statusWatcherByThreadId.lookup threadId <;> rfl
    refine ⟨?_, ?_, ?_⟩ <;> intro threadId' <;> rw [hfacts]
    · exact h.pending threadId'
    · exact h.quiet threadId'
    · exact h.unloaded threadId'
  | sendCount operation | notify operation =>
    simp only at hstep
    split at hstep
    · cases hstep
      exact ⟨h.pending, h.quiet, h.unloaded⟩
    · cases hstep

variable {actions : List WatchAction} {outgoing : Bool}

theorem status_reflects_requests (hrun : actions.foldlM step (new outgoing) = .ok m)
    (htimely : Along step Timely (new outgoing) actions) : m.Reflects := by
  have hstep : ∀ u a v, u.Counted → Timely u a → step u a = .ok v → v.Counted :=
    fun u a v hu ha hv => counted_step hu ha (step_eq_ok.mp hv)
  have h : m.Counted :=
    run_keeps_along hstep (counted_new outgoing) htimely (List.prefix_refl actions) hrun
  exact h.reflects

def approved : List WatchAction :=
  [.call (.requested "t".toList .permission), .sendCount 0, .drop 0, .release 0]

theorem status_reflects_requests_approved :
    ∃ m, approved.foldlM step (new false) = .ok m ∧ m.Reflects := by
  have htimely : Along step Timely (new false) approved := by
    refine ⟨⟨(nofun), fun _ _ => Nat.zero_lt_succ _⟩, fun t ht => ?_⟩
    cases ht
    refine ⟨trivial, fun t ht => ?_⟩
    cases ht
    refine ⟨trivial, fun t ht => ?_⟩
    cases ht
    refine ⟨fun g hg => ?_, fun t ht => trivial⟩
    cases hg
    exact .inl rfl
  have hrun : ∃ m, approved.foldlM step (new false) = .ok m := ⟨_, rfl⟩
  obtain ⟨m, hrun⟩ := hrun
  exact ⟨m, hrun, status_reflects_requests hrun htimely⟩

/-- The guard of a removed thread loads it again. -/
theorem late_release_loads_removed_thread :
    ∃ m, [.call (.requested "t".toList .permission), .sendCount 0, .call (.remove "t".toList),
      .drop 0, .release 0].foldlM step (new false) = .ok m ∧ ¬m.Reflects := by
  have hrun : ∃ m, [.call (.requested "t".toList .permission), .sendCount 0,
      .call (.remove "t".toList), .drop 0, .release 0].foldlM step (new false) = .ok m ∧
      m.unloaded "t".toList = true ∧ m.state.loadedStatusForThread "t".toList = .idle :=
    ⟨_, rfl, rfl, rfl⟩
  obtain ⟨m, hrun, hunloaded, hidle⟩ := hrun
  refine ⟨m, hrun, fun h => ?_⟩
  have hnotLoaded := h.unloaded _ hunloaded
  rw [hidle] at hnotLoaded
  cases hnotLoaded

end ThreadWatchManager

end Codex.AppServer
