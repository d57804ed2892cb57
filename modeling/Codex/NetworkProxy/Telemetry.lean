import Codex.NetworkProxy.Containment
import Codex.NetworkProxy.Runtime

/-!
# Blocked requests over interleavings

A reload and a domain update write a whole state back: the buffer and the count in it
are those of an earlier snapshot, and a forced reload takes the count from the reloader.
`telemetry_kept` says what a swap must carry so that no recorded event is lost and the
count does not fall.
-/

namespace Codex.NetworkProxy

open Foundation

section
variable {ε : Type} {env : Env}

/-! ## What a step does to the telemetry -/

def Pc.recorded : Pc ε → List ε
  | .ready (.recordBlocked entry) => [entry]
  | _ => []

def Pc.drains : Pc ε → Bool
  | .ready .drainBlocked => true
  | _ => false

/-- The new state has the buffered events at the end of its buffer, and counts no fewer. -/
structure Carries (old new : ConfigState ε) : Prop where
  blocked : old.blocked <:+ new.blocked
  total : old.blockedTotal ≤ new.blockedTotal

theorem Carries.of_eq {old new : ConfigState ε} (hb : new.blocked = old.blocked)
    (ht : new.blockedTotal = old.blockedTotal) : Carries old new :=
  ⟨by rw [hb], by rw [ht]; exact UInt64.le_refl _⟩

/-- Where the next lock of a task writes a whole state back, that state carries the
telemetry. A forced reload takes the buffer over itself. -/
def Pc.SwapsWell (s : ConfigState ε) : Pc ε → Prop
  | .reloadWrite _ newState => Carries s newState
  | .updateWrite _ _ plan =>
    s.constraints = plan.constraints → s.config = plan.previousCfg → Carries s plan.newState
  | .forceWrite newState => s.blockedTotal ≤ newState.blockedTotal
  | _ => True

theorem le_saturatingSucc (n : UInt64) : n ≤ saturatingSucc n := by
  unfold saturatingSucc
  by_cases h : n.toNat + 1 < UInt64.size
  · rw [if_pos h, UInt64.le_iff_toNat_le, UInt64.toNat_add]
    have hone : (1 : UInt64).toNat = 1 := rfl
    rw [hone, Nat.mod_eq_of_lt h]
    exact Nat.le_succ _
  · rw [if_neg h]
    exact UInt64.le_refl n

variable (env) in
theorem op_acquire_cases (op : Op ε) (s : ConfigState ε) :
    ((Pc.ready op).recorded = [] ∧ Carries s (op.acquire env s).1) ∨
      (∃ e, (Pc.ready op).recorded = [e] ∧ (op.acquire env s).1 = s.record e) ∨
      (Pc.ready op).drains = true ∧ (Pc.ready op).recorded = [] ∧
        (op.acquire env s).1 = { s with blocked := [] } := by
  cases op with
  | read => exact .inl ⟨rfl, .of_eq rfl rfl⟩
  | recordBlocked entry => exact .inr (.inl ⟨entry, rfl, rfl⟩)
  | drainBlocked => exact .inr (.inr ⟨rfl, rfl, rfl⟩)
  | replaceConfigState newState => exact .inl ⟨rfl, .of_eq rfl rfl⟩
  | updateDomainList host target | setNetworkMode mode =>
    refine .inl ⟨rfl, ?_⟩
    simp only [Op.acquire]
    split <;> exact .of_eq rfl rfl

theorem acquire_cases {s s' : ConfigState ε} {pc pc' : Pc ε}
    (h : pc.acquire env s = some (s', pc')) : (pc.recorded = [] ∧ (pc.SwapsWell s → Carries s s')) ∨
      (∃ e, pc.recorded = [e] ∧ s' = s.record e) ∨
      pc.drains = true ∧ pc.recorded = [] ∧ s' = { s with blocked := [] } := by
  cases pc with
  | idle | reload op | forceReload | done outcome => cases h
  | reloadRead op newState =>
    cases h
    exact .inl ⟨rfl, fun _ => .of_eq rfl rfl⟩
  | reloadWrite op newState =>
    cases h
    exact .inl ⟨rfl, id⟩
  | forceRead =>
    cases h
    exact .inl ⟨rfl, fun _ => .of_eq rfl rfl⟩
  | forceWrite newState =>
    cases h
    exact .inl ⟨rfl, fun htotal => ⟨List.suffix_rfl, htotal⟩⟩
  | updateWrite host target plan =>
    left
    refine ⟨rfl, fun hswap => ?_⟩
    simp only [Pc.acquire] at h
    split at h
    · cases h
      exact .of_eq rfl rfl
    · rename_i hsame
      cases h
      rw [not_or, not_not, not_not] at hsame
      exact hswap hsame.1 hsame.2
  | modeWrite mode constraints =>
    left
    refine ⟨rfl, fun _ => ?_⟩
    simp only [Pc.acquire] at h
    split at h <;> cases h <;> exact .of_eq rfl rfl
  | ready op =>
    simp only [Pc.acquire, Option.some.injEq] at h
    have hcases := op_acquire_cases env op s
    rw [h] at hcases
    exact hcases.imp_left fun hop => ⟨hop.1, fun _ => hop.2⟩

/-! ## Steps of the system -/

namespace System

def locking (s : System ε) : Action ε → Option (Pc ε)
  | .acquire task => some (s.tasks task)
  | _ => none

def recorded (s : System ε) (a : Action ε) : List ε := ((s.locking a).map Pc.recorded).getD []

def drained (s : System ε) (a : Action ε) : Option (List ε) :=
  ((s.locking a).filter Pc.drains).map fun _ => s.state.blocked

def SwapsWell (s : System ε) (a : Action ε) : Prop :=
  ∀ pc, s.locking a = some pc → pc.SwapsWell s.state

end System

variable {s s' : System ε} {a : Action ε} {e : ε} {t : System ε} {rest : List (Action ε)}

theorem step_cases (h : step env s a = .ok s') (hswap : s.SwapsWell a) :
    (s.recorded a = [] ∧ Carries s.state s'.state) ∨
      (∃ e, s.recorded a = [e] ∧ s'.state = s.state.record e) ∨
      s.drained a = some s.state.blocked ∧ s.recorded a = [] ∧
        s'.state = { s.state with blocked := [] } := by
  cases a with
  | call task call | maybeReload task answer | reloadNow task answer =>
    simp only [step] at h
    split at h <;> cases h
    exact .inl ⟨rfl, .of_eq rfl rfl⟩
  | acquire task =>
    simp only [step] at h
    split at h <;> cases h
    rename_i state pc' hacquire
    obtain ⟨hrec, hcarry⟩ | hrec | ⟨hdrain, hrec, hstate⟩ := acquire_cases hacquire
    · exact .inl ⟨hrec, hcarry (hswap _ rfl)⟩
    · exact .inr (.inl hrec)
    · right
      right
      refine ⟨?_, hrec, hstate⟩
      simp [System.drained, System.locking, hdrain]

theorem step_total (h : step env s a = .ok s') (hswap : s.SwapsWell a) :
    s.state.blockedTotal ≤ s'.state.blockedTotal := by
  obtain ⟨-, hcarry⟩ | ⟨e, -, hstate⟩ | ⟨-, -, hstate⟩ := step_cases h hswap
  · exact hcarry.total
  · rw [hstate]
    exact le_saturatingSucc _
  · rw [hstate]
    exact UInt64.le_refl _

theorem step_kept (h : step env s a = .ok s') (hswap : s.SwapsWell a) {ys : List ε}
    (he : e :: ys <:+ s.state.blocked) :
    e :: (ys ++ s.recorded a) <:+ s'.state.blocked ∨ s.drained a = some s.state.blocked ∨
      maxBlockedEvents ≤ (ys ++ s.recorded a).length := by
  obtain ⟨hrec, hcarry⟩ | ⟨f, hrec, hstate⟩ | ⟨hdrain, -, -⟩ := step_cases h hswap
  · left
    rw [hrec, List.append_nil]
    exact he.trans hcarry.blocked
  · rw [hrec, hstate]
    exact (pushBounded_keeps he).imp_right .inr
  · exact .inr (.inl hdrain)

/-! ## Runs -/

def recordedIn (env : Env) (s : System ε) : List (Action ε) → List ε
  | [] => []
  | a :: rest =>
    s.recorded a ++ match step env s a with
      | .ok s' => recordedIn env s' rest
      | .error _ => []

def RunSwapsWell (env : Env) (s : System ε) : List (Action ε) → Prop
  | [] => True
  | a :: rest => s.SwapsWell a ∧ ∀ s', step env s a = .ok s' → RunSwapsWell env s' rest

def DrainedIn (env : Env) (s : System ε) (actions : List (Action ε)) (e : ε) (ys : List ε) :
    Prop :=
  ∃ pre a post u drained, actions = pre ++ a :: post ∧ pre.foldlM (step env) s = .ok u ∧
    u.drained a = some drained ∧ e :: (ys ++ recordedIn env s pre) <:+ drained

theorem run_cons (h : (a :: rest).foldlM (step env) s = .ok t) :
    ∃ s', step env s a = .ok s' ∧ rest.foldlM (step env) s' = .ok t := by
  rw [List.foldlM_cons] at h
  cases hs : step env s a with
  | error e =>
    rw [hs] at h
    cases h
  | ok s' =>
    rw [hs] at h
    exact ⟨s', rfl, h⟩

theorem recordedIn_cons (h : step env s a = .ok s') :
    recordedIn env s (a :: rest) = s.recorded a ++ recordedIn env s' rest := by
  rw [recordedIn, h]

theorem run_total {actions : List (Action ε)} (hrun : actions.foldlM (step env) s = .ok t)
    (hswap : RunSwapsWell env s actions) : s.state.blockedTotal ≤ t.state.blockedTotal := by
  induction actions generalizing s with
  | nil =>
    cases hrun
    exact UInt64.le_refl _
  | cons a rest ih =>
    obtain ⟨s', hs, hrest⟩ := run_cons hrun
    exact UInt64.le_trans (step_total hs hswap.1) (ih hrest (hswap.2 s' hs))

theorem run_kept {actions : List (Action ε)} (hrun : actions.foldlM (step env) s = .ok t)
    (hswap : RunSwapsWell env s actions) {ys : List ε} (he : e :: ys <:+ s.state.blocked) :
    e :: (ys ++ recordedIn env s actions) <:+ t.state.blocked ∨ DrainedIn env s actions e ys ∨
      maxBlockedEvents ≤ (ys ++ recordedIn env s actions).length := by
  induction actions generalizing s ys with
  | nil =>
    cases hrun
    left
    simpa [recordedIn] using he
  | cons a rest ih =>
    obtain ⟨s', hs, hrest⟩ := run_cons hrun
    rw [recordedIn_cons hs, ← List.append_assoc]
    obtain hstay | hdrain | hlong := step_kept hs hswap.1 he
    · obtain hkept | ⟨pre, b, post, u, drained, rfl, hu, hb, hsuffix⟩ | hlong :=
        ih hrest (hswap.2 s' hs) hstay
      · exact .inl hkept
      · right
        left
        refine ⟨a :: pre, b, post, u, drained, rfl, ?_, hb, ?_⟩
        · rw [List.foldlM_cons, hs]
          exact hu
        · rw [recordedIn_cons hs, ← List.append_assoc]
          exact hsuffix
      · exact .inr (.inr hlong)
    · right
      left
      refine ⟨[], a, rest, s, s.state.blocked, rfl, rfl, hdrain, ?_⟩
      simpa [recordedIn] using he
    · right
      right
      rw [List.length_append]
      omega

theorem RunSwapsWell.append {u : System ε} {pre : List (Action ε)}
    (h : RunSwapsWell env s (pre ++ rest)) (hu : pre.foldlM (step env) s = .ok u) :
    RunSwapsWell env u rest := by
  induction pre generalizing s with
  | nil =>
    cases hu
    exact h
  | cons a pre ih =>
    obtain ⟨s', hs, hpre⟩ := run_cons hu
    exact ih (h.2 s' hs) hpre

/-! ## Completed records -/

def Pc.running : Pc ε → Option (Op ε)
  | .reload op => some op
  | .reloadRead op _ => some op
  | .reloadWrite op _ => some op
  | .ready op => some op
  | .updateWrite host target _ => some (.updateDomainList host target)
  | .modeWrite mode _ => some (.setNetworkMode mode)
  | _ => none

def CompletesRecord (env : Env) (s s' : System ε) (a : Action ε) (e : ε) : Prop :=
  step env s a = .ok s' ∧ ∃ task, (s.tasks task).running = some (.recordBlocked e) ∧
    s'.tasks task = .done .ok

theorem acquire_records {s s' : ConfigState ε} {pc : Pc ε}
    (hrunning : pc.running = some (.recordBlocked e))
    (h : pc.acquire env s = some (s', .done .ok)) : pc.recorded = [e] := by
  cases pc with
  | ready op =>
    cases hrunning
    rfl
  | reload op | reloadRead op newState | reloadWrite op newState => cases h
  | _ => cases hrunning

theorem CompletesRecord.recorded (h : CompletesRecord env s s' a e) : s.recorded a = [e] := by
  obtain ⟨hstep, task, hrunning, hdone⟩ := h
  have hother : ∀ {k pc} (t : System ε), t.tasks = s.tasks →
      (t.setTask k pc).tasks task = .done .ok → task = k ∧ pc = .done .ok := by
    intro k pc t ht hk
    rw [setTask_tasks, ht] at hk
    by_cases heq : task = k
    · rw [if_pos heq] at hk
      exact ⟨heq, hk⟩
    · rw [if_neg heq] at hk
      rw [hk] at hrunning
      cases hrunning
  cases a with
  | call k call =>
    simp only [step] at hstep
    split at hstep <;> cases hstep
    obtain ⟨rfl, -⟩ := hother s rfl hdone
    cases hpc : s.tasks task <;> simp_all [Pc.isFree, Pc.running]
  | maybeReload k answer =>
    simp only [step] at hstep
    split at hstep <;> cases hstep
    rename_i pc hpc
    obtain ⟨rfl, rfl⟩ := hother s rfl hdone
    unfold Pc.maybeReload at hpc
    split at hpc
    · split at hpc <;> cases hpc
    · cases hpc
  | reloadNow k answer =>
    simp only [step] at hstep
    split at hstep <;> cases hstep
    rename_i pc hpc
    obtain ⟨rfl, rfl⟩ := hother s rfl hdone
    unfold Pc.reloadNow at hpc
    split at hpc
    · split at hpc <;> cases hpc
    · cases hpc
  | acquire k =>
    simp only [step] at hstep
    split at hstep <;> cases hstep
    rename_i state pc hpc
    obtain ⟨rfl, rfl⟩ := hother { s with state := state } rfl hdone
    exact acquire_records hrunning hpc

theorem completed_buffered (h : CompletesRecord env s s' a e) (hswap : s.SwapsWell a) :
    [e] <:+ s'.state.blocked := by
  have hrec := h.recorded
  obtain ⟨hnone, -⟩ | ⟨f, hf, hstate⟩ | ⟨-, hnone, -⟩ := step_cases h.1 hswap
  · rw [hnone] at hrec
    cases hrec
  · rw [hf] at hrec
    cases hrec
    rw [hstate]
    exact pushBounded_new (by decide) _ _
  · rw [hnone] at hrec
    cases hrec

/-- In a run that only swaps states which carry the telemetry the count does not fall.
The event of a completed `record_blocked` is in the buffer with the later ones behind it,
or a drain has returned it so, or the later ones alone fill the buffer. -/
theorem telemetry_kept {s t : System ε} {actions : List (Action ε)}
    (hrun : actions.foldlM (step env) s = .ok t) (hswap : RunSwapsWell env s actions) :
    (∀ pre rest u, actions = pre ++ rest → pre.foldlM (step env) s = .ok u →
      u.state.blockedTotal ≤ t.state.blockedTotal) ∧
    ∀ pre a rest u v e, actions = pre ++ a :: rest → pre.foldlM (step env) s = .ok u →
      CompletesRecord env u v a e →
      e :: recordedIn env v rest <:+ t.state.blocked ∨ DrainedIn env v rest e [] ∨
        maxBlockedEvents ≤ (recordedIn env v rest).length := by
  have hsplit : ∀ {pre rest u}, actions = pre ++ rest → pre.foldlM (step env) s = .ok u →
      rest.foldlM (step env) u = .ok t := by
    intro pre rest u hactions hu
    rw [hactions, List.foldlM_append, hu] at hrun
    exact hrun
  constructor
  · intro pre rest u hactions hu
    refine run_total (hsplit hactions hu) ?_
    rw [hactions] at hswap
    exact hswap.append hu
  · intro pre a rest u v e hactions hu hcompletes
    have htail := hsplit hactions hu
    rw [hactions] at hswap
    have hswaps := hswap.append hu
    obtain ⟨v', hv', hrest⟩ := run_cons htail
    rw [hcompletes.1] at hv'
    cases hv'
    exact run_kept hrest (hswaps.2 v hcompletes.1) (completed_buffered hcompletes hswaps.1)

end

/-! ## Runs -/

def runEnv : Env := ⟨nameUrlHost, starEngine, true⟩

def freshState : ConfigState ℕ := ⟨{}, [], [], none, {}, [], 0⟩

def startSystem : System ℕ := ⟨freshState, fun _ => .idle⟩

def recordRun (task event : ℕ) : List (Action ℕ) :=
  [.call task (.operation (.recordBlocked event)), .maybeReload task (.ok none), .acquire task]

def reloadRun : List (Action ℕ) :=
  recordRun 0 7 ++ [.call 1 (.operation .read), .maybeReload 1 (.ok (some freshState)), .acquire 1,
    .acquire 1]

theorem reloadRun_swapsWell : RunSwapsWell runEnv startSystem reloadRun := by
  refine ⟨?_, fun s₁ h₁ => ⟨?_, fun s₂ h₂ => ⟨?_, fun s₃ h₃ => ⟨?_, fun s₄ h₄ => ⟨?_, fun s₅ h₅ =>
    ⟨?_, fun s₆ h₆ => ⟨?_, fun _ _ => trivial⟩⟩⟩⟩⟩⟩⟩
  · intro pc hpc
    cases hpc
  · cases h₁
    intro pc hpc
    cases hpc
  · cases h₁
    cases h₂
    intro pc hpc
    cases hpc
    trivial
  · intro pc hpc
    cases hpc
  · intro pc hpc
    cases hpc
  · cases h₁
    cases h₂
    cases h₃
    cases h₄
    cases h₅
    intro pc hpc
    cases hpc
    trivial
  · cases h₁
    cases h₂
    cases h₃
    cases h₄
    cases h₅
    cases h₆
    intro pc hpc
    cases hpc
    exact .of_eq rfl rfl

theorem telemetry_kept_reload :
    ∃ t, reloadRun.foldlM (step runEnv) startSystem = .ok t ∧ t.state.blocked = [7] ∧
      ∃ u v, (recordRun 0 7).dropLast.foldlM (step runEnv) startSystem = .ok u ∧
        CompletesRecord runEnv u v (.acquire 0) 7 ∧ u.state.blockedTotal ≤ t.state.blockedTotal ∧
        (7 :: recordedIn runEnv v (reloadRun.drop 3) <:+ t.state.blocked ∨
          DrainedIn runEnv v (reloadRun.drop 3) 7 [] ∨
          maxBlockedEvents ≤ (recordedIn runEnv v (reloadRun.drop 3)).length) := by
  refine ⟨_, rfl, rfl, _, _, rfl, ⟨rfl, 0, rfl, rfl⟩, ?_, ?_⟩
  · exact (telemetry_kept rfl reloadRun_swapsWell).1 (recordRun 0 7).dropLast (reloadRun.drop 2)
      _ rfl rfl
  · exact (telemetry_kept rfl reloadRun_swapsWell).2 (recordRun 0 7).dropLast (.acquire 0)
      (reloadRun.drop 3) _ _ 7 rfl rfl ⟨rfl, 0, rfl, rfl⟩

def updateSnapshot : List (Action ℕ) :=
  [.call 0 (.operation (.updateDomainList "a.com".toList .allow)), .maybeReload 0 (.ok none),
    .acquire 0]

def forcedReload : List (Action ℕ) :=
  [.call 1 .forceReload, .acquire 1, .reloadNow 1 (.ok freshState), .acquire 1]

theorem telemetry_lost : (∃ u t, (recordRun 0 7).foldlM (step runEnv) startSystem = .ok u ∧
      u.state.blockedTotal = 1 ∧ forcedReload.foldlM (step runEnv) u = .ok t ∧
      t.state.blockedTotal = 0) ∧
    ∃ u t, (updateSnapshot ++ recordRun 1 7).foldlM (step runEnv) startSystem = .ok u ∧
      u.state.blocked = [7] ∧ u.state.blockedTotal = 1 ∧ u.tasks 1 = .done .ok ∧
      step runEnv u (.acquire 0) = .ok t ∧ t.state.blocked = [] ∧ t.state.blockedTotal = 0 ∧
      t.tasks 0 = .done .ok := by
  constructor
  · exact ⟨_, _, rfl, rfl, rfl, rfl⟩
  · exact ⟨_, _, rfl, rfl, rfl, rfl, rfl, rfl, rfl, rfl⟩

end Codex.NetworkProxy
