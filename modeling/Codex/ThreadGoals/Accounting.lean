import Codex.Foundation.Run
import Codex.ThreadGoals.Statements
import Mathlib.Algebra.BigOperators.Group.List.Basic

/-!
# Accounting for the goal of a thread

However the calls of the clients interleave, an active goal is within its budget and has been
charged what the calls that said so charged it. A call that expects a goal does nothing to
another one; it can return another one, exactly if that is what it reads back.
-/

namespace Codex.ThreadGoals

open Foundation List

variable {s v : Store} {a : Act} {goal : ThreadGoal}

def WithinBudget (goal : ThreadGoal) : Prop :=
  goal.status = .active → ∀ budget, goal.tokenBudget = some budget → goal.tokensUsed < budget

def Answer.tokensFor (goalId : Text) : Answer → ℤ
  | .updated goal _ tokenDelta => if goal.goalId = goalId then tokenDelta else 0
  | _ => 0

def Answer.secondsFor (goalId : Text) : Answer → ℤ
  | .updated goal timeDeltaSeconds _ => if goal.goalId = goalId then timeDeltaSeconds else 0
  | _ => 0

variable (s) in
def Store.tokensCharged (goalId : Text) : ℤ := (s.answers.map (Answer.tokensFor goalId)).sum

variable (s) in
def Store.secondsCharged (goalId : Text) : ℤ := (s.answers.map (Answer.secondsFor goalId)).sum

variable (s) in
structure Accounted : Prop where
  withinBudget : ∀ goal, s.goal = some goal → WithinBudget goal
  charged : ∀ goal, s.goal = some goal → goal.tokensUsed = s.tokensCharged goal.goalId ∧
    goal.timeUsedSeconds = s.secondsCharged goal.goalId
  returned : ∀ goalId goal, .update (some goalId) (some goal) ∈ s.answers → goal.goalId = goalId

def Act.expects : Act → Option Text
  | .update request => request.expectedGoalId
  | .account _ _ _ expectedGoalId => expectedGoalId
  | _ => none

variable (s a) in
def Respects : Prop :=
  ∀ goalId goal v, a.expects = some goalId → s.goal = some goal → goal.goalId ≠ goalId →
    step s a = .ok v → v.goal = some goal ∧ v.tokensCharged = s.tokensCharged ∧
      v.secondsCharged = s.secondsCharged

variable (s a) in
/-- A call that expects a goal reads back one that was stored after it had written. -/
def ReadsLater : Prop :=
  ∃ index goalId, a = .readBack index ∧ s.reading[index]? = some (.update (some goalId) true) ∧
    s.goal.isSome = true

/-! ## The statements -/

theorem overBudget_eq_false {used : ℤ} {budget : Option ℤ} :
    overBudget used budget = false ↔ ∀ b, budget = some b → used < b := by
  cases budget with
  | none | some b => simp [overBudget]

theorem withinBudget_iff : WithinBudget goal ↔
    (goal.status = .active → overBudget goal.tokensUsed goal.tokenBudget = false) := by
  rw [overBudget_eq_false]
  rfl

theorem newGoal_withinBudget (now : ℤ) (goalId objective : Text) (status : ThreadGoalStatus)
    (tokenBudget : Option ℤ) : WithinBudget (newGoal now goalId objective status tokenBudget) := by
  rw [withinBudget_iff]
  unfold newGoal statusAfterBudgetLimit
  dsimp only
  split
  · simp
  · next h =>
    intro hactive
    simpa [hactive] using h

structure Retitles (set : ThreadGoal → ThreadGoal) : Prop where
  goalId : ∀ goal, (set goal).goalId = goal.goalId
  tokens : ∀ goal, (set goal).tokensUsed = goal.tokensUsed
  seconds : ∀ goal, (set goal).timeUsedSeconds = goal.timeUsedSeconds
  budget : ∀ goal, WithinBudget goal → WithinBudget (set goal)

theorem requestedStatus_within (goal : ThreadGoal) (status : ThreadGoalStatus)
    (tokenBudget : Option ℤ) (h : requestedStatus goal status tokenBudget = .active) :
    overBudget goal.tokensUsed tokenBudget = false := by
  unfold requestedStatus at h
  split at h
  · next hlimited =>
    rw [hlimited.1] at h
    cases h
  · split at h
    · cases h
    · next hno => simpa [h] using hno

theorem updateStatement_retitles {now : ℤ} {expectedGoalId : Option Text}
    {status : Option ThreadGoalStatus} {tokenBudget : Option (Option ℤ)}
    {statement : Option ThreadGoal → Option ThreadGoal × Bool}
    (h : updateStatement now expectedGoalId status tokenBudget = some statement) :
    ∃ set, statement = updateWhere (namesGoal expectedGoalId) set ∧ Retitles set := by
  cases status with
  | some status =>
    cases tokenBudget with
    | some tokenBudget =>
      refine ⟨_, (Option.some.inj h).symm, fun _ => rfl, fun _ => rfl, fun _ => rfl,
        fun goal _ => ?_⟩
      rw [withinBudget_iff]
      exact requestedStatus_within goal status tokenBudget
    | none =>
      refine ⟨_, (Option.some.inj h).symm, fun _ => rfl, fun _ => rfl, fun _ => rfl,
        fun goal _ => ?_⟩
      rw [withinBudget_iff]
      exact requestedStatus_within goal status goal.tokenBudget
  | none =>
    cases tokenBudget with
    | some tokenBudget =>
      refine ⟨_, (Option.some.inj h).symm, fun _ => rfl, fun _ => rfl, fun _ => rfl,
        fun goal _ => ?_⟩
      rw [withinBudget_iff]
      dsimp only
      split
      · simp
      · next hno =>
        intro hactive
        simpa [hactive] using hno
    | none => cases h

theorem pause_retitles (now : ℤ) : Retitles fun goal =>
    { goal with status := .paused, updatedAtMs := now } :=
  ⟨fun _ => rfl, fun _ => rfl, fun _ => rfl, fun _ _ => by simp [WithinBudget]⟩

theorem updateWhere_affects {guard : ThreadGoal → Bool} {set : ThreadGoal → ThreadGoal}
    {before after : Option ThreadGoal} : updateWhere guard set before = (after, true) ↔
      ∃ goal, before = some goal ∧ guard goal = true ∧ after = some (set goal) := by
  cases before with
  | none => simp [updateWhere]
  | some goal =>
    unfold updateWhere
    dsimp only
    constructor
    · intro h
      split at h
      · next hguard => exact ⟨goal, rfl, hguard, (Prod.mk.inj h).1.symm⟩
      · simp at h
    · rintro ⟨_, ⟨⟩, hguard, rfl⟩
      rw [if_pos hguard]

/-! ## Steps of an accounted store -/

/-- Ids are given out once, and an update that is to read back knows if another goal has been
stored. -/
structure Sound (s : Store) : Prop where
  known : ∀ goal, s.goal = some goal → goal.goalId ∈ s.issued
  charges : ∀ goal timeDeltaSeconds tokenDelta,
    .updated goal timeDeltaSeconds tokenDelta ∈ s.answers → goal.goalId ∈ s.issued
  named : ∀ goalId overtaken, .update (some goalId) overtaken ∈ s.reading →
    goalId ∈ s.issued ∧ ∀ goal, s.goal = some goal → (goal.goalId = goalId ↔ overtaken = false)

def Answer.free (answer : Answer) : Prop :=
  ∀ goal timeDeltaSeconds tokenDelta, answer ≠ .updated goal timeDeltaSeconds tokenDelta

theorem tokensFor_free {answer : Answer} (h : answer.free) (goalId : Text) :
    answer.tokensFor goalId = 0 ∧ answer.secondsFor goalId = 0 := by
  cases answer with
  | updated goal timeDeltaSeconds tokenDelta => exact absurd rfl (h goal timeDeltaSeconds tokenDelta)
  | _ => exact ⟨rfl, rfl⟩

theorem charged_free {answer : Answer} (h : answer.free) (hv : v.answers = answer :: s.answers) :
    v.tokensCharged = s.tokensCharged ∧ v.secondsCharged = s.secondsCharged := by
  constructor
  · funext goalId
    unfold Store.tokensCharged
    simp [hv, (tokensFor_free h goalId).1]
  · funext goalId
    unfold Store.secondsCharged
    simp [hv, (tokensFor_free h goalId).2]

theorem Accounted.answer (h : Accounted s) {answer : Answer} (hfree : answer.free)
    (hreturned : ∀ goalId goal, answer = .update (some goalId) (some goal) → goal.goalId = goalId)
    (hgoal : v.goal = s.goal) (hanswers : v.answers = answer :: s.answers) : Accounted v := by
  obtain ⟨htokens, hseconds⟩ := charged_free hfree hanswers
  refine ⟨fun goal hg => h.withinBudget goal (hgoal ▸ hg), fun goal hg => ?_,
    fun goalId goal hmem => ?_⟩
  · rw [htokens, hseconds]
    exact h.charged goal (hgoal ▸ hg)
  · rw [hanswers] at hmem
    rcases mem_cons.mp hmem with heq | hmem
    · exact hreturned goalId goal heq.symm
    · exact h.returned goalId goal hmem

theorem Sound.answer (h : Sound s) {answer : Answer} (hfree : answer.free) (hgoal : v.goal = s.goal)
    (hissued : v.issued = s.issued) (hreading : ∀ r ∈ v.reading, r ∈ s.reading)
    (hanswers : v.answers = answer :: s.answers) : Sound v := by
  refine ⟨fun goal hg => ?_, fun goal timeDeltaSeconds tokenDelta hmem => ?_,
    fun goalId overtaken hmem => ?_⟩
  · rw [hissued]
    exact h.known goal (hgoal ▸ hg)
  · rw [hanswers] at hmem
    rw [hissued]
    rcases mem_cons.mp hmem with heq | hmem
    · exact absurd heq.symm (hfree goal timeDeltaSeconds tokenDelta)
    · exact h.charges goal timeDeltaSeconds tokenDelta hmem
  · rw [hissued, hgoal]
    exact h.named goalId overtaken (hreading _ hmem)

/-! ### Storing another goal -/

variable {goalId : Text}

theorem charged_fresh (hs : Sound s) (hfresh : goalId ∉ s.issued) :
    s.tokensCharged goalId = 0 ∧ s.secondsCharged goalId = 0 := by
  have hzero : ∀ answer ∈ s.answers,
      answer.tokensFor goalId = 0 ∧ answer.secondsFor goalId = 0 := by
    intro answer hmem
    cases answer with
    | updated goal timeDeltaSeconds tokenDelta =>
      have hne : goal.goalId ≠ goalId := by
        rintro rfl
        exact hfresh (hs.charges goal timeDeltaSeconds tokenDelta hmem)
      simp [Answer.tokensFor, Answer.secondsFor, hne]
    | _ => exact ⟨rfl, rfl⟩
  constructor
  · apply sum_eq_zero
    intro x hx
    obtain ⟨answer, hmem, rfl⟩ := mem_map.mp hx
    exact (hzero answer hmem).1
  · apply sum_eq_zero
    intro x hx
    obtain ⟨answer, hmem, rfl⟩ := mem_map.mp hx
    exact (hzero answer hmem).2

theorem Accounted.put (h : Accounted s) (hs : Sound s) {answer : Answer} (hfree : answer.free)
    (hreturned : ∀ goalId goal, answer ≠ .update goalId goal) (hwithin : WithinBudget goal)
    (hfresh : goal.goalId ∉ s.issued) (hzero : goal.tokensUsed = 0 ∧ goal.timeUsedSeconds = 0) :
    Accounted (s.put goal answer) := by
  obtain ⟨htokens, hseconds⟩ := charged_free (v := s.put goal answer) hfree rfl
  refine ⟨?_, ?_, fun goalId goal hmem => ?_⟩
  · rintro _ ⟨⟩
    exact hwithin
  · rintro _ ⟨⟩
    rw [htokens, hseconds, (charged_fresh hs hfresh).1, (charged_fresh hs hfresh).2]
    exact hzero
  · rcases mem_cons.mp hmem with heq | hmem
    · exact absurd heq.symm (hreturned _ _)
    · exact h.returned goalId goal hmem

theorem Sound.put (hs : Sound s) {answer : Answer} (hfree : answer.free)
    (hfresh : goal.goalId ∉ s.issued) : Sound (s.put goal answer) := by
  refine ⟨?_, fun goal timeDeltaSeconds tokenDelta hmem => ?_, fun goalId overtaken hmem => ?_⟩
  · rintro _ ⟨⟩
    exact mem_cons_self
  · rcases mem_cons.mp hmem with heq | hmem
    · exact absurd heq.symm (hfree goal timeDeltaSeconds tokenDelta)
    · exact mem_cons_of_mem _ (hs.charges goal timeDeltaSeconds tokenDelta hmem)
  · obtain ⟨reading, hearlier, heq⟩ := mem_map.mp hmem
    cases reading with
    | update expectedGoalId before =>
      obtain ⟨rfl, rfl⟩ := Reading.update.inj heq
      have hissued := (hs.named goalId before hearlier).1
      refine ⟨mem_cons_of_mem _ hissued, ?_⟩
      rintro _ ⟨⟩
      simp only [Bool.true_eq_false, iff_false]
      rintro rfl
      exact hfresh hissued
    | pause | account => cases heq

/-! ### Setting the goal -/

theorem Accounted.retitle (h : Accounted s) (hgoal : s.goal = some goal)
    {set : ThreadGoal → ThreadGoal} (hset : Retitles set) (hv : v.goal = some (set goal))
    (hanswers : v.answers = s.answers) : Accounted v := by
  have htokens : v.tokensCharged = s.tokensCharged := by
    unfold Store.tokensCharged
    rw [hanswers]
  have hseconds : v.secondsCharged = s.secondsCharged := by
    unfold Store.secondsCharged
    rw [hanswers]
  refine ⟨fun goal' hg => ?_, fun goal' hg => ?_, fun goalId goal' hmem => ?_⟩
  · obtain rfl := Option.some.inj (hv.symm.trans hg)
    exact hset.budget goal (h.withinBudget goal hgoal)
  · obtain rfl := Option.some.inj (hv.symm.trans hg)
    rw [hset.goalId, hset.tokens, hset.seconds, htokens, hseconds]
    exact h.charged goal hgoal
  · exact h.returned goalId goal' (hanswers ▸ hmem)

theorem Sound.set (hs : Sound s) {goal' : ThreadGoal} (hgoal : s.goal = some goal)
    (hid : goal'.goalId = goal.goalId) (hv : v.goal = some goal') (hissued : v.issued = s.issued)
    (hreading : ∀ r ∈ v.reading, r ∈ s.reading ∨
      ∀ goalId overtaken, r = .update (some goalId) overtaken →
        goal.goalId = goalId ∧ overtaken = false) (hanswers : ∀ goal timeDeltaSeconds tokenDelta,
      .updated goal timeDeltaSeconds tokenDelta ∈ v.answers →
        .updated goal timeDeltaSeconds tokenDelta ∈ s.answers ∨ goal = goal') : Sound v := by
  have hknown := hs.known goal hgoal
  refine ⟨fun g hg => ?_, fun g timeDeltaSeconds tokenDelta hmem => ?_,
    fun goalId overtaken hmem => ?_⟩
  · obtain rfl := Option.some.inj (hv.symm.trans hg)
    rw [hissued, hid]
    exact hknown
  · rw [hissued]
    rcases hanswers g timeDeltaSeconds tokenDelta hmem with hmem | rfl
    · exact hs.charges g timeDeltaSeconds tokenDelta hmem
    · rw [hid]
      exact hknown
  · rw [hissued]
    rcases hreading _ hmem with hmem | hnew
    · obtain ⟨hin, hiff⟩ := hs.named goalId overtaken hmem
      refine ⟨hin, fun g hg => ?_⟩
      obtain rfl := Option.some.inj (hv.symm.trans hg)
      rw [hid]
      exact hiff goal hgoal
    · obtain ⟨rfl, rfl⟩ := hnew goalId overtaken rfl
      refine ⟨hknown, fun g hg => ?_⟩
      obtain rfl := Option.some.inj (hv.symm.trans hg)
      simp [hid]

theorem namesGoal_some : namesGoal (some goalId) goal = true ↔
    goal.goalId = goalId := by
  simp [namesGoal]

theorem account_withinBudget {now timeDeltaSeconds tokenDelta : ℤ}
    {mode : ThreadGoalAccountingMode} {expectedGoalId : Option Text} {after : ThreadGoal}
    (h : accountStatement now timeDeltaSeconds tokenDelta mode expectedGoalId (some goal) =
      (some after, true)) : WithinBudget after ∧ after.goalId = goal.goalId ∧
        after.tokensUsed = goal.tokensUsed + tokenDelta ∧
        after.timeUsedSeconds = goal.timeUsedSeconds + timeDeltaSeconds ∧
        namesGoal expectedGoalId goal = true := by
  obtain ⟨_, ⟨⟩, hguard, hafter⟩ := updateWhere_affects.mp h
  cases hafter
  refine ⟨?_, rfl, rfl, rfl, (Bool.and_eq_true_iff.mp hguard).2⟩
  rw [withinBudget_iff]
  split
  · simp
  · next hno =>
    intro hactive
    -- every mode marks an active goal
    have hfilter : mode.budgetLimitStatusFilter goal.status = true := by
      rw [hactive]
      cases mode <;> rfl
    simpa [hfilter] using hno

theorem Accounted.charge (h : Accounted s) (hgoal : s.goal = some goal) {goal' : ThreadGoal}
    {timeDeltaSeconds tokenDelta : ℤ} (hwithin : WithinBudget goal')
    (hid : goal'.goalId = goal.goalId) (htokens : goal'.tokensUsed = goal.tokensUsed + tokenDelta)
    (hseconds : goal'.timeUsedSeconds = goal.timeUsedSeconds + timeDeltaSeconds)
    (hv : v.goal = some goal')
    (hanswers : v.answers = .updated goal' timeDeltaSeconds tokenDelta :: s.answers) :
    Accounted v := by
  refine ⟨fun g hg => ?_, fun g hg => ?_, fun goalId g hmem => ?_⟩
  · obtain rfl := Option.some.inj (hv.symm.trans hg)
    exact hwithin
  · obtain rfl := Option.some.inj (hv.symm.trans hg)
    obtain ⟨hold, hold'⟩ := h.charged goal hgoal
    unfold Store.tokensCharged at hold ⊢
    unfold Store.secondsCharged at hold' ⊢
    rw [hanswers, htokens, hseconds, hid, hold, hold']
    simp [Answer.tokensFor, Answer.secondsFor, hid, add_comm]
  · rw [hanswers] at hmem
    rcases mem_cons.mp hmem with heq | hmem
    · cases heq
    · exact h.returned goalId g hmem

/-! ## The calls -/

section
variable (hs : Sound s)
include hs

theorem updateNothing_keeps (expectedGoalId : Option Text) :
    Sound (s.updateNothing expectedGoalId) ∧
      (Accounted s → Accounted (s.updateNothing expectedGoalId)) := by
  refine ⟨hs.answer (by simp [Answer.free]) rfl rfl (fun _ => id) rfl,
    fun h => h.answer (by simp [Answer.free]) ?_ rfl rfl⟩
  intro goalId goal heq
  obtain ⟨hexpected, hgoal⟩ := Answer.update.inj heq
  rw [hexpected] at hgoal
  cases hstored : s.goal with
  | none =>
    rw [hstored] at hgoal
    cases hgoal
  | some stored =>
    rw [hstored] at hgoal
    dsimp only at hgoal
    split at hgoal
    · cases hgoal
    · next hsame =>
      cases hgoal
      exact not_not.mp hsame

theorem update_keeps (request : ThreadGoalUpdate) :
    Sound (s.update request) ∧ (Accounted s → Accounted (s.update request)) := by
  unfold Store.update
  cases hstatement : updateStatement s.clock request.expectedGoalId request.status
    request.tokenBudget with
  | none => exact updateNothing_keeps hs request.expectedGoalId
  | some statement =>
    dsimp only
    obtain ⟨set, rfl, hset⟩ := updateStatement_retitles hstatement
    cases hafter : updateWhere (namesGoal request.expectedGoalId) set s.goal with
    | mk after affected =>
      cases affected with
      | true =>
        obtain ⟨goal, hgoal, hguard, rfl⟩ := updateWhere_affects.mp hafter
        refine ⟨hs.set hgoal (hset.goalId goal) rfl rfl ?_ fun _ _ _ hmem => .inl hmem,
          fun h => h.retitle hgoal hset rfl rfl⟩
        intro r hr
        rcases mem_append.mp hr with hr | hr
        · exact .inl hr
        · refine .inr fun goalId overtaken heq => ?_
          rw [mem_singleton.mp hr] at heq
          obtain ⟨hexpected, hovertaken⟩ := Reading.update.inj heq
          rw [hexpected] at hguard
          exact ⟨namesGoal_some.mp hguard, hovertaken.symm⟩
      | false =>
        exact ⟨hs.answer (by simp [Answer.free]) rfl rfl (fun _ => id) rfl,
          fun h => h.answer (by simp [Answer.free]) (by simp) rfl rfl⟩

theorem Sound.reads {r : Reading} (hr : ∀ goalId overtaken, r ≠ .update goalId overtaken) :
    Sound { s with reading := s.reading ++ [r] } := by
  refine ⟨hs.known, hs.charges, fun goalId overtaken hmem => ?_⟩
  rcases mem_append.mp hmem with hmem | hmem
  · exact hs.named goalId overtaken hmem
  · exact absurd (mem_singleton.mp hmem).symm (hr _ _)

theorem pause_keeps : Sound s.pause ∧ (Accounted s → Accounted s.pause) := by
  unfold Store.pause
  cases hafter : pauseStatement s.clock s.goal with
  | mk after affected =>
    cases affected with
    | true =>
      obtain ⟨goal, hgoal, -, rfl⟩ := updateWhere_affects.mp hafter
      have hset := pause_retitles s.clock
      refine ⟨hs.set hgoal (hset.goalId goal) rfl rfl (fun r hr => ?_)
        fun _ _ _ hmem => .inl hmem, fun h => h.retitle hgoal hset rfl rfl⟩
      rcases mem_append.mp hr with hr | hr
      · exact .inl hr
      · rw [mem_singleton.mp hr]
        exact .inr fun goalId overtaken heq => by cases heq
    | false =>
      exact ⟨hs.answer (by simp [Answer.free]) rfl rfl (fun _ => id) rfl,
        fun h => h.answer (by simp [Answer.free]) (by simp) rfl rfl⟩

theorem account_keeps (timeDeltaSeconds tokenDelta : ℤ)
    (mode : ThreadGoalAccountingMode) (expectedGoalId : Option Text) :
    Sound (s.account timeDeltaSeconds tokenDelta mode expectedGoalId) ∧
      (Accounted s → Accounted (s.account timeDeltaSeconds tokenDelta mode expectedGoalId)) := by
  have hread : Sound { s with reading := s.reading ++ [.account] } ∧
      (Accounted s → Accounted { s with reading := s.reading ++ [.account] }) :=
    ⟨hs.reads (by simp), fun h => ⟨h.withinBudget, h.charged, h.returned⟩⟩
  unfold Store.account
  dsimp only
  split
  · exact hread
  · split
    · next after hafter =>
      cases hgoal : s.goal with
      | none =>
        rw [hgoal] at hafter
        cases hafter
      | some goal =>
        rw [hgoal] at hafter
        obtain ⟨hwithin, hid, htokens, hseconds, -⟩ := account_withinBudget hafter
        refine ⟨hs.set hgoal hid rfl rfl (fun r hr => .inl hr)
          fun g timeDelta tokens hmem => ?_, fun h => h.charge hgoal hwithin hid htokens hseconds rfl rfl⟩
        rcases mem_cons.mp hmem with heq | hmem
        · exact .inr (Answer.updated.inj heq).1
        · exact .inl hmem
    · exact hread

theorem Sound.delete (hgoal : v.goal = none) (hissued : v.issued = s.issued)
    (hreading : v.reading = s.reading) (hanswers : v.answers = .deleted s.goal.isSome :: s.answers) :
    Sound v := by
  refine ⟨fun goal hg => ?_, fun goal timeDeltaSeconds tokenDelta hmem => ?_,
    fun goalId overtaken hmem => ?_⟩
  · rw [hgoal] at hg
    cases hg
  · rw [hanswers] at hmem
    rw [hissued]
    exact hs.charges goal timeDeltaSeconds tokenDelta (by simpa using hmem)
  · rw [hissued]
    refine ⟨(hs.named goalId overtaken (hreading ▸ hmem)).1, fun goal hg => ?_⟩
    rw [hgoal] at hg
    cases hg

end

theorem answerRead_free (r : Reading) : (s.answerRead r).free := by
  cases r <;> simp [Store.answerRead, Answer.free]

theorem step_sound (hs : Sound s) (hstep : step s a = .ok v) : Sound v := by
  cases a with
  | tick now =>
    cases hstep
    exact ⟨hs.known, hs.charges, hs.named⟩
  | replace goalId objective status tokenBudget =>
    dsimp only [step] at hstep
    split at hstep
    · cases hstep
    · next hfresh =>
      cases hstep
      exact hs.put (by simp [Answer.free]) hfresh
  | insert goalId objective status tokenBudget =>
    dsimp only [step] at hstep
    split at hstep
    · cases hstep
    · next hfresh =>
      split at hstep
      · cases hstep
        exact hs.answer (by simp [Answer.free]) rfl rfl (fun _ => id) rfl
      · cases hstep
        exact hs.put (by simp [Answer.free]) hfresh
  | update request =>
    cases hstep
    exact (update_keeps hs request).1
  | pause =>
    cases hstep
    exact (pause_keeps hs).1
  | delete =>
    cases hstep
    exact hs.delete rfl rfl rfl rfl
  | account timeDeltaSeconds tokenDelta mode expectedGoalId =>
    cases hstep
    exact (account_keeps hs timeDeltaSeconds tokenDelta mode expectedGoalId).1
  | readBack index =>
    dsimp only [step] at hstep
    split at hstep
    · cases hstep
    · next r _ =>
      cases hstep
      exact hs.answer (answerRead_free r) rfl rfl (fun _ hr => (eraseIdx_sublist _ _).subset hr) rfl

theorem readBack_iff (hs : Sound s) {index : ℕ} {r : Reading} (hr : s.reading[index]? = some r) :
    (∀ goalId goal, s.answerRead r = .update (some goalId) (some goal) →
      goal.goalId = goalId) ↔ ¬ ReadsLater s (.readBack index) := by
  have hmem := mem_of_getElem? hr
  constructor
  · rintro hreturned ⟨_, goalId, ⟨⟩, hread, hsome⟩
    rw [hr] at hread
    cases hread
    obtain ⟨goal, hgoal⟩ := Option.isSome_iff_exists.mp hsome
    have hid := hreturned goalId goal (by simp [Store.answerRead, hgoal])
    have hfalse := ((hs.named goalId true hmem).2 goal hgoal).mp hid
    cases hfalse
  · intro hno goalId goal heq
    cases r with
    | update expectedGoalId overtaken =>
      obtain ⟨rfl, hgoal⟩ := Answer.update.inj heq
      apply ((hs.named goalId overtaken hmem).2 goal hgoal).mpr
      cases overtaken with
      | false => rfl
      | true => exact absurd ⟨index, goalId, rfl, hr, by simp [hgoal]⟩ hno
    | pause | account => cases heq

theorem accounted_step_iff (hs : Sound s) (h : Accounted s) (hstep : step s a = .ok v) :
    Accounted v ↔ ¬ ReadsLater s a := by
  have hother : (∀ index, a ≠ .readBack index) → Accounted v → (Accounted v ↔ ¬ ReadsLater s a) := by
    intro hnot hv
    refine ⟨fun _ hreads => ?_, fun _ => hv⟩
    obtain ⟨index, _, ha, -⟩ := hreads
    exact hnot index ha
  cases a with
  | readBack index =>
    dsimp only [step] at hstep
    split at hstep
    · cases hstep
    · next r hr =>
      cases hstep
      rw [← readBack_iff hs hr]
      constructor
      · exact fun hv goalId goal heq => hv.returned goalId goal (heq ▸ mem_cons_self)
      · exact fun hreturned => h.answer (answerRead_free r) hreturned rfl rfl
  | tick now =>
    cases hstep
    exact hother (by simp) ⟨h.withinBudget, h.charged, h.returned⟩
  | replace goalId objective status tokenBudget =>
    dsimp only [step] at hstep
    split at hstep
    · cases hstep
    · next hfresh =>
      cases hstep
      exact hother (by simp) (h.put hs (by simp [Answer.free]) (by simp)
        (newGoal_withinBudget s.clock goalId objective status tokenBudget) hfresh ⟨rfl, rfl⟩)
  | insert goalId objective status tokenBudget =>
    dsimp only [step] at hstep
    split at hstep
    · cases hstep
    · next hfresh =>
      split at hstep
      · cases hstep
        exact hother (by simp) (h.answer (by simp [Answer.free]) (by simp) rfl rfl)
      · cases hstep
        exact hother (by simp) (h.put hs (by simp [Answer.free]) (by simp)
          (newGoal_withinBudget s.clock goalId objective status tokenBudget) hfresh ⟨rfl, rfl⟩)
  | update request =>
    cases hstep
    exact hother (by simp) ((update_keeps hs request).2 h)
  | pause =>
    cases hstep
    exact hother (by simp) ((pause_keeps hs).2 h)
  | delete =>
    cases hstep
    refine hother (by simp) ⟨by simp, by simp, fun goalId goal hmem => ?_⟩
    exact h.returned goalId goal (by simpa using hmem)
  | account timeDeltaSeconds tokenDelta mode expectedGoalId =>
    cases hstep
    exact hother (by simp) ((account_keeps hs timeDeltaSeconds tokenDelta mode expectedGoalId).2 h)

theorem respects_update {request : ThreadGoalUpdate}
    (hexpects : request.expectedGoalId = some goalId) (hgoal : s.goal = some goal)
    (hne : goal.goalId ≠ goalId) : (s.update request).goal = some goal ∧
      ∃ answer : Answer, answer.free ∧ (s.update request).answers = answer :: s.answers := by
  have hnames : namesGoal request.expectedGoalId goal = false := by
    simp [hexpects, namesGoal, hne]
  unfold Store.update
  cases hstatement : updateStatement s.clock request.expectedGoalId request.status
    request.tokenBudget with
  | none => exact ⟨hgoal, _, by simp [Answer.free], rfl⟩
  | some statement =>
    obtain ⟨set, rfl, -⟩ := updateStatement_retitles hstatement
    have hwhere : updateWhere (namesGoal request.expectedGoalId) set s.goal =
        (some goal, false) := by
      rw [hgoal]
      simp [updateWhere, hnames]
    dsimp only
    rw [hwhere]
    exact ⟨hgoal, _, by simp [Answer.free], rfl⟩

theorem respects_account {timeDeltaSeconds tokenDelta : ℤ} {mode : ThreadGoalAccountingMode}
    (hgoal : s.goal = some goal) (hne : goal.goalId ≠ goalId) :
    s.account timeDeltaSeconds tokenDelta mode (some goalId) =
      { s with reading := s.reading ++ [.account] } := by
  have hnames : namesGoal (some goalId) goal = false := by simp [namesGoal, hne]
  unfold Store.account
  dsimp only
  split
  · rfl
  · split
    · next after hafter =>
      rw [hgoal] at hafter
      obtain ⟨_, ⟨⟩, hguard, -⟩ := updateWhere_affects.mp hafter
      rw [hnames, Bool.and_false] at hguard
      cases hguard
    · rfl

theorem respects (s : Store) (a : Act) : Respects s a := by
  intro goalId goal v hexpects hgoal hne hstep
  cases a with
  | update request =>
    cases hstep
    obtain ⟨hkept, answer, hfree, hanswers⟩ := respects_update hexpects hgoal hne
    exact ⟨hkept, charged_free hfree hanswers⟩
  | account timeDeltaSeconds tokenDelta mode expectedGoalId =>
    cases hstep
    obtain rfl : expectedGoalId = some goalId := hexpects
    rw [respects_account hgoal hne]
    exact ⟨hgoal, rfl, rfl⟩
  | _ => cases hexpects

theorem empty_sound (now : ℤ) : Sound (emptyStore now) :=
  ⟨by simp [emptyStore], by simp [emptyStore], by simp [emptyStore]⟩

theorem empty_accounted (now : ℤ) : Accounted (emptyStore now) :=
  ⟨by simp [emptyStore], by simp [emptyStore], by simp [emptyStore]⟩

/-- In every run the goal is accounted for, and no call does anything to another goal than the
one it expects; a call returns the goal it expects exactly if it does not read back one that
was stored after it had written. -/
theorem goals_accounted_iff {now : ℤ} {acts : List Act}
    (hrun : acts.foldlM step (emptyStore now) = .ok s) :
    ((∀ pre u, pre <+: acts → pre.foldlM step (emptyStore now) = .ok u → Accounted u) ∧
      ∀ pre a u, pre ++ [a] <+: acts → pre.foldlM step (emptyStore now) = .ok u → Respects u a) ↔
      ∀ pre a u, pre ++ [a] <+: acts → pre.foldlM step (emptyStore now) = .ok u →
        ¬ ReadsLater u a := by
  have hall := always_iff_given (fun u a v hu hv => step_sound (s := u) (a := a) hu hv)
    (fun u a v hu h hv => accounted_step_iff hu h hv) (empty_sound now) (empty_accounted now) hrun
  exact ⟨fun h => hall.mp h.1, fun h => ⟨hall.mpr h, fun pre a u _ _ => respects u a⟩⟩

def completesFirst : List Act :=
  [.replace "g1".toList "a".toList .active (some 10),
    .update ⟨some .complete, none, some "g1".toList⟩]

theorem update_read_at_once : (∀ pre u, pre <+: completesFirst ++ [.readBack 0] →
        pre.foldlM step (emptyStore 0) = .ok u → Accounted u) ∧
      ∀ pre a u, pre ++ [a] <+: completesFirst ++ [.readBack 0] →
        pre.foldlM step (emptyStore 0) = .ok u → Respects u a := by
  refine (goals_accounted_iff rfl).mpr fun pre a u hpre hu => ?_
  have halong : Along step (fun u a => ¬ ReadsLater u a) (emptyStore 0)
      (completesFirst ++ [.readBack 0]) := by
    refine Along.cons_ok rfl (by simp [ReadsLater]) ?_
    refine Along.cons_ok rfl (by simp [ReadsLater]) ?_
    refine Along.cons_ok rfl ?_ trivial
    rintro ⟨_, goalId, ⟨⟩, hread, -⟩
    cases hread
  exact halong.at hpre hu

/-- The goal is replaced between the two statements of the update. -/
theorem update_returns_another : ∃ u,
    (completesFirst ++ [Act.replace "g2".toList "b".toList .active none, .readBack 0]).foldlM step
      (emptyStore 0) = .ok u ∧ ¬ Accounted u := by
  refine ⟨_, rfl, fun h => ?_⟩
  exact absurd (h.returned "g1".toList _ mem_cons_self) (by decide)

end Codex.ThreadGoals
