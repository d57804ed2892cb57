import Codex.Foundation.Text
import Mathlib.Algebra.Order.Ring.Int

/-!
# The goal of a thread

A thread has at most one goal. Every call is one or two statements on its row; two of them
first write and then read back what is there.
-/

namespace Codex.ThreadGoals

open Foundation

inductive ThreadGoalStatus where
  | active
  | paused
  | budgetLimited
  | complete
deriving DecidableEq

structure ThreadGoal where
  goalId : Text
  objective : Text
  status : ThreadGoalStatus
  tokenBudget : Option ℤ
  tokensUsed : ℤ
  timeUsedSeconds : ℤ
  createdAtMs : ℤ
  updatedAtMs : ℤ
deriving DecidableEq

structure ThreadGoalUpdate where
  status : Option ThreadGoalStatus
  tokenBudget : Option (Option ℤ)
  expectedGoalId : Option Text

inductive ThreadGoalAccountingMode where
  | activeStatusOnly
  | activeOnly
  | activeOrComplete
  | activeOrStopped
deriving DecidableEq

def overBudget (tokensUsed : ℤ) : Option ℤ → Bool
  | none => false
  | some budget => budget ≤ tokensUsed

def statusAfterBudgetLimit (status : ThreadGoalStatus) (tokensUsed : ℤ)
    (tokenBudget : Option ℤ) : ThreadGoalStatus :=
  if status = .active ∧ overBudget tokensUsed tokenBudget = true then .budgetLimited else status

def ThreadGoalAccountingMode.statusFilter : ThreadGoalAccountingMode → ThreadGoalStatus → Bool
  | .activeStatusOnly, status => status = .active
  | .activeOnly, status => status = .active || status = .budgetLimited
  | .activeOrComplete, status =>
    status = .active || status = .budgetLimited || status = .complete
  | .activeOrStopped, status => status = .active || status = .paused || status = .budgetLimited

/-- The rows it marks when they reach the budget. -/
def ThreadGoalAccountingMode.budgetLimitStatusFilter :
    ThreadGoalAccountingMode → ThreadGoalStatus → Bool
  | .activeStatusOnly, status | .activeOnly, status | .activeOrComplete, status =>
    status = .active
  | .activeOrStopped, status => status = .active || status = .paused || status = .budgetLimited

def namesGoal (expectedGoalId : Option Text) (goal : ThreadGoal) : Bool :=
  match expectedGoalId with
  | none => true
  | some goalId => goal.goalId = goalId

/-! ## The statements -/

def newGoal (now : ℤ) (goalId objective : Text) (status : ThreadGoalStatus)
    (tokenBudget : Option ℤ) : ThreadGoal where
  goalId
  objective
  status := statusAfterBudgetLimit status 0 tokenBudget
  tokenBudget
  tokensUsed := 0
  timeUsedSeconds := 0
  createdAtMs := now
  updatedAtMs := now

/-- `UPDATE … SET … WHERE …`: the row afterwards, and whether it was affected. -/
def updateWhere (guard : ThreadGoal → Bool) (set : ThreadGoal → ThreadGoal) :
    Option ThreadGoal → Option ThreadGoal × Bool
  | none => (none, false)
  | some goal => if guard goal then (some (set goal), true) else (some goal, false)

def requestedStatus (goal : ThreadGoal) (status : ThreadGoalStatus) (tokenBudget : Option ℤ) :
    ThreadGoalStatus :=
  if goal.status = .budgetLimited ∧ status = .paused then goal.status
  else if status = .active ∧ overBudget goal.tokensUsed tokenBudget = true then .budgetLimited
  else status

/-- The first statement of `update_thread_goal`, unless there is nothing to set. -/
def updateStatement (now : ℤ) (expectedGoalId : Option Text) :
    Option ThreadGoalStatus → Option (Option ℤ) →
      Option (Option ThreadGoal → Option ThreadGoal × Bool)
  | some status, some tokenBudget => some <|
    updateWhere (namesGoal expectedGoalId) fun goal =>
      { goal with
        status := requestedStatus goal status tokenBudget, tokenBudget, updatedAtMs := now }
  | some status, none => some <|
    updateWhere (namesGoal expectedGoalId) fun goal =>
      { goal with status := requestedStatus goal status goal.tokenBudget, updatedAtMs := now }
  | none, some tokenBudget => some <|
    updateWhere (namesGoal expectedGoalId) fun goal =>
      { goal with
        tokenBudget
        status :=
          if goal.status = .active ∧ overBudget goal.tokensUsed tokenBudget = true then
            .budgetLimited
          else goal.status
        updatedAtMs := now }
  | none, none => none

def pauseStatement (now : ℤ) : Option ThreadGoal → Option ThreadGoal × Bool :=
  updateWhere (fun goal => goal.status = .active) fun goal =>
    { goal with status := .paused, updatedAtMs := now }

def accountStatement (now timeDeltaSeconds tokenDelta : ℤ) (mode : ThreadGoalAccountingMode)
    (expectedGoalId : Option Text) : Option ThreadGoal → Option ThreadGoal × Bool :=
  updateWhere (fun goal => mode.statusFilter goal.status && namesGoal expectedGoalId goal)
    fun goal =>
      { goal with
        timeUsedSeconds := goal.timeUsedSeconds + timeDeltaSeconds
        tokensUsed := goal.tokensUsed + tokenDelta
        status :=
          if mode.budgetLimitStatusFilter goal.status = true ∧
              overBudget (goal.tokensUsed + tokenDelta) goal.tokenBudget = true then
            .budgetLimited
          else goal.status
        updatedAtMs := now }

/-! ## Clients -/

/-- A call that has written, or found nothing to write, and is to read back. The history of an
update tells if another goal has been stored since. -/
inductive Reading where
  | update (expectedGoalId : Option Text) (overtaken : Bool)
  | pause
  | account
deriving DecidableEq

inductive Answer where
  | replaced (goal : ThreadGoal)
  | inserted (goal : Option ThreadGoal)
  | update (expectedGoalId : Option Text) (goal : Option ThreadGoal)
  | paused (goal : Option ThreadGoal)
  | deleted (affected : Bool)
  | unchanged (goal : Option ThreadGoal)
  | updated (goal : ThreadGoal) (timeDeltaSeconds tokenDelta : ℤ)

structure Store where
  clock : ℤ
  goal : Option ThreadGoal
  issued : List Text
  reading : List Reading
  answers : List Answer

def emptyStore (now : ℤ) : Store := ⟨now, none, [], [], []⟩

inductive Act where
  | tick (now : ℤ)
  | replace (goalId objective : Text) (status : ThreadGoalStatus) (tokenBudget : Option ℤ)
  | insert (goalId objective : Text) (status : ThreadGoalStatus) (tokenBudget : Option ℤ)
  | update (update : ThreadGoalUpdate)
  | pause
  | delete
  | account (timeDeltaSeconds tokenDelta : ℤ) (mode : ThreadGoalAccountingMode)
      (expectedGoalId : Option Text)
  | readBack (index : ℕ)

def Reading.overtake : Reading → Reading
  | .update expectedGoalId _ => .update expectedGoalId true
  | reading => reading

namespace Store

def put (s : Store) (goal : ThreadGoal) (answer : Answer) : Store :=
  { s with
    goal := some goal
    issued := goal.goalId :: s.issued
    reading := s.reading.map Reading.overtake
    answers := answer :: s.answers }

def updateNothing (s : Store) (expectedGoalId : Option Text) : Store :=
  let goal := match s.goal, expectedGoalId with
    | some goal, some goalId => if goal.goalId ≠ goalId then none else some goal
    | goal, _ => goal
  { s with answers := .update expectedGoalId goal :: s.answers }

def update (s : Store) (update : ThreadGoalUpdate) : Store :=
  match updateStatement s.clock update.expectedGoalId update.status update.tokenBudget with
  | none => s.updateNothing update.expectedGoalId
  | some statement =>
    let (goal, affected) := statement s.goal
    if affected then
      { s with goal, reading := s.reading ++ [.update update.expectedGoalId false] }
    else { s with answers := .update update.expectedGoalId none :: s.answers }

def pause (s : Store) : Store :=
  let (goal, affected) := pauseStatement s.clock s.goal
  if affected then { s with goal, reading := s.reading ++ [.pause] }
  else { s with answers := .paused none :: s.answers }

def account (s : Store) (timeDeltaSeconds tokenDelta : ℤ) (mode : ThreadGoalAccountingMode)
    (expectedGoalId : Option Text) : Store :=
  let timeDeltaSeconds := max timeDeltaSeconds 0
  let tokenDelta := max tokenDelta 0
  if timeDeltaSeconds = 0 ∧ tokenDelta = 0 then { s with reading := s.reading ++ [.account] }
  else
    match accountStatement s.clock timeDeltaSeconds tokenDelta mode expectedGoalId s.goal with
    | (some goal, true) =>
      { s with
        goal := some goal, answers := .updated goal timeDeltaSeconds tokenDelta :: s.answers }
    | _ => { s with reading := s.reading ++ [.account] }

def answerRead (s : Store) : Reading → Answer
  | .update expectedGoalId _ => .update expectedGoalId s.goal
  | .pause => .paused s.goal
  | .account => .unchanged s.goal

end Store

def step (s : Store) : Act → Except Unit Store
  | .tick now => .ok { s with clock := now }
  | .replace goalId objective status tokenBudget =>
    if goalId ∈ s.issued then .error ()
    else
      let goal := newGoal s.clock goalId objective status tokenBudget
      .ok (s.put goal (.replaced goal))
  | .insert goalId objective status tokenBudget =>
    if goalId ∈ s.issued then .error ()
    else if s.goal.isSome then .ok { s with answers := .inserted none :: s.answers }
    else
      let goal := newGoal s.clock goalId objective status tokenBudget
      .ok (s.put goal (.inserted (some goal)))
  | .update update => .ok (s.update update)
  | .pause => .ok s.pause
  | .delete => .ok { s with goal := none, answers := .deleted s.goal.isSome :: s.answers }
  | .account timeDeltaSeconds tokenDelta mode expectedGoalId =>
    .ok (s.account timeDeltaSeconds tokenDelta mode expectedGoalId)
  | .readBack index =>
    match s.reading[index]? with
    | none => .error ()
    | some reading =>
      .ok { s with
        reading := s.reading.eraseIdx index, answers := s.answerRead reading :: s.answers }

end Codex.ThreadGoals
