import Mathlib.Data.List.Basic
import Mathlib.Data.List.Induction

/-!
# Scans from the back and rollbacks

A loop over a list from its last element to its first, with the elements behind
the current one at hand, and the same loop stopping as soon as a condition holds.
Where the condition, once met, fixes what is observed, stopping changes nothing. A scan for
an element of a kind finds the last one.

A log pushes entries and pops the newest `n` of them. Forwards it is a stack.
A backward reader needs only the number of entries it still has to skip
(`stackOf_append`), and that number may saturate at any bound the log is not
longer than. A stack that counts the entries of one kind alone is that kind's part of
the stack exactly when no entry of it outlives a younger one of another kind
(`stackOf_keeps`).
-/

namespace Foundation

open List

/-! ## Scans from the back -/

section
variable {α σ β : Type} (step : List α → α → σ → σ) (stop : σ → Bool) (s₀ : σ)

def backward : List α → σ
  | [] => s₀
  | a :: newer => step newer a (backward newer)

def backwardUntil : List α → σ × Bool
  | [] => (s₀, false)
  | a :: newer =>
    let (s, stopped) := backwardUntil newer
    if stopped then (s, true)
    else
      let s := step newer a s
      (s, stop s)

theorem backwardUntil_cases (l : List α) : (∃ older newer, l = older ++ newer ∧ newer ≠ [] ∧
        backwardUntil step stop s₀ l = (backward step s₀ newer, true) ∧
        stop (backward step s₀ newer) = true) ∨
      backwardUntil step stop s₀ l = (backward step s₀ l, false) := by
  induction l with
  | nil => exact .inr rfl
  | cons a l ih =>
    rcases ih with ⟨older, newer, hl, hne, hrun, hstop⟩ | hrun
    · refine .inl ⟨a :: older, newer, ?_, hne, ?_, hstop⟩
      · rw [hl]
        rfl
      · simp only [backwardUntil, hrun, if_true]
    · cases hs : stop (step l a (backward step s₀ l)) with
      | true =>
        refine .inl ⟨[], a :: l, rfl, cons_ne_nil _ _, ?_, hs⟩
        simp only [backwardUntil, hrun, Bool.false_eq_true, if_false, hs]
        rfl
      | false =>
        refine .inr ?_
        simp only [backwardUntil, hrun, Bool.false_eq_true, if_false, hs]
        rfl

variable {step stop s₀}

theorem backwardUntil_of_never {l : List α}
    (h : ∀ older newer, l = older ++ newer → stop (backward step s₀ newer) = false) :
    backwardUntil step stop s₀ l = (backward step s₀ l, false) := by
  rcases backwardUntil_cases step stop s₀ l with
    ⟨older, newer, hl, -, -, hstop⟩ | hrun
  · rw [h older newer hl] at hstop
    exact absurd hstop Bool.false_ne_true
  · exact hrun

end

/-! ## The last element of a kind -/

section
variable {α : Type} (p : α → Bool)

def lastIndex (l : List α) : Option ℕ :=
  l.zipIdx.reverse.findSome? fun (a, i) => if p a then some i else none

/-- `new` goes right before the last element of the kind. -/
def InsertedBeforeLast (l new result : List α) : Prop :=
  ∃ x y z, l = x ++ y :: z ∧ p y = true ∧ (∀ a ∈ z, p a = false) ∧ result = x ++ new ++ y :: z

variable {p} {l new : List α} {a : α} {i : ℕ}

theorem zipIdx_concat (l : List α) (a : α) :
    (l ++ [a]).zipIdx.reverse = (a, l.length) :: l.zipIdx.reverse := by
  rw [zipIdx_append, reverse_append]
  simp

theorem lastIndex_concat (l : List α) (a : α) :
    lastIndex p (l ++ [a]) = if p a then some l.length else lastIndex p l := by
  unfold lastIndex
  rw [zipIdx_concat, List.findSome?_cons]
  cases ha : p a <;> simp [ha]

theorem lastIndex_eq_none : lastIndex p l = none ↔ ∀ a ∈ l, p a = false := by
  induction l using List.reverseRecOn with
  | nil => simp [lastIndex]
  | append_singleton l a ih =>
    rw [lastIndex_concat, forall_mem_append, forall_mem_singleton]
    cases ha : p a with
    | true => simp
    | false => simp [ih]

theorem lastIndex_lt (h : lastIndex p l = some i) : i < l.length := by
  induction l using List.reverseRecOn with
  | nil => cases h
  | append_singleton l a ih =>
    rw [lastIndex_concat] at h
    rw [length_append, length_singleton]
    split at h
    · cases h
      exact Nat.lt_succ_self _
    · exact Nat.lt_succ_of_lt (ih h)

variable (new) in
theorem insertedBeforeLast_of_index (h : lastIndex p l = some i) :
    InsertedBeforeLast p l new (l.take i ++ new ++ l.drop i) := by
  induction l using List.reverseRecOn with
  | nil => cases h
  | append_singleton l a ih =>
    rw [lastIndex_concat] at h
    cases ha : p a with
    | true =>
      rw [if_pos ha, Option.some.injEq] at h
      subst h
      exact ⟨l, a, [], rfl, ha, by simp, by simp⟩
    | false =>
      rw [if_neg (by simp [ha])] at h
      obtain ⟨x, y, z, hl, hy, hz, hresult⟩ := ih h
      have hi := lastIndex_lt h
      refine ⟨x, y, z ++ [a], by rw [hl]; simp, hy, ?_, ?_⟩
      · rw [forall_mem_append, forall_mem_singleton]
        exact ⟨hz, ha⟩
      · rw [take_append_of_le_length (Nat.le_of_lt hi),
          drop_append_of_le_length (Nat.le_of_lt hi), ← List.append_assoc, hresult]
        simp

theorem InsertedBeforeLast.congr {q : α → Bool} {result : List α}
    (h : InsertedBeforeLast p l new result) (heq : ∀ a ∈ l, p a = q a) :
    InsertedBeforeLast q l new result := by
  obtain ⟨x, y, z, rfl, hy, hz, hresult⟩ := h
  refine ⟨x, y, z, rfl, ?_, fun a ha => ?_, hresult⟩
  · rw [← heq y (by simp), hy]
  · rw [← heq a (by simp [ha]), hz a ha]

theorem InsertedBeforeLast.getLast? {result : List α} (h : InsertedBeforeLast p l new result) :
    result.getLast? = l.getLast? := by
  obtain ⟨x, y, z, rfl, -, -, rfl⟩ := h
  rw [List.getLast?_append_cons, List.getLast?_append_cons]

end

/-! ## Rollbacks, forwards and backwards -/

inductive StackOp (α : Type) where
  | push (a : α)
  | pop (n : Nat)

variable {α : Type}

def StackOp.apply (stack : List α) : StackOp α → List α
  | .push a => a :: stack
  | .pop n => stack.drop n

def stackOf (ops : List (StackOp α)) : List α := ops.foldl StackOp.apply []

theorem stackOf_concat (ops : List (StackOp α)) (op : StackOp α) :
    stackOf (ops ++ [op]) = op.apply (stackOf ops) := by
  unfold stackOf
  rw [foldl_append]
  rfl

theorem stackOf_length_le (ops : List (StackOp α)) : (stackOf ops).length ≤ ops.length := by
  induction ops using List.reverseRecOn with
  | nil => exact Nat.le_refl _
  | append_singleton ops op ih =>
    rw [stackOf_concat, length_append, length_singleton]
    cases op with
    | push a => exact Nat.succ_le_succ ih
    | pop n =>
      simp only [StackOp.apply, length_drop]
      omega

/-- What a backward reader has to skip, and what it has kept so far. -/
structure BackwardReader (α : Type) where
  pending : Nat
  kept : List α

def BackwardReader.step (add : Nat → Nat → Nat) (op : StackOp α) (r : BackwardReader α) :
    BackwardReader α :=
  match op with
  | .pop n => { r with pending := add r.pending n }
  | .push a =>
    if r.pending = 0 then { r with kept := r.kept ++ [a] }
    else { r with pending := r.pending - 1 }

def readBackward (add : Nat → Nat → Nat) (ops : List (StackOp α)) : BackwardReader α :=
  backward (fun _ => BackwardReader.step add) ⟨0, []⟩ ops

theorem readBackward_cons (add : Nat → Nat → Nat) (op : StackOp α) (ops : List (StackOp α)) :
    readBackward add (op :: ops) = (readBackward add ops).step add op := rfl

def AddsUpTo (bound : Nat) (add : Nat → Nat → Nat) : Prop :=
  ∀ a b, add a b = a + b ∨ (bound ≤ add a b ∧ bound ≤ a + b)

theorem stackOf_append {add : Nat → Nat → Nat} {bound : Nat} (hadd : AddsUpTo bound add)
    (newer older : List (StackOp α)) (h : older.length + newer.length ≤ bound) :
    stackOf (older ++ newer) =
      (readBackward add newer).kept ++ (stackOf older).drop (readBackward add newer).pending := by
  induction newer generalizing older with
  | nil => simp [readBackward, backward]
  | cons op newer ih =>
    have hsplit : older ++ op :: newer = (older ++ [op]) ++ newer := by
      rw [List.append_assoc, singleton_append]
    rw [length_cons] at h
    rw [hsplit, ih (older ++ [op]) (by rw [length_append, length_singleton]; omega),
      stackOf_concat, readBackward_cons]
    cases op with
    | push a =>
      cases hp : (readBackward add newer).pending with
      | zero | succ k => simp [StackOp.apply, BackwardReader.step, hp]
    | pop n =>
      simp only [StackOp.apply, BackwardReader.step, drop_drop]
      have hlen := stackOf_length_le older
      rcases hadd (readBackward add newer).pending n with heq | ⟨hlo, hhi⟩
      · rw [heq, Nat.add_comm]
      · rw [drop_of_length_le (by omega), drop_of_length_le (by omega)]

theorem readBackward_kept {add : Nat → Nat → Nat} {bound : Nat} (hadd : AddsUpTo bound add)
    (ops : List (StackOp α)) (h : ops.length ≤ bound) :
    (readBackward add ops).kept = stackOf ops := by
  have hall := stackOf_append hadd ops [] (by rw [length_nil]; omega)
  rw [nil_append] at hall
  rw [hall]
  simp [stackOf]

/-! ## One kind of entries -/

def pending (ops : List (StackOp α)) : Nat := (readBackward (· + ·) ops).pending

@[simp] theorem pending_nil : pending ([] : List (StackOp α)) = 0 := rfl

@[simp] theorem pending_pop (n : Nat) (ops : List (StackOp α)) :
    pending (.pop n :: ops) = pending ops + n := rfl

@[simp] theorem pending_push (a : α) (ops : List (StackOp α)) :
    pending (.push a :: ops) = pending ops - 1 := by
  unfold pending
  rw [readBackward_cons, BackwardReader.step]
  split
  · rename_i h
    rw [h]
  · rfl

theorem stackOf_eq_kept (ops : List (StackOp α)) : stackOf ops = (readBackward (· + ·) ops).kept :=
  (readBackward_kept (fun _ _ => .inl rfl) ops (Nat.le_refl _)).symm

@[simp] theorem stackOf_pop_cons (n : Nat) (ops : List (StackOp α)) :
    stackOf (.pop n :: ops) = stackOf ops := by
  rw [stackOf_eq_kept, stackOf_eq_kept, readBackward_cons, BackwardReader.step]

theorem stackOf_push_cons (a : α) (ops : List (StackOp α)) :
    stackOf (.push a :: ops) = if pending ops = 0 then stackOf ops ++ [a] else stackOf ops := by
  rw [stackOf_eq_kept, stackOf_eq_kept, readBackward_cons, BackwardReader.step]
  unfold pending
  split <;> rfl

variable (p : α → Bool)

def StackOp.keeps : StackOp α → Bool
  | .push a => p a
  | .pop _ => true

/-- The entries of other kinds in a log that the log itself takes back. -/
def othersTaken : List (StackOp α) → Nat
  | [] => 0
  | .push a :: ops =>
    if p a = false ∧ pending ops ≠ 0 then othersTaken ops + 1 else othersTaken ops
  | .pop _ :: ops => othersTaken ops

/-- No entry of the kind that stays has a younger one of another kind that is taken back. -/
def Spared : List (StackOp α) → Prop
  | [] => True
  | .push a :: ops => (p a = true → pending ops = 0 → othersTaken p ops = 0) ∧ Spared ops
  | .pop _ :: ops => Spared ops

instance decidableSpared : (ops : List (StackOp α)) → Decidable (Spared p ops)
  | [] => .isTrue trivial
  | .push a :: ops =>
    have := decidableSpared ops
    inferInstanceAs
      (Decidable ((p a = true → pending ops = 0 → othersTaken p ops = 0) ∧ Spared p ops))
  | .pop _ :: ops => decidableSpared ops

/-- What the stack of one kind of entries is to the whole stack. -/
structure KeepsKind (ops : List (StackOp α)) : Prop where
  behind : pending ops ≤ pending (ops.filter (StackOp.keeps p))
  shorter : (stackOf (ops.filter (StackOp.keeps p))).length ≤ ((stackOf ops).filter p).length
  same : Spared p ops → stackOf (ops.filter (StackOp.keeps p)) = (stackOf ops).filter p ∧
    pending (ops.filter (StackOp.keeps p)) = pending ops + othersTaken p ops
  lost : ¬ Spared p ops →
    (stackOf (ops.filter (StackOp.keeps p))).length < ((stackOf ops).filter p).length

variable {p} {ops : List (StackOp α)}

theorem KeepsKind.pop (h : KeepsKind p ops) (n : Nat) : KeepsKind p (.pop n :: ops) := by
  have hfilter : (StackOp.pop n :: ops).filter (StackOp.keeps p) =
      .pop n :: ops.filter (StackOp.keeps p) := filter_cons_of_pos rfl
  constructor
  · rw [hfilter, pending_pop, pending_pop]
    exact Nat.add_le_add_right h.behind n
  · rw [hfilter, stackOf_pop_cons, stackOf_pop_cons]
    exact h.shorter
  · intro hs
    obtain ⟨hstack, hpend⟩ := h.same hs
    rw [hfilter, stackOf_pop_cons, stackOf_pop_cons, pending_pop, pending_pop, hpend]
    exact ⟨hstack, Nat.add_right_comm _ _ _⟩
  · intro hs
    rw [hfilter, stackOf_pop_cons, stackOf_pop_cons]
    exact h.lost hs

theorem KeepsKind.pushOther (h : KeepsKind p ops) {a : α} (ha : p a = false) :
    KeepsKind p (.push a :: ops) := by
  have hfilter : (StackOp.push a :: ops).filter (StackOp.keeps p) =
      ops.filter (StackOp.keeps p) :=
    filter_cons_of_neg (by rw [StackOp.keeps, ha]; exact Bool.false_ne_true)
  have hstack : (stackOf (.push a :: ops)).filter p = (stackOf ops).filter p := by
    rw [stackOf_push_cons]
    split
    · simp [ha]
    · rfl
  have hspared : Spared p (.push a :: ops) ↔ Spared p ops := by
    simp [Spared, ha]
  constructor
  · rw [hfilter, pending_push]
    exact Nat.le_trans (Nat.sub_le _ _) h.behind
  · rw [hfilter, hstack]
    exact h.shorter
  · intro hs
    obtain ⟨hsame, hpend⟩ := h.same (hspared.mp hs)
    rw [hfilter, hstack, hpend, pending_push]
    refine ⟨hsame, ?_⟩
    simp only [othersTaken, ha, true_and]
    split <;> omega
  · intro hs
    rw [hfilter, hstack]
    exact h.lost (mt hspared.mpr hs)

theorem KeepsKind.push (h : KeepsKind p ops) {a : α} (ha : p a = true) :
    KeepsKind p (.push a :: ops) := by
  have hfilter : (StackOp.push a :: ops).filter (StackOp.keeps p) =
      .push a :: ops.filter (StackOp.keeps p) := filter_cons_of_pos ha
  have hbehind := h.behind
  have hshorter := h.shorter
  have htaken : othersTaken p (.push a :: ops) = othersTaken p ops := by
    simp [othersTaken, ha]
  have hstack : (stackOf (.push a :: ops)).filter p =
      if pending ops = 0 then (stackOf ops).filter p ++ [a] else (stackOf ops).filter p := by
    rw [stackOf_push_cons]
    split
    · simp [ha]
    · rfl
  have hgrow : ∀ (n : Nat) (l : List α),
      (if n = 0 then l ++ [a] else l).length = l.length + if n = 0 then 1 else 0 := by
    intro n l
    split
    · exact length_append
    · rfl
  have hspared : Spared p (.push a :: ops) ↔
      (pending ops = 0 → othersTaken p ops = 0) ∧ Spared p ops := by
    simp [Spared, ha]
  constructor
  · rw [hfilter, pending_push, pending_push]
    exact Nat.sub_le_sub_right hbehind 1
  · rw [hfilter, hstack, stackOf_push_cons, hgrow, hgrow]
    split <;> split <;> omega
  · intro hs
    obtain ⟨hzero, hs⟩ := hspared.mp hs
    obtain ⟨hsame, hpend⟩ := h.same hs
    rw [hfilter, hstack, stackOf_push_cons, pending_push, pending_push, htaken, hsame]
    by_cases hp : pending ops = 0
    · -- both keep the entry
      have hz : pending (ops.filter (StackOp.keeps p)) = 0 := by
        rw [hpend, hp, hzero hp]
      rw [if_pos hp, if_pos hz, hp, hz, hzero hp]
      exact ⟨rfl, rfl⟩
    · have hz : pending (ops.filter (StackOp.keeps p)) ≠ 0 := by omega
      rw [if_neg hp, if_neg hz]
      exact ⟨rfl, by omega⟩
  · intro hs
    rw [hfilter, hstack, stackOf_push_cons]
    by_cases hops : Spared p ops
    · -- the entry stays, and its own stack takes it back
      obtain ⟨hsame, hpend⟩ := h.same hops
      have hlost : pending ops = 0 ∧ othersTaken p ops ≠ 0 := by
        by_contra hnot
        exact hs (hspared.mpr ⟨fun hp => by_contra fun hne => hnot ⟨hp, hne⟩, hops⟩)
      rw [if_pos hlost.1, if_neg (by omega), hsame, length_append, length_singleton]
      exact Nat.lt_succ_self _
    · have hlt := h.lost hops
      rw [hgrow, hgrow]
      split <;> split <;> omega

theorem keepsKind (ops : List (StackOp α)) : KeepsKind p ops := by
  induction ops with
  | nil => exact ⟨Nat.le_refl _, Nat.le_refl _, fun _ => ⟨rfl, rfl⟩, fun h => absurd trivial h⟩
  | cons op ops ih =>
    cases op with
    | pop n => exact ih.pop n
    | push a =>
      cases ha : p a with
      | true => exact ih.push ha
      | false => exact ih.pushOther ha

theorem stackOf_keeps {β : Type} (f : α → β) (ops : List (StackOp α)) :
    (stackOf (ops.filter (StackOp.keeps p))).map f = ((stackOf ops).filter p).map f ↔
      Spared p ops := by
  have h := keepsKind (p := p) ops
  constructor
  · intro heq
    by_contra hs
    have hlen := congrArg List.length heq
    rw [length_map, length_map] at hlen
    exact Nat.ne_of_lt (h.lost hs) hlen
  · intro hs
    rw [(h.same hs).1]

end Foundation
