import Mathlib.Data.List.Nodup

/-!
# Two disjoint lists, the last writer wins

A member is put on one of two sides: it leaves the other side and goes to the end of
its own. No member is ever on both sides or twice on one. Putting a member changes
nothing exactly if it is the last of its side.
-/

namespace Foundation

open List

section
variable {α : Type} [DecidableEq α]

def moveToEnd (a : α) (l : List α) : List α := l.filter (· ≠ a) ++ [a]

theorem mem_moveToEnd {a b : α} {l : List α} : b ∈ moveToEnd a l ↔ b = a ∨ b ∈ l := by
  unfold moveToEnd
  by_cases h : b = a <;> simp [h]

theorem nodup_moveToEnd {l : List α} (h : l.Nodup) (a : α) : (moveToEnd a l).Nodup := by
  unfold moveToEnd
  rw [nodup_append]
  refine ⟨h.filter _, nodup_singleton a, ?_⟩
  intro b hb c hc
  rw [mem_singleton.mp hc]
  simpa using (mem_filter.mp hb).2

theorem getLast?_moveToEnd (a : α) (l : List α) : (moveToEnd a l).getLast? = some a :=
  List.getLast?_concat

theorem moveToEnd_eq_self {l : List α} (h : l.Nodup) {a : α} :
    moveToEnd a l = l ↔ l.getLast? = some a := by
  constructor
  · intro heq
    rw [← heq]
    exact getLast?_moveToEnd a l
  · intro hlast
    obtain ⟨init, rfl⟩ := List.getLast?_eq_some_iff.mp hlast
    have hnot : a ∉ init := by
      intro ha
      exact (nodup_append.mp h).2.2 a ha a (mem_singleton_self a) rfl
    have hkeep : init.filter (· ≠ a) = init := by
      refine filter_eq_self.mpr fun b hb => ?_
      have hne : b ≠ a := fun e => hnot (e ▸ hb)
      simpa using hne
    unfold moveToEnd
    rw [filter_append, hkeep]
    simp

end

@[ext] structure Sides (α : Type) where
  side : Bool → List α
  nodup : ∀ b, (side b).Nodup
  disjoint : ∀ b a, a ∈ side b → a ∉ side !b

namespace Sides

variable {α : Type}

def empty : Sides α := ⟨fun _ => [], fun _ => nodup_nil, fun _ _ h => absurd h not_mem_nil⟩

variable [DecidableEq α]

def put (s : Sides α) (b : Bool) (a : α) : Sides α where
  side c := if c = b then moveToEnd a (s.side c) else (s.side c).filter (· ≠ a)
  nodup c := by
    by_cases h : c = b
    · rw [if_pos h]
      exact nodup_moveToEnd (s.nodup c) a
    · rw [if_neg h]
      exact (s.nodup c).filter _
  disjoint c d hd := by
    cases b <;> cases c <;>
      simp only [if_true, if_false, Bool.not_true, Bool.not_false, reduceCtorEq, mem_moveToEnd,
        mem_filter, decide_eq_true_eq, not_or, not_and, not_not] at hd ⊢
    · rintro hin
      rcases hd with rfl | hd
      · rfl
      · exact absurd hin (s.disjoint false d hd)
    · exact ⟨hd.2, s.disjoint true d hd.1⟩
    · exact ⟨hd.2, s.disjoint false d hd.1⟩
    · rintro hin
      rcases hd with rfl | hd
      · rfl
      · exact absurd hin (s.disjoint true d hd)

variable {s : Sides α} {b : Bool} {a a' : α}

theorem side_put_self : (s.put b a).side b = moveToEnd a (s.side b) := if_pos rfl

theorem side_put_other : (s.put b a).side (!b) = (s.side !b).filter (· ≠ a) :=
  if_neg (by cases b <;> decide)

theorem mem_side_put {c : Bool} {x : α} :
    x ∈ (s.put b a).side c ↔ if x = a then c = b else x ∈ s.side c := by
  by_cases hc : c = b
  · subst hc
    rw [side_put_self, mem_moveToEnd]
    split <;> simp_all
  · rw [Bool.eq_not_of_ne hc, side_put_other, mem_filter]
    split <;> simp_all

theorem put_eq_self : s.put b a = s ↔ (s.side b).getLast? = some a := by
  constructor
  · intro h
    rw [← h, side_put_self]
    exact getLast?_moveToEnd a (s.side b)
  · intro hlast
    have hown : (s.put b a).side b = s.side b := by
      rw [side_put_self]
      exact (moveToEnd_eq_self (s.nodup b)).mpr hlast
    have hin : a ∈ s.side b := mem_of_getLast? hlast
    have hother : (s.put b a).side (!b) = s.side !b := by
      rw [side_put_other]
      refine filter_eq_self.mpr fun d hd => ?_
      have hne : d ≠ a := fun e => s.disjoint b a hin (e ▸ hd)
      simpa using hne
    ext c : 2
    by_cases hc : c = b
    · rw [hc, hown]
    · rw [Bool.eq_not_of_ne hc, hother]

theorem put_injective (h : s.put b a = s.put b a') : a = a' := by
  have hlast := getLast?_moveToEnd a (s.side b)
  rw [← side_put_self, h, side_put_self, getLast?_moveToEnd] at hlast
  exact (Option.some.inj hlast).symm

end Sides

end Foundation
