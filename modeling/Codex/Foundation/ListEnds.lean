import Mathlib.Data.List.DropRight

/-!
# The ends of a list

Where the last elements of a kind begin, and what trimming does to a mapped list, to
elements that are never trimmed, and across one of them. A list that is too long is cut to
its first and its last elements.
-/

namespace Foundation

open List

section
variable {α β : Type*}

theorem exists_last_of_kind (p : α → Bool) (l : List α) {k : ℕ} (hpos : 0 < k)
    (hk : k ≤ (l.filter p).length) :
    ∃ x y z, l = x ++ y :: z ∧ p y = true ∧ ((y :: z).filter p).length = k := by
  induction l with
  | nil =>
    simp at hk
    omega
  | cons a l ih =>
    by_cases hle : k ≤ (l.filter p).length
    · obtain ⟨x, y, z, rfl, hy, hcount⟩ := ih hle
      exact ⟨a :: x, y, z, rfl, hy, hcount⟩
    · by_cases ha : p a = true
      · refine ⟨[], a, l, rfl, ha, ?_⟩
        rw [filter_cons_of_pos ha, length_cons] at hk ⊢
        omega
      · rw [filter_cons_of_neg ha] at hk
        exact absurd hk hle

theorem rdropWhile_map (f : α → β) (q : β → Bool) (l : List α) :
    (l.map f).rdropWhile q = (l.rdropWhile (q ∘ f)).map f := by
  unfold List.rdropWhile
  rw [← map_reverse, dropWhile_map, map_reverse]

theorem filter_rdropWhile {p q : α → Bool} (hpq : ∀ a, p a = true → q a = false) (l : List α) :
    (l.rdropWhile q).filter p = l.filter p := by
  induction l using List.reverseRecOn with
  | nil => rfl
  | append_singleton l a ih =>
    by_cases hq : q a = true
    · have hnot : p a = false := by
        refine Bool.eq_false_iff.mpr fun hp => ?_
        rw [hpq a hp] at hq
        cases hq
      rw [rdropWhile_concat_pos _ _ _ hq, ih, filter_append]
      simp [hnot]
    · rw [rdropWhile_concat_neg _ _ _ hq]

theorem rdropWhile_append_of_stays {q : α → Bool} {a : α} (ha : q a = false) (l r : List α) :
    (l ++ a :: r).rdropWhile q = l ++ (a :: r).rdropWhile q := by
  have hstop : (a :: r).rdropWhile q ≠ [] := by
    intro hnil
    have hall := rdropWhile_eq_nil_iff.mp hnil a mem_cons_self
    rw [ha] at hall
    cases hall
  unfold List.rdropWhile at hstop ⊢
  rw [reverse_append, dropWhile_append, if_neg (by simpa using hstop)]
  simp

end

variable {α : Type} {l m : List α} {n : ℕ}

theorem length_rtake (l : List α) (n : ℕ) : (l.rtake n).length = min n l.length := by
  rw [List.rtake, length_drop]
  omega

theorem rtake_of_length_le (h : l.length ≤ n) : l.rtake n = l := by
  rw [List.rtake, Nat.sub_eq_zero_of_le h, drop_zero]

theorem rtake_append_right (l : List α) (h : n ≤ m.length) : (l ++ m).rtake n = m.rtake n := by
  have hdrop : (l ++ m).length - n = l.length + (m.length - n) := by
    rw [length_append]
    omega
  rw [List.rtake, List.rtake, hdrop, drop_append, drop_eq_nil_of_le (by omega),
    nil_append, Nat.add_sub_cancel_left]

theorem rtake_rtake_append (l m : List α) (n : ℕ) : (l.rtake n ++ m).rtake n = (l ++ m).rtake n := by
  by_cases h : l.length ≤ n
  · rw [rtake_of_length_le h]
  · have hsplit : l ++ m = l.take (l.length - n) ++ (l.rtake n ++ m) := by
      rw [List.rtake, ← List.append_assoc, take_append_drop]
    have hlen : n ≤ (l.rtake n ++ m).length := by
      rw [length_append, length_rtake]
      omega
    rw [hsplit, rtake_append_right _ hlen]

def keepEnds (first last : ℕ) (l : List α) : List α :=
  if l.length ≤ first + last then l else l.take first ++ l.rtake last

theorem take_append_rtake_drop (first last : ℕ) (l : List α) :
    l.take first ++ (l.drop first).rtake last = keepEnds first last l := by
  unfold keepEnds
  split
  · next h =>
    rw [rtake_of_length_le (by rw [length_drop]; omega), take_append_drop]
  · next h =>
    have hend := rtake_append_right (n := last) (l.take first)
      (show last ≤ (l.drop first).length by rw [length_drop]; omega)
    rw [take_append_drop] at hend
    rw [hend]

end Foundation
