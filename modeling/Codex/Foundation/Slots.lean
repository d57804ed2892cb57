import Mathlib.Data.List.Basic

/-!
# Lists of slots

A list whose slots are set one at a time: what a count over it becomes, and what is left in
it when the first of its items is taken out. The first item of a kind can also be removed
or changed in place, which the items of other kinds do not notice.
-/

namespace Foundation

open List

variable {α β : Type} {l : List α} {i : ℕ} {x : α}

variable {y : α} {f : α → Option β}

theorem getElem?_slot (hslot : l[i]? = some x) {z : α} {j : ℕ} :
    (l.set i y)[j]? = some z ↔ j = i ∧ z = y ∨ j ≠ i ∧ l[j]? = some z := by
  obtain ⟨hlt, -⟩ := List.getElem?_eq_some_iff.mp hslot
  by_cases hj : i = j
  · subst hj
    simp [hlt, eq_comm]
  · simp [hj, Ne.symm hj]

theorem getElem?_snoc {j : ℕ} :
    (l ++ [x])[j]? = some y ↔ l[j]? = some y ∨ j = l.length ∧ y = x := by
  rw [List.getElem?_append]
  split
  · next hlt =>
    have hne : j ≠ l.length := Nat.ne_of_lt hlt
    simp [hne]
  · next hge =>
    have hnone : l[j]? = none := List.getElem?_eq_none (Nat.le_of_not_lt hge)
    rw [hnone, List.getElem?_singleton]
    by_cases hj : j = l.length
    · simp [hj, eq_comm]
    · have hpos : j - l.length ≠ 0 := by omega
      simp [hj, hpos]

theorem modify_slot (hslot : l[i]? = some x) (f : α → α) : l.modify i f = l.set i (f x) := by
  rw [modify_eq_set_getElem?, hslot]
  rfl

theorem map_modify_same {g : α → β} {f : α → α} (hf : ∀ a ∈ l, g (f a) = g a) (i : ℕ) :
    (l.modify i f).map g = l.map g := by
  apply ext_getElem?
  intro j
  rw [List.getElem?_map, List.getElem?_map, List.getElem?_modify]
  cases hj : l[j]? with
  | none => simp
  | some a =>
    have hsame := hf a (mem_of_getElem? hj)
    by_cases hij : i = j <;> simp [hij, hsame]

theorem countP_slot (p : α → Bool) (hslot : l[i]? = some x) (y : α) :
    (l.set i y).countP p + (p x).toNat = l.countP p + (p y).toNat := by
  obtain ⟨hlt, hget⟩ := List.getElem?_eq_some_iff.mp hslot
  have hle := boole_getElem_le_countP (p := p) hlt
  rw [countP_set hlt, hget]
  rw [hget] at hle
  cases hx : p x <;> cases hy : p y <;>
    simp only [hx, if_true, Bool.false_eq_true, if_false, Bool.toNat_true, Bool.toNat_false]
      at hle ⊢ <;>
    omega

def FirstItem (f : α → Option β) (l : List α) (i : ℕ) : Prop :=
  ∀ j x, j < i → l[j]? = some x → f x = none

theorem filterMap_take_of_first (hfirst : FirstItem f l i) : (l.take i).filterMap f = [] := by
  apply filterMap_eq_nil_iff.mpr
  intro y hy
  obtain ⟨j, hj, rfl⟩ := mem_iff_getElem.mp hy
  rw [length_take] at hj
  apply hfirst j _ (by omega)
  rw [getElem_take]
  exact List.getElem?_eq_getElem (by omega)

theorem filterMap_slot (hslot : l[i]? = some x) (y : α) : (l.set i y).filterMap f =
      (l.take i).filterMap f ++ ((f y).toList ++ (l.drop (i + 1)).filterMap f) := by
  obtain ⟨hlt, -⟩ := List.getElem?_eq_some_iff.mp hslot
  rw [set_eq_take_append_cons_drop, if_pos hlt, filterMap_append, filterMap_cons]
  cases f y <;> rfl

theorem filterMap_slot_same (hslot : l[i]? = some x) (h : f y = f x) :
    (l.set i y).filterMap f = l.filterMap f := by
  have hself : l.set i x = l := by
    obtain ⟨hlt, hget⟩ := List.getElem?_eq_some_iff.mp hslot
    rw [← hget]
    exact set_getElem_self hlt
  rw [filterMap_slot hslot, h, ← filterMap_slot hslot x, hself]

theorem filterMap_first (hfirst : FirstItem f l i) (hslot : l[i]? = some x) {b : β}
    (hx : f x = some b) (hy : f y = none) : l.filterMap f = b :: (l.set i y).filterMap f := by
  rw [← filterMap_slot_same hslot rfl, filterMap_slot hslot, filterMap_slot hslot,
    filterMap_take_of_first hfirst, hx, hy]
  rfl

variable {p : α → Bool}

variable (h : l.findIdx? p = some i)
include h

theorem split_of_findIdx : ∃ before x after,
    l = before ++ x :: after ∧ before.length = i ∧ p x = true ∧ ∀ y ∈ before, p y = false := by
  obtain ⟨hlt, hx, hbefore⟩ := List.findIdx?_eq_some_iff_getElem.mp h
  refine ⟨l.take i, l.get ⟨i, hlt⟩, l.drop (i + 1), ?_, ?_, hx, fun y hy => ?_⟩
  · rw [get_eq_getElem, ← drop_eq_getElem_cons hlt, take_append_drop]
  · rw [length_take]
    omega
  · obtain ⟨j, hj, rfl⟩ := mem_take_iff_getElem.mp hy
    simpa using hbefore j (by omega)

theorem filter_eraseIdx_first : ((l.eraseIdx i).filter fun x => !p x) = l.filter fun x => !p x := by
  obtain ⟨before, x, after, rfl, rfl, hx, -⟩ := split_of_findIdx h
  simp [eraseIdx_append_of_length_le, hx]

theorem countP_eraseIdx_first : (l.eraseIdx i).countP p + 1 = l.countP p := by
  obtain ⟨before, x, after, rfl, rfl, hx, -⟩ := split_of_findIdx h
  simp [eraseIdx_append_of_length_le, hx]
  omega

theorem modify_first (f : α → α) : ∃ before x after,
    l = before ++ x :: after ∧ l.modify i f = before ++ f x :: after ∧ p x = true := by
  obtain ⟨before, x, after, rfl, rfl, hx, -⟩ := split_of_findIdx h
  refine ⟨before, x, after, rfl, ?_, hx⟩
  clear h
  induction before with
  | nil => rfl
  | cons y before ih => simp [ih]

theorem filter_modify_first {f : α → α} (hf : ∀ x, p x = true → p (f x) = true) :
    ((l.modify i f).filter fun x => !p x) = l.filter fun x => !p x := by
  obtain ⟨before, x, after, rfl, hmodify, hx⟩ := modify_first h f
  rw [hmodify]
  simp [hx, hf x hx]

end Foundation
