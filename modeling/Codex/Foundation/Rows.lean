import Mathlib.Data.List.Nodup

/-!
# Rows under guarded updates

The rows of a table have a key. An update sets those rows that pass its guard and says if
there were any; the rows keep their keys, so looking one up afterwards is looking it up
before and setting it.
-/

namespace Foundation

open List Function

variable {α κ : Type} [DecidableEq κ] (key : α → κ)

def rowAt (k : κ) (rows : List α) : Option α := rows.find? fun row => key row = k

/-- The rows that pass the guard are set; whether there were any. -/
def updateRows (guard : α → Bool) (set : α → α) (rows : List α) : List α × Bool :=
  (rows.map fun row => if guard row then set row else row, rows.any guard)

/-- Sets the row with one key, if it passes the guard. -/
def updateRowAt (k : κ) (guard : α → Bool) (set : α → α) (rows : List α) : List α × Bool :=
  updateRows (fun row => decide (key row = k) && guard row) set rows

variable {key} {k k' : κ} {rows : List α} {row : α} {guard : α → Bool} {set : α → α}

theorem rowAt_key (h : rowAt key k rows = some row) : key row = k := by
  simpa using List.find?_some h

theorem rowAt_mem (h : rowAt key k rows = some row) : row ∈ rows := mem_of_find?_eq_some h

theorem rowAt_of_mem (hnodup : (rows.map key).Nodup) (h : row ∈ rows) :
    rowAt key (key row) rows = some row := by
  induction rows with
  | nil => cases h
  | cons first rows ih =>
    rw [map_cons, nodup_cons] at hnodup
    unfold rowAt
    rw [List.find?_cons]
    rcases mem_cons.mp h with rfl | h
    · simp
    · have hne : key first ≠ key row := fun he => hnodup.1 (he ▸ mem_map_of_mem h)
      simp only [hne, decide_false]
      exact ih hnodup.2 h

theorem updateRows_fst : (updateRows guard set rows).1 =
    rows.map fun row => if guard row then set row else row := rfl

theorem keys_updateRowAt (hkey : ∀ row, key (set row) = key row) :
    (updateRowAt key k guard set rows).1.map key = rows.map key := by
  unfold updateRowAt
  rw [updateRows_fst, map_map]
  apply map_congr_left
  intro row _
  simp only [comp_apply]
  split
  · exact hkey row
  · rfl

theorem rowAt_updateRowAt (hkey : ∀ row, key (set row) = key row) :
    rowAt key k' (updateRowAt key k guard set rows).1 =
      if k' = k then (rowAt key k rows).map fun row => if guard row then set row else row
      else rowAt key k' rows := by
  have hsame : ∀ row : α,
      key (if (decide (key row = k) && guard row) then set row else row) = key row := by
    intro row
    split
    · exact hkey row
    · rfl
  unfold updateRowAt rowAt
  rw [updateRows_fst, List.find?_map]
  simp only [comp_def, hsame]
  split
  · next h =>
    subst h
    cases hfind : rows.find? fun row => key row = k' with
    | none => rfl
    | some row =>
      have hrow : key row = k' := by simpa using List.find?_some hfind
      simp [hrow]
  · next h =>
    cases hfind : rows.find? fun row => key row = k' with
    | none => rfl
    | some row =>
      have hrow : key row = k' := by simpa using List.find?_some hfind
      simp [hrow, h]

theorem updateRowAt_affects (hnodup : (rows.map key).Nodup) :
    (updateRowAt key k guard set rows).2 = true ↔
      ∃ row, rowAt key k rows = some row ∧ guard row = true := by
  unfold updateRowAt updateRows
  simp only [any_eq_true, Bool.and_eq_true, decide_eq_true_eq]
  constructor
  · rintro ⟨row, hmem, rfl, hguard⟩
    exact ⟨row, rowAt_of_mem hnodup hmem, hguard⟩
  · rintro ⟨row, hrow, hguard⟩
    exact ⟨row, rowAt_mem hrow, rowAt_key hrow, hguard⟩

theorem updateRowAt_of_not (hnodup : (rows.map key).Nodup) (hrow : rowAt key k rows = some row)
    (hguard : guard row = false) : (updateRowAt key k guard set rows).1 = rows := by
  conv_rhs => rw [← map_id rows]
  apply map_congr_left
  intro other hother
  by_cases hk : key other = k
  · have hthis := rowAt_of_mem hnodup hother
    rw [hk, hrow] at hthis
    cases hthis
    simp [hguard]
  · simp [hk]

theorem updateRowAt_idle (h : (updateRowAt key k guard set rows).2 = false) :
    (updateRowAt key k guard set rows).1 = rows := by
  conv_rhs => rw [← map_id rows]
  apply map_congr_left
  intro row hrow
  have hguard := any_eq_false.mp h row hrow
  simp only [hguard, Bool.false_eq_true, if_false, id_eq]

theorem countP_except (p : α → Bool) (hnodup : (rows.map key).Nodup)
    (hrow : rowAt key k rows = some row) :
    rows.countP (fun row => p row && decide (key row ≠ k)) + (p row).toNat = rows.countP p := by
  induction rows with
  | nil => cases hrow
  | cons first rows ih =>
    rw [map_cons, nodup_cons] at hnodup
    unfold rowAt at hrow
    rw [List.find?_cons] at hrow
    by_cases hfirst : key first = k
    · simp only [hfirst, decide_true, Option.some.injEq] at hrow
      subst hrow
      have hrest : rows.countP (fun row => p row && decide (key row ≠ k)) = rows.countP p := by
        apply countP_congr
        intro other hother
        have hne : key other ≠ k := fun he =>
          hnodup.1 (hfirst ▸ he ▸ mem_map_of_mem hother)
        simp [hne]
      simp only [countP_cons, hfirst, hrest]
      cases p first <;> simp
    · simp only [hfirst, decide_false] at hrow
      have hrest := ih hnodup.2 hrow
      simp only [countP_cons, ne_eq, hfirst, not_false_eq_true, decide_true, Bool.and_true]
      simp only [ne_eq] at hrest
      omega

theorem countP_except_none (p : α → Bool) (hrow : rowAt key k rows = none) :
    rows.countP (fun row => p row && decide (key row ≠ k)) = rows.countP p := by
  apply countP_congr
  intro row hmem
  have hne : key row ≠ k := by
    simpa using List.find?_eq_none.mp hrow row hmem
  simp [hne]

theorem countP_le_updateRowAt {p : α → Bool} (h : ∀ row, p (set row) = true) :
    rows.countP p ≤ (updateRowAt key k guard set rows).1.countP p := by
  unfold updateRowAt
  rw [updateRows_fst, countP_map]
  apply countP_mono_left
  intro row _ hp
  simp only [comp_apply]
  split
  · exact h row
  · exact hp

theorem countP_updateRowAt (p : α → Bool) (hnodup : (rows.map key).Nodup)
    (hrow : rowAt key k rows = some row) (hguard : guard row = true) :
    (updateRowAt key k guard set rows).1.countP p + (p row).toNat =
      rows.countP p + (p (set row)).toNat := by
  unfold updateRowAt
  rw [updateRows_fst]
  induction rows with
  | nil => cases hrow
  | cons first rows ih =>
    rw [map_cons, nodup_cons] at hnodup
    unfold rowAt at hrow
    rw [List.find?_cons] at hrow
    by_cases hfirst : key first = k
    · simp only [hfirst, decide_true, Option.some.injEq] at hrow
      subst hrow
      have hrest : rows.map (fun row => if (decide (key row = k) && guard row) then set row
          else row) = rows := by
        conv_rhs => rw [← map_id rows]
        apply map_congr_left
        intro other hother
        have hne : key other ≠ k := fun he =>
          hnodup.1 (hfirst ▸ he ▸ mem_map_of_mem hother)
        simp [hne]
      simp only [map_cons, hfirst, decide_true, hguard, Bool.and_self, if_true, hrest, countP_cons]
      cases p first <;> cases p (set first) <;> simp
    · simp only [hfirst, decide_false] at hrow
      have hrest := ih hnodup.2 hrow
      simp only [map_cons, hfirst, decide_false, Bool.false_and, Bool.false_eq_true, if_false,
        countP_cons]
      omega

end Foundation
