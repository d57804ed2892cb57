import Codex.Foundation.Text

/-!
# Entries in key order

An ordered map is the list of its entries in the order of their keys. A key that is there
keeps its place when it is set again.
-/

namespace Foundation

open List

abbrev Entries (α : Type) := List (Text × α)

variable {α β : Type}

def getEntry (k : Text) : Entries α → Option α
  | [] => none
  | (k', v) :: l => if k' = k then some v else getEntry k l

def replaceEntry (k : Text) (v : α) : Entries α → Entries α
  | [] => []
  | (k', v') :: l => if k' = k then (k, v) :: l else (k', v') :: replaceEntry k v l

def insertEntry (k : Text) (v : α) : Entries α → Entries α
  | [] => [(k, v)]
  | (k', v') :: l => if k < k' then (k, v) :: (k', v') :: l else (k', v') :: insertEntry k v l

def setEntry (k : Text) (v : α) (l : Entries α) : Entries α :=
  if (getEntry k l).isSome then replaceEntry k v l else insertEntry k v l

def removeEntry (k : Text) (l : Entries α) : Entries α := l.filter fun e => e.1 ≠ k

def mapEntries (f : α → β) (l : Entries α) : Entries β := l.map fun e => (e.1, f e.2)

/-! ## Looking up -/

variable {k : Text} {v : α} {l : Entries α}

theorem getEntry_replace {w : α} (h : getEntry k l = some w) (k' : Text) :
    getEntry k' (replaceEntry k v l) = if k' = k then some v else getEntry k' l := by
  induction l with
  | nil => cases h
  | cons e l ih =>
    obtain ⟨k₁, v₁⟩ := e
    by_cases h₁ : k₁ = k
    · subst h₁
      by_cases h' : k₁ = k'
      · subst h'
        simp [replaceEntry, getEntry]
      · simp [replaceEntry, getEntry, h', Ne.symm h']
    · simp only [getEntry, if_neg h₁] at h
      simp only [replaceEntry, if_neg h₁, getEntry, ih h]
      by_cases h' : k₁ = k'
      · subst h'
        simp [h₁]
      · simp [h']

theorem getEntry_insert (h : getEntry k l = none) (k' : Text) :
    getEntry k' (insertEntry k v l) = if k' = k then some v else getEntry k' l := by
  induction l with
  | nil => simp [insertEntry, getEntry, eq_comm]
  | cons e l ih =>
    obtain ⟨k₁, v₁⟩ := e
    have h₁ : k₁ ≠ k := by
      rintro rfl
      simp [getEntry] at h
    simp only [getEntry, if_neg h₁] at h
    by_cases hlt : k < k₁
    · simp [insertEntry, hlt, getEntry, eq_comm]
    · simp only [insertEntry, if_neg hlt, getEntry, ih h]
      by_cases h' : k₁ = k'
      · subst h'
        simp [h₁]
      · simp [h']

theorem getEntry_set (k k' : Text) (v : α) (l : Entries α) :
    getEntry k' (setEntry k v l) = if k' = k then some v else getEntry k' l := by
  unfold setEntry
  cases h : getEntry k l with
  | none => exact getEntry_insert h k'
  | some w => exact getEntry_replace h k'

@[simp] theorem getEntry_set_self (k : Text) (v : α) (l : Entries α) :
    getEntry k (setEntry k v l) = some v := by
  rw [getEntry_set, if_pos rfl]

theorem getEntry_remove (k k' : Text) (l : Entries α) :
    getEntry k' (removeEntry k l) = if k' = k then none else getEntry k' l := by
  induction l with
  | nil => simp [removeEntry, getEntry]
  | cons e l ih =>
    obtain ⟨k₁, v₁⟩ := e
    unfold removeEntry at ih ⊢
    by_cases h₁ : k₁ = k
    · subst h₁
      rw [filter_cons_of_neg (by simp), ih]
      by_cases h' : k' = k₁
      · simp [h']
      · simp [h', getEntry, Ne.symm h']
    · rw [filter_cons_of_pos (by simpa using h₁)]
      simp only [getEntry, ih]
      by_cases h' : k₁ = k'
      · subst h'
        simp [h₁]
      · simp [h']

theorem mem_of_getEntry (h : getEntry k l = some v) : (k, v) ∈ l := by
  induction l with
  | nil => cases h
  | cons e l ih =>
    obtain ⟨k₁, v₁⟩ := e
    by_cases h₁ : k₁ = k
    · subst h₁
      simp only [getEntry, if_pos, Option.some.injEq] at h
      simp [h]
    · simp only [getEntry, if_neg h₁] at h
      exact mem_cons_of_mem _ (ih h)

theorem set_getEntry (h : getEntry k l = some v) : setEntry k v l = l := by
  rw [setEntry, h, Option.isSome_some, if_pos rfl]
  induction l with
  | nil => rfl
  | cons e l ih =>
    obtain ⟨k₁, v₁⟩ := e
    by_cases h₁ : k₁ = k
    · subst h₁
      simp only [getEntry, if_pos, Option.some.injEq] at h
      simp [replaceEntry, h]
    · simp only [getEntry, if_neg h₁] at h
      simp [replaceEntry, h₁, ih h]

theorem setEntry_set (k : Text) (v w : α) (l : Entries α) :
    setEntry k w (setEntry k v l) = setEntry k w l := by
  have hreplace : ∀ l : Entries α, replaceEntry k w (replaceEntry k v l) = replaceEntry k w l := by
    intro l
    induction l with
    | nil => rfl
    | cons e l ih =>
      obtain ⟨k₁, v₁⟩ := e
      by_cases h₁ : k₁ = k
      · simp [replaceEntry, h₁]
      · simp [replaceEntry, h₁, ih]
  have hinsert : ∀ l : Entries α, getEntry k l = none →
      replaceEntry k w (insertEntry k v l) = insertEntry k w l := by
    intro l
    induction l with
    | nil => simp [insertEntry, replaceEntry]
    | cons e l ih =>
      obtain ⟨k₁, v₁⟩ := e
      intro h
      have h₁ : k₁ ≠ k := fun h₁ => by simp [getEntry, h₁] at h
      simp only [getEntry, if_neg h₁] at h
      by_cases hlt : k < k₁
      · simp [insertEntry, replaceEntry, hlt]
      · simp [insertEntry, replaceEntry, hlt, h₁, ih h]
  have hset : (getEntry k (setEntry k v l)).isSome = true := by rw [getEntry_set_self]; rfl
  rw [setEntry, hset, if_pos rfl]
  unfold setEntry
  cases h : getEntry k l with
  | none => simpa using hinsert l h
  | some _ => simpa using hreplace l

theorem remove_absent (h : getEntry k l = none) : removeEntry k l = l := by
  refine filter_eq_self.mpr fun e he => decide_eq_true fun hk => ?_
  induction l with
  | nil => cases he
  | cons e' l ih =>
    obtain ⟨k₁, v₁⟩ := e'
    have h₁ : k₁ ≠ k := by
      rintro rfl
      simp [getEntry] at h
    simp only [getEntry, if_neg h₁] at h
    rcases mem_cons.mp he with rfl | hmem
    · exact h₁ hk
    · exact ih h hmem

theorem mem_setEntry {e : Text × α} (h : e ∈ setEntry k v l) : e = (k, v) ∨ e ∈ l := by
  have hreplace : e ∈ replaceEntry k v l → e = (k, v) ∨ e ∈ l := by
    clear h
    induction l with
    | nil => exact .inr
    | cons e' l ih =>
      obtain ⟨k₁, v₁⟩ := e'
      intro h
      simp only [replaceEntry] at h
      split at h
      · rcases mem_cons.mp h with rfl | hmem
        · exact .inl rfl
        · exact .inr (mem_cons_of_mem _ hmem)
      · rcases mem_cons.mp h with rfl | hmem
        · exact .inr mem_cons_self
        · exact (ih hmem).imp id (mem_cons_of_mem _)
  have hinsert : e ∈ insertEntry k v l → e = (k, v) ∨ e ∈ l := by
    clear h hreplace
    induction l with
    | nil => exact fun h => .inl (mem_singleton.mp h)
    | cons e' l ih =>
      obtain ⟨k₁, v₁⟩ := e'
      intro h
      simp only [insertEntry] at h
      split at h
      · exact mem_cons.mp h
      · rcases mem_cons.mp h with rfl | hmem
        · exact .inr mem_cons_self
        · exact (ih hmem).imp id (mem_cons_of_mem _)
  unfold setEntry at h
  split at h
  · exact hreplace h
  · exact hinsert h

theorem mem_setEntry_self (k : Text) (v : α) (l : Entries α) : (k, v) ∈ setEntry k v l :=
  mem_of_getEntry (getEntry_set_self k v l)

/-! ## Distinct keys -/

theorem keys_replace (k : Text) (v : α) (l : Entries α) :
    (replaceEntry k v l).map Prod.fst = l.map Prod.fst := by
  induction l with
  | nil => rfl
  | cons e l ih =>
    unfold replaceEntry
    split
    · next h => simp [h]
    · simp [ih]

theorem insertEntry_perm (k : Text) (v : α) (l : Entries α) :
    (insertEntry k v l).Perm ((k, v) :: l) := by
  induction l with
  | nil => exact .refl _
  | cons e l ih =>
    unfold insertEntry
    split
    · exact .refl _
    · exact (ih.cons _).trans (List.Perm.swap _ _ _)

theorem getEntry_eq_none : getEntry k l = none ↔ k ∉ l.map Prod.fst := by
  induction l with
  | nil => simp [getEntry]
  | cons e l ih =>
    obtain ⟨k₁, v₁⟩ := e
    by_cases h : k₁ = k
    · simp [getEntry, h]
    · simp [getEntry, h, ih, Ne.symm h]

theorem nodup_keys_set (h : (l.map Prod.fst).Nodup) : ((setEntry k v l).map Prod.fst).Nodup := by
  unfold setEntry
  cases hk : getEntry k l with
  | some w =>
    simp only [Option.isSome_some, if_true]
    rwa [keys_replace]
  | none =>
    simp only [Option.isSome_none, Bool.false_eq_true, if_false]
    rw [((insertEntry_perm k v l).map Prod.fst).nodup_iff, map_cons, nodup_cons]
    exact ⟨getEntry_eq_none.mp hk, h⟩

theorem getEntry_of_mem (h : (l.map Prod.fst).Nodup) {e : Text × α} (he : e ∈ l) :
    getEntry e.1 l = some e.2 := by
  induction l with
  | nil => cases he
  | cons e' l ih =>
    obtain ⟨k₁, v₁⟩ := e'
    rw [map_cons, nodup_cons] at h
    obtain rfl | he := mem_cons.mp he
    · simp [getEntry]
    · have hne : k₁ ≠ e.1 := by
        intro hk
        apply h.1
        rw [show (k₁, v₁).1 = e.1 from hk]
        exact mem_map_of_mem he
      simp only [getEntry, if_neg hne]
      exact ih h.2 he

theorem getEntry_updates (f : Text → β → Option α → α) {l : Entries β}
    (h : (l.map Prod.fst).Nodup) (k : Text) (start : Entries α) :
    getEntry k (l.foldl (fun t e => setEntry e.1 (f e.1 e.2 (getEntry e.1 t)) t) start) =
      ((getEntry k l).map fun v => f k v (getEntry k start)).or (getEntry k start) := by
  induction l generalizing start with
  | nil => rfl
  | cons e l ih =>
    obtain ⟨k₁, v₁⟩ := e
    rw [map_cons, nodup_cons] at h
    rw [foldl_cons, ih h.2]
    by_cases h₁ : k₁ = k
    · subst h₁
      have habsent : getEntry k₁ l = none := getEntry_eq_none.mpr h.1
      simp [habsent, getEntry]
    · simp only [getEntry, if_neg h₁, getEntry_set, if_neg (Ne.symm h₁)]

/-! ## Mapping -/

variable (f : α → β)

@[simp] theorem mapEntries_nil : mapEntries f [] = [] := rfl

@[simp] theorem mapEntries_cons (k : Text) (v : α) (l : Entries α) :
    mapEntries f ((k, v) :: l) = (k, f v) :: mapEntries f l := rfl

theorem getEntry_map (k : Text) (l : Entries α) :
    getEntry k (mapEntries f l) = (getEntry k l).map f := by
  induction l with
  | nil => rfl
  | cons e l ih =>
    obtain ⟨k₁, v₁⟩ := e
    simp only [mapEntries_cons, getEntry, ih]
    split <;> rfl

theorem mapEntries_set (k : Text) (v : α) (l : Entries α) :
    mapEntries f (setEntry k v l) = setEntry k (f v) (mapEntries f l) := by
  unfold setEntry
  rw [getEntry_map, Option.isSome_map]
  split
  · induction l with
    | nil => rfl
    | cons e l ih =>
      obtain ⟨k₁, v₁⟩ := e
      by_cases h₁ : k₁ = k
      · simp [replaceEntry, h₁]
      · next h =>
        simp only [getEntry, if_neg h₁] at h
        simp [replaceEntry, h₁, ih h]
  · next h =>
    clear h
    induction l with
    | nil => rfl
    | cons e l ih =>
      obtain ⟨k₁, v₁⟩ := e
      simp only [insertEntry, mapEntries_cons]
      split
      · rfl
      · rw [mapEntries_cons, ih]

theorem mapEntries_remove (k : Text) (l : Entries α) :
    mapEntries f (removeEntry k l) = removeEntry k (mapEntries f l) := by
  simp [mapEntries, removeEntry, filter_map, Function.comp_def]

end Foundation
