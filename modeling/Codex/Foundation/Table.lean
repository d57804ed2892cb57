import Mathlib.Data.List.AList

/-!
# Tables

A hash map is a list of entries with distinct keys. Nothing may depend on their order:
code that walks over a map takes any permutation of its keys.
-/

namespace Foundation

open List

abbrev Table (κ ν : Type) : Type := AList fun _ : κ => ν

variable {κ ν : Type} [DecidableEq κ]

theorem lookup_insert_ite (k k' : κ) (v : ν) (t : Table κ ν) :
    (t.insert k v).lookup k' = if k' = k then some v else t.lookup k' := by
  by_cases h : k' = k
  · subst h
    simp
  · simp [h]

theorem lookup_erase_ite (k k' : κ) (t : Table κ ν) :
    (t.erase k).lookup k' = if k' = k then none else t.lookup k' := by
  by_cases h : k' = k
  · subst h
    simp
  · simp [h]

def mapValues (f : κ → ν → ν) (t : Table κ ν) : Table κ ν where
  entries := t.entries.map fun entry => ⟨entry.1, f entry.1 entry.2⟩
  nodupKeys := by
    have hkeys : (t.entries.map fun entry => (⟨entry.1, f entry.1 entry.2⟩ :
        Sigma fun _ : κ => ν)).keys = t.entries.keys := by
      unfold List.keys
      rw [map_map]
      rfl
    unfold List.NodupKeys
    rw [hkeys]
    exact t.nodupKeys

theorem lookup_mapValues (f : κ → ν → ν) (k : κ) (t : Table κ ν) :
    (mapValues f t).lookup k = (t.lookup k).map (f k) := by
  obtain ⟨entries, hnodup⟩ := t
  unfold mapValues AList.lookup
  dsimp only
  clear hnodup
  induction entries with
  | nil => rfl
  | cons entry entries ih =>
    obtain ⟨k', v⟩ := entry
    rw [map_cons]
    by_cases h : k = k'
    · subst h
      rw [dlookup_cons_eq, dlookup_cons_eq]
      rfl
    · rw [dlookup_cons_ne _ _ h, dlookup_cons_ne _ _ h]
      exact ih

/-- `retain`, by a function that may change the values it keeps. -/
def retainValues (f : κ → ν → Option ν) (t : Table κ ν) : Table κ ν where
  entries := t.entries.filterMap fun entry => (f entry.1 entry.2).map (Sigma.mk entry.1)
  nodupKeys := by
    refine List.Nodup.sublist ?_ t.nodupKeys
    unfold List.keys
    generalize t.entries = entries
    induction entries with
    | nil => exact .slnil
    | cons entry entries ih =>
      rw [filterMap_cons, map_cons]
      cases f entry.1 entry.2 with
      | none => exact ih.cons _
      | some v => exact ih.cons_cons _

theorem lookup_retainValues (f : κ → ν → Option ν) (k : κ) (t : Table κ ν) :
    (retainValues f t).lookup k = (t.lookup k).bind (f k) := by
  obtain ⟨entries, hnodup⟩ := t
  unfold retainValues AList.lookup
  dsimp only
  induction entries with
  | nil => rfl
  | cons entry entries ih =>
    obtain ⟨k', v⟩ := entry
    obtain ⟨hnot, hrest⟩ := nodupKeys_cons.mp hnodup
    rw [filterMap_cons]
    by_cases h : k = k'
    · subst h
      rw [dlookup_cons_eq, Option.bind_some]
      cases hf : f k v with
      | none =>
        -- the key is gone, since it was there once
        rw [Option.map_none, ih hrest, dlookup_eq_none.mpr hnot]
        rfl
      | some w => rw [Option.map_some, dlookup_cons_eq]
    · rw [dlookup_cons_ne _ _ h]
      cases hf : f k' v with
      | none => exact ih hrest
      | some w =>
        rw [Option.map_some]
        rw [dlookup_cons_ne _ _ h, ih hrest]

def sumOver (f : ν → ℕ) (l : List (Sigma fun _ : κ => ν)) : ℕ :=
  l.foldr (fun entry n => f entry.2 + n) 0

def total (f : ν → ℕ) (t : Table κ ν) : ℕ := sumOver f t.entries

theorem sum_kerase (f : ν → ℕ) (k : κ) (l : List (Sigma fun _ : κ => ν)) :
    sumOver f (l.kerase k) + ((l.dlookup k).map f).getD 0 = sumOver f l := by
  unfold sumOver
  induction l with
  | nil => rfl
  | cons entry l ih =>
    obtain ⟨k', v⟩ := entry
    by_cases h : k = k'
    · subst h
      simp [Nat.add_comm]
    · rw [kerase_cons_ne h, dlookup_cons_ne _ _ h, foldr_cons, foldr_cons, Nat.add_assoc, ih]

theorem total_erase (f : ν → ℕ) (k : κ) (t : Table κ ν) :
    total f (t.erase k) + ((t.lookup k).map f).getD 0 = total f t :=
  sum_kerase f k t.entries

theorem total_insert (f : ν → ℕ) (k : κ) (v : ν) (t : Table κ ν) :
    total f (t.insert k v) + ((t.lookup k).map f).getD 0 = total f t + f v := by
  have herase := total_erase f k t
  have hinsert : total f (t.insert k v) = f v + total f (t.erase k) := by
    rfl
  omega

end Foundation
