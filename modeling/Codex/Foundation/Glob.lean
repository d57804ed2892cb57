import Mathlib.Data.List.Forall2
import Mathlib.Data.List.Infix

/-!
# Globs without classes

A glob is a list of tokens: a letter, any one letter, or any run of letters. Letters are
compared by a relation of the reader's choice.
-/

namespace Foundation

open List

inductive GlobToken (α : Type*) where
  | lit (a : α)
  | any
  | star
deriving DecidableEq

namespace GlobToken

variable {α : Type*} (same : α → α → Bool)

def isMatch : List (GlobToken α) → List α → Bool
  | [], s => s.isEmpty
  | lit _ :: _, [] => false
  | lit a :: p, b :: s => same a b && isMatch p s
  | any :: _, [] => false
  | any :: p, _ :: s => isMatch p s
  | star :: p, s => s.tails.any (isMatch p)

variable {same} {p q : List (GlobToken α)} {s : List α}

theorem isMatch_star :
    isMatch same (star :: p) s = true ↔ ∃ u v, s = u ++ v ∧ isMatch same p v = true := by
  simp only [isMatch, any_eq_true, mem_tails]
  constructor
  · rintro ⟨v, ⟨u, rfl⟩, hv⟩
    exact ⟨u, v, rfl, hv⟩
  · rintro ⟨u, v, rfl, hv⟩
    exact ⟨v, suffix_append u v, hv⟩

theorem isMatch_append : isMatch same (p ++ q) s = true ↔
    ∃ u v, s = u ++ v ∧ isMatch same p u = true ∧ isMatch same q v = true := by
  induction p generalizing s with
  | nil =>
    constructor
    · intro h
      exact ⟨[], s, rfl, rfl, h⟩
    · rintro ⟨u, v, rfl, hu, hv⟩
      obtain rfl : u = [] := by simpa [isMatch] using hu
      exact hv
  | cons t p ih =>
    cases t with
    | lit a =>
      cases s with
      | nil => simp [isMatch]
      | cons b s =>
        simp only [cons_append, isMatch, Bool.and_eq_true, ih]
        constructor
        · rintro ⟨hab, u, v, rfl, hu, hv⟩
          exact ⟨b :: u, v, rfl, by simp [isMatch, hab, hu], hv⟩
        · rintro ⟨u, v, huv, hu, hv⟩
          cases u with
          | nil => simp [isMatch] at hu
          | cons c u =>
            rw [cons_append, List.cons.injEq] at huv
            obtain ⟨rfl, rfl⟩ := huv
            simp only [isMatch, Bool.and_eq_true] at hu
            exact ⟨hu.1, u, v, rfl, hu.2, hv⟩
    | any =>
      cases s with
      | nil => simp [isMatch]
      | cons b s =>
        simp only [cons_append, isMatch, ih]
        constructor
        · rintro ⟨u, v, rfl, hu, hv⟩
          exact ⟨b :: u, v, rfl, hu, hv⟩
        · rintro ⟨u, v, huv, hu, hv⟩
          cases u with
          | nil => simp [isMatch] at hu
          | cons c u =>
            rw [cons_append, List.cons.injEq] at huv
            obtain ⟨rfl, rfl⟩ := huv
            exact ⟨u, v, rfl, hu, hv⟩
    | star =>
      rw [cons_append, isMatch_star]
      constructor
      · rintro ⟨u, w, rfl, hw⟩
        obtain ⟨v, z, rfl, hv, hz⟩ := ih.mp hw
        refine ⟨u ++ v, z, by simp, ?_, hz⟩
        exact isMatch_star.mpr ⟨u, v, rfl, hv⟩
      · rintro ⟨u, v, rfl, hu, hv⟩
        obtain ⟨u₁, u₂, rfl, hu₂⟩ := isMatch_star.mp hu
        exact ⟨u₁, u₂ ++ v, by simp, ih.mpr ⟨u₂, v, rfl, hu₂, hv⟩⟩

theorem isMatch_lits {l : List α} :
    isMatch same (l.map lit) s = true ↔ List.Forall₂ (fun a b => same a b = true) l s := by
  induction l generalizing s with
  | nil => cases s <;> simp [isMatch]
  | cons a l ih => cases s <;> simp [isMatch, ih]

theorem isMatch_any_star : isMatch same (any :: star :: p) s = true ↔
    ∃ u v, u ≠ [] ∧ s = u ++ v ∧ isMatch same p v = true := by
  cases s with
  | nil => simp [isMatch]
  | cons b s =>
    rw [isMatch, isMatch_star]
    constructor
    · rintro ⟨u, v, rfl, hv⟩
      exact ⟨b :: u, v, cons_ne_nil b u, rfl, hv⟩
    · rintro ⟨u, v, hne, huv, hv⟩
      cases u with
      | nil => exact absurd rfl hne
      | cons c u =>
        rw [cons_append, List.cons.injEq] at huv
        exact ⟨u, v, huv.2, hv⟩

end GlobToken

end Foundation
