import Mathlib.Data.List.Basic

/-!
# Search in tiers

A list is searched for what is right in the first tier, then in the second, and so on.
The first hit of the first tier that has one is the answer.
-/

namespace Foundation

section
variable {κ α : Type*} {hit : κ → α → Bool} {tiers : List κ} {l : List α} {a : α}

def tieredSearch (hit : κ → α → Bool) (tiers : List κ) (l : List α) : Option α :=
  tiers.findSome? fun tier => l.find? (hit tier)

theorem tieredSearch_eq_none :
    tieredSearch hit tiers l = none ↔ ∀ tier ∈ tiers, ∀ a ∈ l, hit tier a = false := by
  unfold tieredSearch
  simp

theorem tieredSearch_eq_some : tieredSearch hit tiers l = some a ↔
    ∃ stricter tier laxer, tiers = stricter ++ tier :: laxer ∧ l.find? (hit tier) = some a ∧
      ∀ t ∈ stricter, ∀ b ∈ l, hit t b = false := by
  unfold tieredSearch
  rw [List.findSome?_eq_some_iff]
  simp

end

theorem find?_range'_eq_some {p : ℕ → Bool} {s n i : ℕ} : (List.range' s n).find? p = some i ↔
      s ≤ i ∧ i < s + n ∧ p i = true ∧ ∀ j, s ≤ j → j < i → p j = false := by
  induction n generalizing s with
  | zero =>
    simp
    omega
  | succ n ih =>
    rw [List.range'_succ, List.find?_cons]
    cases hs : p s with
    | true =>
      simp only [Option.some.injEq]
      constructor
      · rintro rfl
        exact ⟨Nat.le_refl s, by omega, hs, fun j hj hlt => by omega⟩
      · rintro ⟨hle, -, -, hfirst⟩
        by_contra hne
        rw [hfirst s (Nat.le_refl s) (by omega)] at hs
        cases hs
    | false =>
      rw [ih]
      constructor
      · rintro ⟨hle, hlt, hi, hfirst⟩
        refine ⟨by omega, by omega, hi, fun j hj hji => ?_⟩
        rcases Nat.eq_or_lt_of_le hj with rfl | hlt'
        · exact hs
        · exact hfirst j hlt' hji
      · rintro ⟨hle, hlt, hi, hfirst⟩
        have hne : s ≠ i := by
          rintro rfl
          rw [hs] at hi
          cases hi
        exact ⟨by omega, by omega, hi, fun j hj hji => hfirst j (by omega) hji⟩

end Foundation
