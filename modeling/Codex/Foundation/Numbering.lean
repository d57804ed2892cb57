import Mathlib.Data.List.ReduceOption
import Mathlib.Data.List.Nodup
import Mathlib.Logic.Relation

/-!
# Numbers in a log of blocks

Entries are added to the last block with the next number, or to any block without one.
Blocks are cut from the end, and then the next number follows the count of all entries
left, numbered or not. No block holds a number beyond the entries up to it (`covered`), so
the count can take the place of the greatest number.
-/

namespace Foundation

open List

structure Numbering where
  blocks : List (List (Option ℕ))
  next : ℕ

namespace Numbering

def numbers (blocks : List (List (Option ℕ))) : List ℕ := blocks.flatten.reduceOption

def size (blocks : List (List (Option ℕ))) : ℕ := blocks.flatten.length

inductive Step : Numbering → Numbering → Prop
  | number (older : List (List (Option ℕ))) (last : List (Option ℕ)) (next : ℕ) :
    Step ⟨older ++ [last], next⟩ ⟨older ++ [last ++ [some next]], next + 1⟩
  | insert (older : List (List (Option ℕ))) (block : List (Option ℕ))
      (newer : List (List (Option ℕ))) (next : ℕ) :
    Step ⟨older ++ block :: newer, next⟩ ⟨older ++ (block ++ [none]) :: newer, next⟩
  | openBlock (blocks : List (List (Option ℕ))) (next : ℕ) :
    Step ⟨blocks, next⟩ ⟨blocks ++ [[]], next⟩
  | discard (blocks : List (List (Option ℕ))) (next : ℕ) :
    Step ⟨blocks ++ [[]], next⟩ ⟨blocks, next⟩
  | cut (kept lost : List (List (Option ℕ))) (next : ℕ) :
    Step ⟨kept ++ lost, next⟩ ⟨kept, size kept + 1⟩

abbrev Steps : Numbering → Numbering → Prop := Relation.ReflTransGen Step

structure Sound (n : Numbering) : Prop where
  nodup : (numbers n.blocks).Nodup
  below : ∀ k ∈ numbers n.blocks, k < n.next
  next_le : n.next ≤ size n.blocks + 1
  covered : ∀ kept lost, n.blocks = kept ++ lost → ∀ k ∈ numbers kept, k ≤ size kept

variable {blocks blocks' older newer kept lost : List (List (Option ℕ))}
  {block last : List (Option ℕ)} {next : ℕ} {n n' : Numbering}

@[simp] theorem numbers_append :
    numbers (blocks ++ blocks') = numbers blocks ++ numbers blocks' := by
  simp [numbers, reduceOption_append]

@[simp] theorem numbers_cons :
    numbers (block :: blocks) = block.reduceOption ++ numbers blocks := by
  simp [numbers, reduceOption_append]

@[simp] theorem numbers_nil : numbers [] = [] := rfl

@[simp] theorem size_append : size (blocks ++ blocks') = size blocks + size blocks' := by
  simp [size]

@[simp] theorem size_cons : size (block :: blocks) = block.length + size blocks := by
  simp [size]

@[simp] theorem size_nil : size [] = 0 := rfl

theorem split_cases {older kept lost : List (List (Option ℕ))}
    (h : older ++ block :: newer = kept ++ lost) :
    (∃ rest, older = kept ++ rest) ∨ ∃ rest, kept = older ++ block :: rest ∧ newer = rest ++ lost := by
  rcases append_eq_append_iff.mp h with ⟨rest, rfl, hrest⟩ | ⟨rest, rfl, -⟩
  · cases rest with
    | nil => exact .inl ⟨[], by simp⟩
    | cons head rest =>
      cases hrest
      exact .inr ⟨rest, rfl, rfl⟩
  · exact .inl ⟨rest, rfl⟩

theorem sound_new : Sound ⟨[], 1⟩ := by
  refine ⟨nodup_nil, fun k hk => ?_, Nat.le_refl 1, fun kept lost h k hk => ?_⟩
  · cases hk
  · obtain ⟨rfl, -⟩ := append_eq_nil_iff.mp h.symm
    cases hk

theorem Sound.number (h : Sound ⟨older ++ [last], next⟩) :
    Sound ⟨older ++ [last ++ [some next]], next + 1⟩ := by
  have hnumbers : numbers (older ++ [last ++ [some next]]) = numbers (older ++ [last]) ++ [next] := by
    simp [reduceOption_append, reduceOption_cons_of_some]
  refine ⟨?_, ?_, ?_, ?_⟩
  · rw [hnumbers, nodup_append]
    refine ⟨h.nodup, nodup_singleton next, fun k hk k' hk' => ?_⟩
    obtain rfl := mem_singleton.mp hk'
    exact Nat.ne_of_lt (h.below k hk)
  · intro k hk
    rw [hnumbers] at hk
    rcases mem_append.mp hk with hold | hnew
    · exact Nat.lt_succ_of_lt (h.below k hold)
    · obtain rfl := mem_singleton.mp hnew
      exact Nat.lt_succ_self k
  · have hle := h.next_le
    simp only [size_append, size_cons, size_nil, length_append, length_singleton] at hle ⊢
    omega
  · intro kept lost hsplit k hk
    rcases split_cases hsplit with ⟨rest, rfl⟩ | ⟨rest, rfl, hrest⟩
    · exact h.covered kept (rest ++ [last]) (by simp) k hk
    · obtain ⟨rfl, rfl⟩ := append_eq_nil_iff.mp hrest.symm
      rw [hnumbers] at hk
      have hle := h.next_le
      have hcovered := h.covered (older ++ [last]) [] (by simp) k
      simp only [size_append, size_cons, size_nil, length_append, length_singleton] at hle hcovered ⊢
      rcases mem_append.mp hk with hold | hnew
      · have := hcovered hold
        omega
      · obtain rfl := mem_singleton.mp hnew
        omega

theorem Sound.insert (h : Sound ⟨older ++ block :: newer, next⟩) :
    Sound ⟨older ++ (block ++ [none]) :: newer, next⟩ := by
  have hblock : (block ++ [none]).reduceOption = block.reduceOption := by
    simp [reduceOption_append]
  have hnumbers : ∀ newer, numbers (older ++ (block ++ [none]) :: newer) =
      numbers (older ++ block :: newer) := by
    intro newer
    rw [numbers_append, numbers_append, numbers_cons, numbers_cons, hblock]
  refine ⟨?_, ?_, ?_, ?_⟩
  · rw [hnumbers]
    exact h.nodup
  · rw [hnumbers]
    exact h.below
  · have hle := h.next_le
    simp only [size_append, size_cons, length_append, length_singleton] at hle ⊢
    omega
  · intro kept lost hsplit k hk
    rcases split_cases hsplit with ⟨rest, rfl⟩ | ⟨rest, rfl, rfl⟩
    · exact h.covered kept (rest ++ block :: newer) (by simp) k hk
    · rw [hnumbers] at hk
      have hcovered := h.covered (older ++ block :: rest) lost (by simp) k hk
      simp only [size_append, size_cons, length_append, length_singleton] at hcovered ⊢
      omega

theorem Sound.openBlock (h : Sound ⟨blocks, next⟩) : Sound ⟨blocks ++ [[]], next⟩ := by
  refine ⟨by simpa using h.nodup, by simpa using h.below, by simpa using h.next_le, ?_⟩
  intro kept lost hsplit k hk
  rcases split_cases hsplit with ⟨rest, rfl⟩ | ⟨rest, rfl, hrest⟩
  · exact h.covered kept rest rfl k hk
  · obtain ⟨rfl, rfl⟩ := append_eq_nil_iff.mp hrest.symm
    simpa using h.covered blocks [] (by simp) k (by simpa using hk)

theorem Sound.discard (h : Sound ⟨blocks ++ [[]], next⟩) : Sound ⟨blocks, next⟩ := by
  refine ⟨by simpa using h.nodup, by simpa using h.below, by simpa using h.next_le, ?_⟩
  rintro kept lost rfl k hk
  exact h.covered kept (lost ++ [[]]) (by simp) k hk

theorem Sound.cut (h : Sound ⟨kept ++ lost, next⟩) : Sound ⟨kept, size kept + 1⟩ := by
  refine ⟨?_, ?_, Nat.le_refl _, ?_⟩
  · have hnodup := h.nodup
    rw [numbers_append] at hnodup
    exact hnodup.of_append_left
  · intro k hk
    exact Nat.lt_succ_of_le (h.covered kept lost rfl k hk)
  · rintro older newer rfl k hk
    exact h.covered older (newer ++ lost) (by simp) k hk

theorem Sound.step (h : Sound n) (hstep : Step n n') : Sound n' := by
  cases hstep with
  | number => exact h.number
  | insert => exact h.insert
  | openBlock => exact h.openBlock
  | discard => exact h.discard
  | cut => exact h.cut

theorem Sound.steps (h : Sound n) (hsteps : Steps n n') : Sound n' := by
  induction hsteps with
  | refl => exact h
  | tail _ hstep ih => exact ih.step hstep

end Numbering

end Foundation
