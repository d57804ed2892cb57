import Codex.Foundation.Table

/-!
# Putting numbered items back in order

Items numbered from one arrive in any order and more than once. Those that are too early
wait; an item is released when all earlier ones were. What is released is the sequence up
to the first item that has not arrived (`Follows.accept`, `Follows.whole`).
-/

namespace Foundation

open List

structure Sequencer (α : Type) where
  last : ℕ
  pending : Table ℕ α

variable {α : Type}

namespace Sequencer

def new : Sequencer α := ⟨0, ∅⟩

def release : ℕ → Sequencer α → Sequencer α × List α
  | 0, s => (s, [])
  | n + 1, s =>
    match s.pending.lookup (s.last + 1) with
    | none => (s, [])
    | some a =>
      let (t, ready) := release n ⟨s.last + 1, s.pending.erase (s.last + 1)⟩
      (t, a :: ready)

def wait (s : Sequencer α) (seq : ℕ) (a : α) : Sequencer α :=
  { s with
    pending := if (s.pending.lookup seq).isSome then s.pending else s.pending.insert seq a }

/-- Each waiting item is released at most once, so there are enough steps for all. -/
def accept (s : Sequencer α) (seq : ℕ) (a : α) : Sequencer α × List α :=
  if seq ≤ s.last then (s, [])
  else release (s.wait seq a).pending.entries.length (s.wait seq a)

def Knows (s : Sequencer α) (seq : ℕ) : Prop := seq ≤ s.last ∨ (s.pending.lookup seq).isSome

def Drained (s : Sequencer α) : Prop := s.pending.lookup (s.last + 1) = none

structure Follows (items : List α) (s : Sequencer α) : Prop where
  bound : s.last ≤ items.length
  waiting : ∀ seq a, s.pending.lookup seq = some a → s.last < seq ∧ items[seq - 1]? = some a

theorem Follows.new (items : List α) : Follows items (new : Sequencer α) :=
  ⟨Nat.zero_le _, nofun⟩

variable {s : Sequencer α} {seq : ℕ}

theorem Follows.append {items : List α} (h : Follows items s) (more : List α) :
    Follows (items ++ more) s := by
  refine ⟨?_, fun seq a ha => ?_⟩
  · rw [length_append]
    exact Nat.le_add_right_of_le h.bound
  · obtain ⟨hlt, hitem⟩ := h.waiting seq a ha
    refine ⟨hlt, ?_⟩
    rw [List.getElem?_append_left (List.getElem?_eq_some_iff.mp hitem).1]
    exact hitem

theorem Follows.wait {items : List α} (h : Follows items s) {a : α} (hseq : s.last < seq)
    (hitem : items[seq - 1]? = some a) : Follows items (s.wait seq a) := by
  refine ⟨h.bound, fun seq' a' ha' => ?_⟩
  unfold Sequencer.wait at ha'
  split at ha'
  · exact h.waiting seq' a' ha'
  · rw [lookup_insert_ite] at ha'
    by_cases hs : seq' = seq
    · rw [if_pos hs] at ha'
      cases ha'
      subst hs
      exact ⟨hseq, hitem⟩
    · rw [if_neg hs] at ha'
      exact h.waiting seq' a' ha'

theorem knows_wait {seq' : ℕ} {a : α} : (s.wait seq a).Knows seq' ↔ s.Knows seq' ∨ seq' = seq := by
  unfold Knows wait
  split
  · rename_i hknown
    refine ⟨.inl, fun h => h.elim id fun hs => .inr (hs ▸ hknown)⟩
  · rw [lookup_insert_ite]
    by_cases hs : seq' = seq <;> simp [hs]

theorem release_drained {n : ℕ} (h : s.pending.entries.length ≤ n) : (release n s).1.Drained := by
  induction n generalizing s with
  | zero =>
    have hnil : s.pending.entries = [] := eq_nil_of_length_eq_zero (Nat.le_zero.mp h)
    simp [release, Drained, AList.lookup, hnil]
  | succ n ih =>
    unfold release
    cases hnext : s.pending.lookup (s.last + 1) with
    | none => exact hnext
    | some a =>
      apply ih
      have hkeys : s.last + 1 ∈ s.pending.keys := by
        rw [← AList.mem_keys, ← AList.lookup_isSome, hnext]
        rfl
      have hlen : (s.pending.erase (s.last + 1)).keys.length = s.pending.keys.length - 1 := by
        rw [AList.keys_erase, length_erase_of_mem hkeys]
      simp only [AList.keys, List.keys, length_map] at hlen
      simp only
      omega

theorem accept_drained (h : s.Drained) (seq : ℕ) (a : α) : (s.accept seq a).1.Drained := by
  unfold accept
  split
  · exact h
  · exact release_drained (Nat.le_refl _)

theorem accept_idle (h : s.Drained) (a : α) (hseq : seq ≠ s.last + 1) :
    (s.accept seq a).2 = [] ∧ (s.accept seq a).1.last = s.last := by
  unfold accept
  split
  · exact ⟨rfl, rfl⟩
  · have hnext : (s.wait seq a).pending.lookup ((s.wait seq a).last + 1) = none := by
      unfold wait
      split
      · exact h
      · rw [lookup_insert_ite, if_neg (Ne.symm hseq)]
        exact h
    cases (s.wait seq a).pending.entries.length with
    | zero => exact ⟨rfl, rfl⟩
    | succ n =>
      unfold release
      rw [hnext]
      exact ⟨rfl, rfl⟩

section
variable {P : α → Prop}

theorem release_all {n : ℕ} {s : Sequencer α} (hs : ∀ seq a, s.pending.lookup seq = some a → P a) :
    (∀ a ∈ (release n s).2, P a) ∧ ∀ seq a, (release n s).1.pending.lookup seq = some a → P a := by
  induction n generalizing s with
  | zero => exact ⟨fun a ha => absurd ha not_mem_nil, hs⟩
  | succ n ih =>
    unfold release
    cases hnext : s.pending.lookup (s.last + 1) with
    | none => exact ⟨fun a ha => absurd ha not_mem_nil, hs⟩
    | some a =>
      have hrest : ∀ seq b, (s.pending.erase (s.last + 1)).lookup seq = some b → P b := by
        intro seq b hb
        rw [lookup_erase_ite] at hb
        split at hb
        · cases hb
        · exact hs seq b hb
      have hn := ih (s := ⟨s.last + 1, s.pending.erase (s.last + 1)⟩) hrest
      refine ⟨fun b hb => ?_, hn.2⟩
      obtain he | hb := mem_cons.mp hb
      · exact he ▸ hs _ a hnext
      · exact hn.1 b hb

theorem accept_all {s : Sequencer α} (hs : ∀ seq a, s.pending.lookup seq = some a → P a) (seq : ℕ)
    {a : α} (ha : P a) : (∀ b ∈ (s.accept seq a).2, P b) ∧
      ∀ seq' b, (s.accept seq a).1.pending.lookup seq' = some b → P b := by
  unfold accept
  split
  · exact ⟨fun b hb => absurd hb not_mem_nil, hs⟩
  · apply release_all
    intro seq' b hb
    unfold wait at hb
    split at hb
    · exact hs seq' b hb
    · rw [lookup_insert_ite] at hb
      split at hb
      · cases hb
        exact ha
      · exact hs seq' b hb

end

variable {items : List α} {s : Sequencer α}

theorem Follows.release {n : ℕ} (h : Follows items s) : Follows items (Sequencer.release n s).1 ∧
      items.take s.last ++ (Sequencer.release n s).2 = items.take (Sequencer.release n s).1.last ∧
      (∀ seq, (Sequencer.release n s).1.Knows seq ↔ s.Knows seq) := by
  induction n generalizing s with
  | zero => exact ⟨h, by simp [Sequencer.release], fun seq => Iff.rfl⟩
  | succ n ih =>
    unfold Sequencer.release
    cases hnext : s.pending.lookup (s.last + 1) with
    | none => exact ⟨h, by simp, fun seq => Iff.rfl⟩
    | some a =>
      obtain ⟨-, hitem⟩ := h.waiting _ a hnext
      rw [Nat.add_sub_cancel] at hitem
      have hlt : s.last < items.length := (List.getElem?_eq_some_iff.mp hitem).1
      have hfollows : Follows items ⟨s.last + 1, s.pending.erase (s.last + 1)⟩ := by
        refine ⟨hlt, fun seq b hb => ?_⟩
        rw [lookup_erase_ite] at hb
        split at hb
        · cases hb
        · rename_i hne
          obtain ⟨hseq, hb⟩ := h.waiting seq b hb
          exact ⟨Nat.lt_of_le_of_ne hseq (Ne.symm hne), hb⟩
      obtain ⟨hrest, htake, hknows⟩ := ih hfollows
      refine ⟨hrest, ?_, fun seq => (hknows seq).trans ?_⟩
      · have hone : items.take (s.last + 1) = items.take s.last ++ [a] := by
          rw [take_add_one, hitem]
          rfl
        rw [← htake, hone, List.append_assoc]
        rfl
      · unfold Knows
        simp only [lookup_erase_ite]
        by_cases hs : seq = s.last + 1
        · subst hs
          simp [hnext]
        · rw [if_neg hs]
          refine or_congr_left ?_
          omega

theorem Follows.accept (h : Follows items s) {seq : ℕ} {a : α} (hitem : items[seq - 1]? = some a) :
    Follows items (s.accept seq a).1 ∧
      items.take s.last ++ (s.accept seq a).2 = items.take (s.accept seq a).1.last ∧
      ∀ seq', (s.accept seq a).1.Knows seq' ↔ s.Knows seq' ∨ seq' = seq := by
  unfold Sequencer.accept
  by_cases hold : seq ≤ s.last
  · rw [if_pos hold]
    refine ⟨h, by simp, fun seq' => ⟨.inl, fun hk => hk.elim id fun hs => ?_⟩⟩
    exact .inl (hs ▸ hold)
  · rw [if_neg hold]
    obtain ⟨hfollows, htake, hknows⟩ :=
      (h.wait (Nat.lt_of_not_le hold) hitem).release (n := (s.wait seq a).pending.entries.length)
    exact ⟨hfollows, htake, fun seq' => (hknows seq').trans knows_wait⟩

theorem Follows.whole (h : Follows items s) (hdrained : s.Drained)
    (hall : ∀ seq, 0 < seq → seq ≤ items.length → s.Knows seq) : s.last = items.length := by
  by_contra hne
  have hlt : s.last < items.length := Nat.lt_of_le_of_ne h.bound hne
  obtain hle | hwaits := hall (s.last + 1) (Nat.succ_pos _) hlt
  · exact absurd hle (Nat.not_succ_le_self _)
  · rw [hdrained] at hwaits
    cases hwaits

end Sequencer

end Foundation
