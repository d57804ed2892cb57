import Mathlib.Data.List.Infix

/-!
# Bounded queues and what limits retain

A new element goes to the back; elements leave at the front while the queue is too long.
An element leaves only when as many newer ones are behind it as the queue can hold. A
broadcast channel holds the last values only, and a receiver that is further behind is told
how many it has missed.

A history is limited by the count and by the weight of its items. Dropping from the front
until both are met keeps the longest suffix that meets them, of all that was ever pushed.
Elements taken one after the other for as long as a budget lasts are the longest prefix
that fits, from the other end the longest suffix. Elements given up from the front until a
need is met are no more than that.
-/

namespace Foundation

open List

section
variable {α : Type*}

/-- Elements leave at the front while there are more than `cap`. -/
def popWhileLong (cap : ℕ) : List α → List α
  | [] => []
  | a :: q => if q.length + 1 > cap then popWhileLong cap q else a :: q

def pushBounded (cap : ℕ) (q : List α) (a : α) : List α := popWhileLong cap (q ++ [a])

theorem suffix_popWhileLong {cap : ℕ} {q s : List α} (hs : s <:+ q) (hfit : s.length ≤ cap) :
    s <:+ popWhileLong cap q := by
  induction q with
  | nil => exact hs
  | cons a q ih =>
    rw [popWhileLong]
    by_cases hlong : q.length + 1 > cap
    · rw [if_pos hlong]
      rcases suffix_cons_iff.mp hs with rfl | hs
      · rw [length_cons] at hfit
        omega
      · exact ih hs
    · rw [if_neg hlong]
      exact hs

/-- An element with `ys` behind it keeps its place when one is pushed, or as many newer
ones as fit are behind it. -/
theorem pushBounded_keeps {cap : ℕ} {q ys : List α} {a b : α} (h : a :: ys <:+ q) :
    a :: (ys ++ [b]) <:+ pushBounded cap q b ∨ cap ≤ (ys ++ [b]).length := by
  by_cases hfit : (a :: (ys ++ [b])).length ≤ cap
  · left
    refine suffix_popWhileLong ?_ hfit
    obtain ⟨xs, rfl⟩ := h
    exact ⟨xs, by simp⟩
  · right
    rw [length_cons] at hfit
    omega

theorem pushBounded_new {cap : ℕ} (hcap : 0 < cap) (q : List α) (a : α) :
    [a] <:+ pushBounded cap q a :=
  suffix_popWhileLong (suffix_append q [a]) hcap

end

/-! ## Broadcast channels -/

/-- A value that is sent while there is no receiver is read by none. -/
structure Broadcast (α : Type) where
  sent : List α
  capacity : ℕ

inductive Received (α : Type)
  | value (v : α)
  | lagged (missed : ℕ)
  | pending
deriving DecidableEq

namespace Broadcast

variable {α : Type} (b : Broadcast α)

def send (v : α) : Broadcast α := { b with sent := b.sent ++ [v] }

def subscribe : ℕ := b.sent.length

def recv (next : ℕ) : Received α × ℕ :=
  match b.sent[next]? with
  | none => (.pending, next)
  | some v =>
    if next + b.capacity < b.sent.length then
      (.lagged (b.sent.length - b.capacity - next), b.sent.length - b.capacity)
    else (.value v, next + 1)

variable {b} {next : ℕ}

theorem drop_of_value {v : α} (h : (b.recv next).1 = .value v) :
    b.sent.drop next = v :: b.sent.drop (b.recv next).2 := by
  unfold recv at h ⊢
  split at h
  · cases h
  · next w hw =>
    split at h
    · cases h
    · next hfits =>
      cases h
      obtain ⟨hlt, rfl⟩ := List.getElem?_eq_some_iff.mp hw
      simp only [if_neg hfits]
      exact drop_eq_getElem_cons hlt

theorem drop_of_pending (h : (b.recv next).1 = .pending) :
    b.sent.drop next = [] ∧ (b.recv next).2 = next := by
  unfold recv at h ⊢
  split at h
  · next hnone =>
    exact ⟨drop_eq_nil_of_le (List.getElem?_eq_none_iff.mp hnone), by simp⟩
  · split at h <;> cases h

theorem recv_place_le (h : next ≤ b.sent.length) : (b.recv next).2 ≤ b.sent.length := by
  unfold recv
  split
  · exact h
  · next v hv =>
    obtain ⟨hlt, -⟩ := List.getElem?_eq_some_iff.mp hv
    split
    · exact Nat.sub_le _ _
    · exact hlt

end Broadcast

/-! ## What limits retain -/

structure Limits where
  count : ℕ
  weight : ℕ

section
variable {α : Type} (weigh : α → ℕ) (limits : Limits)

def weightOf (l : List α) : ℕ := l.foldr (fun a n => weigh a + n) 0

@[simp] theorem weightOf_nil : weightOf weigh [] = 0 := rfl

@[simp] theorem weightOf_cons (a : α) (l : List α) :
    weightOf weigh (a :: l) = weigh a + weightOf weigh l := rfl

@[simp] theorem weightOf_append (l l' : List α) :
    weightOf weigh (l ++ l') = weightOf weigh l + weightOf weigh l' := by
  induction l with
  | nil => simp
  | cons a l ih => rw [cons_append, weightOf_cons, weightOf_cons, ih, Nat.add_assoc]

theorem weightOf_perm {l l' : List α} (h : l.Perm l') : weightOf weigh l = weightOf weigh l' := by
  induction h with
  | nil => rfl
  | cons a _ ih => rw [weightOf_cons, weightOf_cons, ih]
  | swap a b l =>
    simp only [weightOf_cons]
    omega
  | trans _ _ ih ih' => exact ih.trans ih'

theorem weightOf_sublist {l l' : List α} (h : l.Sublist l') : weightOf weigh l ≤ weightOf weigh l' := by
  induction h with
  | slnil => exact Nat.le_refl _
  | cons a _ ih =>
    rw [weightOf_cons]
    omega
  | cons_cons a _ ih =>
    rw [weightOf_cons, weightOf_cons]
    omega

def Within (l : List α) : Prop := l.length ≤ limits.count ∧ weightOf weigh l ≤ limits.weight

instance (l : List α) : Decidable (Within weigh limits l) :=
  inferInstanceAs (Decidable (_ ∧ _))

structure LongestSuffix (all kept : List α) : Prop where
  suffix : kept <:+ all
  within : Within weigh limits kept
  longest : ∀ s, s <:+ all → Within weigh limits s → s.length ≤ kept.length

/-- Items are dropped from the front, and their weight from the total. -/
def evict : List α → ℕ → List α × ℕ
  | [], total => ([], total)
  | a :: l, total =>
    if limits.count < (a :: l).length ∨ limits.weight < total then evict l (total - weigh a)
    else (a :: l, total)

variable {weigh limits}

theorem Within.of_snoc {s : List α} {b : α} (h : Within weigh limits (s ++ [b])) :
    Within weigh limits s := by
  obtain ⟨hcount, hweight⟩ := h
  rw [length_append] at hcount
  rw [weightOf_append] at hweight
  exact ⟨by omega, by omega⟩

theorem longestSuffix_nil : LongestSuffix weigh limits [] [] :=
  ⟨suffix_refl [], ⟨Nat.zero_le _, Nat.zero_le _⟩, fun _ hs _ => hs.length_le⟩

variable (weigh limits) in
theorem evict_longest (l : List α) :
    LongestSuffix weigh limits l (evict weigh limits l (weightOf weigh l)).1 ∧
      (evict weigh limits l (weightOf weigh l)).2 =
        weightOf weigh (evict weigh limits l (weightOf weigh l)).1 := by
  induction l with
  | nil => exact ⟨longestSuffix_nil, rfl⟩
  | cons a l ih =>
    rw [evict]
    split
    · next hover =>
      rw [weightOf_cons, Nat.add_sub_cancel_left]
      refine ⟨⟨ih.1.suffix.trans (suffix_cons a l), ih.1.within, fun s hs hwithin => ?_⟩, ih.2⟩
      rcases suffix_cons_iff.mp hs with rfl | hs
      · obtain ⟨hcount, hweight⟩ := hwithin
        omega
      · exact ih.1.longest s hs hwithin
    · next hfits =>
      have hwithin : Within weigh limits (a :: l) := ⟨by omega, by omega⟩
      exact ⟨⟨suffix_refl _, hwithin, fun s hs _ => hs.length_le⟩, rfl⟩

theorem LongestSuffix.push {all kept kept' : List α} (h : LongestSuffix weigh limits all kept)
    (a : α) (h' : LongestSuffix weigh limits (kept ++ [a]) kept') :
    LongestSuffix weigh limits (all ++ [a]) kept' := by
  obtain ⟨pre, rfl⟩ := h.suffix
  refine ⟨h'.suffix.trans ⟨pre, (List.append_assoc ..).symm⟩, h'.within, fun s hs hwithin => ?_⟩
  rcases eq_nil_or_concat s with rfl | ⟨s', b, rfl⟩
  · exact Nat.zero_le _
  · -- the suffix without its last item is one of what was there before
    rw [concat_eq_append] at hs hwithin ⊢
    obtain ⟨front, hfront⟩ := hs
    rw [← List.append_assoc] at hfront
    obtain ⟨hfront, hb⟩ := append_inj' hfront rfl
    have hs' : s' <:+ pre ++ kept := ⟨front, hfront⟩
    have hle := h.longest s' hs' (hwithin.of_snoc)
    obtain ⟨rest, hrest⟩ := suffix_of_suffix_length_le hs' h.suffix hle
    refine h'.longest _ ⟨rest, ?_⟩ hwithin
    rw [← List.append_assoc, hrest, hb]

end

/-! ## What fits a budget -/

section
variable {α : Type} (w : α → ℕ)

structure LongestFittingPrefix (budget : ℕ) (l p : List α) : Prop where
  isPrefix : p <+: l
  fits : weightOf w p ≤ budget
  longest : ∀ q, q <+: l → weightOf w q ≤ budget → q <+: p

structure LongestFittingSuffix (budget : ℕ) (l s : List α) : Prop where
  isSuffix : s <:+ l
  fits : weightOf w s ≤ budget
  longest : ∀ t, t <:+ l → weightOf w t ≤ budget → t <:+ s

def fitting : ℕ → List α → List α
  | _, [] => []
  | budget, a :: l => if w a ≤ budget then a :: fitting (budget - w a) l else []

variable {w} {budget : ℕ} {l p s : List α} {a : α}

@[simp] theorem weightOf_reverse (l : List α) : weightOf w l.reverse = weightOf w l := by
  induction l with
  | nil => rfl
  | cons a l ih =>
    rw [reverse_cons, weightOf_append, ih, weightOf_cons, weightOf_cons, weightOf_nil,
      Nat.add_zero, Nat.add_comm]

theorem weightOf_eq_zero : weightOf w l = 0 ↔ ∀ a ∈ l, w a = 0 := by
  induction l with
  | nil => simp
  | cons a l ih => rw [weightOf_cons, Nat.add_eq_zero_iff, ih, forall_mem_cons]

theorem fitting_of_le (h : w a ≤ budget) :
    fitting w budget (a :: l) = a :: fitting w (budget - w a) l := if_pos h

theorem fitting_of_lt (h : budget < w a) : fitting w budget (a :: l) = [] :=
  if_neg (Nat.not_le.mpr h)

theorem fitting_longest (budget : ℕ) (l : List α) : LongestFittingPrefix w budget l (fitting w budget l) := by
  induction l generalizing budget with
  | nil => exact ⟨prefix_rfl, Nat.zero_le _, fun q hq _ => hq⟩
  | cons a l ih =>
    by_cases h : w a ≤ budget
    · obtain ⟨hpre, hfits, hlongest⟩ := ih (budget - w a)
      rw [fitting_of_le h]
      refine ⟨(prefix_cons_inj a).mpr hpre, ?_, fun q hq hqfits => ?_⟩
      · rw [weightOf_cons]
        omega
      · cases q with
        | nil => exact nil_prefix
        | cons b q =>
          obtain ⟨rfl, hrest⟩ := cons_prefix_cons.mp hq
          rw [weightOf_cons] at hqfits
          exact (prefix_cons_inj b).mpr (hlongest q hrest (by omega))
    · rw [fitting_of_lt (Nat.not_le.mp h)]
      refine ⟨by simp, Nat.zero_le _, fun q hq hqfits => ?_⟩
      cases q with
      | nil => exact nil_prefix
      | cons b q =>
        obtain ⟨rfl, -⟩ := cons_prefix_cons.mp hq
        rw [weightOf_cons] at hqfits
        omega

theorem LongestFittingPrefix.reverse (h : LongestFittingPrefix w budget l.reverse p) :
    LongestFittingSuffix w budget l p.reverse where
  isSuffix := by
    rw [← reverse_prefix, reverse_reverse]
    exact h.isPrefix
  fits := by
    rw [weightOf_reverse]
    exact h.fits
  longest t ht htfits := by
    rw [← reverse_prefix, reverse_reverse]
    have hreverse := reverse_prefix.mpr ht
    exact h.longest t.reverse hreverse (by rw [weightOf_reverse]; exact htfits)

theorem fitting_longest_suffix (budget : ℕ) (l : List α) :
    LongestFittingSuffix w budget l (fitting w budget l.reverse).reverse :=
  (fitting_longest budget l.reverse).reverse

theorem LongestFittingPrefix.of_next (hfits : weightOf w p ≤ budget)
    (hnext : ∀ b ∈ s.head?, budget < weightOf w p + w b) : LongestFittingPrefix w budget (p ++ s) p where
  isPrefix := prefix_append p s
  fits := hfits
  longest q hq hqfits := by
    obtain hqp | ⟨t, rfl⟩ := prefix_or_prefix_of_prefix hq (prefix_append p s)
    · exact hqp
    · cases t with
      | nil => simp
      | cons b t =>
        obtain ⟨t', rfl⟩ := (prefix_append_right_inj p).mp hq
        have hover := hnext b rfl
        rw [weightOf_append, weightOf_cons] at hqfits
        omega

end

variable {α : Type} (w : α → ℕ)

def givenUp : ℕ → List α → List α
  | _, [] => []
  | need, a :: l => if need = 0 then [] else a :: givenUp (need - w a) l

theorem givenUp_zero (l : List α) : givenUp w 0 l = [] := by
  cases l <;> rfl

theorem givenUp_spec (need : ℕ) (l : List α) : ∃ kept, l = givenUp w need l ++ kept ∧
    (∀ pre a post, givenUp w need l = pre ++ a :: post → weightOf w pre < need) ∧
    (kept ≠ [] → need ≤ weightOf w (givenUp w need l)) := by
  induction l generalizing need with
  | nil => exact ⟨[], rfl, (fun pre a post h => absurd h (by simp [givenUp])), fun h => absurd rfl h⟩
  | cons b l ih =>
    by_cases hneed : need = 0
    · subst hneed
      rw [givenUp_zero]
      exact ⟨b :: l, rfl, (fun pre a post h => absurd h (by simp)), fun _ => Nat.zero_le _⟩
    · obtain ⟨kept, hl, hmore, henough⟩ := ih (need - w b)
      rw [givenUp, if_neg hneed]
      refine ⟨kept, congrArg (b :: ·) hl, fun pre a post h => ?_, fun hkept => ?_⟩
      · cases pre with
        | nil => exact Nat.pos_of_ne_zero hneed
        | cons c pre =>
          obtain ⟨rfl, hpre⟩ := List.cons.inj h
          have hlt := hmore pre a post hpre
          rw [weightOf_cons]
          omega
      · have hle := henough hkept
        rw [weightOf_cons]
        omega

end Foundation
