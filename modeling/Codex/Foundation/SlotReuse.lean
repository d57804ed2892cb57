import Mathlib.Data.Finset.Card

/-!
# Reusing the elements of an old list

Each item of a new list is given an element. It keeps the old element at its own place
when it fits it, else it takes the first old element it fits that no item before it has,
else it gets a new one. The two rules can give one element to two items. `nodup_iff` says
when they do not.
-/

namespace Foundation

open List Option

section
variable {α β : Type} (fits : β → α → Bool) (old : List α) (items : List β)

/-- The old element at place `i`, when the item at that place fits it. -/
def kept (i : ℕ) : Option α :=
  match old[i]?, items[i]? with
  | some a, some b => if fits b a then some a else none
  | _, _ => none

def fitsAt (i : ℕ) (a : α) : Bool := items[i]?.any fun b => fits b a

variable [DecidableEq α]

/-- The first old element that `b` fits and that is not in `used`. -/
def search (used : List α) (b : β) : Option α := old.find? fun a => a ∉ used && fits b a

structure Assigned (got : List α) : Prop where
  length : got.length = items.length
  keeps : ∀ {i a}, kept fits old items i = some a → got[i]? = some a
  takes : ∀ {i a b}, kept fits old items i = none → items[i]? = some b →
    search fits old (got.take i) b = some a → got[i]? = some a
  new : ∀ {i a b}, kept fits old items i = none → items[i]? = some b →
    search fits old (got.take i) b = none → got[i]? = some a → a ∉ old ∧ a ∉ got.take i

def Blocks : Prop := ∀ b ∈ items, ∀ b' ∈ items, ∀ a ∈ old, ∀ a' ∈ old,
  fits b a → fits b' a → fits b a' → fits b' a'

/-! ## The condition -/

def inFront (a : α) : List α := old.take (old.idxOf a)

/-- The items before place `i` that fit `a`, without those that keep an element which is
not in front of `a`. -/
def claimants (i : ℕ) (a : α) : Finset ℕ :=
  (Finset.range i).filter fun j =>
    fitsAt fits items j a ∧ (kept fits old items j).all fun a' => a' ∈ inFront old a

/-- The elements in front of `a` that the item at place `i` fits. -/
def spares (i : ℕ) (a : α) : Finset α :=
  (inFront old a).toFinset.filter fun a' => fitsAt fits items i a'

/-- No item before place `i` gets the element kept there: none keeps it too, and the
items before it that search find enough in front of it. -/
def Unclaimed (i : ℕ) : Prop := ∀ a, kept fits old items i = some a →
  (∀ j < i, kept fits old items j ≠ some a) ∧
    (claimants fits old items i a).card ≤ (spares fits old items i a).card

end

variable {α β : Type} {fits : β → α → Bool} {old : List α} {items : List β} {got : List α}
  {i j : ℕ} {a a' : α} {b : β}

theorem kept_eq_some :
    kept fits old items i = some a ↔ old[i]? = some a ∧ ∃ b, items[i]? = some b ∧ fits b a := by
  unfold kept
  cases old[i]? with
  | none => simp
  | some x =>
    cases items[i]? with
    | none => simp
    | some b =>
      simp only [ite_none_right_eq_some, Option.some.injEq, exists_eq_left']
      constructor
      · rintro ⟨hfit, rfl⟩
        exact ⟨rfl, hfit⟩
      · rintro ⟨rfl, hfit⟩
        exact ⟨hfit, rfl⟩

theorem fitsAt_iff : fitsAt fits items i a ↔ ∃ b, items[i]? = some b ∧ fits b a := by
  simp [fitsAt, Option.any_eq_true]

theorem fitsAt_of_kept (h : kept fits old items i = some a) : fitsAt fits items i a :=
  fitsAt_iff.mpr (kept_eq_some.mp h).2

theorem mem_of_kept (h : kept fits old items i = some a) : a ∈ old :=
  mem_of_getElem? (kept_eq_some.mp h).1

variable [DecidableEq α]

theorem mem_of_search {used : List α} (h : search fits old used b = some a) :
    a ∈ old ∧ a ∉ used ∧ fits b a := by
  have hfound := List.find?_some h
  simp only [Bool.and_eq_true, decide_eq_true_eq] at hfound
  exact ⟨mem_of_find?_eq_some h, hfound⟩

theorem mem_inFront : a' ∈ inFront old a → a' ∈ old := mem_of_mem_take

theorem used_of_search {used : List α} (h : search fits old used b = some a)
    (hfront : a' ∈ inFront old a) (hfit : fits b a') : a' ∈ used := by
  obtain ⟨hp, before, after, hold, hbefore⟩ := List.find?_eq_some_iff_append.mp h
  have hindex : old.idxOf a ≤ before.length := by
    rw [hold, idxOf_append]
    split
    · rename_i hmem
      exact (idxOf_lt_length_iff.mpr hmem).le
    · simp
  have hmem : a' ∈ before := by
    have htake := take_subset_take_left old hindex hfront
    rw [hold, take_left'] at htake
    · exact htake
    · rfl
  have hnot := hbefore a' hmem
  simp only [hfit, Bool.and_true, Bool.not_eq_true', decide_eq_false_iff_not, not_not] at hnot
  exact hnot

theorem search_in_front {used : List α} (hmem : a ∈ old) (hfit : fits b a) (hused : a ∉ used) :
    ∃ x, search fits old used b = some x ∧ (x = a ∨ x ∈ inFront old a) := by
  cases h : search fits old used b with
  | none =>
    have hnone := List.find?_eq_none.mp h a hmem
    simp [hused, hfit] at hnone
  | some x =>
    refine ⟨x, rfl, ?_⟩
    by_cases hx : x = a
    · exact .inl hx
    · right
      have hnot : a ∉ inFront old x := fun hfront => hused (used_of_search h hfront hfit)
      have hxmem := (mem_of_search h).1
      unfold inFront at hnot ⊢
      rw [mem_take_iff_idxOf_lt hmem] at hnot
      rw [mem_take_iff_idxOf_lt hxmem]
      have hne : old.idxOf x ≠ old.idxOf a := fun heq => hx ((idxOf_inj hxmem).mp heq)
      omega

omit [DecidableEq α] in
theorem Blocks.transfer (h : Blocks fits old items) (ha : a ∈ old) (ha' : a' ∈ old)
    (hi : fitsAt fits items i a) (hj : fitsAt fits items j a) (hi' : fitsAt fits items i a') :
    fitsAt fits items j a' := by
  obtain ⟨b, hb, hfit⟩ := fitsAt_iff.mp hi
  obtain ⟨c, hc, hfit'⟩ := fitsAt_iff.mp hj
  obtain ⟨b', hb', hother⟩ := fitsAt_iff.mp hi'
  rw [hb] at hb'
  cases hb'
  exact fitsAt_iff.mpr ⟨c, hc, h b (mem_of_getElem? hb) c (mem_of_getElem? hc) a ha a' ha'
    hfit hfit' hother⟩

variable (h : Assigned fits old items got)
include h

theorem Assigned.source (hgot : got[i]? = some a)
    (hold : a ∈ old) : kept fits old items i = some a ∨ kept fits old items i = none ∧
      ∃ b, items[i]? = some b ∧ search fits old (got.take i) b = some a := by
  have hlt : i < items.length := by
    rw [← h.length]
    exact (List.getElem?_eq_some_iff.mp hgot).1
  cases hkept : kept fits old items i with
  | some x =>
    rw [h.keeps hkept] at hgot
    exact .inl hgot
  | none =>
    refine .inr ⟨rfl, items[i], List.getElem?_eq_getElem hlt, ?_⟩
    cases hsearch : search fits old (got.take i) items[i] with
    | none => exact absurd hold (h.new hkept (List.getElem?_eq_getElem hlt) hsearch hgot).1
    | some x =>
      rw [h.takes hkept (List.getElem?_eq_getElem hlt) hsearch] at hgot
      exact hgot

theorem Assigned.fits_given (hgot : got[i]? = some a) (hold : a ∈ old) : fitsAt fits items i a := by
  obtain hkept | ⟨-, b, hb, hsearch⟩ := h.source hgot hold
  · exact fitsAt_of_kept hkept
  · exact fitsAt_iff.mpr ⟨b, hb, (mem_of_search hsearch).2.2⟩

variable (hblocks : Blocks fits old items)
include hblocks

theorem Assigned.crowded
    (hi : kept fits old items i = some a) (hji : j < i) (hj : kept fits old items j = none)
    (hb : items[j]? = some b) (hsearch : search fits old (got.take j) b = some a) :
    (spares fits old items i a).card < (claimants fits old items i a).card := by
  have hfit : fitsAt fits items j a := fitsAt_iff.mpr ⟨b, hb, (mem_of_search hsearch).2.2⟩
  have hspare : ∀ x ∈ spares fits old items i a,
      x ∈ inFront old a ∧ fitsAt fits items i x ∧ x ∈ got.take j := by
    intro x hx
    simp only [spares, Finset.mem_filter, List.mem_toFinset] at hx
    have hjx := hblocks.transfer (mem_of_kept hi) (mem_inFront hx.1) (fitsAt_of_kept hi) hfit hx.2
    obtain ⟨c, hc, hcx⟩ := fitsAt_iff.mp hjx
    rw [hb] at hc
    cases hc
    exact ⟨hx.1, hx.2, used_of_search hsearch hx.1 hcx⟩
  have hmem : j ∈ claimants fits old items i a := by
    simp [claimants, hji, hfit, hj]
  have hle : (spares fits old items i a).card ≤ ((claimants fits old items i a).erase j).card := by
    refine Finset.card_le_card_of_injOn (fun x => got.idxOf x) ?_ ?_
    · intro x hx
      obtain ⟨hfront, hxi, hused⟩ := hspare x hx
      have hxgot := mem_of_mem_take hused
      have hlt : got.idxOf x < j := (mem_take_iff_idxOf_lt hxgot).mp hused
      have hat : got[got.idxOf x]? = some x := List.getElem?_idxOf hxgot
      have hxold := mem_inFront hfront
      have hfits := hblocks.transfer hxold (mem_of_kept hi) hxi (h.fits_given hat hxold)
        (fitsAt_of_kept hi)
      simp only [claimants, Finset.coe_erase, Finset.coe_filter, Set.mem_sdiff, Set.mem_ofPred_eq,
        Finset.mem_range, Set.mem_singleton_iff, Option.all_eq_true, decide_eq_true_eq]
      refine ⟨⟨by omega, hfits, ?_⟩, by omega⟩
      intro y hy
      rw [h.keeps hy] at hat
      cases hat
      exact hfront
    · intro x hx y hy heq
      exact (idxOf_inj (mem_of_mem_take (hspare x hx).2.2)).mp heq
  have herase := Finset.card_erase_lt_of_mem hmem
  omega

theorem Assigned.roomy (hi : kept fits old items i = some a) (hnodup : got.Nodup) :
    (claimants fits old items i a).card ≤ (spares fits old items i a).card := by
  have hgi := h.keeps hi
  have hdiff : ∀ {j x}, j < i → got[j]? = some x → x ≠ a := by
    intro j x hji hx hxa
    have hlt := (List.getElem?_eq_some_iff.mp hgi).1
    exact nodup_iff_getElem?_ne_getElem?.mp hnodup j i hji hlt (by rw [hx, hgi, hxa])
  have hclaim : ∀ j ∈ claimants fits old items i a,
      ∃ x ∈ spares fits old items i a, got[j]? = some x := by
    intro j hj
    simp only [claimants, Finset.mem_filter, Finset.mem_range, Option.all_eq_true,
      decide_eq_true_eq] at hj
    obtain ⟨hji, hfit, hkeeps⟩ := hj
    have hspare : ∀ {x}, x ∈ inFront old a → fitsAt fits items j x →
        x ∈ spares fits old items i a := by
      intro x hx hjx
      have hix := hblocks.transfer (mem_of_kept hi) (mem_inFront hx) hfit (fitsAt_of_kept hi) hjx
      simp [spares, hx, hix]
    cases hkept : kept fits old items j with
    | some x => exact ⟨x, hspare (hkeeps x hkept) (fitsAt_of_kept hkept), h.keeps hkept⟩
    | none =>
      obtain ⟨b, hb, hba⟩ := fitsAt_iff.mp hfit
      have hunused : a ∉ got.take j := by
        intro hmem
        obtain ⟨k, hk, hka⟩ := mem_take_iff_getElem.mp hmem
        exact hdiff (by omega) (List.getElem?_eq_some_iff.mpr ⟨by omega, hka⟩) rfl
      obtain ⟨x, hsearch, hx⟩ := search_in_front (mem_of_kept hi) hba hunused
      have hgj := h.takes hkept hb hsearch
      have hfront := hx.resolve_left (hdiff hji hgj)
      exact ⟨x, hspare hfront (fitsAt_iff.mpr ⟨b, hb, (mem_of_search hsearch).2.2⟩), hgj⟩
  refine Finset.card_le_card_of_injOn (fun j => (got[j]?).getD a) ?_ ?_
  · intro j hj
    obtain ⟨x, hx, hgj⟩ := hclaim j hj
    simpa [hgj] using hx
  · intro j hj k hk heq
    obtain ⟨x, -, hgj⟩ := hclaim j hj
    obtain ⟨y, -, hgk⟩ := hclaim k hk
    simp only [hgj, hgk, getD_some] at heq
    subst heq
    have hlt := (List.getElem?_eq_some_iff.mp hgj).1
    exact (List.getElem?_inj hlt hnodup).mp (hgj.trans hgk.symm)

theorem Assigned.nodup_iff : got.Nodup ↔ ∀ i, Unclaimed fits old items i := by
  constructor
  · intro hnodup i a hi
    refine ⟨fun j hji hj => ?_, h.roomy hblocks hi hnodup⟩
    have hlt := (List.getElem?_eq_some_iff.mp (h.keeps hi)).1
    exact nodup_iff_getElem?_ne_getElem?.mp hnodup j i hji hlt (by rw [h.keeps hi, h.keeps hj])
  · intro hfree
    rw [nodup_iff_getElem?_ne_getElem?]
    intro j i hji hlt heq
    have hgi : got[i]? = some got[i] := List.getElem?_eq_getElem hlt
    have hgj := heq.trans hgi
    have hmem : got[i] ∈ got.take i :=
      mem_take_iff_getElem.mpr ⟨j, by omega, (List.getElem?_eq_some_iff.mp hgj).2⟩
    obtain ⟨b, hitem⟩ : ∃ b, items[i]? = some b := by
      rw [h.length] at hlt
      exact ⟨items[i], List.getElem?_eq_getElem hlt⟩
    cases hkept : kept fits old items i with
    | some a =>
      have ha := h.keeps hkept
      rw [hgi] at ha
      cases ha
      obtain hj | ⟨hj, b, hb, hsearch⟩ := h.source hgj (mem_of_kept hkept)
      · exact (hfree i _ hkept).1 j hji hj
      · have hlt' := h.crowded hblocks hkept hji hj hb hsearch
        have hle := (hfree i _ hkept).2
        omega
    | none =>
      cases hsearch : search fits old (got.take i) b with
      | some a =>
        have ha := h.takes hkept hitem hsearch
        rw [hgi] at ha
        cases ha
        exact (mem_of_search hsearch).2.1 hmem
      | none => exact (h.new hkept hitem hsearch hgi).2 hmem

end Foundation
