import Mathlib.Data.List.Infix

/-!
# Scanning for delimiters in a text that arrives in pieces

A scanner looks for an opening delimiter, then for the closing one, and so on.
When the text so far ends in something that may become a delimiter, that much is
held back. `scan_append`: scanning a text in two pieces gives what scanning the
whole gives, because a delimiter not found in the first piece begins in what is
held back.
-/

namespace Foundation

open List

variable {α : Type} [DecidableEq α]

/-! ## First occurrence -/

def findFirst (needle s : List α) : Option Nat :=
  (List.range (s.length + 1)).find? fun i => needle.isPrefixOf (s.drop i)

variable {needle s : List α} {i : Nat}

theorem findFirst_eq_some : findFirst needle s = some i ↔
      i ≤ s.length ∧ needle <+: s.drop i ∧ ∀ j < i, ¬ needle <+: s.drop j := by
  unfold findFirst
  rw [List.find?_range_eq_some]
  simp only [mem_range, isPrefixOf_iff_prefix, Bool.not_eq_eq_eq_not, Bool.not_true,
    ← Bool.not_eq_true]
  constructor
  · rintro ⟨h1, h2, h3⟩
    exact ⟨by omega, h1, h3⟩
  · rintro ⟨h1, h2, h3⟩
    exact ⟨h2, by omega, h3⟩

theorem findFirst_eq_none : findFirst needle s = none ↔ ∀ i ≤ s.length, ¬ needle <+: s.drop i := by
  unfold findFirst
  rw [List.find?_eq_none]
  simp only [mem_range, isPrefixOf_iff_prefix]
  constructor
  · intro h i hi
    exact h i (by omega)
  · intro h i hi
    exact h i (by omega)

omit [DecidableEq α] in
theorem prefix_append_left {needle a b : List α} (h : needle <+: a ++ b)
    (hl : needle.length ≤ a.length) : needle <+: a :=
  prefix_of_prefix_length_le h (prefix_append a b) hl

theorem findFirst_append_of_some (h : findFirst needle s = some i) (t : List α) :
    findFirst needle (s ++ t) = some i := by
  obtain ⟨hi, hp, hno⟩ := findFirst_eq_some.mp h
  refine findFirst_eq_some.mpr ⟨by simp; omega, ?_, ?_⟩
  · rw [drop_append_of_le_length hi]
    exact hp.trans (prefix_append _ _)
  · intro j hj hpj
    rw [drop_append_of_le_length (by omega)] at hpj
    apply hno j hj
    apply prefix_append_left hpj
    have := hp.length_le
    simp only [length_drop] at this ⊢
    omega

/-! ## What is held back -/

/-- The length of the longest suffix of `s`, up to `k`, that begins `needle`. -/
def longestFrom (needle s : List α) : Nat → Nat
  | 0 => 0
  | k + 1 => if needle.take (k + 1) <:+ s then k + 1 else longestFrom needle s k

/-- The length of the longest suffix of `s` that is a proper prefix of `needle`. -/
def longestSuffixPrefix (needle s : List α) : Nat :=
  longestFrom needle s (min s.length (needle.length - 1))

variable (needle s : List α)

theorem longestFrom_le (k : Nat) : longestFrom needle s k ≤ k := by
  induction k with
  | zero => exact Nat.le_refl _
  | succ k ih =>
    unfold longestFrom
    split
    · exact Nat.le_refl _
    · omega

theorem longestFrom_suffix (k : Nat) : needle.take (longestFrom needle s k) <:+ s := by
  induction k with
  | zero => simp [longestFrom]
  | succ k ih =>
    unfold longestFrom
    split
    · assumption
    · exact ih

theorem le_longestFrom {k m : Nat} (hm : m ≤ k) (h : needle.take m <:+ s) :
    m ≤ longestFrom needle s k := by
  induction k with
  | zero => omega
  | succ k ih =>
    unfold longestFrom
    split
    · exact hm
    · rename_i hno
      apply ih
      rcases Nat.lt_or_ge m (k + 1) with hlt | hge
      · omega
      · obtain rfl : m = k + 1 := by omega
        exact absurd h hno

theorem le_longestSuffixPrefix {needle s v : List α} (hs : v <:+ s) (hn : v <+: needle)
    (hl : v.length < needle.length) : v.length ≤ longestSuffixPrefix needle s := by
  apply le_longestFrom
  · have := hs.length_le
    omega
  · rw [← prefix_iff_eq_take.mp hn]
    exact hs

theorem longestSuffixPrefix_le : longestSuffixPrefix needle s ≤ s.length := by
  have := longestFrom_le needle s (min s.length (needle.length - 1))
  unfold longestSuffixPrefix
  omega

def heldBack (needle s : List α) : List α := s.drop (s.length - longestSuffixPrefix needle s)

def released (needle s : List α) : List α := s.take (s.length - longestSuffixPrefix needle s)

theorem released_append_heldBack :
    released needle s ++ heldBack needle s = s := take_append_drop _ _

theorem heldBack_length : (heldBack needle s).length = longestSuffixPrefix needle s := by
  have := longestSuffixPrefix_le needle s
  simp only [heldBack, length_drop]
  omega

theorem heldBack_isPrefix : heldBack needle s <+: needle := by
  have h := longestFrom_suffix needle s (min s.length (needle.length - 1))
  have hle := longestFrom_le needle s (min s.length (needle.length - 1))
  have heq : heldBack needle s = needle.take (longestSuffixPrefix needle s) := by
    unfold heldBack longestSuffixPrefix
    rw [suffix_iff_eq_drop.mp h, length_take]
    congr 2
    omega
  rw [heq]
  exact take_prefix _ _

section
variable {needle s : List α} (hnone : findFirst needle s = none) (t : List α)
include hnone

theorem not_occurs_released {j : Nat} (hj : j < (released needle s).length) :
    ¬ needle <+: (s ++ t).drop j := by
  intro h
  have hr : (released needle s).length = s.length - longestSuffixPrefix needle s := by
    simp [released]
  have hjs : j ≤ s.length := by omega
  rw [drop_append_of_le_length hjs] at h
  rcases Nat.lt_or_ge (s.drop j).length needle.length with hlt | hge
  · have hpre : s.drop j <+: needle :=
      prefix_of_prefix_length_le (prefix_append _ _) h (by omega)
    have := le_longestSuffixPrefix (drop_suffix j s) hpre hlt
    simp only [length_drop] at this
    omega
  · exact findFirst_eq_none.mp hnone j hjs (prefix_append_left h hge)

omit hnone in
theorem occurs_shift (i : Nat) :
    (s ++ t).drop ((released needle s).length + i) = (heldBack needle s ++ t).drop i := by
  have h : s ++ t = released needle s ++ (heldBack needle s ++ t) := by
    rw [← List.append_assoc, released_append_heldBack]
  rw [h, ← drop_drop, drop_left]

theorem findFirst_append_of_none : findFirst needle (s ++ t) =
      (findFirst needle (heldBack needle s ++ t)).map ((released needle s).length + ·) := by
  have hlen : (s ++ t).length = (released needle s).length + (heldBack needle s ++ t).length := by
    conv_lhs => rw [← released_append_heldBack needle s, List.append_assoc]
    rw [length_append]
  cases h : findFirst needle (heldBack needle s ++ t) with
  | none =>
    rw [Option.map_none, findFirst_eq_none]
    intro i hi
    rcases Nat.lt_or_ge i (released needle s).length with hlt | hge
    · exact not_occurs_released hnone t hlt
    · obtain ⟨k, rfl⟩ := Nat.exists_eq_add_of_le hge
      rw [occurs_shift]
      exact findFirst_eq_none.mp h k (by omega)
  | some i =>
    obtain ⟨hi, hp, hno⟩ := findFirst_eq_some.mp h
    rw [Option.map_some, findFirst_eq_some]
    refine ⟨by omega, by rw [occurs_shift]; exact hp, ?_⟩
    intro j hj
    rcases Nat.lt_or_ge j (released needle s).length with hlt | hge
    · exact not_occurs_released hnone t hlt
    · obtain ⟨k, rfl⟩ := Nat.exists_eq_add_of_le hge
      rw [occurs_shift]
      exact hno k (by omega)

end

section
variable {needle : List α} (hne : needle ≠ []) (s t : List α)
include hne

theorem longestSuffixPrefix_append :
    longestSuffixPrefix needle (s ++ t) = longestSuffixPrefix needle (heldBack needle s ++ t) := by
  have hsuf : heldBack needle s ++ t <:+ s ++ t := by
    conv_rhs => rw [← released_append_heldBack needle s, List.append_assoc]
    exact suffix_append _ _
  have hlt : ∀ u : List α, longestSuffixPrefix needle u < needle.length := by
    intro u
    have := longestFrom_le needle u (min u.length (needle.length - 1))
    have := length_pos_iff.mpr hne
    unfold longestSuffixPrefix
    omega
  apply Nat.le_antisymm
  · rw [← heldBack_length needle (s ++ t)]
    refine le_longestSuffixPrefix ?_ (heldBack_isPrefix _ _) (by rw [heldBack_length]; exact hlt _)
    refine suffix_of_suffix_length_le (drop_suffix _ _) hsuf ?_
    -- else it would begin in the released part, where its beginning was held back
    by_contra hlong
    have hd : (s ++ t).length - longestSuffixPrefix needle (s ++ t) ≤ s.length := by
      rw [heldBack_length, length_append, heldBack_length] at hlong
      simp only [length_append]
      omega
    have hv : heldBack needle (s ++ t) =
        s.drop ((s ++ t).length - longestSuffixPrefix needle (s ++ t)) ++ t :=
      drop_append_of_le_length hd
    have hpre := (prefix_append _ t).trans (hv ▸ heldBack_isPrefix needle (s ++ t))
    have hbound := le_longestSuffixPrefix (drop_suffix _ s) hpre (by
      have := hlt (s ++ t)
      simp only [length_drop, length_append]
      omega)
    rw [heldBack_length, length_append, heldBack_length] at hlong
    simp only [length_drop, length_append] at hbound
    have := longestSuffixPrefix_le needle (s ++ t)
    simp only [length_append] at this
    omega
  · rw [← heldBack_length needle (heldBack needle s ++ t)]
    exact le_longestSuffixPrefix ((drop_suffix _ _).trans hsuf) (heldBack_isPrefix _ _)
      (by rw [heldBack_length]; exact hlt _)

theorem split_append : heldBack needle (s ++ t) = heldBack needle (heldBack needle s ++ t) ∧
      released needle (s ++ t) = released needle s ++ released needle (heldBack needle s ++ t) := by
  have hs : s ++ t = released needle s ++ (heldBack needle s ++ t) := by
    rw [← List.append_assoc, released_append_heldBack]
  have hle := longestSuffixPrefix_le needle (heldBack needle s ++ t)
  have hL := longestSuffixPrefix_append hne s t
  have hn : (s ++ t).length - longestSuffixPrefix needle (s ++ t) =
      (released needle s).length + ((heldBack needle s ++ t).length -
        longestSuffixPrefix needle (heldBack needle s ++ t)) := by
    rw [hL, hs, length_append]
    omega
  constructor
  · rw [heldBack, hn, occurs_shift]
    rfl
  · rw [released, hn]
    conv_lhs => rw [hs, take_length_add_append]
    rfl

end

/-! ## The scanner -/

structure Delimiters (α : Type) where
  opn : List α
  cls : List α
  opn_ne : opn ≠ []
  cls_ne : cls ≠ []

@[ext] structure ScanOutput (α : Type) where
  visible : List α
  extracted : List (List α)

/-- The content read since the opening delimiter, if one is open, and what is held back. -/
structure ScanState (α : Type) where
  active : Option (List α)
  pending : List α

def ScanOutput.append (o o' : ScanOutput α) : ScanOutput α :=
  ⟨o.visible ++ o'.visible, o.extracted ++ o'.extracted⟩

theorem findFirst_drop_lt {needle p : List α} (hne : needle ≠ [])
    (h : findFirst needle p = some i) : (p.drop (i + needle.length)).length < p.length := by
  obtain ⟨hi, hp, -⟩ := findFirst_eq_some.mp h
  have hl := hp.length_le
  have hpos := length_pos_iff.mpr hne
  simp only [length_drop] at hl ⊢
  omega

variable (d : Delimiters α)

/-- Everything that is decided of `p`, and the state that is left. -/
def scan (active : Option (List α)) (p : List α) : ScanOutput α × ScanState α :=
  match active with
  | some content =>
    match _h : findFirst d.cls p with
    | some i =>
      let r := scan none (p.drop (i + d.cls.length))
      (⟨r.1.visible, (content ++ p.take i) :: r.1.extracted⟩, r.2)
    | none => (⟨[], []⟩, ⟨some (content ++ released d.cls p), heldBack d.cls p⟩)
  | none =>
    match _h : findFirst d.opn p with
    | some i =>
      let r := scan (some []) (p.drop (i + d.opn.length))
      (⟨p.take i ++ r.1.visible, r.1.extracted⟩, r.2)
    | none => (⟨released d.opn p, []⟩, ⟨none, heldBack d.opn p⟩)
termination_by p.length
decreasing_by
  · exact findFirst_drop_lt d.cls_ne _h
  · exact findFirst_drop_lt d.opn_ne _h

theorem scan_some_some {content p : List α} (h : findFirst d.cls p = some i) :
    scan d (some content) p =
      (⟨(scan d none (p.drop (i + d.cls.length))).1.visible,
        (content ++ p.take i) :: (scan d none (p.drop (i + d.cls.length))).1.extracted⟩,
        (scan d none (p.drop (i + d.cls.length))).2) := by
  conv_lhs => rw [scan]
  split <;> simp_all

theorem scan_some_none {content p : List α} (h : findFirst d.cls p = none) :
    scan d (some content) p =
      (⟨[], []⟩, ⟨some (content ++ released d.cls p), heldBack d.cls p⟩) := by
  conv_lhs => rw [scan]
  split <;> simp_all

theorem scan_none_some {p : List α} (h : findFirst d.opn p = some i) : scan d none p =
      (⟨p.take i ++ (scan d (some []) (p.drop (i + d.opn.length))).1.visible,
        (scan d (some []) (p.drop (i + d.opn.length))).1.extracted⟩,
        (scan d (some []) (p.drop (i + d.opn.length))).2) := by
  conv_lhs => rw [scan]
  split <;> simp_all

theorem scan_none_none {p : List α} (h : findFirst d.opn p = none) :
    scan d none p = (⟨released d.opn p, []⟩, ⟨none, heldBack d.opn p⟩) := by
  conv_lhs => rw [scan]
  split <;> simp_all

theorem scan_append (active : Option (List α)) (p t : List α) : scan d active (p ++ t) =
      ((scan d active p).1.append
          (scan d (scan d active p).2.active ((scan d active p).2.pending ++ t)).1,
        (scan d (scan d active p).2.active ((scan d active p).2.pending ++ t)).2) := by
  induction hn : p.length using Nat.strong_induction_on generalizing active p with
  | _ n ih =>
    -- a delimiter found in `p` stays where it is when `t` follows
    have hfound : ∀ {needle : List α} {i : Nat}, findFirst needle p = some i →
        (p ++ t).take i = p.take i ∧
          (p ++ t).drop (i + needle.length) = p.drop (i + needle.length) ++ t := by
      intro needle i h
      obtain ⟨hi, hp, -⟩ := findFirst_eq_some.mp h
      have hl := hp.length_le
      simp only [length_drop] at hl
      exact ⟨take_append_of_le_length hi, drop_append_of_le_length (by omega)⟩
    -- a delimiter found from what was held back is found there in the whole
    have hlater : ∀ {needle : List α} {i : Nat}, findFirst needle p = none →
        findFirst needle (heldBack needle p ++ t) = some i →
        findFirst needle (p ++ t) = some ((released needle p).length + i) ∧
          (p ++ t).take ((released needle p).length + i) =
            released needle p ++ (heldBack needle p ++ t).take i ∧
          (p ++ t).drop ((released needle p).length + i + needle.length) =
            (heldBack needle p ++ t).drop (i + needle.length) := by
      intro needle i hnone h
      refine ⟨by rw [findFirst_append_of_none hnone, h]; rfl, ?_, ?_⟩
      · have hs : p ++ t = released needle p ++ (heldBack needle p ++ t) := by
          rw [← List.append_assoc, released_append_heldBack]
        rw [hs, take_length_add_append]
      · rw [Nat.add_assoc, occurs_shift]
    cases active with
    | some content =>
      cases h : findFirst d.cls p with
      | some i =>
        have hlt := findFirst_drop_lt d.cls_ne h
        rw [scan_some_some d h, scan_some_some d (findFirst_append_of_some h t),
          (hfound h).1, (hfound h).2, ih _ (by omega) none _ rfl]
        rfl
      | none =>
        rw [scan_some_none d h]
        cases h2 : findFirst d.cls (heldBack d.cls p ++ t) with
        | some i =>
          obtain ⟨g1, g2, g3⟩ := hlater h h2
          rw [scan_some_some d g1, scan_some_some d h2, g2, g3]
          simp [ScanOutput.append]
        | none =>
          have g1 : findFirst d.cls (p ++ t) = none := by
            rw [findFirst_append_of_none h, h2]
            rfl
          obtain ⟨g2, g3⟩ := split_append d.cls_ne p t
          rw [scan_some_none d g1, scan_some_none d h2, g2, g3]
          simp [ScanOutput.append]
    | none =>
      cases h : findFirst d.opn p with
      | some i =>
        have hlt := findFirst_drop_lt d.opn_ne h
        rw [scan_none_some d h, scan_none_some d (findFirst_append_of_some h t),
          (hfound h).1, (hfound h).2, ih _ (by omega) (some []) _ rfl]
        simp [ScanOutput.append]
      | none =>
        rw [scan_none_none d h]
        cases h2 : findFirst d.opn (heldBack d.opn p ++ t) with
        | some i =>
          obtain ⟨g1, g2, g3⟩ := hlater h h2
          rw [scan_none_some d g1, scan_none_some d h2, g2, g3]
          simp [ScanOutput.append]
        | none =>
          have g1 : findFirst d.opn (p ++ t) = none := by
            rw [findFirst_append_of_none h, h2]
            rfl
          obtain ⟨g2, g3⟩ := split_append d.opn_ne p t
          rw [scan_none_none d g1, scan_none_none d h2, g2, g3]
          simp [ScanOutput.append]

/-! ## Settled states -/

def Delimiters.next (active : Option (List α)) : List α :=
  match active with
  | some _ => d.cls
  | none => d.opn

def ScanState.Settled (st : ScanState α) : Prop :=
  findFirst (d.next st.active) st.pending = none ∧
    longestSuffixPrefix (d.next st.active) st.pending = st.pending.length

theorem heldBack_settled {needle p : List α} (hne : needle ≠ []) :
    findFirst needle (heldBack needle p) = none ∧
      longestSuffixPrefix needle (heldBack needle p) = (heldBack needle p).length := by
  have hlt : (heldBack needle p).length < needle.length := by
    have h1 := longestFrom_le needle p (min p.length (needle.length - 1))
    have h2 := length_pos_iff.mpr hne
    rw [heldBack_length]
    unfold longestSuffixPrefix
    omega
  constructor
  · rw [findFirst_eq_none]
    intro i _ hp
    have := hp.length_le
    simp only [length_drop] at this
    omega
  · apply Nat.le_antisymm (longestSuffixPrefix_le _ _)
    exact le_longestSuffixPrefix suffix_rfl (heldBack_isPrefix _ _) hlt

theorem scan_settled (active : Option (List α)) (p : List α) : (scan d active p).2.Settled d := by
  induction hn : p.length using Nat.strong_induction_on generalizing active p with
  | _ n ih =>
    cases active with
    | some content =>
      cases h : findFirst d.cls p with
      | some i =>
        have hlt := findFirst_drop_lt d.cls_ne h
        rw [scan_some_some d h]
        exact ih _ (by omega) none _ rfl
      | none =>
        rw [scan_some_none d h]
        exact heldBack_settled d.cls_ne
    | none =>
      cases h : findFirst d.opn p with
      | some i =>
        have hlt := findFirst_drop_lt d.opn_ne h
        rw [scan_none_some d h]
        exact ih _ (by omega) (some []) _ rfl
      | none =>
        rw [scan_none_none d h]
        exact heldBack_settled d.opn_ne

theorem start_settled : ScanState.Settled d ⟨none, []⟩ := by
  constructor
  · rw [findFirst_eq_none]
    intro i _ hp
    rw [drop_nil] at hp
    exact d.opn_ne (prefix_nil.mp hp)
  · exact Nat.le_zero.mp (longestSuffixPrefix_le _ _)

theorem scan_of_settled {st : ScanState α} (h : st.Settled d) :
    scan d st.active st.pending = (⟨[], []⟩, st) := by
  obtain ⟨active, pending⟩ := st
  obtain ⟨h1, h2⟩ := h
  cases active with
  | some content =>
    have h2' : longestSuffixPrefix d.cls pending = pending.length := h2
    rw [scan_some_none d h1]
    simp [released, heldBack, h2']
  | none =>
    have h2' : longestSuffixPrefix d.opn pending = pending.length := h2
    rw [scan_none_none d h1]
    simp [released, heldBack, h2']

end Foundation
