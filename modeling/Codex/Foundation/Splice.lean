import Mathlib.Data.List.InsertIdx
import Mathlib.Data.List.Flatten
import Mathlib.Data.List.Sort

/-!
# Insertions and replacements in a list

The places for new elements are collected by index in one pass. Inserting from the last
place to the first needs no new indices: each element is followed by its own
(`insertBehind_eq`).

Edits of a list replace stretches of it, named by start and length in the unedited list.
The splice does them all at once. Done one by one from the last to the first they give
the splice, if they are sorted by start and what follows a replaced stretch starts
behind it.
-/

namespace Foundation

open List

/-! ## Elements inserted behind others -/

section
variable {α : Type*}

def behind (new : α → Option α) (l : List α) : List (ℕ × α) :=
  l.zipIdx.filterMap fun (a, idx) => (new a).map fun b => (idx, b)

def insertBehind (places : List (ℕ × α)) (l : List α) : List α :=
  places.reverse.foldl (fun items (idx, b) => items.insertIdx (idx + 1) b) l

theorem insertIdx_append (p q : List α) (b : α) : (p ++ q).insertIdx p.length b = p ++ b :: q := by
  induction p with
  | nil => rfl
  | cons a p ih => rw [cons_append, length_cons, insertIdx_succ_cons, ih]; rfl

theorem insertBehind_cons (idx : ℕ) (b : α) (places : List (ℕ × α)) (l : List α) :
    insertBehind ((idx, b) :: places) l = (insertBehind places l).insertIdx (idx + 1) b := by
  unfold insertBehind
  rw [reverse_cons, foldl_append]
  rfl

theorem insertBehind_from (new : α → Option α) (p l : List α) :
    insertBehind ((l.zipIdx p.length).filterMap fun (a, idx) => (new a).map fun b => (idx, b))
        (p ++ l) =
      p ++ l.flatMap fun a => a :: (new a).toList := by
  induction l generalizing p with
  | nil => rfl
  | cons a l ih =>
    have hrest := ih (p ++ [a])
    rw [length_append, length_singleton, List.append_assoc, singleton_append,
      List.append_assoc, singleton_append] at hrest
    rw [zipIdx_cons, filterMap_cons, flatMap_cons]
    cases hnew : new a with
    | none => simpa [hnew] using hrest
    | some b =>
      simp only [hnew, Option.map_some, insertBehind_cons, hrest, Option.toList_some]
      have hplace := insertIdx_append (p ++ [a]) (l.flatMap fun a => a :: (new a).toList) b
      simpa using hplace

theorem insertBehind_eq (new : α → Option α) (l : List α) :
    insertBehind (behind new l) l = l.flatMap fun a => a :: (new a).toList :=
  insertBehind_from new [] l

theorem flatMap_filter {β : Type*} (p : α → Bool) (f : α → List β) (l : List α) :
    (l.filter p).flatMap f = l.flatMap fun a => if p a then f a else [] := by
  induction l with
  | nil => rfl
  | cons a l ih =>
    rw [filter_cons, flatMap_cons, ← ih]
    split <;> simp

end

section
variable {α : Type*} {le : α → α → Prop} [DecidableRel le] [IsTrans α le] {R : α → α → Prop}

/-- A relation for the order in which a stable sort leaves two elements. -/
def Sorts (le R : α → α → Prop) (a b : α) : Prop := (le a b → R a b) ∧ (¬ le a b → R b a)

theorem pairwise_orderedInsert {a : α} {l : List α} (hsorted : l.Pairwise le) :
    (l.orderedInsert le a).Pairwise R ↔ l.Pairwise R ∧ ∀ b ∈ l, Sorts le R a b := by
  induction l with
  | nil => simp
  | cons b l ih =>
    obtain ⟨hb, hl⟩ := pairwise_cons.mp hsorted
    rw [orderedInsert_cons]
    by_cases hab : le a b
    · have hall : ∀ c ∈ b :: l, le a c := by
        intro c hc
        rcases mem_cons.mp hc with rfl | hc
        · exact hab
        · exact Trans.trans hab (hb c hc)
      rw [if_pos hab, pairwise_cons, and_comm]
      refine and_congr_right fun _ => forall₂_congr fun c hc => ?_
      simp [Sorts, hall c hc]
    · rw [if_neg hab, pairwise_cons, ih hl, pairwise_cons]
      simp only [mem_orderedInsert, forall_eq_or_imp, mem_cons]
      have hsorts : Sorts le R a b ↔ R b a := by simp [Sorts, hab]
      tauto

theorem pairwise_insertionSort [Std.Total le] {l : List α} :
    (l.insertionSort le).Pairwise R ↔ l.Pairwise (Sorts le R) := by
  induction l with
  | nil => simp
  | cons a l ih =>
    rw [insertionSort_cons, pairwise_orderedInsert (List.pairwise_insertionSort le l), ih,
      pairwise_cons, and_comm]
    simp only [mem_insertionSort]

end

/-! ## Edits -/

abbrev Edit (α : Type*) := ℕ × ℕ × List α

variable {α : Type*} {lines : List α} {edit : Edit α} {edits : List (Edit α)} {i : ℕ}

namespace Edit

def stop (edit : Edit α) : ℕ := edit.1 + edit.2.1

def covers (edit : Edit α) (i : ℕ) : Bool := edit.1 ≤ i && i < edit.stop

def apply (edit : Edit α) (lines : List α) : List α :=
  lines.take edit.1 ++ edit.2.2 ++ lines.drop edit.stop

end Edit

/-- What is at a position after all edits at once: what is put there, in order, and the
old element if no edit covers it. -/
def spliceAt (lines : List α) (edits : List (Edit α)) (i : ℕ) : List α :=
  (edits.filter fun edit => edit.1 = i).flatMap (·.2.2) ++
    if edits.any fun edit => edit.covers i then [] else lines[i]?.toList

def splice (lines : List α) (edits : List (Edit α)) : List α :=
  (List.range (lines.length + 1)).flatMap (spliceAt lines edits)

/-- Sorted edits inside the list; what follows an edit that removes something starts
behind what it removes. -/
structure WellPlaced (lines : List α) (edits : List (Edit α)) : Prop where
  sorted : edits.Pairwise fun edit later => edit.1 ≤ later.1
  inside : ∀ edit ∈ edits, edit.stop ≤ lines.length
  apart : edits.Pairwise fun edit later => 0 < edit.2.1 → edit.stop ≤ later.1

theorem WellPlaced.stop_le (h : WellPlaced lines (edit :: edits)) :
    ∀ later ∈ edits, edit.stop ≤ later.1 := by
  intro later hlater
  have hle := (pairwise_cons.mp h.sorted).1 later hlater
  rcases Nat.eq_zero_or_pos edit.2.1 with hzero | hpos
  · unfold Edit.stop
    omega
  · exact (pairwise_cons.mp h.apart).1 later hlater hpos

theorem WellPlaced.tail (h : WellPlaced lines (edit :: edits)) : WellPlaced lines edits where
  sorted := (pairwise_cons.mp h.sorted).2
  inside := fun e he => h.inside e (mem_cons_of_mem _ he)
  apart := (pairwise_cons.mp h.apart).2

/-! ## One after the other -/

theorem spliceAt_before (h : ∀ edit ∈ edits, i < edit.1) :
    spliceAt lines edits i = lines[i]?.toList := by
  have hnone : (edits.filter fun edit => edit.1 = i) = [] := by
    refine filter_eq_nil_iff.mpr fun edit he heq => ?_
    have := h edit he
    have := of_decide_eq_true heq
    omega
  have hany : (edits.any fun edit => edit.covers i) = false := by
    refine any_eq_false.mpr fun edit he hcov => ?_
    have := h edit he
    simp [Edit.covers] at hcov
    omega
  unfold spliceAt
  rw [hnone, hany]
  simp

theorem spliceAt_cons (h : WellPlaced lines (edit :: edits)) :
    spliceAt lines (edit :: edits) i = (if edit.1 = i then edit.2.2 else []) ++
      if edit.covers i then [] else spliceAt lines edits i := by
  cases hcov : edit.covers i with
  | false =>
    unfold spliceAt
    rw [any_cons, hcov, Bool.false_or]
    by_cases hi : edit.1 = i <;> simp [hi]
  | true =>
    -- nothing later starts inside what the edit removes
    have hnone : (edits.filter fun later => later.1 = i) = [] := by
      refine filter_eq_nil_iff.mpr fun later hlater heq => ?_
      have hstop := h.stop_le later hlater
      have := of_decide_eq_true heq
      simp [Edit.covers] at hcov
      omega
    unfold spliceAt
    rw [any_cons, hcov, Bool.true_or]
    by_cases hi : edit.1 = i <;> simp [hi, hnone]

theorem flatMap_getElem (lines : List α) {m n : ℕ} (h : m + n ≤ lines.length) :
    ((List.range' m n).flatMap fun i => lines[i]?.toList) = (lines.drop m).take n := by
  induction n generalizing m with
  | zero => simp
  | succ n ih =>
    have hm : m < lines.length := by omega
    rw [range'_succ, flatMap_cons, ih (by omega), drop_eq_getElem_cons hm,
      take_succ_cons, List.getElem?_eq_getElem hm]
    rfl

theorem flatMap_before {m n : ℕ} (hlen : m + n ≤ lines.length)
    (h : ∀ edit ∈ edits, m + n ≤ edit.1) :
    (List.range' m n).flatMap (spliceAt lines edits) = (lines.drop m).take n := by
  rw [← flatMap_getElem lines hlen]
  refine flatMap_congr fun i hi => spliceAt_before fun edit he => ?_
  have := (mem_range'_1.mp hi).2
  have := h edit he
  omega

def spliceFrom (lines : List α) (edits : List (Edit α)) (pos : ℕ) : List α :=
  (List.range' pos (lines.length + 1 - pos)).flatMap (spliceAt lines edits)

variable (edits) in
theorem spliceFrom_split {m n : ℕ} (h : m + n ≤ lines.length + 1) : spliceFrom lines edits m =
      (List.range' m n).flatMap (spliceAt lines edits) ++ spliceFrom lines edits (m + n) := by
  unfold spliceFrom
  rw [← flatMap_append, range'_append_1]
  congr 2
  omega

theorem spliceFrom_edit (h : WellPlaced lines (edit :: edits)) :
    spliceFrom lines (edit :: edits) edit.1 = edit.2.2 ++ spliceFrom lines edits edit.stop := by
  have hstop := h.inside edit mem_cons_self
  have hbehind : ∀ i, edit.1 < i → edit.stop ≤ i →
      spliceAt lines (edit :: edits) i = spliceAt lines edits i := by
    intro i hlt hle
    have hcov : edit.covers i = false := by simp [Edit.covers, hle]
    rw [spliceAt_cons h, if_neg (Nat.ne_of_lt hlt), hcov]
    rfl
  have hrest : ∀ m, edit.1 < m → edit.stop ≤ m →
      spliceFrom lines (edit :: edits) m = spliceFrom lines edits m := by
    intro m hlt hle
    refine flatMap_congr fun i hi => hbehind i ?_ ?_
    · exact hlt.trans_le (mem_range'_1.mp hi).1
    · exact hle.trans (mem_range'_1.mp hi).1
  have hle : edit.1 ≤ edit.stop := Nat.le_add_right _ _
  rcases hle.eq_or_lt with heq | hlt
  · have hcov : edit.covers edit.1 = false := by simp [Edit.covers, ← heq]
    rw [spliceFrom_split _ (n := 1) (by omega), spliceFrom_split edits (n := 1) (by omega),
      ← heq, hrest (edit.1 + 1) (by omega) (by omega)]
    simp [spliceAt_cons h, hcov]
  · have hgone : ∀ i ∈ List.range' (edit.1 + 1) (edit.stop - edit.1 - 1),
        spliceAt lines (edit :: edits) i = [] := by
      intro i hi
      have hi := mem_range'_1.mp hi
      have hcov : edit.covers i = true := by
        simp [Edit.covers]
        omega
      rw [spliceAt_cons h, if_neg (by omega), hcov]
      rfl
    have hcov : edit.covers edit.1 = true := by simp [Edit.covers, hlt]
    rw [spliceFrom_split _ (n := edit.stop - edit.1) (by omega), Nat.add_sub_cancel' hle,
      hrest _ hlt le_rfl, show edit.stop - edit.1 = edit.stop - edit.1 - 1 + 1 by omega,
      range'_succ, flatMap_cons, flatMap_eq_nil_iff.mpr hgone, spliceAt_cons h, hcov]
    simp

theorem foldr_apply {m : ℕ} (h : WellPlaced lines edits) (hpos : ∀ edit ∈ edits, m ≤ edit.1)
    (hlen : m ≤ lines.length) :
    edits.foldr Edit.apply lines = lines.take m ++ spliceFrom lines edits m := by
  induction edits generalizing m with
  | nil =>
    have hsplit := spliceFrom_split [] (m := m) (n := lines.length - m)
      (by omega : m + (lines.length - m) ≤ lines.length + 1)
    have hrest : spliceFrom lines [] lines.length = [] := by simp [spliceFrom, spliceAt]
    have hall : (lines.drop m).take (lines.length - m) = lines.drop m := take_of_length_le (by simp)
    rw [hsplit, flatMap_before (by omega) (by simp), Nat.add_sub_cancel' hlen, hrest,
      append_nil, hall, take_append_drop]
    rfl
  | cons edit edits ih =>
    have hstop := h.inside edit mem_cons_self
    have hstart := hpos edit mem_cons_self
    have hle : edit.1 ≤ edit.stop := Nat.le_add_right _ _
    have hbefore : ∀ e ∈ edit :: edits, m + (edit.1 - m) ≤ e.1 := by
      intro e he
      rw [Nat.add_sub_cancel' hstart]
      rcases mem_cons.mp he with rfl | he
      · exact le_rfl
      · exact (pairwise_cons.mp h.sorted).1 e he
    have hsplit := spliceFrom_split (edit :: edits) (m := m) (n := edit.1 - m)
      (by omega : m + (edit.1 - m) ≤ lines.length + 1)
    rw [hsplit, flatMap_before (by omega) hbefore, Nat.add_sub_cancel' hstart, spliceFrom_edit h,
      foldr_cons, ih h.tail h.stop_le hstop]
    have hlength : (lines.take edit.stop).length = edit.stop := by simp [hstop]
    have htake : lines.take edit.1 = lines.take m ++ (lines.drop m).take (edit.1 - m) := by
      rw [← take_add, Nat.add_sub_cancel' hstart]
    unfold Edit.apply
    rw [take_append_of_le_length (by omega), take_take, Nat.min_eq_left hle,
      drop_left' hlength, htake]
    simp

theorem foldr_apply_eq_splice (h : WellPlaced lines edits) :
    edits.foldr Edit.apply lines = splice lines edits := by
  rw [foldr_apply h (m := 0) (by simp) (Nat.zero_le _)]
  simp [splice, spliceFrom, range_eq_range']

end Foundation
