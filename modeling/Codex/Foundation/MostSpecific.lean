import Mathlib.Data.List.Infix
import Mathlib.Data.List.MinMax
import Mathlib.Data.Prod.Lex

/-!
# The strictest and the most specific

Verdicts in a linear order, the strictest one last. The strictest of a list depends
on the set of its members alone, and more members never make it weaker.

Every entry of a list has a key, which is a path from the root of a tree, and a
value. An entry covers the paths its key is a prefix of. Of the entries that cover a
path the ones with the longest key decide, and among these the greatest value.
-/

namespace Foundation

open List

/-! ## The strictest of several verdicts -/

section
variable {α : Type} [LinearOrder α]

local instance lawfulOrderMax : Std.LawfulOrderMax α where
  max_le_iff _ _ _ := max_le_iff
  max_eq_or a b := by
    rcases le_total a b with h | h
    · exact .inr (max_eq_right h)
    · exact .inl (max_eq_left h)

theorem max?_eq_some {l : List α} {a : α} : l.max? = some a ↔ a ∈ l ∧ ∀ b ∈ l, b ≤ a :=
  List.max?_eq_some_iff

theorem max?_congr {l l' : List α} (h : ∀ a, a ∈ l ↔ a ∈ l') : l.max? = l'.max? := by
  cases hl : l.max? with
  | none =>
    obtain rfl := List.max?_eq_none_iff.mp hl
    have hnil : l' = [] := by
      refine eq_nil_iff_forall_not_mem.mpr fun a ha => ?_
      exact not_mem_nil ((h a).mpr ha)
    rw [hnil]
    rfl
  | some a =>
    obtain ⟨hm, hle⟩ := max?_eq_some.mp hl
    exact (max?_eq_some.mpr ⟨(h a).mp hm, fun b hb => hle b ((h b).mpr hb)⟩).symm

theorem max?_mono {l l' : List α} (h : ∀ a ∈ l, a ∈ l') {a : α} (ha : l.max? = some a) :
    ∃ b, l'.max? = some b ∧ a ≤ b := by
  obtain ⟨hm, -⟩ := max?_eq_some.mp ha
  cases hl : l'.max? with
  | none =>
    have hmem := h a hm
    rw [List.max?_eq_none_iff.mp hl] at hmem
    exact absurd hmem not_mem_nil
  | some b => exact ⟨b, rfl, (max?_eq_some.mp hl).2 a (h a hm)⟩

end

section
variable {β κ : Type} [Preorder κ] [DecidableLT κ]

def maxByKey (measure : β → κ) (l : List β) : Option β := l.reverse.argmax measure

end

section
variable {β κ : Type} [LinearOrder κ] {measure : β → κ} {l : List β} {m : β}

theorem maxByKey_eq_none : maxByKey measure l = none ↔ l = [] := by
  unfold maxByKey
  rw [argmax_eq_none, reverse_eq_nil_iff]

theorem maxByKey_mem (h : maxByKey measure l = some m) : m ∈ l := mem_reverse.mp (argmax_mem h)

theorem le_maxByKey (h : maxByKey measure l = some m) {e : β} (he : e ∈ l) :
    measure e ≤ measure m :=
  le_of_mem_argmax (mem_reverse.mpr he) h

end

section
variable {α β : Type}

/-- `d` is the longest key that covers `p`. -/
structure Nearest (key : β → List α) (l : List β) (p d : List α) : Prop where
  isKey : ∃ e ∈ l, key e = d
  covers : d <+: p
  longest : ∀ e ∈ l, key e <+: p → key e <+: d

variable {key : β → List α} {l : List β} {p q d : List α}

theorem Nearest.unique {d' : List α} (h : Nearest key l p d) (h' : Nearest key l p d') :
    d = d' := by
  obtain ⟨e, he, rfl⟩ := h.isKey
  obtain ⟨e', he', rfl⟩ := h'.isKey
  have hle := h'.longest e he h.covers
  have hge := h.longest e' he' h'.covers
  exact hle.eq_of_length (le_antisymm hle.length_le hge.length_le)

theorem nearest_self {e : β} (he : e ∈ l) : Nearest key l (key e) (key e) :=
  ⟨⟨e, he, rfl⟩, prefix_rfl, fun _ _ h => h⟩

theorem Nearest.congr {l' : List β} (h : ∀ e, e ∈ l ↔ e ∈ l') :
    Nearest key l p d ↔ Nearest key l' p d := by
  suffices himp : ∀ {l l' : List β}, (∀ e, e ∈ l ↔ e ∈ l') → Nearest key l p d → Nearest key l' p d
    from ⟨himp h, himp fun e => (h e).symm⟩
  intro l l' h hn
  obtain ⟨e, he, hkey⟩ := hn.isKey
  exact ⟨⟨e, (h e).mp he, hkey⟩, hn.covers, fun e he hep => hn.longest e ((h e).mpr he) hep⟩

end

/-! ## The ruling value -/

variable {α β γ : Type} [DecidableEq α] [LinearOrder γ]

def ruling (key : β → List α) (val : β → γ) (l : List β) (p : List α) : Option γ :=
  (maxByKey (fun e => toLex ((key e).length, val e)) (l.filter (key · <+: p))).map val

variable {key : β → List α} {val : β → γ} {l : List β} {p d : List α}

theorem ruling_eq_none : ruling key val l p = none ↔ ∀ e ∈ l, ¬ key e <+: p := by
  unfold ruling
  rw [Option.map_eq_none_iff, maxByKey_eq_none, filter_eq_nil_iff]
  simp only [decide_eq_true_eq]

theorem maxByKey_covering {m : β}
    (h : maxByKey (fun e => toLex ((key e).length, val e)) (l.filter (key · <+: p)) = some m) :
    m ∈ l ∧ key m <+: p ∧ ∀ e ∈ l, key e <+: p →
      (key e).length < (key m).length ∨ (key e).length = (key m).length ∧ val e ≤ val m := by
  obtain ⟨hml, hmp⟩ := mem_filter.mp (maxByKey_mem h)
  refine ⟨hml, of_decide_eq_true hmp, fun e he hep => ?_⟩
  have hle := le_maxByKey h (mem_filter.mpr ⟨he, decide_eq_true hep⟩)
  exact Prod.Lex.le_iff.mp hle

theorem ruling_eq_some {a : γ} : ruling key val l p = some a ↔
    ∃ d, Nearest key l p d ∧ (∃ e ∈ l, key e = d ∧ val e = a) ∧ ∀ e ∈ l, key e = d → val e ≤ a := by
  constructor
  · intro h
    obtain ⟨m, hm, rfl⟩ := Option.map_eq_some_iff.mp h
    obtain ⟨hml, hcov, hmax⟩ := maxByKey_covering hm
    refine ⟨key m, ⟨⟨m, hml, rfl⟩, hcov, fun e he hep => ?_⟩, ⟨m, hml, rfl, rfl⟩, ?_⟩
    · rcases hmax e he hep with hlt | ⟨heq, -⟩
      · exact prefix_of_prefix_length_le hep hcov (le_of_lt hlt)
      · exact prefix_of_prefix_length_le hep hcov (le_of_eq heq)
    · intro e he hkey
      rcases hmax e he (hkey ▸ hcov) with hlt | ⟨-, hle⟩
      · rw [hkey] at hlt
        exact absurd hlt (lt_irrefl _)
      · exact hle
  · rintro ⟨d, hn, ⟨e, he, hkey, rfl⟩, hle⟩
    cases hr : ruling key val l p with
    | none => exact absurd (hkey ▸ hn.covers) (ruling_eq_none.mp hr e he)
    | some b =>
      obtain ⟨m, hm, rfl⟩ := Option.map_eq_some_iff.mp hr
      obtain ⟨hml, hcov, hmax⟩ := maxByKey_covering hm
      have hmd : key m <+: d := hn.longest m hml hcov
      have hem := hmax e he (hkey ▸ hn.covers)
      rw [hkey] at hem
      rcases hem with hlt | ⟨heq, hval⟩
      · exact absurd hmd.length_le (Nat.not_le.mpr hlt)
      · exact congrArg some (le_antisymm (hle m hml (hmd.eq_of_length heq.symm)) hval)

theorem nearest_of_ruling {a : γ} (h : ruling key val l p = some a) : ∃ d, Nearest key l p d := by
  obtain ⟨d, hn, -⟩ := ruling_eq_some.mp h
  exact ⟨d, hn⟩

theorem ruling_congr {l' : List β} (h : ∀ e, e ∈ l ↔ e ∈ l') :
    ruling key val l p = ruling key val l' p := by
  ext a
  rw [ruling_eq_some, ruling_eq_some]
  simp only [Nearest.congr h, h]

theorem ruling_congr_covering {l' : List β} (h : ∀ e, key e <+: p → (e ∈ l ↔ e ∈ l')) :
    ruling key val l p = ruling key val l' p := by
  have hcovering : ∀ l : List β, ruling key val (l.filter (key · <+: p)) p = ruling key val l p := by
    intro l
    unfold ruling
    rw [filter_filter]
    simp only [Bool.and_self]
  rw [← hcovering l, ← hcovering l']
  refine ruling_congr fun e => ?_
  rw [mem_filter, mem_filter, decide_eq_true_iff]
  exact and_congr_left fun hcov => h e hcov

variable (key) in
theorem exists_nearest {e : β} (he : e ∈ l) (hcov : key e <+: p) :
    ∃ d, Nearest key l p d ∧ key e <+: d := by
  cases hr : ruling key (fun _ => (0 : ℕ)) l p with
  | none => exact absurd hcov (ruling_eq_none.mp hr e he)
  | some a =>
    obtain ⟨d, hn⟩ := nearest_of_ruling hr
    exact ⟨d, hn, hn.longest e he hcov⟩

end Foundation
