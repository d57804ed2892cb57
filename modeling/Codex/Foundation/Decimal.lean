import Codex.Foundation.Utf8
import Mathlib.Tactic.Ring

/-!
# Written numbers

A machine word written in decimal, and the text of one read back: a sign `+` may stand in
front, the rest are digits, and the number fits the word. Also a number as a fixed count of
bytes, the lowest first: reading gives back what fits.
-/

namespace Foundation

def decimal (n : ℕ) : Text := Nat.toDigits 10 n

def withoutPlus : Text → Text
  | '+' :: digits => digits
  | s => s

/-- `usize` is a 64-bit word. -/
def parseUsize (s : Text) : Option ℕ :=
  let digits := withoutPlus s
  if digits = [] ∨ ¬ digits.all Char.isDigit then none
  else
    let n := Nat.ofDigitChars 10 digits 0
    if n < UInt64.size then some n else none

theorem isDigit_of_decimal {n : ℕ} {c : Char} (h : c ∈ decimal n) : c.isDigit = true :=
  Nat.isDigit_of_mem_toDigits (by omega) (Nat.le_refl _) h

theorem decimal_injective : Function.Injective decimal := by
  intro m n h
  have hvalue := congrArg (fun digits => Nat.ofDigitChars 10 digits 0) h
  simpa [decimal, Nat.ofDigitChars_ten_toDigits] using hvalue

theorem digits_inj {a a' d d' : Text} {x x' : Char} (hd : ∀ c ∈ d, c.isDigit = true)
    (hd' : ∀ c ∈ d', c.isDigit = true) (hx : x.isDigit = false) (hx' : x'.isDigit = false)
    (h : a ++ x :: d = a' ++ x' :: d') : a = a' ∧ x = x' ∧ d = d' := by
  rcases List.append_eq_append_iff.mp h with ⟨m, rfl, hm⟩ | ⟨m, rfl, hm⟩
  · cases m with
    | nil =>
      cases hm
      simp
    | cons y m =>
      cases hm
      have hdigit := hd x' (by simp)
      simp [hx'] at hdigit
  · cases m with
    | nil =>
      cases hm
      simp
    | cons y m =>
      cases hm
      have hdigit := hd' x (by simp)
      simp [hx] at hdigit

theorem decimal_ne_nil (n : ℕ) : decimal n ≠ [] := Nat.toDigits_ne_nil

theorem digit_range {c : Char} (h : c.isDigit = true) : 48 ≤ c.toNat ∧ c.toNat ≤ 57 := by
  simp only [Char.isDigit, Bool.and_eq_true, decide_eq_true_eq] at h
  exact h

theorem ascii_decimal (n : ℕ) : Ascii (decimal n) := by
  intro c hc
  have hrange := digit_range (isDigit_of_decimal hc)
  omega

theorem not_whitespace_of_isDigit {c : Char} (h : c.isDigit = true) : isWhitespace c = false := by
  have hrange := digit_range h
  unfold isWhitespace
  simp only [Bool.or_eq_false_iff, Bool.and_eq_false_iff, decide_eq_false_iff_not,
    beq_eq_false_iff_ne]
  omega

theorem withoutPlus_decimal (n : ℕ) : withoutPlus (decimal n) = decimal n := by
  unfold withoutPlus
  split
  · rename_i digits h
    have hplus : '+' ∈ decimal n := by
      rw [h]
      exact List.mem_cons_self
    exact absurd (isDigit_of_decimal hplus) (by decide)
  · rfl

theorem parseUsize_decimal {n : ℕ} (h : n < UInt64.size) : parseUsize (decimal n) = some n := by
  have hdigits : (decimal n).all Char.isDigit = true :=
    List.all_eq_true.mpr fun c hc => isDigit_of_decimal hc
  have hvalue : Nat.ofDigitChars 10 (decimal n) 0 = n := Nat.ofDigitChars_ten_toDigits
  unfold parseUsize
  simp only [withoutPlus_decimal, hvalue]
  rw [if_neg, if_pos h]
  rw [not_or, not_not]
  exact ⟨decimal_ne_nil n, hdigits⟩

theorem decimal_ofDigitChars {d : Text} (hd : ∀ c ∈ d, c.isDigit = true) (hne : d ≠ [])
    (hzero : d.head? = some '0' → d = ['0']) : decimal (Nat.ofDigitChars 10 d 0) = d := by
  induction d using List.reverseRecOn with
  | nil => exact absurd rfl hne
  | append_singleton d c ih =>
    have hc := digit_range (hd c (by simp))
    have hoffset : '0'.toNat = 48 := rfl
    have hlast : Nat.toDigits 10 (c.toNat - 48) = [c] := by
      rw [Nat.toDigits_of_lt_base (by omega)]
      refine congrArg (fun c => [c]) (Char.toNat_inj.mp ?_)
      rw [Nat.toNat_digitChar_of_lt_ten (by omega)]
      omega
    rw [Nat.ofDigitChars_append, Nat.ofDigitChars_cons, Nat.ofDigitChars_nil, hoffset]
    by_cases hd' : d = []
    · subst hd'
      simpa [decimal] using hlast
    · have hhead : (d ++ [c]).head? = d.head? := List.head?_append_of_ne_nil d hd'
      have hnot : d.head? ≠ some '0' := by
        intro h
        have heq := congrArg List.length (hzero (hhead.trans h))
        exact hd' (List.length_eq_zero_iff.mp (by simpa using heq))
      have hval : decimal (Nat.ofDigitChars 10 d 0) = d :=
        ih (fun c hc => hd c (by simp [hc])) hd' fun h => absurd h hnot
      have hpos : 0 < Nat.ofDigitChars 10 d 0 := by
        rcases Nat.eq_zero_or_pos (Nat.ofDigitChars 10 d 0) with h | h
        · rw [h] at hval
          refine absurd ?_ hnot
          rw [← hval]
          rfl
        · exact h
      calc decimal (10 * Nat.ofDigitChars 10 d 0 + (c.toNat - 48))
        _ = decimal (Nat.ofDigitChars 10 d 0) ++ Nat.toDigits 10 (c.toNat - 48) :=
          (Nat.toDigits_append_toDigits (by omega) hpos (by omega)).symm
        _ = d ++ [c] := by rw [hval, hlast]

/-! ## Little-endian numbers -/

def toLe : ℕ → ℕ → List UInt8
  | 0, _ => []
  | width + 1, n => UInt8.ofNat n :: toLe width (n / 256)

def fromLe : List UInt8 → ℕ
  | [] => 0
  | b :: bytes => b.toNat + 256 * fromLe bytes

theorem length_toLe (width n : ℕ) : (toLe width n).length = width := by
  induction width generalizing n with
  | zero => rfl
  | succ width ih => simp [toLe, ih]

theorem fromLe_toLe {width n : ℕ} (h : n < 256 ^ width) : fromLe (toLe width n) = n := by
  induction width generalizing n with
  | zero =>
    obtain rfl : n = 0 := by omega
    rfl
  | succ width ih =>
    have hrest : n / 256 < 256 ^ width := by omega
    rw [toLe, fromLe, ih hrest, UInt8.toNat_ofNat']
    omega

theorem toLe_fromLe (bytes : List UInt8) : toLe bytes.length (fromLe bytes) = bytes := by
  induction bytes with
  | nil => rfl
  | cons b bytes ih =>
    have hb := b.toNat_lt
    have hlow : UInt8.ofNat (b.toNat + 256 * fromLe bytes) = b := by
      apply UInt8.toNat_inj.mp
      rw [UInt8.toNat_ofNat']
      omega
    have hhigh : (b.toNat + 256 * fromLe bytes) / 256 = fromLe bytes := by omega
    rw [List.length_cons, toLe, fromLe, hlow, hhigh, ih]

theorem fromLe_lt (bytes : List UInt8) : fromLe bytes < 256 ^ bytes.length := by
  induction bytes with
  | nil => simp [fromLe]
  | cons b bytes ih =>
    have hb := b.toNat_lt
    rw [fromLe, List.length_cons, pow_succ]
    omega

end Foundation
