import Mathlib.Data.List.DropRight

/-!
# Text as a list of characters

A string is its list of Unicode scalar values. Trimming, prefix stripping and
joining follow the string methods of the modelled language: white space is the
Unicode `White_Space` property, and a stripped prefix is compared literally.
-/

namespace Foundation

open List

abbrev Text := List Char

instance lawfulBEqText : LawfulBEq Text := inferInstance

/-! ## White space -/

/-- The code points of the Unicode property `White_Space`. -/
def isWhitespace (c : Char) : Bool :=
  let n := c.toNat
  (9 ≤ n && n ≤ 13) || n == 0x20 || n == 0x85 || n == 0xA0 || n == 0x1680 ||
    (0x2000 ≤ n && n ≤ 0x200A) || n == 0x2028 || n == 0x2029 || n == 0x202F ||
    n == 0x205F || n == 0x3000

def trimStart (s : Text) : Text := s.dropWhile isWhitespace

def trimEnd (s : Text) : Text := s.rdropWhile isWhitespace

def trim (s : Text) : Text := trimEnd (trimStart s)

variable {s t : Text} {sep : Char}

theorem trimStart_eq_self (h : ∀ c, s.head? = some c → isWhitespace c = false) :
    trimStart s = s := by
  cases s with
  | nil => rfl
  | cons c s => simp [trimStart, h c rfl]

theorem trimEnd_eq_self (h : ∀ c, s.getLast? = some c → isWhitespace c = false) :
    trimEnd s = s := by
  unfold trimEnd
  rw [rdropWhile_eq_self_iff]
  intro hl
  have := h (s.getLast hl) (List.getLast?_eq_getLast_of_ne_nil hl)
  simp [this]

theorem trim_eq_self (hh : ∀ c, s.head? = some c → isWhitespace c = false)
    (hl : ∀ c, s.getLast? = some c → isWhitespace c = false) : trim s = s := by
  unfold trim
  rw [trimStart_eq_self hh, trimEnd_eq_self hl]

theorem trimStart_suffix (s : Text) : trimStart s <:+ s := dropWhile_suffix _

theorem trimEnd_isPrefix (s : Text) : trimEnd s <+: s := rdropWhile_prefix _ _

theorem trimStart_head {c : Char} (h : (trimStart s).head? = some c) : isWhitespace c = false := by
  unfold trimStart at h
  cases hs : s.dropWhile isWhitespace with
  | nil => simp [hs] at h
  | cons d t =>
    have hd := head_dropWhile_not isWhitespace (l := s) (by simp [hs])
    simp only [hs, List.head?_cons, Option.some.injEq, head_cons] at h hd
    rw [← h]; exact hd

theorem trimEnd_getLast {c : Char} (h : (trimEnd s).getLast? = some c) :
    isWhitespace c = false := by
  have hne : trimEnd s ≠ [] := by intro e; simp [e] at h
  have hl := rdropWhile_last_not isWhitespace s hne
  rw [List.getLast?_eq_getLast_of_ne_nil hne, Option.some.injEq] at h
  rw [← h]
  unfold trimEnd at *
  simpa using hl

theorem trim_eq_nil : trim s = [] ↔ trimStart s = [] := by
  constructor
  · intro h
    cases hs : trimStart s with
    | nil => rfl
    | cons c t =>
      have hc : isWhitespace c = false := trimStart_head (by rw [hs]; rfl)
      have hall := rdropWhile_eq_nil_iff.mp h c (by rw [hs]; exact mem_cons_self)
      rw [hc] at hall
      cases hall
  · intro h
    rw [trim, h]
    rfl

theorem trimEnd_append_of_ne_nil (h : trimEnd t ≠ []) : trimEnd (s ++ t) = s ++ trimEnd t := by
  unfold trimEnd List.rdropWhile at *
  rw [reverse_append, dropWhile_append, if_neg (by simpa using h)]
  simp

theorem trimEnd_append_of_eq_nil (h : trimEnd t = []) : trimEnd (s ++ t) = trimEnd s := by
  unfold trimEnd List.rdropWhile at *
  rw [reverse_append, dropWhile_append, if_pos (by simpa using h)]

theorem trimEnd_idem (s : Text) : trimEnd (trimEnd s) = trimEnd s := rdropWhile_idempotent _ s

def toAsciiLowercase (s : Text) : Text := s.map Char.toLower

def eqIgnoreAsciiCase (s t : Text) : Bool := toAsciiLowercase s = toAsciiLowercase t

def stripPrefix : Text → Text → Option Text
  | [], s => some s
  | _ :: _, [] => none
  | a :: p, c :: s => if a = c then stripPrefix p s else none

theorem stripPrefix_eq_some {p r : Text} : stripPrefix p s = some r ↔ s = p ++ r := by
  induction p generalizing s with
  | nil => simp [stripPrefix]
  | cons a p ih =>
    cases s with
    | nil => simp [stripPrefix]
    | cons c s =>
      by_cases h : a = c
      · simp [stripPrefix, h, ih]
      · simp [stripPrefix, h, Ne.symm h]

@[simp] theorem stripPrefix_append (p r : Text) : stripPrefix p (p ++ r) = some r :=
  stripPrefix_eq_some.mpr rfl

/-! ## Splitting -/

def splitOnce (sep : Char) : Text → Option (Text × Text)
  | [] => none
  | c :: s => if c = sep then some ([], s) else (splitOnce sep s).map fun (a, b) => (c :: a, b)

theorem splitOnce_append (h : sep ∉ s) (t : Text) :
    splitOnce sep (s ++ sep :: t) = some (s, t) := by
  induction s with
  | nil => rw [nil_append, splitOnce, if_pos rfl]
  | cons c s ih =>
    rw [mem_cons, not_or] at h
    rw [cons_append, splitOnce, if_neg (Ne.symm h.1), ih h.2]
    rfl

theorem splitOnce_eq_none : splitOnce sep s = none ↔ sep ∉ s := by
  induction s with
  | nil => simp [splitOnce]
  | cons c s ih =>
    rw [splitOnce, mem_cons, not_or]
    by_cases h : c = sep
    · simp [h]
    · rw [if_neg h, Option.map_eq_none_iff, ih]
      simp [Ne.symm h]

theorem splitOnce_eq_some {a b : Text} :
    splitOnce sep s = some (a, b) ↔ s = a ++ sep :: b ∧ sep ∉ a := by
  constructor
  · intro h
    have hmem : sep ∈ s := by
      by_contra hnot
      rw [splitOnce_eq_none.mpr hnot] at h
      cases h
    obtain ⟨u, v, rfl, hu⟩ := eq_append_cons_of_mem hmem
    rw [splitOnce_append hu, Option.some.injEq, Prod.mk.injEq] at h
    obtain ⟨rfl, rfl⟩ := h
    exact ⟨rfl, hu⟩
  · rintro ⟨rfl, ha⟩
    exact splitOnce_append ha b

def rsplitOnce (sep : Char) (s : Text) : Option (Text × Text) :=
  (splitOnce sep s.reverse).map fun (b, a) => (a.reverse, b.reverse)

theorem rsplitOnce_append (h : sep ∉ t) : rsplitOnce sep (s ++ sep :: t) = some (s, t) := by
  have hrev : (s ++ sep :: t).reverse = t.reverse ++ sep :: s.reverse := by simp
  rw [rsplitOnce, hrev, splitOnce_append (mt mem_reverse.mp h)]
  simp

theorem not_mem_of_mem_splitOn {piece : Text} (h : piece ∈ s.splitOn sep) : sep ∉ piece := by
  induction s generalizing piece with
  | nil =>
    obtain rfl : piece = [] := by simpa using h
    simp
  | cons c s ih =>
    rw [splitOn_cons_eq_if_modifyHead] at h
    by_cases hc : (c == sep) = true
    · rw [if_pos hc] at h
      rcases mem_cons.mp h with rfl | h
      · simp
      · exact ih h
    · rw [if_neg hc] at h
      cases hs : s.splitOn sep with
      | nil => simp [hs] at h
      | cons first rest =>
        rw [hs] at h ih
        rcases mem_cons.mp h with rfl | h
        · have hne : sep ≠ c := by
            rintro rfl
            simp at hc
          have hfirst : sep ∉ first := ih (by simp)
          simp [hne, hfirst]
        · exact ih (mem_cons_of_mem _ h)

end Foundation
