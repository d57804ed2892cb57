import Codex.Foundation.Text

/-!
# JSON

Values, and string literals: a text between quotation marks, with quotation marks,
backslashes and control characters escaped. Reading a written literal gives the text back,
whatever follows.
-/

namespace Foundation

open List

inductive Json where
  | null
  | bool (b : Bool)
  | number (text : Text)
  | string (s : Text)
  | array (items : List Json)
  | object (fields : List (Text × Json))

namespace Json

def get (value : Json) (key : Text) : Option Json :=
  match value with
  | .object fields => fields.lookup key
  | _ => none

def asStr : Json → Option Text
  | .string s => some s
  | _ => none

def asArray : Json → Option (List Json)
  | .array items => some items
  | _ => none

def named (fields : List (String × Json)) : Json :=
  .object (fields.map fun f => (f.1.toList, f.2))

/-- The field is set in an object; other values have no fields to set. -/
def insertField (value : Json) (key : Text) (v : Json) : Json :=
  match value with
  | .object fields => .object ((key, v) :: fields.filter fun f => f.1 ≠ key)
  | _ => value

theorem get_named (fields : List (String × Json)) (key : String) :
    (named fields).get key.toList = fields.lookup key := by
  change (fields.map fun f => (f.1.toList, f.2)).lookup key.toList = fields.lookup key
  induction fields with
  | nil => rfl
  | cons f fields ih =>
    have hkey : (key.toList == f.1.toList) = (key == f.1) := by
      rw [Bool.eq_iff_iff, beq_iff_eq, beq_iff_eq, String.toList_inj]
    rw [map_cons, lookup_cons, lookup_cons, ih, hkey]

end Json

def hexDigit (n : Nat) : Char := "0123456789abcdef".toList.getD n '0'

def shortEscapes : List (Char × Char) :=
  [('"', '"'), ('\\', '\\'), ('\x08', 'b'), ('\t', 't'), ('\n', 'n'), ('\x0c', 'f'), ('\r', 'r')]

def escapeChar (c : Char) : Text :=
  match shortEscapes.lookup c with
  | some letter => ['\\', letter]
  | none =>
    if c.toNat < 32 then
      ['\\', 'u', '0', '0', hexDigit (c.toNat / 16), hexDigit (c.toNat % 16)]
    else [c]

def jsonString (s : Text) : Text := '"' :: (s.flatMap escapeChar ++ ['"'])

def hexValue (c : Char) : Nat :=
  if 97 ≤ c.toNat then c.toNat - 87 else c.toNat - 48

def unescapeLetter (letter : Char) : Option Char :=
  if letter = '/' then some '/' else (shortEscapes.find? (·.2 = letter)).map (·.1)

def readQuoted : Text → Option (Text × Text)
  | [] => none
  | '"' :: s => some ([], s)
  | '\\' :: 'u' :: a :: b :: c :: d :: s =>
    (readQuoted s).map fun (t, rest) =>
      (Char.ofNat (hexValue a * 4096 + hexValue b * 256 + hexValue c * 16 + hexValue d) :: t, rest)
  | '\\' :: letter :: s =>
    match unescapeLetter letter with
    | none => none
    | some c => (readQuoted s).map fun (t, rest) => (c :: t, rest)
  | c :: s => (readQuoted s).map fun (t, rest) => (c :: t, rest)

def readJsonString : Text → Option (Text × Text)
  | '"' :: s => readQuoted s
  | _ => none

/-! ## Round trip -/

theorem hexValue_hexDigit : ∀ n < 16, hexValue (hexDigit n) = n := by decide

theorem hexDigit_printable : ∀ n < 16, 32 ≤ (hexDigit n).toNat := by decide

theorem shortEscapes_spec : ∀ p ∈ shortEscapes,
    unescapeLetter p.2 = some p.1 ∧ p.2 ≠ 'u' ∧ 32 ≤ p.2.toNat := by decide

theorem mem_of_lookup {c letter : Char} (h : shortEscapes.lookup c = some letter) :
    (c, letter) ∈ shortEscapes := by
  obtain ⟨l₁, l₂, hl, -⟩ := lookup_eq_some_iff.mp h
  rw [hl]
  exact mem_append_right _ mem_cons_self

theorem ne_of_lookup_none {c : Char} (h : shortEscapes.lookup c = none) :
    ∀ p ∈ shortEscapes, c ≠ p.1 := by
  intro p hp
  simpa using lookup_eq_none_iff.mp h p hp

theorem readQuoted_letter {letter c : Char} (hu : letter ≠ 'u')
    (h : unescapeLetter letter = some c) (s : Text) :
    readQuoted ('\\' :: letter :: s) = (readQuoted s).map fun (t, rest) => (c :: t, rest) := by
  simp [readQuoted, hu, h]

theorem readQuoted_escapeChar (c : Char) (s : Text) :
    readQuoted (escapeChar c ++ s) = (readQuoted s).map fun (t, rest) => (c :: t, rest) := by
  unfold escapeChar
  cases hl : shortEscapes.lookup c with
  | some letter =>
    obtain ⟨hread, hu, -⟩ := shortEscapes_spec _ (mem_of_lookup hl)
    exact readQuoted_letter hu hread s
  | none =>
    by_cases hc : c.toNat < 32
    · have hhi := hexValue_hexDigit (c.toNat / 16) (by omega)
      have hlo := hexValue_hexDigit (c.toNat % 16) (by omega)
      have hzero : hexValue '0' = 0 := by decide
      have hcode : c.toNat / 16 * 16 + c.toNat % 16 = c.toNat := by omega
      rw [if_pos hc]
      simp [readQuoted, hzero, hhi, hlo, hcode]
    · have hback : c ≠ '\\' := ne_of_lookup_none hl ('\\', '\\') (by decide)
      have hquote : c ≠ '"' := ne_of_lookup_none hl ('"', '"') (by decide)
      rw [if_neg hc]
      simp [readQuoted, hback]

theorem readQuoted_flatMap (s rest : Text) :
    readQuoted (s.flatMap escapeChar ++ '"' :: rest) = some (s, rest) := by
  induction s with
  | nil => simp [readQuoted]
  | cons c s ih =>
    rw [flatMap_cons, List.append_assoc, readQuoted_escapeChar, ih]
    rfl

@[simp] theorem readJsonString_jsonString (s rest : Text) :
    readJsonString (jsonString s ++ rest) = some (s, rest) := by
  unfold jsonString
  rw [cons_append, List.append_assoc]
  exact readQuoted_flatMap s rest

theorem printable_of_mem_jsonString {s : Text} {d : Char} (h : d ∈ jsonString s) :
    32 ≤ d.toNat := by
  have hmark : 32 ≤ ('"' : Char).toNat := by decide
  unfold jsonString at h
  rw [mem_cons, mem_append, mem_singleton, mem_flatMap] at h
  rcases h with rfl | ⟨c, -, hd⟩ | rfl
  · exact hmark
  · unfold escapeChar at hd
    cases hl : shortEscapes.lookup c with
    | some letter =>
      rw [hl] at hd
      obtain ⟨-, -, hletter⟩ := shortEscapes_spec _ (mem_of_lookup hl)
      rcases mem_pair.mp hd with rfl | rfl
      · decide
      · exact hletter
    | none =>
      rw [hl] at hd
      by_cases hc : c.toNat < 32
      · rw [if_pos hc] at hd
        simp only [mem_cons, not_mem_nil, or_false] at hd
        rcases hd with rfl | rfl | rfl | rfl | rfl | rfl
        · decide
        · decide
        · decide
        · decide
        · exact hexDigit_printable _ (by omega)
        · exact hexDigit_printable _ (by omega)
      · rw [if_neg hc] at hd
        rw [mem_singleton.mp hd]
        exact Nat.le_of_not_lt hc
  · exact hmark

theorem newline_not_mem_jsonString (s : Text) : '\n' ∉ jsonString s := by
  intro h
  exact absurd (printable_of_mem_jsonString h) (by decide)

end Foundation
