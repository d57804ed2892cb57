import Codex.Foundation.Text

/-!
# Comma-separated records

A field is plain text without separators, or quoted with its quotation marks doubled.
`readRecords` is a reader of such text; it gives back every list of written records,
whichever way its fields are written and its records end.
-/

namespace Foundation.Csv

open List

def IsSpecial (c : Char) : Prop := c = ',' ∨ c = '\n' ∨ c = '\r' ∨ c = '"'

instance (c : Char) : Decidable (IsSpecial c) := inferInstanceAs (Decidable (_ ∨ _ ∨ _ ∨ _))

def doubled (v : Text) : Text := v.flatMap fun c => if c = '"' then ['"', '"'] else [c]

def quoted (v : Text) : Text := '"' :: (doubled v ++ ['"'])

inductive WrittenField : Text → Text → Prop
  | plain {v} : (∀ c ∈ v, ¬ IsSpecial c) → WrittenField v v
  | quoted (v) : WrittenField (quoted v) v

inductive WrittenRecord : Text → List Text → Prop
  | last {t v} : WrittenField t v → WrittenRecord t [v]
  | cons {t v s vs} : WrittenField t v → WrittenRecord s vs → WrittenRecord (t ++ ',' :: s) (v :: vs)

/-- Records, each on at least one character and followed by its end. -/
inductive WrittenRecords : Text → List (List Text) → Prop
  | nil : WrittenRecords [] []
  | cons {t r ending s rs} : WrittenRecord t r → t ≠ [] →
      ending ∈ [['\n'], ['\r'], ['\r', '\n']] → WrittenRecords s rs →
      WrittenRecords (t ++ (ending ++ s)) (r :: rs)

/-! ## Reading -/

inductive Mode where
  | start
  | plain
  | quoted
  | closing
deriving DecidableEq

/-- The records from inside a record, with the field so far and those before it. -/
def readFrom : Mode → Text → List Text → Text → List (List Text)
  | mode, field, record, [] => if mode = .start ∧ record = [] then [] else [record ++ [field]]
  | mode, field, record, c :: s =>
    if mode = .quoted then
      if c = '"' then readFrom .closing field record s else readFrom .quoted (field ++ [c]) record s
    else if c = '"' then
      if mode = .start then readFrom .quoted field record s
      else if mode = .closing then readFrom .quoted (field ++ ['"']) record s
      else readFrom .plain (field ++ [c]) record s
    else if c = ',' then readFrom .start [] (record ++ [field]) s
    else if c = '\n' ∨ c = '\r' then
      -- an empty line is no record
      if mode = .start ∧ record = [] then readFrom .start [] [] s
      else (record ++ [field]) :: readFrom .start [] [] s
    else readFrom .plain (field ++ [c]) record s

def readRecords (text : Text) : List (List Text) := readFrom .start [] [] text

variable {t v s field : Text} {record r : List Text} {rs : List (List Text)}

theorem readFrom_plain (h : ∀ c ∈ t, ¬ IsSpecial c) (s : Text) {mode : Mode}
    (hmode : mode = .start ∨ mode = .plain) : readFrom mode field record (t ++ s) =
      readFrom (if t = [] then mode else .plain) (field ++ t) record s := by
  induction t generalizing field mode with
  | nil => rw [if_pos rfl, append_nil, nil_append]
  | cons c t ih =>
    obtain ⟨hc, ht⟩ := forall_mem_cons.mp h
    simp only [IsSpecial, not_or] at hc
    have hq : mode ≠ .quoted := by rcases hmode with rfl | rfl <;> decide
    rw [cons_append, readFrom, if_neg hq, if_neg hc.2.2.2, if_neg hc.1, if_neg (by simp [hc]),
      ih ht (.inr rfl), ite_self, if_neg (cons_ne_nil _ _), List.append_assoc,
      singleton_append]

theorem readFrom_quoted (v s : Text) : readFrom .quoted field record (doubled v ++ '"' :: s) =
      readFrom .closing (field ++ v) record s := by
  induction v generalizing field with
  | nil => simp [doubled, readFrom]
  | cons c v ih =>
    by_cases hc : c = '"'
    · subst hc
      rw [show doubled ('"' :: v) = '"' :: '"' :: doubled v from rfl, cons_append,
        cons_append, readFrom, if_pos rfl, if_pos rfl, readFrom]
      simpa using @ih (field ++ ['"'])
    · rw [show doubled (c :: v) = c :: doubled v by simp [doubled, hc], cons_append, readFrom,
        if_pos rfl, if_neg hc, ih, List.append_assoc, singleton_append]

theorem readFrom_field (h : WrittenField t v) (s : Text) :
    ∃ mode, mode ≠ .quoted ∧ (mode = .start → t = []) ∧
      ∀ record, readFrom .start [] record (t ++ s) = readFrom mode v record s := by
  cases h with
  | plain h =>
    refine ⟨if t = [] then .start else .plain, by split <;> decide, fun hm => ?_, fun record => ?_⟩
    · by_contra hne
      simp [hne] at hm
    · rw [readFrom_plain h s (.inl rfl), nil_append]
  | quoted =>
    refine ⟨.closing, by decide, nofun, fun record => ?_⟩
    rw [quoted, cons_append, List.append_assoc, singleton_append, readFrom]
    have hread : readFrom .quoted [] record _ = _ := readFrom_quoted v s
    simpa using hread

theorem readFrom_record (h : WrittenRecord t r) {c : Char} (hc : c = '\n' ∨ c = '\r') (s : Text)
    (hne : t ≠ [] ∨ record ≠ []) :
    readFrom .start [] record (t ++ c :: s) = (record ++ r) :: readFrom .start [] [] s := by
  have hq : c ≠ '"' ∧ c ≠ ',' := by rcases hc with rfl | rfl <;> decide
  induction h generalizing record with
  | last h =>
    obtain ⟨mode, hmode, hstart, hread⟩ := readFrom_field h (c :: s)
    rw [hread, readFrom, if_neg hmode, if_neg hq.1, if_neg hq.2, if_pos hc, if_neg]
    rintro ⟨rfl, hr⟩
    exact hne.elim (fun ht => ht (hstart rfl)) fun hr' => hr' hr
  | @cons _ v u _ h _ ih =>
    obtain ⟨mode, hmode, -, hread⟩ := readFrom_field h (',' :: (u ++ c :: s))
    rw [List.append_assoc, cons_append, hread, readFrom, if_neg hmode, if_neg (by decide),
      if_pos rfl, ih (.inr (by simp)), List.append_assoc, singleton_append]

theorem readRecords_written (h : WrittenRecords t rs) : readRecords t = rs := by
  induction h with
  | nil => rfl
  | @cons t r ending s rs hr hne hend _ ih =>
    unfold readRecords at ih ⊢
    simp only [mem_cons, not_mem_nil, or_false] at hend
    rcases hend with rfl | rfl | rfl
    · rw [singleton_append, readFrom_record hr (.inl rfl) s (.inl hne), ih, nil_append]
    · rw [singleton_append, readFrom_record hr (.inr rfl) s (.inl hne), ih, nil_append]
    · -- the line feed behind the carriage return reads as an empty line
      rw [cons_append, singleton_append, readFrom_record hr (.inr rfl) _ (.inl hne), readFrom]
      simpa using ih

end Foundation.Csv
