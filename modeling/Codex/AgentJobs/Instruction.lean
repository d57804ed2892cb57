import Codex.Foundation.Json
import Codex.Foundation.Replace
import Mathlib.Data.List.Chain
import Mathlib.Data.List.Find
import Mathlib.Data.List.Nodup

/-!
# The instruction of a worker

The template of a job's instruction is rendered by replacing the whole text again and
again: doubled braces become sentinels, the placeholder of each column becomes its value,
and the sentinels become braces. `substitute` is the one scan that this stands for. The two
agree where each replacement finds only what the scan finds in the instruction.
-/

namespace Codex.AgentJobs

open Foundation List

def OPEN_BRACE_SENTINEL : Text := "__CODEX_OPEN_BRACE__".toList
def CLOSE_BRACE_SENTINEL : Text := "__CODEX_CLOSE_BRACE__".toList

def placeholder (key : Text) : Text := '{' :: (key ++ ['}'])

/-- The columns of a row with the texts that replace them, in the order of the object. -/
def columns (jsonText : Json → Text) : Json → List (Text × Text)
  | .object fields => fields.map fun f => (f.1, f.2.asStr.getD (jsonText f.2))
  | _ => []

/-- `render_instruction_template`: a row that is no object replaces nothing. -/
def renderInstructionTemplate (jsonText : Json → Text) (instruction : Text) (rowJson : Json) : Text :=
  let rendered := replaceAll ['}', '}'] CLOSE_BRACE_SENTINEL
    (replaceAll ['{', '{'] OPEN_BRACE_SENTINEL instruction)
  let rendered := (columns jsonText rowJson).foldl
    (fun rendered column => replaceAll (placeholder column.1) column.2 rendered) rendered
  replaceAll CLOSE_BRACE_SENTINEL ['}'] (replaceAll OPEN_BRACE_SENTINEL ['{'] rendered)

/-! ## One scan -/

inductive Piece where
  | openBrace
  | closeBrace
  | column (key value : Text)
  | char (c : Char)
deriving DecidableEq

def scanFrom (row : List (Text × Text)) : ℕ → Text → List Piece
  | _, [] => []
  | skip + 1, _ :: s => scanFrom row skip s
  | 0, c :: s =>
    if ['{', '{'] <+: c :: s then .openBrace :: scanFrom row 1 s
    else if ['}', '}'] <+: c :: s then .closeBrace :: scanFrom row 1 s
    else match row.find? fun e => placeholder e.1 <+: c :: s with
      | some e => .column e.1 e.2 :: scanFrom row (e.1.length + 1) s
      | none => .char c :: scanFrom row 0 s

def scan (row : List (Text × Text)) (instruction : Text) : List Piece := scanFrom row 0 instruction

/-- A piece when the columns `done` are filled in, with these texts for the escaped braces. -/
def Piece.text (opened closed : Text) (done : List Text) : Piece → Text
  | .openBrace => opened
  | .closeBrace => closed
  | .column key value => if key ∈ done then value else placeholder key
  | .char c => [c]

def substitute (row : List (Text × Text)) (instruction : Text) : Text :=
  (scan row instruction).flatMap (Piece.text ['{'] ['}'] (row.map Prod.fst))

def Piece.isOpen (p : Piece) : Bool := p = .openBrace

def Piece.isClose (p : Piece) : Bool := p = .closeBrace

def Piece.isColumn (key : Text) : Piece → Bool
  | .column k _ => k = key
  | _ => false

def Piece.isPlaceholder : Piece → Bool
  | .column _ _ => true
  | _ => false

def Piece.closes (p : Piece) : Bool := p = .closeBrace || p = .char '}'

/-- The values and the rest of the instruction make no placeholder and no sentinel. -/
structure OnlyPieces (row : List (Text × Text)) (pieces : List Piece) : Prop where
  /-- No placeholder has another closing brace behind it. -/
  behind : pieces.IsChain fun p q => p.isPlaceholder → q.closes = false
  /-- With the values filled in, no stretch between two placeholders of a column holds that
  placeholder. -/
  columns : ∀ e ∈ row, occursOnlyAt (placeholder e.1)
    (Piece.text OPEN_BRACE_SENTINEL CLOSE_BRACE_SENTINEL (row.map Prod.fst)) (Piece.isColumn e.1)
    [] pieces
  /-- With the values filled in, the sentinels are those of the escaped braces. -/
  opened : occursOnlyAt OPEN_BRACE_SENTINEL
    (Piece.text OPEN_BRACE_SENTINEL CLOSE_BRACE_SENTINEL (row.map Prod.fst)) Piece.isOpen [] pieces
  closed : occursOnlyAt CLOSE_BRACE_SENTINEL
    (Piece.text ['{'] CLOSE_BRACE_SENTINEL (row.map Prod.fst)) Piece.isClose [] pieces

/-! ## What the scan reads -/

inductive Scanned (row : List (Text × Text)) : Text → List Piece → Prop
  | nil : Scanned row [] []
  | openBrace {s ps} : Scanned row s ps → Scanned row ('{' :: '{' :: s) (.openBrace :: ps)
  | closeBrace {s ps} : Scanned row s ps → Scanned row ('}' :: '}' :: s) (.closeBrace :: ps)
  | column {e s ps} : e ∈ row → Scanned row s ps →
      Scanned row (placeholder e.1 ++ s) (.column e.1 e.2 :: ps)
  | char {c s ps} : ¬ ['{', '{'] <+: c :: s → ¬ ['}', '}'] <+: c :: s → Scanned row s ps →
      Scanned row (c :: s) (.char c :: ps)

variable {row : List (Text × Text)} {s : Text} {ps : List Piece}

theorem scanFrom_skip (row : List (Text × Text)) (u s : Text) :
    scanFrom row u.length (u ++ s) = scan row s := by
  induction u with
  | nil => rfl
  | cons c u ih => rw [length_cons, cons_append, scanFrom, ih]

theorem scan_scanned (row : List (Text × Text)) (s : Text) : Scanned row s (scan row s) := by
  induction hn : s.length using Nat.strong_induction_on generalizing s with
  | h n ih =>
    cases s with
    | nil => exact .nil
    | cons c s =>
      subst hn
      have rest : ∀ u t, s = u ++ t → Scanned row t (scanFrom row u.length s) := by
        rintro u t rfl
        rw [scanFrom_skip]
        exact ih t.length (by simp only [length_cons, length_append]; omega) t rfl
      rw [scan, scanFrom]
      split
      · rename_i h
        obtain ⟨t, ht⟩ := h
        obtain ⟨rfl, rfl⟩ := List.cons.inj ht
        exact .openBrace (rest ['{'] t rfl)
      · rename_i hopen
        split
        · rename_i h
          obtain ⟨t, ht⟩ := h
          obtain ⟨rfl, rfl⟩ := List.cons.inj ht
          exact .closeBrace (rest ['}'] t rfl)
        · rename_i hclose
          split
          · rename_i e he
            obtain ⟨t, ht⟩ : placeholder e.1 <+: c :: s := by simpa using List.find?_some he
            have hs := rest (e.1 ++ ['}']) t (List.cons.inj ht).2.symm
            rw [length_append, length_singleton] at hs
            rw [← ht]
            exact .column (mem_of_find?_eq_some he) hs
          · exact .char hopen hclose (rest [] s rfl)

/-! ## Escaped braces -/

theorem replaceFrom_avoid {d : Char} {pat rep u : Text} (hu : d ∉ u) (s : Text) :
    replaceFrom (d :: pat) rep 0 (u ++ s) = u ++ replaceFrom (d :: pat) rep 0 s := by
  induction u with
  | nil => rfl
  | cons c u ih =>
    rw [mem_cons, not_or] at hu
    rw [cons_append, replaceFrom, if_neg, ih hu.2, cons_append]
    rintro ⟨t, ht⟩
    exact hu.1 (List.cons.inj ht).1

theorem replaceFrom_char {pat rep : Text} {c : Char} (h : ¬ pat <+: c :: s) :
    replaceFrom pat rep 0 (c :: s) = c :: replaceFrom pat rep 0 s := by
  rw [replaceFrom, if_neg h]

theorem not_pair_prefix {c : Char} (h : s.head? ≠ some c) : ¬ [c, c] <+: c :: s := by
  rintro ⟨t, ht⟩
  exact h (by rw [← (List.cons.inj ht).2]; rfl)

theorem head_of_pieces (h : Scanned row s ps)
    (hc : (ps.flatMap (Piece.text OPEN_BRACE_SENTINEL ['}', '}'] [])).head? = some '}') :
    s.head? = some '}' ∧ ∃ q ∈ ps.head?, q.closes := by
  cases h with
  | nil => simp at hc
  | openBrace =>
    rw [flatMap_cons, Piece.text, show OPEN_BRACE_SENTINEL = '_' :: OPEN_BRACE_SENTINEL.tail by
      decide +kernel] at hc
    simp at hc
  | closeBrace => exact ⟨rfl, _, rfl, rfl⟩
  | column => simp [Piece.text, placeholder] at hc
  | char =>
    obtain rfl : _ = '}' := by simpa [Piece.text] using hc
    exact ⟨rfl, _, rfl, rfl⟩

section
variable (hbrace : ∀ e ∈ row, '{' ∉ e.1 ∧ '}' ∉ e.1)
include hbrace

theorem replaceAll_open (h : Scanned row s ps) : replaceAll ['{', '{'] OPEN_BRACE_SENTINEL s =
    ps.flatMap (Piece.text OPEN_BRACE_SENTINEL ['}', '}'] []) := by
  unfold replaceAll
  induction h with
  | nil => rfl
  | openBrace _ ih =>
    rw [flatMap_cons, ← ih]
    exact replaceFrom_match (by simp) _
  | closeBrace _ ih =>
    rw [flatMap_cons, ← ih]
    exact replaceFrom_avoid (u := ['}', '}']) (by decide) _
  | @column e s ps he _ ih =>
    have hk := (hbrace e he).1
    rw [flatMap_cons, ← ih, Piece.text, if_neg not_mem_nil, placeholder, cons_append,
      replaceFrom_char, replaceFrom_avoid (by simpa using hk), cons_append]
    refine not_pair_prefix fun hc => ?_
    cases hk' : e.1 with
    | nil => simp [hk'] at hc
    | cons c k => simp_all
  | char hopen _ _ ih =>
    rw [flatMap_cons, ← ih, replaceFrom_char hopen]
    rfl

theorem replaceAll_close (h : Scanned row s ps)
    (hbehind : ps.IsChain fun p q => p.isPlaceholder → q.closes = false) :
    replaceAll ['}', '}'] CLOSE_BRACE_SENTINEL
        (ps.flatMap (Piece.text OPEN_BRACE_SENTINEL ['}', '}'] [])) =
      ps.flatMap (Piece.text OPEN_BRACE_SENTINEL CLOSE_BRACE_SENTINEL []) := by
  unfold replaceAll
  induction h with
  | nil => rfl
  | openBrace _ ih =>
    rw [flatMap_cons, flatMap_cons, ← ih hbehind.of_cons]
    exact replaceFrom_avoid (by decide) _
  | closeBrace _ ih =>
    rw [flatMap_cons, flatMap_cons, ← ih hbehind.of_cons]
    exact replaceFrom_match (by simp) _
  | @column e s ps he hs ih =>
    have hk := (hbrace e he).2
    rw [flatMap_cons, flatMap_cons, ← ih hbehind.of_cons]
    simp only [Piece.text, if_neg not_mem_nil, placeholder]
    rw [← cons_append, List.append_assoc, List.append_assoc,
      replaceFrom_avoid (u := '{' :: e.1) (by simpa using hk), singleton_append,
      singleton_append, replaceFrom_char]
    refine not_pair_prefix fun hc => ?_
    obtain ⟨-, q, hq, hcloses⟩ := head_of_pieces hs hc
    exact absurd hcloses (by simp [hbehind.rel_head? hq rfl])
  | @char c s ps hopen hclose hs ih =>
    rw [flatMap_cons, flatMap_cons, ← ih hbehind.of_cons]
    simp only [Piece.text, singleton_append]
    rw [replaceFrom_char]
    rintro ⟨t, ht⟩
    obtain ⟨rfl, hrest⟩ := List.cons.inj ht
    obtain ⟨hhead, -⟩ := head_of_pieces hs (by rw [← hrest]; rfl)
    cases s with
    | nil => simp at hhead
    | cons d s => exact hclose (by simp_all)

end

/-! ## Columns -/

theorem Scanned.column_mem (h : Scanned row s ps) {k v : Text} (hp : Piece.column k v ∈ ps) :
    (k, v) ∈ row := by
  induction h with
  | nil => simp at hp
  | openBrace _ ih | closeBrace _ ih | char _ _ _ ih => exact ih (by simpa using hp)
  | column he _ ih =>
    rcases mem_cons.mp hp with hp | hp
    · obtain ⟨rfl, rfl⟩ := Piece.column.inj hp
      exact he
    · exact ih hp

theorem placeholder_inj {k k' t t' : Text} (hk : '}' ∉ k) (hk' : '}' ∉ k')
    (h : placeholder k ++ t = placeholder k' ++ t') : k = k' := by
  have hcut : ∀ {k t : Text}, '}' ∉ k → splitOnce '}' (k ++ ['}'] ++ t) = some (k, t) := by
    intro k t hk
    rw [List.append_assoc]
    exact splitOnce_append hk t
  have heq : some (k, t) = some (k', t') := by
    rw [← hcut hk, ← hcut hk']
    exact congrArg (splitOnce '}') (List.cons.inj h).2
  exact (Prod.mk.inj (Option.some.inj heq)).1

theorem placeholder_infix {k k' u t : Text} (hk : '{' ∉ k ∧ '}' ∉ k) (hk' : '{' ∉ k' ∧ '}' ∉ k')
    (hne : k ≠ k') (h : placeholder k <:+: u ++ (placeholder k' ++ t)) :
    placeholder k <:+: u ∨ placeholder k <:+: t := by
  rcases infix_append_of_head (by simpa using hk.1) h with h | h
  · exact .inl h
  · rcases infix_cons_iff.mp h with ⟨t', ht⟩ | h
    · exact absurd (placeholder_inj hk.2 hk'.2 ht) hne
    · exact .inr (infix_of_infix_append (by simpa using hk'.1) h)

section
variable (hbrace : ∀ e ∈ row, '{' ∉ e.1 ∧ '}' ∉ e.1)
include hbrace

/-- A placeholder that the values do not make when all of them are filled in is not made by
some of them either: the placeholders still there keep the stretches apart. -/
theorem occursOnlyAt_some {opened closed : Text} {done : List Text} {e : Text × Text} (he : e ∈ row)
    (hps : ∀ k v, Piece.column k v ∈ ps → (k, v) ∈ row) {seen full : Text}
    (hseen : ∀ t, placeholder e.1 <:+: seen ++ t → placeholder e.1 <:+: full ++ t)
    (h : occursOnlyAt (placeholder e.1) (Piece.text opened closed (row.map Prod.fst))
      (Piece.isColumn e.1) full ps) :
    occursOnlyAt (placeholder e.1) (Piece.text opened closed done) (Piece.isColumn e.1) seen ps := by
  induction ps generalizing seen full with
  | nil =>
    simp only [occursOnlyAt, decide_eq_true_eq] at h ⊢
    exact fun hin => h (by simpa using hseen [] (by simpa using hin))
  | cons p ps ih =>
    have hps' : ∀ k v, Piece.column k v ∈ ps → (k, v) ∈ row :=
      fun k v hp => hps k v (mem_cons_of_mem _ hp)
    -- a piece with the same text in both
    have hsame : ∀ {t}, occursOnlyAt (placeholder e.1)
        (Piece.text opened closed (row.map Prod.fst)) (Piece.isColumn e.1) (full ++ t) ps →
        occursOnlyAt (placeholder e.1) (Piece.text opened closed done) (Piece.isColumn e.1)
          (seen ++ t) ps := by
      intro t
      refine ih hps' fun t' hin => ?_
      rw [List.append_assoc] at hin ⊢
      exact hseen _ hin
    unfold occursOnlyAt at h ⊢
    cases p with
    | openBrace | closeBrace | char => exact hsame h
    | column k v =>
      have hv := hps k v mem_cons_self
      by_cases hk : k = e.1
      · simp only [Piece.isColumn, hk, decide_true, if_true, decide_eq_true_eq] at h ⊢
        exact ⟨fun hin => h.1 (hseen _ hin), ih hps' (fun _ hin => hin) h.2⟩
      · simp only [Piece.isColumn, hk, decide_false, Bool.false_eq_true, if_false, Piece.text,
          mem_map_of_mem hv, if_true] at h ⊢
        split
        · exact hsame h
        · refine ih hps' (fun t hin => ?_) h
          rw [List.append_assoc] at hin ⊢
          rcases placeholder_infix (hbrace e he) (hbrace _ hv) (Ne.symm hk) hin with hin | hin
          · exact hseen _ (hin.trans (prefix_append seen _).isInfix)
          · exact infix_append_of_infix_right (infix_append_of_infix_right hin)

theorem replaceAll_column (h : Scanned row s ps) (hkeys : (row.map Prod.fst).Nodup)
    (honly : OnlyPieces row ps) {done : List Text} {e : Text × Text} (he : e ∈ row)
    (hnew : e.1 ∉ done) : replaceAll (placeholder e.1) e.2
        (ps.flatMap (Piece.text OPEN_BRACE_SENTINEL CLOSE_BRACE_SENTINEL done)) =
      ps.flatMap (Piece.text OPEN_BRACE_SENTINEL CLOSE_BRACE_SENTINEL (e.1 :: done)) := by
  have hocc : occursOnlyAt _ (Piece.text _ _ done) _ [] _ :=
    occursOnlyAt_some hbrace he (fun k v => h.column_mem) (fun _ hin => hin) (honly.columns e he)
  rw [replaceAll_pieces (by simp [placeholder]) ?_ hocc]
  · refine flatMap_congr fun p hp => ?_
    cases p with
    | openBrace | closeBrace | char => simp [Piece.isColumn, Piece.text]
    | column k v =>
      by_cases hk : k = e.1
      · have hkv : (k, v) = e := inj_on_of_nodup_map hkeys (h.column_mem hp) he hk
        simp [Piece.isColumn, Piece.text, ← hkv]
      · simp only [Piece.isColumn, Piece.text, hk, mem_cons, false_or, decide_false,
          Bool.false_eq_true, ite_false]
  · intro p _ hm
    cases p with
    | openBrace | closeBrace | char => simp [Piece.isColumn] at hm
    | column k v =>
      obtain rfl : k = e.1 := by simpa [Piece.isColumn] using hm
      exact if_neg hnew

theorem foldl_columns (h : Scanned row s ps) (hkeys : (row.map Prod.fst).Nodup)
    (honly : OnlyPieces row ps) {rest : List (Text × Text)} (hrest : ∀ e ∈ rest, e ∈ row)
    (hnodup : (rest.map Prod.fst).Nodup) {done : List Text} (hnew : ∀ e ∈ rest, e.1 ∉ done) :
    rest.foldl (fun rendered column => replaceAll (placeholder column.1) column.2 rendered)
        (ps.flatMap (Piece.text OPEN_BRACE_SENTINEL CLOSE_BRACE_SENTINEL done)) =
      ps.flatMap (Piece.text OPEN_BRACE_SENTINEL CLOSE_BRACE_SENTINEL
        ((rest.map Prod.fst).reverse ++ done)) := by
  induction rest generalizing done with
  | nil => rfl
  | cons e rest ih =>
    obtain ⟨he, hrest⟩ := forall_mem_cons.mp hrest
    obtain ⟨hne, hnew⟩ := forall_mem_cons.mp hnew
    rw [map_cons, nodup_cons] at hnodup
    rw [foldl_cons, replaceAll_column hbrace h hkeys honly he hne, ih hrest hnodup.2 ?_]
    · simp
    · intro e' he'
      rw [mem_cons, not_or]
      refine ⟨fun heq => hnodup.1 ?_, hnew e' he'⟩
      rw [← heq]
      exact mem_map_of_mem he'

end

/-! ## The rendered instruction -/

/-- Where the values and the rest of the instruction make no placeholder and no sentinel, the
instruction is rendered by the one scan, in whatever order the row has its columns. -/
theorem renderInstructionTemplate_eq_substitute {instruction : Text}
    (hkeys : (row.map Prod.fst).Nodup) (hbrace : ∀ e ∈ row, '{' ∉ e.1 ∧ '}' ∉ e.1)
    (honly : OnlyPieces row (scan row instruction)) {jsonText : Json → Text} {rowJson : Json}
    (hrow : (columns jsonText rowJson).Perm row) :
    renderInstructionTemplate jsonText instruction rowJson = substitute row instruction := by
  have h := scan_scanned row instruction
  have hfilled := foldl_columns hbrace h hkeys honly (fun e he => hrow.mem_iff.mp he)
    ((hrow.map Prod.fst).nodup_iff.mpr hkeys) fun e _ => not_mem_nil (a := e.1)
  have hall : (scan row instruction).flatMap (Piece.text OPEN_BRACE_SENTINEL CLOSE_BRACE_SENTINEL
        (((columns jsonText rowJson).map Prod.fst).reverse ++ [])) =
      (scan row instruction).flatMap
        (Piece.text OPEN_BRACE_SENTINEL CLOSE_BRACE_SENTINEL (row.map Prod.fst)) := by
    refine flatMap_congr fun p _ => ?_
    cases p with
    | openBrace | closeBrace | char => rfl
    | column k v =>
      simp only [Piece.text, append_nil, mem_reverse, (hrow.map Prod.fst).mem_iff]
  have hopened : replaceAll OPEN_BRACE_SENTINEL ['{'] ((scan row instruction).flatMap
      (Piece.text OPEN_BRACE_SENTINEL CLOSE_BRACE_SENTINEL (row.map Prod.fst))) =
      (scan row instruction).flatMap (Piece.text ['{'] CLOSE_BRACE_SENTINEL (row.map Prod.fst)) := by
    rw [replaceAll_pieces (by decide +kernel) (fun p _ hp => by
      obtain rfl := of_decide_eq_true hp
      rfl) honly.opened]
    exact flatMap_congr fun p _ => by cases p <;> rfl
  have hclosed : replaceAll CLOSE_BRACE_SENTINEL ['}'] ((scan row instruction).flatMap
      (Piece.text ['{'] CLOSE_BRACE_SENTINEL (row.map Prod.fst))) = substitute row instruction := by
    rw [replaceAll_pieces (by decide +kernel) (fun p _ hp => by
      obtain rfl := of_decide_eq_true hp
      rfl) honly.closed]
    exact flatMap_congr fun p _ => by cases p <;> rfl
  simp only [renderInstructionTemplate]
  rw [replaceAll_open hbrace h, replaceAll_close hbrace h honly.behind]
  exact (congrArg _ (congrArg _ (hfilled.trans hall))).trans ((congrArg _ hopened).trans hclosed)

theorem review_path_rendered : renderInstructionTemplate (fun _ => [])
      "{who}: review {path}, {{x}}".toList
      (.object [("who".toList, .string "ann".toList), ("path".toList, .string "{lib}".toList)]) =
    substitute [("path".toList, "{lib}".toList), ("who".toList, "ann".toList)]
      "{who}: review {path}, {{x}}".toList :=
  renderInstructionTemplate_eq_substitute (by decide +kernel) (by decide +kernel)
    ⟨by decide +kernel, by decide +kernel, by decide +kernel, by decide +kernel⟩
    (.swap _ _ _)

/-- The value of `a` looks like the placeholder of `b` and is filled in again. -/
theorem value_substituted_again : renderInstructionTemplate (fun _ => []) "{a}".toList
      (.object [(['a'], .string "{b}".toList), (['b'], .string ['x'])]) = ['x'] ∧
    substitute [(['a'], "{b}".toList), (['b'], ['x'])] "{a}".toList = "{b}".toList := by
  decide +kernel

end Codex.AgentJobs
