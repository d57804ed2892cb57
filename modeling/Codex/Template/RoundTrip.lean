import Codex.Template.Template
import Mathlib.Data.List.Chain

/-!
# Printed templates

A template whose adjacent literals are joined is read back from its print. A delimiter in a
literal is doubled, and the first of its two braces is the one that tells, as the braces are
read from the left.
-/

namespace Codex.Template

open Foundation List Option

/-! ## Printing -/

def isBrace (c : Char) : Bool := c = '{' || c = '}'

theorem isBrace_iff {c : Char} : isBrace c = true ↔ c = '{' ∨ c = '}' := by
  simp [isBrace]

def escape : Text → Text
  | a :: b :: rest => if a = b ∧ isBrace a then escaped a ++ escape rest else a :: escape (b :: rest)
  | rest => rest

def printSegment : Segment → Text
  | .literal text => escape text
  | .placeholder name => delimiter '{' ++ [' '] ++ name ++ [' '] ++ delimiter '}'

def print (segments : List Segment) : Text := segments.flatMap printSegment

def joinLiteral (text : Text) : List Segment → List Segment
  | .literal next :: rest => .literal (text ++ next) :: rest
  | rest => if text = [] then rest else .literal text :: rest

def mergeLiterals : List Segment → List Segment
  | [] => []
  | .literal text :: rest => joinLiteral text (mergeLiterals rest)
  | .placeholder name :: rest => .placeholder name :: mergeLiterals rest

structure ValidName (name : Text) : Prop where
  nonempty : name ≠ []
  trimmed : trim name = name
  noBrace : ∀ c ∈ name, isBrace c = false

def OpenApart : Segment → Segment → Prop
  | .literal text, .placeholder _ => text.getLast? ≠ some '{'
  | _, _ => True

instance : DecidableRel OpenApart
  | .literal text, .placeholder _ => inferInstanceAs (Decidable (text.getLast? ≠ some '{'))
  | .literal _, .literal _ => .isTrue trivial
  | .placeholder _, _ => .isTrue trivial

inductive Merged : List Segment → Prop
  | nil : Merged []
  | placeholder {name : Text} {rest : List Segment} (tail : Merged rest) :
      Merged (.placeholder name :: rest)
  | last {text : Text} (nonempty : text ≠ []) : Merged [.literal text]
  | literal {text name : Text} {rest : List Segment} (nonempty : text ≠ [])
      (tail : Merged (.placeholder name :: rest)) : Merged (.literal text :: .placeholder name :: rest)

theorem mergeLiterals_merged (segments : List Segment) : Merged (mergeLiterals segments) := by
  induction segments with
  | nil => exact .nil
  | cons segment rest ih =>
    cases segment with
    | placeholder name => exact .placeholder ih
    | literal text =>
      rw [mergeLiterals]
      generalize mergeLiterals rest = merged at ih
      cases ih with
      | nil =>
        dsimp only [joinLiteral]
        split
        · exact .nil
        · next hne => exact .last hne
      | placeholder tail =>
        dsimp only [joinLiteral]
        split
        · exact .placeholder tail
        · next hne => exact .literal hne (.placeholder tail)
      | last hne => exact .last (by simp [hne])
      | literal hne tail => exact .literal (by simp [hne]) tail

variable {segments : List Segment}

theorem mem_mergeLiterals {name : Text} :
    .placeholder name ∈ mergeLiterals segments ↔ .placeholder name ∈ segments := by
  induction segments with
  | nil => rfl
  | cons segment rest ih =>
    cases segment with
    | placeholder other => simp [mergeLiterals, ih]
    | literal text =>
      rw [mergeLiterals, mem_cons, ← ih]
      unfold joinLiteral
      split
      · next heq => simp [heq]
      · split <;> simp

@[simp] theorem pushLiteral_nil (segments : List Segment) : pushLiteral segments [] = segments :=
  if_pos rfl

theorem pushLiteral_join {text : Text} (h : text ≠ []) (segments : List Segment) (existing : Text) :
    pushLiteral (segments ++ [.literal existing]) text =
      segments ++ [.literal (existing ++ text)] := by
  unfold pushLiteral
  rw [if_neg h, List.getLast?_concat, dropLast_concat]

theorem pushLiteral_new {text : Text} (h : text ≠ [])
    (hlast : ∀ existing, segments.getLast? ≠ some (.literal existing)) :
    pushLiteral segments text = segments ++ [.literal text] := by
  unfold pushLiteral
  rw [if_neg h]
  split
  · next existing heq => exact absurd heq (hlast existing)
  · rfl

theorem pushLiteral_append (segments : List Segment) (a b : Text) :
    pushLiteral (pushLiteral segments a) b = pushLiteral segments (a ++ b) := by
  by_cases ha : a = []
  · subst ha
    simp
  by_cases hb : b = []
  · subst hb
    simp
  have hab : a ++ b ≠ [] := by simp [ha]
  by_cases hlast : ∃ existing, segments.getLast? = some (.literal existing)
  · obtain ⟨existing, hlast⟩ := hlast
    rw [← dropLast_append_getLast? _ hlast, pushLiteral_join ha, pushLiteral_join hb,
      pushLiteral_join hab, List.append_assoc]
  · have hnot : ∀ existing, segments.getLast? ≠ some (.literal existing) := fun existing h =>
      hlast ⟨existing, h⟩
    rw [pushLiteral_new ha hnot, pushLiteral_join hb, pushLiteral_new hab hnot]

/-! ## Steps of the loop -/

section
variable {segments : List Segment} {placeholders : Entries Unit} {literal rest tail : Text}
  {cursor : ℕ} {ch : Char}

theorem parseLoop_nil : parseLoop segments placeholders literal cursor [] =
    .ok ⟨placeholders, pushLiteral segments literal⟩ := by
  rw [parseLoop]

theorem parseLoop_escaped {brace : Char} (h : isBrace brace = true) :
    parseLoop segments placeholders literal cursor (escaped brace ++ rest) =
      parseLoop (pushLiteral (pushLiteral segments literal) (delimiter brace)) placeholders []
        (cursor + 4) rest := by
  obtain rfl | rfl := isBrace_iff.mp h
  · show parseLoop segments placeholders literal cursor ('{' :: '{' :: '{' :: '{' :: rest) = _
    rw [parseLoop, if_pos (by simp [escaped, delimiter])]
    rfl
  · show parseLoop segments placeholders literal cursor ('}' :: '}' :: '}' :: '}' :: rest) = _
    rw [parseLoop, if_neg (by simp [escaped, delimiter]), if_pos (by simp [escaped, delimiter])]
    rfl

theorem parseLoop_placeholder (hescaped : ¬ (escaped '{').isPrefixOf (ch :: tail) = true)
    (hopen : (delimiter '{').isPrefixOf (ch :: tail) = true) :
    parseLoop segments placeholders literal cursor (ch :: tail) =
      (parsePlaceholder cursor (ch :: tail)).bind fun found =>
        parseLoop (pushLiteral segments literal ++ [.placeholder found.1])
          (setEntry found.1 () placeholders) [] found.2.1 found.2.2 := by
  have hclose : ¬ (escaped '}').isPrefixOf (ch :: tail) = true := by
    cases tail with
    | nil => simp [delimiter] at hopen
    | cons c tail =>
      have hch : ch = '{' := by
        simp [delimiter] at hopen
        exact hopen.1.symm
      subst hch
      simp [escaped, delimiter]
  rw [parseLoop, if_neg hescaped, if_neg hclose, if_pos hopen]
  split
  · next err h =>
    rw [h]
    rfl
  · next name next left h =>
    rw [h]
    rfl

theorem parseLoop_unmatched (hescaped : ∀ brace, isBrace brace = true →
      ¬ (escaped brace).isPrefixOf (ch :: tail) = true)
    (hopen : ¬ (delimiter '{').isPrefixOf (ch :: tail) = true)
    (hclose : (delimiter '}').isPrefixOf (ch :: tail) = true) :
    parseLoop segments placeholders literal cursor (ch :: tail) =
      .error (.unmatchedClosingDelimiter cursor) := by
  rw [parseLoop, if_neg (hescaped '{' rfl), if_neg (hescaped '}' rfl), if_neg hopen, if_pos hclose]

theorem parseLoop_char
    (h : ∀ brace, isBrace brace = true → ¬ (delimiter brace).isPrefixOf (ch :: tail) = true) :
    parseLoop segments placeholders literal cursor (ch :: tail) =
      parseLoop segments placeholders (literal ++ [ch]) (cursor + ch.utf8Size) tail := by
  have hescaped : ∀ brace, isBrace brace = true →
      ¬ (escaped brace).isPrefixOf (ch :: tail) = true := fun brace hbrace hpre => by
    refine h brace hbrace ?_
    simp only [escaped, isPrefixOf_iff_prefix] at hpre ⊢
    exact (prefix_append _ _).trans hpre
  rw [parseLoop, if_neg (hescaped '{' rfl), if_neg (hescaped '}' rfl), if_neg (h '{' rfl),
    if_neg (h '}' rfl)]

theorem parseLoop_flush (segments : List Segment) (placeholders : Entries Unit) (literal : Text)
    (cursor : ℕ) (rest : Text) :
    parseLoop segments placeholders literal cursor rest =
      parseLoop (pushLiteral segments literal) placeholders [] cursor rest := by
  induction hn : rest.length using Nat.strong_induction_on generalizing segments literal cursor rest with
  | _ n ih =>
    subst hn
    cases rest with
    | nil => rw [parseLoop_nil, parseLoop_nil, pushLiteral_nil]
    | cons ch tail =>
      by_cases hpair : ∃ brace, isBrace brace = true ∧ (escaped brace).isPrefixOf (ch :: tail) = true
      · obtain ⟨brace, hbrace, hpre⟩ := hpair
        obtain ⟨rest, hrest⟩ := isPrefixOf_iff_prefix.mp hpre
        rw [← hrest, parseLoop_escaped hbrace, parseLoop_escaped hbrace, pushLiteral_nil]
      have hescaped : ∀ brace, isBrace brace = true →
          ¬ (escaped brace).isPrefixOf (ch :: tail) = true := fun brace hbrace hpre =>
        hpair ⟨brace, hbrace, hpre⟩
      by_cases hopen : (delimiter '{').isPrefixOf (ch :: tail) = true
      · rw [parseLoop_placeholder (hescaped '{' rfl) hopen,
          parseLoop_placeholder (hescaped '{' rfl) hopen, pushLiteral_nil]
      by_cases hclose : (delimiter '}').isPrefixOf (ch :: tail) = true
      · rw [parseLoop_unmatched hescaped hopen hclose, parseLoop_unmatched hescaped hopen hclose]
      have hchar : ∀ brace, isBrace brace = true →
          ¬ (delimiter brace).isPrefixOf (ch :: tail) = true := fun brace hbrace => by
        obtain rfl | rfl := isBrace_iff.mp hbrace
        · exact hopen
        · exact hclose
      have hlt : tail.length < (ch :: tail).length := Nat.lt_succ_self _
      rw [parseLoop_char hchar, parseLoop_char hchar, ih _ hlt _ _ _ _ rfl,
        ih _ hlt (pushLiteral segments literal) _ _ _ rfl, pushLiteral_append, nil_append]

/-! ## What the loop reads -/

theorem delimiter_isPrefixOf {brace : Char} :
    (delimiter brace).isPrefixOf (ch :: tail) = true ↔ ch = brace ∧ tail.head? = some brace := by
  cases tail with
  | nil => simp [delimiter]
  | cons c tail =>
    rw [delimiter, isPrefixOf_iff_prefix, cons_prefix_cons, cons_prefix_cons,
      List.head?_cons, Option.some.injEq, and_iff_left nil_prefix, @eq_comm _ brace ch,
      @eq_comm _ brace c]

theorem escape_head? (text : Text) : (escape text).head? = text.head? := by
  induction text using escape.induct with
  | case1 a b rest hpair ih =>
    rw [escape, if_pos hpair]
    rfl
  | case2 a b rest hpair ih =>
    rw [escape, if_neg hpair]
    rfl
  | case3 text hshort =>
    cases text with
    | nil => rfl
    | cons a rest =>
      cases rest with
      | nil => rfl
      | cons b rest => exact absurd rfl (hshort a b rest)

variable (tail) in
theorem literal_parsed (text : Text) (segments : List Segment) (placeholders : Entries Unit)
    (cursor : ℕ) (htail : ∀ brace, isBrace brace = true → text.getLast? = some brace →
      tail.head? ≠ some brace) :
    ∃ next, parseLoop segments placeholders [] cursor (escape text ++ tail) =
      parseLoop (pushLiteral segments text) placeholders [] next tail := by
  induction text using escape.induct generalizing segments cursor with
  | case1 a b rest hpair ih =>
    obtain ⟨rfl, hbrace⟩ := hpair
    have hrest : ∀ brace, isBrace brace = true → rest.getLast? = some brace →
        tail.head? ≠ some brace := fun brace hb hlast => htail brace hb (by
      rw [List.getLast?_cons, List.getLast?_cons, hlast]
      rfl)
    obtain ⟨next, hnext⟩ := ih (pushLiteral segments (delimiter a)) (cursor + 4) hrest
    refine ⟨next, ?_⟩
    rw [escape, if_pos ⟨rfl, hbrace⟩, List.append_assoc, parseLoop_escaped hbrace, pushLiteral_nil,
      hnext, pushLiteral_append]
    rfl
  | case2 a b rest hpair ih =>
    obtain ⟨next, hnext⟩ := ih (pushLiteral segments [a]) (cursor + a.utf8Size)
      (fun brace hb hlast => htail brace hb (by rw [List.getLast?_cons_cons]; exact hlast))
    have hchar : ∀ brace, isBrace brace = true →
        ¬ (delimiter brace).isPrefixOf (a :: (escape (b :: rest) ++ tail)) = true :=
      fun brace hbrace hpre => by
        obtain ⟨rfl, hhead⟩ := delimiter_isPrefixOf.mp hpre
        rw [List.head?_append, escape_head?, List.head?_cons, some_or, Option.some.injEq] at hhead
        exact hpair ⟨hhead.symm, hbrace⟩
    refine ⟨next, ?_⟩
    rw [escape, if_neg hpair, cons_append, parseLoop_char hchar, parseLoop_flush,
      nil_append, hnext, pushLiteral_append]
    rfl
  | case3 text hshort =>
    cases text with
    | nil => exact ⟨cursor, by rw [pushLiteral_nil]; rfl⟩
    | cons a rest =>
      cases rest with
      | cons b rest => exact absurd rfl (hshort a b rest)
      | nil =>
        have hchar : ∀ brace, isBrace brace = true →
            ¬ (delimiter brace).isPrefixOf (a :: tail) = true := fun brace hbrace hpre => by
          obtain ⟨rfl, hhead⟩ := delimiter_isPrefixOf.mp hpre
          exact htail a hbrace rfl hhead
        refine ⟨cursor + a.utf8Size, ?_⟩
        show parseLoop segments placeholders [] cursor (a :: tail) = _
        rw [parseLoop_char hchar, parseLoop_flush, nil_append]

theorem placeholderLoop_closes {body : Text} (hbody : ∀ c ∈ body, isBrace c = false)
    (start cursor : ℕ) (inner tail : Text) (hne : trim (inner ++ body) ≠ []) :
    ∃ next, placeholderLoop start cursor inner (body ++ (delimiter '}' ++ tail)) =
      .ok (trim (inner ++ body), next, tail) := by
  induction body generalizing cursor inner with
  | nil =>
    rw [append_nil] at hne ⊢
    exact ⟨cursor + 2, by
      show placeholderLoop start cursor inner ('}' :: '}' :: tail) = _
      rw [placeholderLoop, if_neg (by simp [delimiter]), if_pos (by simp [delimiter]), if_neg hne]
      rfl⟩
  | cons ch body ih =>
    obtain ⟨hch, hbody⟩ := forall_mem_cons.mp hbody
    have hnot : ∀ brace, isBrace brace = true →
        ¬ (delimiter brace).isPrefixOf (ch :: (body ++ (delimiter '}' ++ tail))) = true :=
      fun brace hbrace hpre => by
        obtain ⟨rfl, -⟩ := delimiter_isPrefixOf.mp hpre
        rw [hch] at hbrace
        cases hbrace
    have hsplit : inner ++ ch :: body = inner ++ [ch] ++ body := by simp
    obtain ⟨next, hnext⟩ := ih hbody (cursor + ch.utf8Size) (inner ++ [ch]) (hsplit ▸ hne)
    refine ⟨next, ?_⟩
    rw [cons_append, placeholderLoop, if_neg (hnot '{' rfl), if_neg (hnot '}' rfl), hnext, hsplit]

theorem ValidName.trim_padded {name : Text} (h : ValidName name) :
    trim (' ' :: (name ++ [' '])) = name := by
  have hstart : trimStart name = name :=
    (trimStart_suffix name).eq_of_length (Nat.le_antisymm (trimStart_suffix name).length_le (by
      have hlen := (trimEnd_isPrefix (trimStart name)).length_le
      rwa [show trimEnd (trimStart name) = name from h.trimmed] at hlen))
  have hend : trimEnd name = name := by
    have htrim := h.trimmed
    rwa [trim, hstart] at htrim
  have hpadded : trimStart (name ++ [' ']) = name ++ [' '] := by
    refine trimStart_eq_self fun c hc => ?_
    cases name with
    | nil => exact absurd rfl h.nonempty
    | cons a name => exact trimStart_head (by rw [hstart]; exact hc)
  have hspace : trimStart (' ' :: (name ++ [' '])) = trimStart (name ++ [' ']) := rfl
  rw [trim, hspace, hpadded, trimEnd_append_of_eq_nil rfl, hend]

theorem placeholder_parsed {name : Text} (h : ValidName name) (segments : List Segment)
    (placeholders : Entries Unit) (cursor : ℕ) (tail : Text) :
    ∃ next, parseLoop segments placeholders [] cursor (printSegment (.placeholder name) ++ tail) =
      parseLoop (segments ++ [.placeholder name]) (setEntry name () placeholders) [] next tail := by
  have hbody : ∀ c ∈ ' ' :: (name ++ [' ']), isBrace c = false := by
    simp only [forall_mem_cons, forall_mem_append]
    exact ⟨rfl, h.noBrace, rfl, by simp⟩
  obtain ⟨next, hnext⟩ := placeholderLoop_closes hbody cursor (cursor + 2) [] tail
    (by rw [nil_append, h.trim_padded]; exact h.nonempty)
  rw [nil_append, h.trim_padded] at hnext
  have hprint : printSegment (.placeholder name) ++ tail =
      '{' :: '{' :: (' ' :: (name ++ [' ']) ++ (delimiter '}' ++ tail)) := by
    simp [printSegment, delimiter]
  refine ⟨next, ?_⟩
  rw [hprint, parseLoop_placeholder (by simp [escaped, delimiter]) (by simp [delimiter]),
    pushLiteral_nil]
  show (placeholderLoop cursor (cursor + 2) [] _).bind _ = _
  rw [drop_succ_cons, drop_succ_cons, drop_zero, hnext]
  rfl

theorem merged_parsed (h : Merged segments)
    (hnames : ∀ name, .placeholder name ∈ segments → ValidName name)
    (hopen : segments.IsChain OpenApart) (read : List Segment) (placeholders : Entries Unit)
    (cursor : ℕ) (hread : ∀ existing text, read.getLast? = some (.literal existing) →
      segments.head? ≠ some (.literal text)) :
    ∃ names, parseLoop read placeholders [] cursor (print segments) =
      .ok ⟨names, read ++ segments⟩ := by
  induction h generalizing read placeholders cursor with
  | nil => exact ⟨placeholders, by rw [append_nil]; exact parseLoop_nil⟩
  | @placeholder name rest tail ih =>
    obtain ⟨next, hnext⟩ := placeholder_parsed (hnames name mem_cons_self) read placeholders
      cursor (print rest)
    obtain ⟨names, hrest⟩ := ih (fun n hn => hnames n (mem_cons_of_mem _ hn)) hopen.tail
      (read ++ [.placeholder name]) (setEntry name () placeholders) next (by simp)
    refine ⟨names, ?_⟩
    show parseLoop _ _ _ _ (_ ++ print rest) = _
    rw [hnext, hrest, List.append_assoc]
    rfl
  | @last text hne =>
    obtain ⟨next, hnext⟩ := literal_parsed [] text read placeholders cursor (by simp)
    refine ⟨placeholders, ?_⟩
    have hprint : print [.literal text] = escape text ++ [] := by simp [print, printSegment]
    rw [hprint, hnext, parseLoop_nil, pushLiteral_nil, pushLiteral_new hne fun existing h =>
      hread existing text h rfl]
  | @literal text name rest hne tail ih =>
    have hapart : text.getLast? ≠ some '{' := (isChain_cons_cons.mp hopen).1
    obtain ⟨next, hnext⟩ := literal_parsed (print (.placeholder name :: rest)) text read
      placeholders cursor (fun brace hbrace hlast htail => by
        rw [← htail] at hlast
        exact hapart hlast)
    obtain ⟨names, hrest⟩ := ih (fun n hn => hnames n (mem_cons_of_mem _ hn)) hopen.tail
      (read ++ [.literal text]) placeholders next (by simp)
    refine ⟨names, ?_⟩
    show parseLoop _ _ _ _ (escape text ++ print (.placeholder name :: rest)) = _
    rw [hnext, pushLiteral_new hne (fun existing h => hread existing text h rfl), hrest,
      List.append_assoc]
    rfl

end

/-! ## Rendering -/

def Lawful (t : Template) : Prop :=
  ∀ name, name ∈ t.placeholders.map Prod.fst ↔ .placeholder name ∈ t.segments

variable {segments : List Segment} {t : Template} {vars : List (Text × Text)} {map : Entries Text}

theorem mem_pushLiteral {name literal : Text} :
    .placeholder name ∈ pushLiteral segments literal ↔ .placeholder name ∈ segments := by
  unfold pushLiteral
  split
  · rfl
  · split
    · next existing hlast =>
      conv_rhs => rw [← dropLast_append_getLast? _ hlast]
      simp
    · simp

theorem mem_setEntry_unit {name other : Text} {names : Entries Unit} :
    other ∈ (setEntry name () names).map Prod.fst ↔ other ∈ names.map Prod.fst ∨ other = name := by
  rw [← not_iff_not, ← getEntry_eq_none, getEntry_set, not_or, ← getEntry_eq_none]
  by_cases h : other = name <;> simp [h]

theorem parseLoop_lawful {placeholders : Entries Unit} {literal : Text} {cursor : ℕ} {rest : Text}
    (hlawful : Lawful ⟨placeholders, segments⟩)
    (h : parseLoop segments placeholders literal cursor rest = .ok t) : t.Lawful := by
  induction segments, placeholders, literal, cursor, rest using parseLoop.induct with
  | case1 segments placeholders literal cursor =>
    rw [parseLoop_nil] at h
    cases h
    exact fun name => (hlawful name).trans mem_pushLiteral.symm
  | case2 segments placeholders literal cursor ch tail h1 ih =>
    rw [parseLoop, if_pos h1] at h
    exact ih (fun name => (hlawful name).trans (by rw [mem_pushLiteral, mem_pushLiteral])) h
  | case3 segments placeholders literal cursor ch tail h1 h2 ih =>
    rw [parseLoop, if_neg h1, if_pos h2] at h
    exact ih (fun name => (hlawful name).trans (by rw [mem_pushLiteral, mem_pushLiteral])) h
  | case4 segments placeholders literal cursor ch tail h1 h2 h3 err hfound =>
    rw [parseLoop_placeholder h1 h3, hfound] at h
    cases h
  | case5 segments placeholders literal cursor ch tail h1 h2 h3 name next left hfound ih =>
    rw [parseLoop_placeholder h1 h3, hfound] at h
    refine ih (fun other => ?_) h
    rw [mem_setEntry_unit, hlawful other, mem_append, mem_pushLiteral, mem_singleton,
      Segment.placeholder.injEq]
  | case6 segments placeholders literal cursor ch tail h1 h2 h3 h4 =>
    rw [parseLoop, if_neg h1, if_neg h2, if_neg h3, if_pos h4] at h
    cases h
  | case7 segments placeholders literal cursor ch tail h1 h2 h3 h4 ih =>
    rw [parseLoop, if_neg h1, if_neg h2, if_neg h3, if_neg h4] at h
    exact ih hlawful h

theorem parse_lawful {source : Text} (h : parse source = .ok t) : t.Lawful :=
  parseLoop_lawful (fun _ => by simp) h

def substitute (vars : List (Text × Text)) : Segment → Text
  | .literal text => text
  | .placeholder name => (getEntry name vars).getD []

theorem buildVariableMap_ok {result : Entries Text} (h : buildVariableMap vars map = .ok result) :
    (vars.map Prod.fst).Nodup ∧ (∀ name ∈ vars.map Prod.fst, getEntry name map = none) ∧
      ∀ name, getEntry name result = (getEntry name vars).or (getEntry name map) := by
  induction vars generalizing map with
  | nil =>
    cases h
    simp [getEntry]
  | cons e vars ih =>
    obtain ⟨name, value⟩ := e
    rw [buildVariableMap] at h
    split at h
    · cases h
    · next hnew =>
      rw [not_isSome_iff_eq_none] at hnew
      obtain ⟨hnodup, hfresh, hget⟩ := ih h
      have hnot : name ∉ vars.map Prod.fst := fun hmem => by
        have hnone := hfresh name hmem
        rw [getEntry_set_self] at hnone
        cases hnone
      refine ⟨?_, ?_, fun other => ?_⟩
      · rw [map_cons, nodup_cons]
        exact ⟨hnot, hnodup⟩
      · rw [map_cons, forall_mem_cons]
        refine ⟨hnew, fun other hmem => ?_⟩
        have hnone := hfresh other hmem
        rw [getEntry_set] at hnone
        split at hnone
        · cases hnone
        · exact hnone
      · rw [hget, getEntry_set]
        by_cases heq : other = name
        · subst heq
          rw [getEntry_eq_none.mpr hnot]
          simp [getEntry]
        · simp [getEntry, heq, Ne.symm heq]

theorem buildVariableMap_total (map : Entries Text) (hnodup : (vars.map Prod.fst).Nodup)
    (hfresh : ∀ name ∈ vars.map Prod.fst, getEntry name map = none) :
    ∃ result, buildVariableMap vars map = .ok result := by
  induction vars generalizing map with
  | nil => exact ⟨map, rfl⟩
  | cons e vars ih =>
    obtain ⟨name, value⟩ := e
    rw [map_cons, nodup_cons] at hnodup
    rw [map_cons, forall_mem_cons] at hfresh
    rw [buildVariableMap, if_neg (by simp [hfresh.1])]
    refine ih _ hnodup.2 fun other hmem => ?_
    have hne : other ≠ name := fun heq => hnodup.1 (heq ▸ hmem)
    rw [getEntry_set, if_neg hne]
    exact hfresh.2 other hmem

theorem renderSegments_ok (h : ∀ name, .placeholder name ∈ segments → getEntry name map ≠ none) :
    renderSegments map segments = .ok (segments.flatMap (substitute map)) := by
  induction segments with
  | nil => rfl
  | cons segment segments ih =>
    have hrest := ih fun name hname => h name (mem_cons_of_mem _ hname)
    cases segment with
    | literal text => rw [renderSegments, hrest, flatMap_cons]; rfl
    | placeholder name =>
      obtain ⟨value, hvalue⟩ := ne_none_iff_exists'.mp (h name mem_cons_self)
      rw [renderSegments, hvalue, flatMap_cons, substitute, hvalue]
      rw [hrest]
      rfl

theorem find?_absent {α β : Type} {l : Entries α} {map : Entries β} :
    (l.find? fun e => (getEntry e.1 map).isNone) = none ↔
      ∀ name ∈ l.map Prod.fst, name ∈ map.map Prod.fst := by
  rw [List.find?_eq_none, List.forall_mem_map]
  refine forall₂_congr fun e _ => ?_
  rw [isNone_iff_eq_none, getEntry_eq_none, not_not]

theorem render_of_map (hmap : buildVariableMap vars [] = .ok map) (ht : t.Lawful) (out : Text) :
    t.render vars = .ok out ↔
      (∀ name, name ∈ vars.map Prod.fst ↔ .placeholder name ∈ t.segments) ∧
      out = t.segments.flatMap (substitute vars) := by
  have hget : ∀ name, getEntry name map = getEntry name vars := fun name => by
    rw [(buildVariableMap_ok hmap).2.2 name]
    exact or_none
  have hkeys : ∀ name, name ∈ map.map Prod.fst ↔ name ∈ vars.map Prod.fst := fun name => by
    rw [← not_iff_not, ← getEntry_eq_none, hget, getEntry_eq_none]
  have hvalues : substitute map = substitute vars := by
    funext segment
    cases segment with
    | literal text => rfl
    | placeholder name => rw [substitute, substitute, hget]
  unfold render
  rw [hmap]
  dsimp only
  cases hmissing : t.placeholders.find? fun e => (getEntry e.1 map).isNone with
  | some e =>
    refine iff_of_false (by simp) fun h => ?_
    have hnone : (t.placeholders.find? fun e => (getEntry e.1 map).isNone) = none :=
      find?_absent.mpr fun name hname => (hkeys name).mpr ((h.1 name).mpr ((ht name).mp hname))
    rw [hnone] at hmissing
    cases hmissing
  | none =>
    cases hextra : map.find? fun e => (getEntry e.1 t.placeholders).isNone with
    | some e =>
      refine iff_of_false (by simp) fun h => ?_
      have hnone : (map.find? fun e => (getEntry e.1 t.placeholders).isNone) = none :=
        find?_absent.mpr fun name hname => (ht name).mpr ((h.1 name).mp ((hkeys name).mp hname))
      rw [hnone] at hextra
      cases hextra
    | none =>
      have hused := find?_absent.mp hextra
      have hgiven := find?_absent.mp hmissing
      have hnames : ∀ name, name ∈ vars.map Prod.fst ↔ .placeholder name ∈ t.segments :=
        fun name => ⟨fun h => (ht name).mp (hused name ((hkeys name).mpr h)),
          fun h => (hkeys name).mp (hgiven name ((ht name).mpr h))⟩
      rw [renderSegments_ok fun name hname hnone => getEntry_eq_none.mp hnone
        ((hkeys name).mpr ((hnames name).mpr hname)), hvalues, Except.ok.injEq, eq_comm,
        and_iff_right hnames]

theorem render_ok_iff (ht : t.Lawful) (vars : List (Text × Text)) (out : Text) :
    t.render vars = .ok out ↔ (vars.map Prod.fst).Nodup ∧
      (∀ name, name ∈ vars.map Prod.fst ↔ .placeholder name ∈ t.segments) ∧
      out = t.segments.flatMap (substitute vars) := by
  cases hmap : buildVariableMap vars [] with
  | error err =>
    refine iff_of_false (by simp [render, hmap]) fun h => ?_
    obtain ⟨map, htotal⟩ := buildVariableMap_total [] h.1 (fun _ _ => rfl)
    rw [hmap] at htotal
    cases htotal
  | ok map => rw [render_of_map hmap ht, and_iff_right (buildVariableMap_ok hmap).1]

/-! ## Round trips -/

theorem mergeLiterals_substitute (vars : List (Text × Text)) (segments : List Segment) :
    (mergeLiterals segments).flatMap (substitute vars) = segments.flatMap (substitute vars) := by
  induction segments with
  | nil => rfl
  | cons segment rest ih =>
    cases segment with
    | placeholder name => rw [mergeLiterals, flatMap_cons, flatMap_cons, ih]
    | literal text =>
      rw [mergeLiterals, flatMap_cons, ← ih]
      unfold joinLiteral
      split
      · next heq => simp [heq, substitute]
      · split
        · next hnil => simp [hnil, substitute]
        · rfl

structure RoundTrips (segments : List Segment) (t : Template) : Prop where
  parsed : parse (print (mergeLiterals segments)) = .ok t
  merged : t.segments = mergeLiterals segments
  rendered : ∀ vars out, t.render vars = .ok out ↔ (vars.map Prod.fst).Nodup ∧
    (∀ name, name ∈ vars.map Prod.fst ↔ .placeholder name ∈ segments) ∧
    out = segments.flatMap (substitute vars)

theorem print_round_trip {segments : List Segment}
    (hnames : ∀ name, .placeholder name ∈ segments → ValidName name)
    (hopen : (mergeLiterals segments).IsChain OpenApart) : ∃ t, RoundTrips segments t := by
  obtain ⟨names, hparse⟩ := merged_parsed (mergeLiterals_merged segments)
    (fun name hname => hnames name (mem_mergeLiterals.mp hname)) hopen [] [] 0 (by simp)
  refine ⟨_, hparse, rfl, fun vars out => ?_⟩
  rw [render_ok_iff (parse_lawful hparse)]
  simp only [nil_append, mem_mergeLiterals, mergeLiterals_substitute]

def bracedSegments : List Segment :=
  [.literal ['{'], .literal ['{', '}', ' '], .placeholder "name".toList, .literal ['}', '}', '}']]

theorem bracedSegments_round_trip : ∃ t, RoundTrips bracedSegments t := by
  refine print_round_trip (fun name hname => ?_) (by decide)
  have hname : name = "name".toList := by simpa [bracedSegments] using hname
  subst hname
  exact ⟨by decide, by decide, by simp [isBrace]⟩

/-- Two literals that are printed one by one make a delimiter. -/
theorem split_delimiter_opens : ¬ ∃ t, parse (print [.literal ['{'], .literal ['{']]) = .ok t ∧
      t.segments = mergeLiterals [.literal ['{'], .literal ['{']] := by
  rintro ⟨t, hparse, -⟩
  have herror : parse ['{', '{'] = .error (.unterminatedPlaceholder 0) := by
    rw [parse, parseLoop_placeholder (by decide) (by decide)]
    rfl
  cases hparse.symm.trans herror

end Codex.Template
