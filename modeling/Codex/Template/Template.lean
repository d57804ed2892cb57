import Codex.Foundation.Entries

/-!
# Templates

A template is literal text with placeholders between `{{` and `}}`. Doubled delimiters stand
for themselves. Rendering puts a value in place of each placeholder, and every value
must be used.
-/

namespace Codex

open Foundation

/-- Offsets are in bytes. -/
inductive TemplateParseError where
  | emptyPlaceholder (start : ℕ)
  | nestedPlaceholder (start : ℕ)
  | unmatchedClosingDelimiter (start : ℕ)
  | unterminatedPlaceholder (start : ℕ)
deriving DecidableEq

inductive TemplateRenderError where
  | duplicateValue (name : Text)
  | extraValue (name : Text)
  | missingValue (name : Text)
deriving DecidableEq

inductive Segment where
  | literal (text : Text)
  | placeholder (name : Text)
deriving DecidableEq

/-- The placeholders are a set in the order of the names. -/
structure Template where
  placeholders : Entries Unit
  segments : List Segment
deriving DecidableEq

namespace Template

def delimiter (brace : Char) : Text := [brace, brace]

def escaped (brace : Char) : Text := delimiter brace ++ delimiter brace

def pushLiteral (segments : List Segment) (literal : Text) : List Segment :=
  if literal = [] then segments
  else
    match segments.getLast? with
    | some (.literal existing) => segments.dropLast ++ [.literal (existing ++ literal)]
    | _ => segments ++ [.literal literal]

/-- The loop of `parse_placeholder` with the text since the delimiter: the name, the cursor
behind the placeholder and what is left there. -/
def placeholderLoop (start : ℕ) : ℕ → Text → Text → Except TemplateParseError (Text × ℕ × Text)
  | _, _, [] => .error (.unterminatedPlaceholder start)
  | cursor, inner, ch :: rest =>
    if (delimiter '{').isPrefixOf (ch :: rest) then .error (.nestedPlaceholder start)
    else if (delimiter '}').isPrefixOf (ch :: rest) then
      if trim inner = [] then .error (.emptyPlaceholder start)
      else .ok (trim inner, cursor + 2, (ch :: rest).drop 2)
    else placeholderLoop start (cursor + ch.utf8Size) (inner ++ [ch]) rest

def parsePlaceholder (start : ℕ) (rest : Text) : Except TemplateParseError (Text × ℕ × Text) :=
  placeholderLoop start (start + 2) [] (rest.drop 2)

theorem placeholderLoop_length {start cursor next : ℕ} {inner name rest left : Text}
    (h : placeholderLoop start cursor inner rest = .ok (name, next, left)) :
    left.length ≤ rest.length := by
  induction rest generalizing cursor inner with
  | nil => cases h
  | cons ch rest ih =>
    rw [placeholderLoop] at h
    split at h
    · cases h
    · split at h
      · split at h
        · cases h
        · cases h
          rw [List.length_drop]
          exact Nat.sub_le _ _
      · exact Nat.le_succ_of_le (ih h)

/-- The loop of `parse`: the segments and placeholders so far, the literal since the last
of them, and the text from the cursor on. -/
def parseLoop (segments : List Segment) (placeholders : Entries Unit) (literal : Text)
    (cursor : ℕ) (rest : Text) : Except TemplateParseError Template :=
  match rest with
  | [] => .ok ⟨placeholders, pushLiteral segments literal⟩
  | ch :: tail =>
    if (escaped '{').isPrefixOf (ch :: tail) then
      parseLoop (pushLiteral (pushLiteral segments literal) (delimiter '{')) placeholders []
        (cursor + 4) (tail.drop 3)
    else if (escaped '}').isPrefixOf (ch :: tail) then
      parseLoop (pushLiteral (pushLiteral segments literal) (delimiter '}')) placeholders []
        (cursor + 4) (tail.drop 3)
    else if (delimiter '{').isPrefixOf (ch :: tail) then
      match h : parsePlaceholder cursor (ch :: tail) with
      | .error err => .error err
      | .ok (placeholder, nextCursor, left) =>
        parseLoop (pushLiteral segments literal ++ [.placeholder placeholder])
          (setEntry placeholder () placeholders) [] nextCursor left
    else if (delimiter '}').isPrefixOf (ch :: tail) then
      .error (.unmatchedClosingDelimiter cursor)
    else parseLoop segments placeholders (literal ++ [ch]) (cursor + ch.utf8Size) tail
termination_by rest.length
decreasing_by
  · simp only [List.length_drop, List.length_cons]
    omega
  · simp only [List.length_drop, List.length_cons]
    omega
  · have hleft := placeholderLoop_length h
    rw [List.length_drop] at hleft
    rw [List.length_cons] at hleft ⊢
    omega
  · exact Nat.lt_succ_self _

def parse (source : Text) : Except TemplateParseError Template := parseLoop [] [] [] 0 source

def buildVariableMap : List (Text × Text) → Entries Text → Except TemplateRenderError (Entries Text)
  | [], map => .ok map
  | (name, value) :: vars, map =>
    if (getEntry name map).isSome then .error (.duplicateValue name)
    else buildVariableMap vars (setEntry name value map)

def renderSegments (vars : Entries Text) : List Segment → Except TemplateRenderError Text
  | [] => .ok []
  | .literal literal :: segments => (renderSegments vars segments).map (literal ++ ·)
  | .placeholder name :: segments =>
    match getEntry name vars with
    | none => .error (.missingValue name)
    | some value => (renderSegments vars segments).map (value ++ ·)

def render (t : Template) (vars : List (Text × Text)) : Except TemplateRenderError Text :=
  match buildVariableMap vars [] with
  | .error err => .error err
  | .ok map =>
    match t.placeholders.find? fun e => (getEntry e.1 map).isNone with
    | some (name, _) => .error (.missingValue name)
    | none =>
      match map.find? fun e => (getEntry e.1 t.placeholders).isNone with
      | some (name, _) => .error (.extraValue name)
      | none => renderSegments map t.segments

end Template

end Codex
