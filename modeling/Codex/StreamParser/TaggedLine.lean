import Codex.StreamParser.StreamText

/-!
# Tag blocks by lines, and proposed plans

`TaggedLineParser` splits text into normal text and blocks whose tags stand alone
on a line. It buffers a line until the line cannot be a tag any more. How its
output is cut into segments depends on the chunks; cut into single characters it
does not, since each character moves the parser the same way wherever a chunk
ends (`parse_eq_runChars`).
-/

namespace Codex

open Foundation List

structure TagSpec (τ : Type) where
  opn : Text
  close : Text
  tag : τ
deriving DecidableEq

inductive TaggedLineSegment (τ : Type) where
  | normal (text : Text)
  | tagStart (tag : τ)
  | tagDelta (tag : τ) (text : Text)
  | tagEnd (tag : τ)
deriving DecidableEq

structure TaggedLineParser (τ : Type) where
  specs : List (TagSpec τ)
  activeTag : Option τ
  detectTag : Bool
  lineBuffer : Text
deriving DecidableEq

variable {τ : Type} [DecidableEq τ]

def pushSegment (segments : List (TaggedLineSegment τ)) (segment : TaggedLineSegment τ) :
    List (TaggedLineSegment τ) :=
  match segment with
  | .normal delta =>
    if delta = [] then segments
    else match segments.getLast? with
      | some (.normal existing) => segments.dropLast ++ [.normal (existing ++ delta)]
      | _ => segments ++ [.normal delta]
  | .tagDelta tag delta =>
    if delta = [] then segments
    else match segments.getLast? with
      | some (.tagDelta existingTag existing) =>
        if existingTag = tag then segments.dropLast ++ [.tagDelta tag (existing ++ delta)]
        else segments ++ [.tagDelta tag delta]
      | _ => segments ++ [.tagDelta tag delta]
  | .tagStart tag => segments ++ [.tagStart tag]
  | .tagEnd tag => segments ++ [.tagEnd tag]

namespace TaggedLineParser

def pushText (p : TaggedLineParser τ) (text : Text) (segments : List (TaggedLineSegment τ)) :
    List (TaggedLineSegment τ) :=
  match p.activeTag with
  | some tag => pushSegment segments (.tagDelta tag text)
  | none => pushSegment segments (.normal text)

def isTagPrefix (p : TaggedLineParser τ) (slug : Text) : Bool :=
  p.specs.any fun spec =>
    (trimEnd slug).isPrefixOf spec.opn || (trimEnd slug).isPrefixOf spec.close

def matchOpen (p : TaggedLineParser τ) (slug : Text) : Option τ :=
  (p.specs.find? fun spec => spec.opn = slug).map (·.tag)

def matchClose (p : TaggedLineParser τ) (slug : Text) : Option τ :=
  (p.specs.find? fun spec => spec.close = slug).map (·.tag)

def stripNewline (line : Text) : Text :=
  if line.getLast? = some '\n' then line.dropLast else line

/-- The tag line the buffered line is, if it is one in this state: the segment it
gives and the tag that is active behind it. -/
def tagLine (p : TaggedLineParser τ) (line : Text) : Option (TaggedLineSegment τ × Option τ) :=
  let slug := trimEnd (trimStart (stripNewline line))
  match p.matchOpen slug, p.activeTag with
  | some tag, none => some (.tagStart tag, some tag)
  | _, _ => match p.matchClose slug with
    | some tag => if p.activeTag = some tag then some (.tagEnd tag, none) else none
    | none => none

def finishLine (p : TaggedLineParser τ) (segments : List (TaggedLineSegment τ)) :
    TaggedLineParser τ × List (TaggedLineSegment τ) :=
  match p.tagLine p.lineBuffer with
  | some (segment, activeTag) =>
    ({ p with lineBuffer := [], activeTag := activeTag, detectTag := true },
      pushSegment segments segment)
  | none =>
    ({ p with lineBuffer := [], detectTag := true }, p.pushText p.lineBuffer segments)

structure ParseLoop (τ : Type) where
  parser : TaggedLineParser τ
  run : Text
  segments : List (TaggedLineSegment τ)

def flushRun (l : ParseLoop τ) : List (TaggedLineSegment τ) :=
  if l.run = [] then l.segments else l.parser.pushText l.run l.segments

def parseChar (l : ParseLoop τ) (ch : Char) : ParseLoop τ :=
  if l.parser.detectTag then
    let segments := flushRun l
    let p : TaggedLineParser τ := { l.parser with lineBuffer := l.parser.lineBuffer ++ [ch] }
    if ch = '\n' then
      let (p, segments) := p.finishLine segments
      ⟨p, [], segments⟩
    else
      let slug := trimStart p.lineBuffer
      if slug = [] ∨ p.isTagPrefix slug then ⟨p, [], segments⟩
      else ⟨{ p with lineBuffer := [], detectTag := false }, [],
        p.pushText p.lineBuffer segments⟩
  else
    let run := l.run ++ [ch]
    if ch = '\n' then
      ⟨{ l.parser with detectTag := true }, [], l.parser.pushText run l.segments⟩
    else ⟨l.parser, run, l.segments⟩

def parse (p : TaggedLineParser τ) (delta : Text) :
    TaggedLineParser τ × List (TaggedLineSegment τ) :=
  let l := delta.foldl parseChar ⟨p, [], []⟩
  (l.parser, flushRun l)

def finish (p : TaggedLineParser τ) : TaggedLineParser τ × List (TaggedLineSegment τ) :=
  let (p, segments) :=
    if p.lineBuffer = [] then (p, [])
    else match p.tagLine p.lineBuffer with
      | some (segment, activeTag) =>
        ({ p with lineBuffer := [], activeTag := activeTag }, pushSegment [] segment)
      | none => ({ p with lineBuffer := [] }, p.pushText p.lineBuffer [])
  match p.activeTag with
  | some tag => ({ p with activeTag := none, detectTag := true }, pushSegment segments (.tagEnd tag))
  | none => ({ p with detectTag := true }, segments)

end TaggedLineParser

/-! ## One character at a time -/

def TaggedLineSegment.atoms : TaggedLineSegment τ → List (TaggedLineSegment τ)
  | .normal text => text.map fun c => .normal [c]
  | .tagDelta tag text => text.map fun c => .tagDelta tag [c]
  | .tagStart tag => [.tagStart tag]
  | .tagEnd tag => [.tagEnd tag]

def atomsOf (segments : List (TaggedLineSegment τ)) : List (TaggedLineSegment τ) :=
  segments.flatMap TaggedLineSegment.atoms

omit [DecidableEq τ] in
theorem atomsOf_concat (segments : List (TaggedLineSegment τ)) (s : TaggedLineSegment τ) :
    atomsOf (segments ++ [s]) = atomsOf segments ++ s.atoms := by
  simp [atomsOf]

theorem atomsOf_pushSegment (segments : List (TaggedLineSegment τ)) (s : TaggedLineSegment τ) :
    atomsOf (pushSegment segments s) = atomsOf segments ++ s.atoms := by
  have hlast : ∀ e : TaggedLineSegment τ, segments.getLast? = some e →
      segments = segments.dropLast ++ [e] := by
    intro e he
    obtain ⟨ys, rfl⟩ := List.getLast?_eq_some_iff.mp he
    rw [dropLast_concat]
  cases s with
  | normal delta =>
    unfold pushSegment
    by_cases hd : delta = []
    · simp [hd, TaggedLineSegment.atoms]
    · simp only [hd, if_false]
      split
      · rename_i existing he
        conv_rhs => rw [hlast _ he]
        simp [atomsOf_concat, TaggedLineSegment.atoms]
      · exact atomsOf_concat segments _
  | tagDelta tag delta =>
    unfold pushSegment
    by_cases hd : delta = []
    · simp [hd, TaggedLineSegment.atoms]
    · simp only [hd, if_false]
      split
      · rename_i existingTag existing he
        by_cases ht : existingTag = tag
        · subst ht
          conv_rhs => rw [hlast _ he]
          simp [atomsOf_concat, TaggedLineSegment.atoms]
        · rw [if_neg ht]
          exact atomsOf_concat segments _
      · exact atomsOf_concat segments _
  | tagStart tag | tagEnd tag => exact atomsOf_concat segments _

namespace TaggedLineParser

def textAtoms (p : TaggedLineParser τ) (text : Text) : List (TaggedLineSegment τ) :=
  match p.activeTag with
  | some tag => (TaggedLineSegment.tagDelta tag text).atoms
  | none => (TaggedLineSegment.normal text).atoms

theorem atomsOf_pushText (p : TaggedLineParser τ) (text : Text)
    (segments : List (TaggedLineSegment τ)) :
    atomsOf (p.pushText text segments) = atomsOf segments ++ p.textAtoms text := by
  unfold pushText textAtoms
  cases p.activeTag with
  | some tag | none => exact atomsOf_pushSegment _ _

omit [DecidableEq τ] in
theorem textAtoms_append (p : TaggedLineParser τ) (t u : Text) :
    p.textAtoms (t ++ u) = p.textAtoms t ++ p.textAtoms u := by
  unfold textAtoms
  cases p.activeTag <;> simp [TaggedLineSegment.atoms]

omit [DecidableEq τ] in
theorem textAtoms_nil (p : TaggedLineParser τ) : p.textAtoms [] = [] := by
  unfold textAtoms
  cases p.activeTag <;> rfl

/-- What one character does to the parser, and the pieces it releases. -/
def charStep (p : TaggedLineParser τ) (ch : Char) :
    TaggedLineParser τ × List (TaggedLineSegment τ) :=
  let l := parseChar ⟨p, [], []⟩ ch
  (l.parser, atomsOf l.segments ++ l.parser.textAtoms l.run)

def runChars (p : TaggedLineParser τ) : Text → TaggedLineParser τ × List (TaggedLineSegment τ)
  | [] => (p, [])
  | ch :: text =>
    let (p, atoms) := p.charStep ch
    let (p, rest) := runChars p text
    (p, atoms ++ rest)

theorem runChars_append (p : TaggedLineParser τ) (t u : Text) : p.runChars (t ++ u) =
      (((p.runChars t).1.runChars u).1, (p.runChars t).2 ++ ((p.runChars t).1.runChars u).2) := by
  induction t generalizing p with
  | nil => rfl
  | cons c t ih =>
    simp only [cons_append, runChars, ih, List.append_assoc]

/-- The pieces a loop state has released or is about to flush. -/
def ParseLoop.atoms (l : ParseLoop τ) : List (TaggedLineSegment τ) :=
  atomsOf l.segments ++ l.parser.textAtoms l.run

theorem atomsOf_flushRun (l : ParseLoop τ) : atomsOf (flushRun l) = l.atoms := by
  unfold flushRun ParseLoop.atoms
  by_cases h : l.run = []
  · simp [h, textAtoms_nil]
  · rw [if_neg h, atomsOf_pushText]

theorem atomsOf_finishLine (p : TaggedLineParser τ) (segments : List (TaggedLineSegment τ)) :
    (p.finishLine segments).1 = (p.finishLine []).1 ∧
      atomsOf (p.finishLine segments).2 = atomsOf segments ++ atomsOf (p.finishLine []).2 := by
  unfold finishLine
  cases p.tagLine p.lineBuffer with
  | some r =>
    refine ⟨rfl, ?_⟩
    simp only [atomsOf_pushSegment]
    rfl
  | none =>
    refine ⟨rfl, ?_⟩
    simp only [atomsOf_pushText]
    rfl

theorem parseChar_eq_charStep (l : ParseLoop τ) (ch : Char) :
    (parseChar l ch).parser = (l.parser.charStep ch).1 ∧
      (parseChar l ch).atoms = l.atoms ++ (l.parser.charStep ch).2 := by
  obtain ⟨p, run, segments⟩ := l
  have hflush := atomsOf_flushRun ⟨p, run, segments⟩
  have hempty : flushRun (⟨p, [], []⟩ : ParseLoop τ) = [] := rfl
  unfold charStep parseChar ParseLoop.atoms at *
  simp only at hflush ⊢
  cases hd : p.detectTag with
  | true =>
    simp only [if_true, hempty]
    by_cases hc : ch = '\n'
    · obtain ⟨h1, h2⟩ := atomsOf_finishLine { p with lineBuffer := p.lineBuffer ++ [ch] }
        (flushRun ⟨p, run, segments⟩)
      rw [hd] at h1 h2
      simp only [if_pos hc, textAtoms_nil, append_nil]
      rw [h2, hflush]
      exact ⟨h1, rfl⟩
    · simp only [if_neg hc]
      split
      · simp only [textAtoms_nil, append_nil, hflush]
        exact ⟨trivial, (append_nil _).symm⟩
      · simp only [atomsOf_pushText, textAtoms_nil, append_nil, hflush]
        exact ⟨trivial, rfl⟩
  | false =>
    simp only [Bool.false_eq_true, if_false, nil_append]
    by_cases hc : ch = '\n'
    · simp only [if_pos hc, atomsOf_pushText, textAtoms_nil, textAtoms_append, append_nil,
        List.append_assoc]
      exact ⟨trivial, rfl⟩
    · simp only [if_neg hc, textAtoms_append, List.append_assoc]
      exact ⟨trivial, rfl⟩

theorem foldl_parseChar (l : ParseLoop τ) (text : Text) :
    (text.foldl parseChar l).parser = (l.parser.runChars text).1 ∧
      (text.foldl parseChar l).atoms = l.atoms ++ (l.parser.runChars text).2 := by
  induction text generalizing l with
  | nil => exact ⟨rfl, (append_nil _).symm⟩
  | cons ch text ih =>
    obtain ⟨h1, h2⟩ := parseChar_eq_charStep l ch
    obtain ⟨i1, i2⟩ := ih (parseChar l ch)
    rw [h1] at i1 i2
    rw [h2] at i2
    refine ⟨i1, ?_⟩
    rw [foldl_cons, i2, List.append_assoc]
    rfl

theorem parse_eq_runChars (p : TaggedLineParser τ) (delta : Text) :
    (p.parse delta).1 = (p.runChars delta).1 ∧
      atomsOf (p.parse delta).2 = (p.runChars delta).2 := by
  obtain ⟨h1, h2⟩ := foldl_parseChar ⟨p, [], []⟩ delta
  unfold parse
  refine ⟨h1, ?_⟩
  have hstart : (⟨p, [], []⟩ : ParseLoop τ).atoms = [] := textAtoms_nil p
  rw [atomsOf_flushRun, h2, hstart, nil_append]

/-! ## No empty segments -/

def Solid (segments : List (TaggedLineSegment τ)) : Prop := ∀ s ∈ segments, s.atoms ≠ []

omit [DecidableEq τ] in
theorem solid_nil : Solid ([] : List (TaggedLineSegment τ)) := nofun

theorem solid_pushSegment {segments : List (TaggedLineSegment τ)} (h : Solid segments)
    (s : TaggedLineSegment τ) : Solid (pushSegment segments s) := by
  have hsnoc : ∀ (l : List (TaggedLineSegment τ)) (e : TaggedLineSegment τ), Solid l →
      e.atoms ≠ [] → Solid (l ++ [e]) := by
    intro l e hl he s hs
    rcases mem_append.mp hs with hs | hs
    · exact hl s hs
    · rw [mem_singleton.mp hs]
      exact he
  have hinit : Solid segments.dropLast := fun s hs => h s (dropLast_subset _ hs)
  cases s with
  | normal delta =>
    unfold pushSegment
    by_cases hd : delta = []
    · simpa [hd] using h
    · simp only [hd, if_false]
      split
      · exact hsnoc _ _ hinit (by simp [TaggedLineSegment.atoms, hd])
      · exact hsnoc _ _ h (by simp [TaggedLineSegment.atoms, hd])
  | tagDelta tag delta =>
    unfold pushSegment
    by_cases hd : delta = []
    · simpa [hd] using h
    · simp only [hd, if_false]
      split
      · split
        · exact hsnoc _ _ hinit (by simp [TaggedLineSegment.atoms, hd])
        · exact hsnoc _ _ h (by simp [TaggedLineSegment.atoms, hd])
      · exact hsnoc _ _ h (by simp [TaggedLineSegment.atoms, hd])
  | tagStart tag | tagEnd tag => exact hsnoc _ _ h (cons_ne_nil _ _)

theorem solid_pushText {segments : List (TaggedLineSegment τ)} (h : Solid segments)
    (p : TaggedLineParser τ) (text : Text) : Solid (p.pushText text segments) := by
  unfold pushText
  cases p.activeTag with
  | some tag | none => exact solid_pushSegment h _

theorem solid_flushRun {l : ParseLoop τ} (h : Solid l.segments) : Solid (flushRun l) := by
  unfold flushRun
  split
  · exact h
  · exact solid_pushText h _ _

theorem solid_parseChar {l : ParseLoop τ} (h : Solid l.segments) (ch : Char) :
    Solid (parseChar l ch).segments := by
  unfold parseChar
  split
  · split
    · unfold finishLine
      simp only
      split
      · exact solid_pushSegment (solid_flushRun h) _
      · exact solid_pushText (solid_flushRun h) _ _
    · simp only
      split
      · exact solid_flushRun h
      · exact solid_pushText (solid_flushRun h) _ _
  · split
    · exact solid_pushText h _ _
    · exact h

theorem solid_parse (p : TaggedLineParser τ) (delta : Text) : Solid (p.parse delta).2 := by
  have hrun : ∀ (text : Text) (l : ParseLoop τ), Solid l.segments →
      Solid (text.foldl parseChar l).segments := by
    intro text
    induction text with
    | nil => exact fun l h => h
    | cons ch text ih => exact fun l h => ih _ (solid_parseChar h ch)
  exact solid_flushRun (hrun delta _ solid_nil)

theorem solid_finish (p : TaggedLineParser τ) : Solid p.finish.2 := by
  unfold finish
  split
  rename_i q segments hq
  have hs : Solid segments := by
    split at hq
    · cases hq
      exact solid_nil
    · split at hq
      · cases hq
        exact solid_pushSegment solid_nil _
      · cases hq
        exact solid_pushText solid_nil _ _
  cases q.activeTag with
  | some tag => exact solid_pushSegment hs (.tagEnd tag)
  | none => exact hs

end TaggedLineParser

end Codex
