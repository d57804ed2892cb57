import Codex.StreamParser.TaggedLine
import Codex.Foundation.Lines

/-!
# Tag blocks, line by line

A line is held back as long as it can still be a tag, and is text as soon as it cannot;
nothing behind it makes it a tag again (`Disproved.append`). So the parser takes whole
lines at a time (`runChars_line`), and gives what a reader of lines gives, unless the close
of a tag is looked up and found to be another tag's.
-/

namespace Codex

open Foundation List Option

/-! ## Reading lines -/

def TagSpec.WellFormed {τ : Type} (spec : TagSpec τ) : Prop :=
  (spec.opn ≠ [] ∧ '\n' ∉ spec.opn ∧ trim spec.opn = spec.opn) ∧
    spec.close ≠ [] ∧ '\n' ∉ spec.close ∧ trim spec.close = spec.close

section
variable {τ : Type} [DecidableEq τ]

def lineSegment (specs : List (TagSpec τ)) (active : Option τ) (line : Text) :
    TaggedLineSegment τ :=
  let slug := trim (TaggedLineParser.stripNewline line)
  match active with
  | none =>
    match specs.find? fun spec => spec.opn = slug with
    | some spec => .tagStart spec.tag
    | none => .normal line
  | some tag =>
    if ∃ spec ∈ specs, spec.tag = tag ∧ spec.close = slug then .tagEnd tag
    else .tagDelta tag line

def TaggedLineSegment.activeBehind (active : Option τ) : TaggedLineSegment τ → Option τ
  | .tagStart tag => some tag
  | .tagEnd _ => none
  | _ => active

def lineSegments (specs : List (TagSpec τ)) : Option τ → List Text → List (TaggedLineSegment τ)
  | none, [] => []
  | some tag, [] => [.tagEnd tag]
  | active, line :: lines =>
    let segment := lineSegment specs active line
    segment :: lineSegments specs (segment.activeBehind active) lines

def coalesce (segments : List (TaggedLineSegment τ)) : List (TaggedLineSegment τ) :=
  segments.foldl pushSegment []

def TaggedLineParser.new (specs : List (TagSpec τ)) : TaggedLineParser τ := ⟨specs, none, true, []⟩

def TaggedLineParser.parseChunks (p : TaggedLineParser τ) :
    List Text → TaggedLineParser τ × List (TaggedLineSegment τ)
  | [] => (p, [])
  | chunk :: chunks =>
    let (p, segments) := p.parse chunk
    let (p, rest) := p.parseChunks chunks
    (p, segments ++ rest)

def collectSegments (specs : List (TagSpec τ)) (chunks : List Text) : List (TaggedLineSegment τ) :=
  let (p, segments) := (TaggedLineParser.new specs).parseChunks chunks
  segments ++ p.finish.2

/-! ## Joining text -/

variable (segments : List (TaggedLineSegment τ))

theorem pushSegment_normal (a b : Text) :
    pushSegment (pushSegment segments (.normal a)) (.normal b) =
      pushSegment segments (.normal (a ++ b)) := by
  by_cases ha : a = []
  · simp [pushSegment, ha]
  · by_cases hb : b = []
    · simp [pushSegment, hb]
    · cases hlast : segments.getLast? with
      | none => simp [pushSegment, ha, hb, hlast]
      | some e => cases e <;> simp [pushSegment, ha, hb, hlast]

theorem pushSegment_tagDelta (tag : τ) (a b : Text) :
    pushSegment (pushSegment segments (.tagDelta tag a)) (.tagDelta tag b) =
      pushSegment segments (.tagDelta tag (a ++ b)) := by
  by_cases ha : a = []
  · simp [pushSegment, ha]
  · by_cases hb : b = []
    · simp [pushSegment, hb]
    · cases hlast : segments.getLast? with
      | none => simp [pushSegment, ha, hb, hlast]
      | some e =>
        cases e with
        | tagDelta tag' text =>
          by_cases ht : tag' = tag
          · simp [pushSegment, ha, hb, hlast, ht]
          · simp [pushSegment, ha, hb, hlast, ht]
        | _ => simp [pushSegment, ha, hb, hlast]

variable (s : TaggedLineSegment τ)

theorem foldl_pushSegment_atoms : s.atoms.foldl pushSegment segments = pushSegment segments s := by
  cases s with
  | tagStart tag | tagEnd tag => rfl
  | normal text =>
    induction text generalizing segments with
    | nil => simp [TaggedLineSegment.atoms, pushSegment]
    | cons c text ih =>
      have hrest := ih (pushSegment segments (.normal [c]))
      rw [pushSegment_normal] at hrest
      exact hrest
  | tagDelta tag text =>
    induction text generalizing segments with
    | nil => simp [TaggedLineSegment.atoms, pushSegment]
    | cons c text ih =>
      have hrest := ih (pushSegment segments (.tagDelta tag [c]))
      rw [pushSegment_tagDelta] at hrest
      exact hrest

theorem coalesce_atoms : coalesce (atomsOf segments) = coalesce segments := by
  unfold coalesce atomsOf
  induction segments using List.reverseRecOn with
  | nil => rfl
  | append_singleton segments s ih =>
    rw [flatMap_append, foldl_append, ih, foldl_append, flatMap_singleton, foldl_pushSegment_atoms]
    rfl

theorem atomsOf_coalesce : atomsOf (coalesce segments) = atomsOf segments := by
  unfold coalesce
  induction segments using List.reverseRecOn with
  | nil => rfl
  | append_singleton segments s ih =>
    rw [foldl_append, foldl_cons, foldl_nil, atomsOf_pushSegment, ih, atomsOf_concat]

theorem coalesce_eq_iff {x y : List (TaggedLineSegment τ)} :
    coalesce x = coalesce y ↔ atomsOf x = atomsOf y := by
  constructor
  · intro h
    rw [← atomsOf_coalesce x, h, atomsOf_coalesce]
  · intro h
    rw [← coalesce_atoms x, h, coalesce_atoms]

def Disproved (specs : List (TagSpec τ)) (text : Text) : Prop :=
  trim text ≠ [] ∧ ∀ spec ∈ specs, ¬ trim text <+: spec.opn ∧ ¬ trim text <+: spec.close

omit [DecidableEq τ] in
theorem Disproved.append {specs : List (TagSpec τ)} {text : Text} (h : Disproved specs text)
    (more : Text) : Disproved specs (text ++ more) := by
  have hle := trim_append text more h.1
  refine ⟨fun hnil => h.1 (prefix_nil.mp (hnil ▸ hle)), fun spec hspec => ⟨?_, ?_⟩⟩
  · exact fun hopn => (h.2 spec hspec).1 (hle.trans hopn)
  · exact fun hclose => (h.2 spec hspec).2 (hle.trans hclose)

variable (specs : List (TagSpec τ)) (active : Option τ)

namespace TaggedLineParser

theorem stripNewline_concat (text : Text) : stripNewline (text ++ ['\n']) = text := by
  simp [stripNewline]

theorem stripNewline_of_not_mem {text : Text} (h : '\n' ∉ text) : stripNewline text = text := by
  unfold stripNewline
  split
  · next hlast => exact absurd (mem_of_getLast? hlast) h
  · rfl

variable {p : TaggedLineParser τ}

theorem tagLine_of_disproved {line : Text} (h : Disproved p.specs (stripNewline line)) :
    p.tagLine line = none := by
  have hopn : p.matchOpen (trim (stripNewline line)) = none := by
    rw [matchOpen, map_eq_none_iff, List.find?_eq_none]
    intro spec hspec heq
    exact (h.2 spec hspec).1 (of_decide_eq_true heq ▸ prefix_rfl)
  have hclose : p.matchClose (trim (stripNewline line)) = none := by
    rw [matchClose, map_eq_none_iff, List.find?_eq_none]
    intro spec hspec heq
    exact (h.2 spec hspec).2 (of_decide_eq_true heq ▸ prefix_rfl)
  unfold trim at hopn hclose
  simp only [tagLine, hopn, hclose]

/-! ## A line at a time -/

def AtLineStart (p : TaggedLineParser τ) : Prop := p.detectTag = true ∧ p.lineBuffer = []

def lineStep (p : TaggedLineParser τ) (line : Text) :
    TaggedLineParser τ × List (TaggedLineSegment τ) :=
  match p.tagLine line with
  | some (segment, activeTag) => ({ p with activeTag := activeTag }, segment.atoms)
  | none => (p, p.textAtoms line)

theorem charStep_detecting {ch : Char} (hdetect : p.detectTag = true) (hch : ch ≠ '\n') :
    p.charStep ch = ({ p with lineBuffer := p.lineBuffer ++ [ch] }, []) ∨
    (Disproved p.specs (p.lineBuffer ++ [ch]) ∧
      p.charStep ch = ({ p with lineBuffer := [], detectTag := false },
        p.textAtoms (p.lineBuffer ++ [ch]))) := by
  have hflush : flushRun (⟨p, [], []⟩ : ParseLoop τ) = [] := rfl
  unfold charStep parseChar
  simp only [hdetect, if_true, if_neg hch, hflush]
  split
  · exact .inl (by simp [textAtoms_nil, atomsOf])
  · next hslug =>
    rw [not_or] at hslug
    refine .inr ⟨⟨fun h => hslug.1 (trim_eq_nil.mp h), ?_⟩, ?_⟩
    · simpa [isTagPrefix, trim] using hslug.2
    · simp only [atomsOf_pushText, textAtoms_nil, append_nil]
      rfl

theorem charStep_text {ch : Char} (hdetect : p.detectTag = false) (hch : ch ≠ '\n') :
    p.charStep ch = (p, p.textAtoms [ch]) := by
  unfold charStep parseChar
  simp [hdetect, hch, atomsOf]

theorem charStep_newline_text (hdetect : p.detectTag = false) :
    p.charStep '\n' = ({ p with detectTag := true }, p.textAtoms ['\n']) := by
  unfold charStep parseChar
  simp only [hdetect, Bool.false_eq_true, if_false, if_true, nil_append, atomsOf_pushText,
    textAtoms_nil, append_nil]
  rfl

theorem charStep_newline_detecting (hdetect : p.detectTag = true) :
    p.charStep '\n' = { p with lineBuffer := [] }.lineStep (p.lineBuffer ++ ['\n']) := by
  obtain ⟨specs, activeTag, detectTag, lineBuffer⟩ := p
  cases hdetect
  have hflush : flushRun (⟨⟨specs, activeTag, true, lineBuffer⟩, [], []⟩ : ParseLoop τ) = [] := rfl
  have hsame : ∀ buffer line, tagLine ⟨specs, activeTag, true, buffer⟩ line =
      tagLine ⟨specs, activeTag, true, []⟩ line := fun _ _ => rfl
  unfold charStep parseChar lineStep finishLine
  simp only [hflush, if_true, hsame]
  cases tagLine ⟨specs, activeTag, true, []⟩ (lineBuffer ++ ['\n']) with
  | none =>
    simp only [atomsOf_pushText, textAtoms_nil, append_nil]
    rfl
  | some r =>
    simp only [atomsOf_pushSegment, textAtoms_nil, append_nil]
    rfl

theorem runChars_partial (hstart : p.AtLineStart) {text : Text} (hline : '\n' ∉ text) :
    p.runChars text = ({ p with lineBuffer := text }, []) ∨
    (Disproved p.specs text ∧
      p.runChars text = ({ p with detectTag := false }, p.textAtoms text)) := by
  obtain ⟨specs, activeTag, detectTag, lineBuffer⟩ := p
  obtain ⟨rfl, rfl⟩ : detectTag = true ∧ lineBuffer = [] := hstart
  induction text using List.reverseRecOn with
  | nil => exact .inl rfl
  | append_singleton text ch ih =>
    rw [mem_append, mem_singleton, not_or] at hline
    have hch : ch ≠ '\n' := Ne.symm hline.2
    rw [runChars_append]
    rcases ih hline.1 with hbuffered | ⟨hdisproved, hreleased⟩
    · rw [hbuffered]
      rcases charStep_detecting (p := ⟨specs, activeTag, true, text⟩) rfl hch with
        hstep | ⟨hdisproved, hstep⟩
      · exact .inl (by simp [runChars, hstep])
      · exact .inr ⟨hdisproved, by simp [runChars, hstep]; rfl⟩
    · rw [hreleased]
      refine .inr ⟨hdisproved.append [ch], ?_⟩
      have hstep := charStep_text (p := ⟨specs, activeTag, false, []⟩) rfl hch
      simp only [runChars, hstep, append_nil, textAtoms_append]
      rfl

theorem runChars_line (hstart : p.AtLineStart) {line : Text} (hline : '\n' ∉ line) :
    p.runChars (line ++ ['\n']) = p.lineStep (line ++ ['\n']) := by
  obtain ⟨specs, activeTag, detectTag, lineBuffer⟩ := p
  obtain ⟨rfl, rfl⟩ : detectTag = true ∧ lineBuffer = [] := hstart
  rw [runChars_append]
  rcases runChars_partial (p := ⟨specs, activeTag, true, []⟩) ⟨rfl, rfl⟩ hline with hbuffered | ⟨hdisproved, hreleased⟩
  · rw [hbuffered]
    have hstep := charStep_newline_detecting (p := ⟨specs, activeTag, true, line⟩) rfl
    simp only [runChars, hstep, append_nil, nil_append]
  · rw [hreleased]
    have hstep := charStep_newline_text (p := ⟨specs, activeTag, false, []⟩) rfl
    have hnone : tagLine ⟨specs, activeTag, true, []⟩ (line ++ ['\n']) = none :=
      tagLine_of_disproved (by rwa [stripNewline_concat])
    simp only [runChars, hstep, lineStep, hnone, append_nil, textAtoms_append]
    rfl

theorem finish_line (hstart : p.AtLineStart) {line : Text} (hne : line ≠ [])
    (hline : '\n' ∉ line) :
    (p.runChars line).2 ++ atomsOf (p.runChars line).1.finish.2 =
      (p.lineStep line).2 ++ atomsOf (p.lineStep line).1.finish.2 := by
  obtain ⟨specs, activeTag, detectTag, lineBuffer⟩ := p
  obtain ⟨rfl, rfl⟩ : detectTag = true ∧ lineBuffer = [] := hstart
  rcases runChars_partial (p := ⟨specs, activeTag, true, []⟩) ⟨rfl, rfl⟩ hline with hbuffered | ⟨hdisproved, hreleased⟩
  · rw [hbuffered]
    have hsame : tagLine ⟨specs, activeTag, true, line⟩ line =
      tagLine ⟨specs, activeTag, true, []⟩ line := rfl
    have hnil : atomsOf ([] : List (TaggedLineSegment τ)) = [] := rfl
    unfold lineStep finish
    simp only [if_neg hne, hsame, nil_append]
    cases tagLine ⟨specs, activeTag, true, []⟩ line with
    | none =>
      cases activeTag with
      | none => simp [atomsOf_pushText, textAtoms, hnil]
      | some tag => simp [atomsOf_pushText, atomsOf_pushSegment, textAtoms, hnil]
    | some r =>
      obtain ⟨segment, active⟩ := r
      cases active with
      | none | some tag => simp [atomsOf_pushSegment, hnil]
  · rw [hreleased]
    have hnone : tagLine ⟨specs, activeTag, true, []⟩ line = none :=
      tagLine_of_disproved (by rwa [stripNewline_of_not_mem hline])
    simp only [lineStep, hnone]
    rfl

/-! ## The parser as a reader of lines -/

/-- The close of a tag that can be opened is not found to be another tag's. -/
def ClosesFound (specs : List (TagSpec τ)) : Prop :=
  ∀ opn tag, (new specs).matchOpen opn = some tag → ∀ spec ∈ specs, spec.tag = tag →
    (new specs).matchClose spec.close = some tag

def Opened (p : TaggedLineParser τ) : Prop :=
  ∀ tag, p.activeTag = some tag → ∃ opn, (new p.specs).matchOpen opn = some tag

theorem tagLine_idle (h : p.activeTag = none) (line : Text) :
    p.tagLine line = (p.matchOpen (trim (stripNewline line))).map fun tag =>
      (.tagStart tag, some tag) := by
  unfold tagLine trim
  dsimp only
  rw [h]
  cases p.matchOpen (trimEnd (trimStart (stripNewline line))) with
  | none => cases p.matchClose (trimEnd (trimStart (stripNewline line))) <;> rfl
  | some tag => rfl

theorem tagLine_active {tag : τ} (h : p.activeTag = some tag) (line : Text) :
    p.tagLine line = if p.matchClose (trim (stripNewline line)) = some tag then
      some (.tagEnd tag, none) else none := by
  unfold tagLine trim
  dsimp only
  rw [h]
  cases p.matchClose (trimEnd (trimStart (stripNewline line))) with
  | none => cases p.matchOpen (trimEnd (trimStart (stripNewline line))) <;> rfl
  | some found =>
    have hcases : (if some tag = some found then some (TaggedLineSegment.tagEnd found, none)
        else none) = if some found = some tag then some (.tagEnd tag, (none : Option τ))
        else none := by
      by_cases hfound : found = tag
      · simp [hfound]
      · simp [hfound, Ne.symm hfound]
    cases p.matchOpen (trimEnd (trimStart (stripNewline line))) <;> exact hcases

omit [DecidableEq τ] in
theorem matchClose_iff (hcloses : ClosesFound p.specs) (hopened : p.Opened) {tag : τ}
    (hactive : p.activeTag = some tag) (slug : Text) :
    p.matchClose slug = some tag ↔ ∃ spec ∈ p.specs, spec.tag = tag ∧ spec.close = slug := by
  constructor
  · intro h
    obtain ⟨spec, hfind, htag⟩ := map_eq_some_iff.mp h
    have hclose : spec.close = slug := by simpa using List.find?_some hfind
    exact ⟨spec, mem_of_find?_eq_some hfind, htag, hclose⟩
  · rintro ⟨spec, hspec, htag, rfl⟩
    obtain ⟨opn, hopn⟩ := hopened tag hactive
    exact hcloses opn tag hopn spec hspec htag

theorem lineStep_eq (hcloses : ClosesFound p.specs) (hopened : p.Opened) (line : Text) :
    p.lineStep line =
      ({ p with activeTag := (lineSegment p.specs p.activeTag line).activeBehind p.activeTag },
        (lineSegment p.specs p.activeTag line).atoms) := by
  unfold lineStep
  cases hactive : p.activeTag with
  | none =>
    have htext : p.textAtoms line = (TaggedLineSegment.normal line).atoms := by
      rw [textAtoms, hactive]
    rw [tagLine_idle hactive, matchOpen, lineSegment]
    cases p.specs.find? fun spec => spec.opn = trim (stripNewline line) with
    | none =>
      rw [map_none, map_none, htext]
      obtain ⟨specs, activeTag, detectTag, lineBuffer⟩ := p
      cases hactive
      rfl
    | some spec => rfl
  | some tag =>
    have htext : p.textAtoms line = (TaggedLineSegment.tagDelta tag line).atoms := by
      rw [textAtoms, hactive]
    rw [tagLine_active hactive, lineSegment]
    simp only [matchClose_iff hcloses hopened hactive]
    by_cases hclose : ∃ spec ∈ p.specs, spec.tag = tag ∧ spec.close = trim (stripNewline line)
    · simp only [if_pos hclose]
      rfl
    · simp only [if_neg hclose, htext]
      obtain ⟨specs, activeTag, detectTag, lineBuffer⟩ := p
      cases hactive
      rfl

theorem opened_behind (hopened : p.Opened) (line : Text) : Opened { p with
      activeTag := (lineSegment p.specs p.activeTag line).activeBehind p.activeTag } := by
  intro tag htag
  dsimp only at htag ⊢
  cases hactive : p.activeTag with
  | none =>
    rw [hactive, lineSegment] at htag
    cases hfind : p.specs.find? fun spec => spec.opn = trim (stripNewline line) with
    | none =>
      rw [hfind] at htag
      cases htag
    | some spec =>
      rw [hfind] at htag
      refine ⟨trim (stripNewline line), ?_⟩
      rw [← htag]
      exact congrArg (Option.map fun spec : TagSpec τ => spec.tag) hfind
  | some active =>
    refine hopened tag ?_
    rw [hactive, lineSegment] at htag
    split at htag
    · cases htag
    · rw [hactive]
      exact htag

omit [DecidableEq τ] in
theorem atomsOf_cons : atomsOf (s :: segments) = s.atoms ++ atomsOf segments := flatMap_cons

theorem lineSegments_cons (line : Text) (lines : List Text) :
    lineSegments specs active (line :: lines) = lineSegment specs active line ::
      lineSegments specs ((lineSegment specs active line).activeBehind active) lines := by
  cases active <;> rfl

theorem finish_atLineStart (hstart : p.AtLineStart) :
    atomsOf p.finish.2 = atomsOf (lineSegments p.specs p.activeTag []) := by
  obtain ⟨specs, activeTag, detectTag, lineBuffer⟩ := p
  obtain ⟨rfl, rfl⟩ : detectTag = true ∧ lineBuffer = [] := hstart
  cases activeTag <;> rfl

theorem runChars_lines {p : TaggedLineParser τ} (hcloses : ClosesFound p.specs) (hopened : p.Opened)
    (hstart : p.AtLineStart) (text : Text) :
    (p.runChars text).2 ++ atomsOf (p.runChars text).1.finish.2 =
      atomsOf (lineSegments p.specs p.activeTag (cutLines text)) := by
  rcases newline_cases text with hline | ⟨line, rest, hline, htext⟩
  · by_cases hne : text = []
    · subst hne
      exact finish_atLineStart hstart
    · rw [finish_line hstart hne hline, lineStep_eq hcloses hopened, cutLines_of_not_mem hne hline,
        lineSegments_cons, atomsOf_cons]
      exact congrArg (_ ++ ·) (finish_atLineStart hstart)
  · let active := (lineSegment p.specs p.activeTag (line ++ ['\n'])).activeBehind p.activeTag
    have hrest := runChars_lines (p := { p with activeTag := active }) hcloses
      (opened_behind hopened (line ++ ['\n'])) hstart rest
    rw [htext, cutLines_append_newline hline, lineSegments_cons, atomsOf_cons,
      show line ++ '\n' :: rest = (line ++ ['\n']) ++ rest by simp, runChars_append,
      runChars_line hstart hline, lineStep_eq hcloses hopened, List.append_assoc, hrest]
termination_by text.length
decreasing_by
  subst htext
  simp
  omega

theorem parseChunks_eq (chunks : List Text) :
    (p.parseChunks chunks).1 = (p.runChars chunks.flatten).1 ∧
      atomsOf (p.parseChunks chunks).2 = (p.runChars chunks.flatten).2 := by
  induction chunks generalizing p with
  | nil => exact ⟨rfl, rfl⟩
  | cons chunk chunks ih =>
    obtain ⟨hstate, hatoms⟩ := p.parse_eq_runChars chunk
    obtain ⟨ihstate, ihatoms⟩ := ih (p := (p.parse chunk).1)
    rw [flatten_cons, runChars_append, ← hstate, ← hatoms, ← ihstate, ← ihatoms]
    exact ⟨rfl, flatMap_append⟩

omit [DecidableEq τ] in
theorem opened_new : (new specs).Opened := nofun

omit [DecidableEq τ] in
theorem new_atLineStart : (new specs).AtLineStart := ⟨rfl, rfl⟩

end TaggedLineParser

open TaggedLineParser

theorem atomsOf_collectSegments (chunks : List Text) : atomsOf (collectSegments specs chunks) =
      ((new specs).runChars chunks.flatten).2 ++
        atomsOf ((new specs).runChars chunks.flatten).1.finish.2 := by
  obtain ⟨hstate, hatoms⟩ := parseChunks_eq (p := new specs) chunks
  rw [← hstate, ← hatoms]
  exact flatMap_append

/-! ## The parser and the reference -/

def TaggedLineSegment.text : TaggedLineSegment τ → Text
  | .normal text => text
  | .tagDelta _ text => text
  | _ => []

def textLines (specs : List (TagSpec τ)) : Option τ → List Text → List Text
  | _, [] => []
  | active, line :: lines =>
    let segment := lineSegment specs active line
    match segment with
    | .tagStart _ | .tagEnd _ => textLines specs (segment.activeBehind active) lines
    | _ => line :: textLines specs (segment.activeBehind active) lines

/-- Joined, the segments are those of the lines, and their text is that of the lines that
are no tags. -/
structure ReadByLines (specs : List (TagSpec τ)) (chunks : List Text) : Prop where
  segments : coalesce (collectSegments specs chunks) =
    coalesce (lineSegments specs none (cutLines chunks.flatten))
  text : (collectSegments specs chunks).flatMap TaggedLineSegment.text =
    (textLines specs none (cutLines chunks.flatten)).flatten

omit [DecidableEq τ] in
theorem text_atoms : s.atoms.flatMap TaggedLineSegment.text = s.text := by
  cases s with
  | tagStart tag | tagEnd tag => rfl
  | normal text | tagDelta tag text =>
    unfold TaggedLineSegment.atoms
    rw [flatMap_map]
    exact flatMap_singleton' text

omit [DecidableEq τ] in
theorem text_atomsOf : (atomsOf segments).flatMap TaggedLineSegment.text =
      segments.flatMap TaggedLineSegment.text := by
  unfold atomsOf
  rw [flatMap_assoc]
  simp only [text_atoms]

theorem lineSegment_cases (line : Text) : (∃ tag, lineSegment specs active line = .tagStart tag) ∨
    (∃ tag, lineSegment specs active line = .tagEnd tag) ∨
    lineSegment specs active line = .normal line ∨
    ∃ tag, lineSegment specs active line = .tagDelta tag line := by
  unfold lineSegment
  cases active with
  | none =>
    dsimp only
    split
    · exact .inl ⟨_, rfl⟩
    · exact .inr (.inr (.inl rfl))
  | some tag =>
    dsimp only
    split
    · exact .inr (.inl ⟨tag, rfl⟩)
    · exact .inr (.inr (.inr ⟨tag, rfl⟩))

theorem text_lineSegments (lines : List Text) :
    (lineSegments specs active lines).flatMap TaggedLineSegment.text =
      (textLines specs active lines).flatten := by
  induction lines generalizing active with
  | nil => cases active <;> rfl
  | cons line lines ih =>
    rw [lineSegments_cons, flatMap_cons, ih, textLines]
    rcases lineSegment_cases specs active line with
      ⟨tag, hseg⟩ | ⟨tag, hseg⟩ | hseg | ⟨tag, hseg⟩ <;> rw [hseg] <;> rfl

theorem text_of_lost_close {specs : List (TagSpec τ)} {opn close : Text} {tag : τ}
    (hopn : (new specs).matchOpen opn = some tag) (htrim : trim opn = opn) (hline : '\n' ∉ opn)
    (hclose : (new specs).matchClose close ≠ some tag) (htrim' : trim close = close)
    (hline' : '\n' ∉ close) :
    (collectSegments specs [opn ++ ['\n'] ++ (close ++ ['\n'])]).flatMap TaggedLineSegment.text =
      close ++ ['\n'] := by
  have hfirst : (new specs).lineStep (opn ++ ['\n']) =
      (⟨specs, some tag, true, []⟩, [.tagStart tag]) := by
    rw [lineStep, tagLine_idle rfl, stripNewline_concat, htrim, hopn]
    rfl
  have hsecond : lineStep ⟨specs, some tag, true, []⟩ (close ++ ['\n']) =
      (⟨specs, some tag, true, []⟩, (TaggedLineSegment.tagDelta tag (close ++ ['\n'])).atoms) := by
    have hnone : matchClose ⟨specs, some tag, true, []⟩ close ≠ some tag := hclose
    rw [lineStep, tagLine_active rfl, stripNewline_concat, htrim', if_neg hnone]
    rfl
  rw [← text_atomsOf, atomsOf_collectSegments, flatten_singleton, runChars_append,
    runChars_line (new_atLineStart specs) hline, hfirst, runChars_line ⟨rfl, rfl⟩ hline', hsecond,
    flatMap_append, flatMap_append, text_atoms]
  exact append_nil _

/-- However a text is cut into chunks it is read by lines, exactly if closes are found. -/
theorem readByLines_iff {specs : List (TagSpec τ)} (hspecs : ∀ spec ∈ specs, spec.WellFormed) :
    (∀ chunks, ReadByLines specs chunks) ↔ ClosesFound specs := by
  constructor
  · intro h opn tag hopn spec hspec htag
    by_contra hclose
    obtain ⟨opener, hfind, hopener⟩ := map_eq_some_iff.mp hopn
    have hopn' : opener.opn = opn := by simpa using List.find?_some hfind
    have hfind : specs.find? (fun spec => spec.opn = opn) = some opener := hfind
    obtain ⟨⟨-, hline, htrim⟩, -⟩ := hspecs opener (mem_of_find?_eq_some hfind)
    obtain ⟨-, -, hline', htrim'⟩ := hspecs spec hspec
    rw [hopn'] at hline htrim
    have htext := (h [opn ++ ['\n'] ++ (spec.close ++ ['\n'])]).text
    rw [text_of_lost_close hopn htrim hline hclose htrim' hline', flatten_singleton,
      List.append_assoc, singleton_append, cutLines_append_newline hline,
      cutLines_append_newline hline', textLines] at htext
    have hstart : lineSegment specs none (opn ++ ['\n']) = .tagStart tag := by
      rw [lineSegment, stripNewline_concat, htrim]
      simp only [hfind, hopener]
    have hend : lineSegment specs (some tag) (spec.close ++ ['\n']) = .tagEnd tag := by
      rw [lineSegment, stripNewline_concat, htrim']
      exact if_pos ⟨spec, hspec, htag, rfl⟩
    simp [hstart, TaggedLineSegment.activeBehind, textLines, hend, cutLines] at htext
  · intro hcloses chunks
    have hatoms : atomsOf (collectSegments specs chunks) =
        atomsOf (lineSegments specs none (cutLines chunks.flatten)) := by
      rw [atomsOf_collectSegments]
      exact runChars_lines hcloses (opened_new specs) (new_atLineStart specs) chunks.flatten
    refine ⟨coalesce_eq_iff.mpr hatoms, ?_⟩
    rw [← text_atomsOf, hatoms, text_atomsOf, text_lineSegments]

end

def noteTags : List (TagSpec Bool) :=
  [⟨"<a>".toList, "</a>".toList, false⟩, ⟨"<b>".toList, "</b>".toList, true⟩]

theorem noteTags_wellFormed : ∀ spec ∈ noteTags, spec.WellFormed := by
  unfold TagSpec.WellFormed
  decide

theorem notes_readByLines : ReadByLines noteTags ["x\n <b".toList, ">\ny\n</b>".toList] := by
  refine (readByLines_iff noteTags_wellFormed).mpr (fun opn tag _ spec hspec htag => ?_) _
  have hall : ∀ spec ∈ noteTags,
      (TaggedLineParser.new noteTags).matchClose spec.close = some spec.tag := by decide
  rw [hall spec hspec, htag]

def sharedClose : List (TagSpec Bool) :=
  [⟨"<a>".toList, "</x>".toList, false⟩, ⟨"<b>".toList, "</x>".toList, true⟩]

theorem shared_close_goes_by : ¬ ReadByLines sharedClose ["<b>\n</x>\ny".toList] := by
  intro h
  exact absurd h.text (by decide)

end Codex
