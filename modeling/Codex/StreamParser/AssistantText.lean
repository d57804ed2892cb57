import Codex.StreamParser.TaggedLine
import Codex.StreamParser.InlineHiddenTag

/-!
# Assistant text with proposed plans

The tagged-line parser for `<proposed_plan>` blocks. Its pushes add up when the
segments are seen in pieces, and merging adjacent segments forgets how the pieces
were cut (`mergeAdjacent_pieces`).

Citations are stripped first; in plan mode what stays visible goes through the plan
parser. The plan parser sees the visible text in the chunks the citation parser
releases, and since both add up the chunks do not show in the result.
-/

namespace Codex

open Foundation List

/-! ## Proposed plans -/

def OPEN_TAG : Text := "<proposed_plan>".toList
def CLOSE_TAG : Text := "</proposed_plan>".toList

inductive PlanTag where
  | proposedPlan
deriving DecidableEq

inductive ProposedPlanSegment where
  | normal (text : Text)
  | proposedPlanStart
  | proposedPlanDelta (text : Text)
  | proposedPlanEnd
deriving DecidableEq

structure ProposedPlanParser where
  parser : TaggedLineParser PlanTag
deriving DecidableEq

def ProposedPlanParser.new : ProposedPlanParser :=
  ⟨⟨[⟨OPEN_TAG, CLOSE_TAG, .proposedPlan⟩], none, true, []⟩⟩

def mapSegment : TaggedLineSegment PlanTag → ProposedPlanSegment
  | .normal text => .normal text
  | .tagStart .proposedPlan => .proposedPlanStart
  | .tagDelta .proposedPlan text => .proposedPlanDelta text
  | .tagEnd .proposedPlan => .proposedPlanEnd

def ProposedPlanSegment.visible : ProposedPlanSegment → Text
  | .normal text => text
  | _ => []

def mapSegments (segments : List (TaggedLineSegment PlanTag)) :
    StreamTextChunk ProposedPlanSegment :=
  let mapped := segments.map mapSegment
  ⟨mapped.flatMap (·.visible), mapped⟩

def proposedPlanParser : StreamTextParser ProposedPlanParser ProposedPlanSegment where
  pushStr p chunk :=
    let (parser, segments) := p.parser.parse chunk
    (⟨parser⟩, mapSegments segments)
  finish p :=
    let (parser, segments) := p.parser.finish
    (⟨parser⟩, mapSegments segments)

def stripProposedPlanBlocks (text : Text) : Text :=
  let (p, out) := proposedPlanParser.pushStr .new text
  out.visibleText ++ (proposedPlanParser.finish p).2.visibleText

def proposedPlanSegments (text : Text) : List ProposedPlanSegment :=
  (collectChunks proposedPlanParser .new [text]).extracted

/-! ## Pieces -/

def ProposedPlanSegment.pieces : ProposedPlanSegment → List ProposedPlanSegment
  | .normal text => text.map fun c => .normal [c]
  | .proposedPlanDelta text => text.map fun c => .proposedPlanDelta [c]
  | s => [s]

theorem mapSegment_pieces (s : TaggedLineSegment PlanTag) :
    (mapSegment s).pieces = s.atoms.map mapSegment := by
  cases s with
  | normal text => simp [mapSegment, ProposedPlanSegment.pieces, TaggedLineSegment.atoms]
  | tagDelta tag text =>
    cases tag
    simp [mapSegment, ProposedPlanSegment.pieces, TaggedLineSegment.atoms]
  | tagStart tag | tagEnd tag => cases tag; rfl

theorem visible_pieces (s : ProposedPlanSegment) : s.pieces.flatMap (·.visible) = s.visible := by
  cases s with
  | normal text =>
    induction text with
    | nil => rfl
    | cons c text ih =>
      simp only [ProposedPlanSegment.pieces, map_cons, flatMap_cons] at ih ⊢
      rw [ih]
      rfl
  | proposedPlanDelta text =>
    induction text with
    | nil => rfl
    | cons c text ih => exact ih
  | proposedPlanStart | proposedPlanEnd => rfl

theorem mapSegments_pieces (segments : List (TaggedLineSegment PlanTag)) :
    (mapSegments segments).extracted.flatMap (·.pieces) = (atomsOf segments).map mapSegment := by
  unfold mapSegments atomsOf
  induction segments with
  | nil => rfl
  | cons s segments ih =>
    simp only [map_cons, flatMap_cons, map_append] at ih ⊢
    rw [ih, mapSegment_pieces]

theorem mapSegments_visible (segments : List (TaggedLineSegment PlanTag)) :
    (mapSegments segments).visibleText =
      ((atomsOf segments).map mapSegment).flatMap (·.visible) := by
  rw [← mapSegments_pieces, flatMap_assoc]
  simp only [visible_pieces]
  rfl

theorem proposedPlan_additive :
    Additive proposedPlanParser ProposedPlanSegment.pieces (fun _ => True) where
  keeps := fun _ _ => trivial
  push_nil := fun _ => rfl
  push_append := by
    intro s _ t u first second whole
    obtain ⟨h1, h2⟩ := s.parser.parse_eq_runChars t
    obtain ⟨g1, g2⟩ := (s.parser.parse t).1.parse_eq_runChars u
    obtain ⟨w1, w2⟩ := s.parser.parse_eq_runChars (t ++ u)
    rw [TaggedLineParser.runChars_append] at w1 w2
    rw [h1] at g1 g2
    have hstate : (s.parser.parse (t ++ u)).1 = ((s.parser.parse t).1.parse u).1 := by
      rw [w1, ← g1, h1]
    have hatoms : atomsOf (s.parser.parse (t ++ u)).2 =
        atomsOf (s.parser.parse t).2 ++ atomsOf ((s.parser.parse t).1.parse u).2 := by
      rw [w2, h2, ← g2, h1]
    refine ⟨congrArg ProposedPlanParser.mk hstate, ?_, ?_⟩
    · simp only [whole, first, second, proposedPlanParser, mapSegments_visible]
      rw [hatoms, map_append, flatMap_append]
    · simp only [whole, first, second, proposedPlanParser, mapSegments_pieces]
      rw [hatoms, map_append]

/-! ## Adjacent segments -/

/-- `s` in front of merged segments, joined with the first one when both are normal
text or both are plan text. -/
def mergeCons (s : ProposedPlanSegment) (rest : List ProposedPlanSegment) :
    List ProposedPlanSegment :=
  match s, rest with
  | .normal a, .normal b :: rest => .normal (a ++ b) :: rest
  | .proposedPlanDelta a, .proposedPlanDelta b :: rest => .proposedPlanDelta (a ++ b) :: rest
  | s, rest => s :: rest

def mergeAdjacent (segments : List ProposedPlanSegment) : List ProposedPlanSegment :=
  segments.foldr mergeCons []

theorem mergeCons_normal (c : Char) (text : Text) (rest : List ProposedPlanSegment) :
    mergeCons (.normal [c]) (mergeCons (.normal text) rest) =
      mergeCons (.normal (c :: text)) rest := by
  rcases rest with _ | ⟨s, rest⟩
  · rfl
  · cases s <;> rfl

theorem mergeCons_delta (c : Char) (text : Text) (rest : List ProposedPlanSegment) :
    mergeCons (.proposedPlanDelta [c]) (mergeCons (.proposedPlanDelta text) rest) =
      mergeCons (.proposedPlanDelta (c :: text)) rest := by
  rcases rest with _ | ⟨s, rest⟩
  · rfl
  · cases s <;> rfl

theorem foldr_mergeCons_pieces {s : ProposedPlanSegment} (hs : s.pieces ≠ [])
    (rest : List ProposedPlanSegment) : s.pieces.foldr mergeCons rest = mergeCons s rest := by
  cases s with
  | normal text =>
    induction text with
    | nil => exact absurd rfl hs
    | cons c text ih =>
      rcases text with _ | ⟨d, text⟩
      · rfl
      · have htail := ih (cons_ne_nil _ _)
        simp only [ProposedPlanSegment.pieces, map_cons, foldr_cons] at htail ⊢
        rw [htail, mergeCons_normal]
  | proposedPlanDelta text =>
    induction text with
    | nil => exact absurd rfl hs
    | cons c text ih =>
      rcases text with _ | ⟨d, text⟩
      · rfl
      · have htail := ih (cons_ne_nil _ _)
        simp only [ProposedPlanSegment.pieces, map_cons, foldr_cons] at htail ⊢
        rw [htail, mergeCons_delta]
  | proposedPlanStart | proposedPlanEnd => rfl

theorem mergeAdjacent_pieces {segments : List ProposedPlanSegment}
    (h : ∀ s ∈ segments, s.pieces ≠ []) :
    mergeAdjacent (segments.flatMap (·.pieces)) = mergeAdjacent segments := by
  unfold mergeAdjacent
  induction segments with
  | nil => rfl
  | cons s segments ih =>
    rw [flatMap_cons, foldr_append, foldr_cons,
      ih fun s hs => h s (mem_cons_of_mem _ hs),
      foldr_mergeCons_pieces (h s mem_cons_self)]

theorem mapSegments_solid {segments : List (TaggedLineSegment PlanTag)}
    (h : TaggedLineParser.Solid segments) :
    ∀ s ∈ (mapSegments segments).extracted, s.pieces ≠ [] := by
  intro s hs
  obtain ⟨t, ht, rfl⟩ := mem_map.mp hs
  rw [mapSegment_pieces]
  intro hnil
  exact h t ht (map_eq_nil_iff.mp hnil)

theorem pushStr_solid (p : ProposedPlanParser) (chunk : Text) :
    ∀ s ∈ (proposedPlanParser.pushStr p chunk).2.extracted, s.pieces ≠ [] :=
  mapSegments_solid (TaggedLineParser.solid_parse _ _)

theorem finish_solid (p : ProposedPlanParser) :
    ∀ s ∈ (proposedPlanParser.finish p).2.extracted, s.pieces ≠ [] :=
  mapSegments_solid (TaggedLineParser.solid_finish _)

/-! ## Assistant text -/

structure AssistantTextChunk where
  visibleText : Text
  citations : List Text
  planSegments : List ProposedPlanSegment
deriving DecidableEq

structure AssistantTextStreamParser where
  planMode : Bool
  citations : CitationStreamParser
  plan : ProposedPlanParser
deriving DecidableEq

namespace AssistantTextStreamParser

def new (planMode : Bool) : AssistantTextStreamParser := ⟨planMode, .new, .new⟩

def parseVisibleText (p : AssistantTextStreamParser) (visibleText : Text) :
    AssistantTextStreamParser × AssistantTextChunk :=
  if !p.planMode then (p, ⟨visibleText, [], []⟩)
  else
    let (plan, planChunk) := proposedPlanParser.pushStr p.plan visibleText
    ({ p with plan := plan }, ⟨planChunk.visibleText, [], planChunk.extracted⟩)

def pushStr (p : AssistantTextStreamParser) (chunk : Text) :
    AssistantTextStreamParser × AssistantTextChunk :=
  let (citations, citationChunk) := citationParser.pushStr p.citations chunk
  let (p, out) := { p with citations := citations }.parseVisibleText citationChunk.visibleText
  (p, { out with citations := citationChunk.extracted })

def finish (p : AssistantTextStreamParser) : AssistantTextStreamParser × AssistantTextChunk :=
  let (citations, citationChunk) := citationParser.finish p.citations
  let (p, out) := { p with citations := citations }.parseVisibleText citationChunk.visibleText
  if p.planMode then
    let (plan, tail) := proposedPlanParser.finish p.plan
    ({ p with plan := plan },
      ⟨out.visibleText ++ tail.visibleText, citationChunk.extracted,
        out.planSegments ++ tail.extracted⟩)
  else (p, { out with citations := citationChunk.extracted })

def collect (p : AssistantTextStreamParser) : List Text → AssistantTextChunk
  | [] => p.finish.2
  | chunk :: chunks =>
    let (p, out) := p.pushStr chunk
    let rest := collect p chunks
    ⟨out.visibleText ++ rest.visibleText, out.citations ++ rest.citations,
      out.planSegments ++ rest.planSegments⟩

/-! ## The two parsers one after the other -/

/-- What the citation parser leaves visible, push by push and at the end. -/
def visibleChunks (c : CitationStreamParser) : List Text → List Text
  | [] => [(citationParser.finish c).2.visibleText]
  | chunk :: chunks =>
    let (c, out) := citationParser.pushStr c chunk
    out.visibleText :: visibleChunks c chunks

theorem visibleChunks_flatten (c : CitationStreamParser) (chunks : List Text) :
    (visibleChunks c chunks).flatten = (collectChunks citationParser c chunks).visibleText := by
  induction chunks generalizing c with
  | nil => exact append_nil _
  | cons chunk chunks ih =>
    simp only [visibleChunks, flatten_cons, ih]
    exact (List.append_assoc _ _ _).symm

theorem collect_citations (p : AssistantTextStreamParser) (chunks : List Text) :
    (p.collect chunks).citations = (collectChunks citationParser p.citations chunks).extracted := by
  induction chunks generalizing p with
  | nil =>
    obtain ⟨mode, c, plan⟩ := p
    cases mode <;> rfl
  | cons chunk chunks ih =>
    have hc : (p.pushStr chunk).1.citations = (citationParser.pushStr p.citations chunk).1 := by
      obtain ⟨mode, c, plan⟩ := p
      cases mode <;> rfl
    simp only [collect, ih, hc]
    exact (List.append_assoc _ _ _).symm

variable {p : AssistantTextStreamParser}

theorem collect_plain (h : p.planMode = false) (chunks : List Text) :
    (p.collect chunks).visibleText =
        (collectChunks citationParser p.citations chunks).visibleText ∧
      (p.collect chunks).planSegments = [] := by
  induction chunks generalizing p with
  | nil =>
    unfold collect finish parseVisibleText
    simp only [h]
    exact ⟨rfl, rfl⟩
  | cons chunk chunks ih =>
    have hp : p.pushStr chunk =
        ({ p with citations := (citationParser.pushStr p.citations chunk).1 },
          ⟨(citationParser.pushStr p.citations chunk).2.visibleText,
            (citationParser.pushStr p.citations chunk).2.extracted, []⟩) := by
      simp only [pushStr, parseVisibleText, h]
      rfl
    obtain ⟨h1, h2⟩ := ih (p := { p with citations := (citationParser.pushStr p.citations chunk).1 }) h
    simp only [collect, hp, h1, h2]
    exact ⟨(List.append_assoc _ _ _).symm, rfl⟩

theorem collect_plan (h : p.planMode = true) (chunks : List Text) : (p.collect chunks).visibleText =
        (collectChunks proposedPlanParser p.plan (visibleChunks p.citations chunks)).visibleText ∧
      (p.collect chunks).planSegments =
        (collectChunks proposedPlanParser p.plan (visibleChunks p.citations chunks)).extracted := by
  induction chunks generalizing p with
  | nil =>
    unfold collect finish parseVisibleText
    simp only [h]
    simp [visibleChunks, collectChunks, pushChunks, StreamTextChunk.append, StreamTextChunk.default]
  | cons chunk chunks ih =>
    obtain ⟨mode, c, plan⟩ := p
    subst h
    obtain ⟨h1, h2⟩ := ih (p := (pushStr ⟨true, c, plan⟩ chunk).1) rfl
    simp only [collect, h1, h2]
    exact ⟨(List.append_assoc _ _ _).symm, (List.append_assoc _ _ _).symm⟩

theorem collect_solid (chunks : List Text) :
    ∀ s ∈ (p.collect chunks).planSegments, s.pieces ≠ [] := by
  have hparse : ∀ (q : AssistantTextStreamParser) (text : Text),
      ∀ s ∈ (q.parseVisibleText text).2.planSegments, s.pieces ≠ [] := by
    intro q text
    unfold parseVisibleText
    split
    · exact fun s hs => nomatch hs
    · exact pushStr_solid q.plan text
  induction chunks generalizing p with
  | nil =>
    intro s hs
    simp only [collect, finish] at hs
    split at hs
    · rcases mem_append.mp hs with hs | hs
      · exact hparse _ _ s hs
      · exact finish_solid _ s hs
    · exact hparse _ _ s hs
  | cons chunk chunks ih =>
    intro s hs
    rcases mem_append.mp hs with hs | hs
    · exact hparse _ _ s hs
    · exact ih s hs

end AssistantTextStreamParser

/-! ## The whole text -/

theorem collect_stripCitations (chunks : List Text) :
    (collectChunks citationParser .new chunks).visibleText = (stripCitations chunks.flatten).1 ∧
      (collectChunks citationParser .new chunks).extracted = (stripCitations chunks.flatten).2 := by
  obtain ⟨h1, h2⟩ := collect_eq citation_additive citation_new chunks
  simp only [flatMap_singleton'] at h2
  rw [h1, h2]
  simp [collectChunks, pushChunks, stripCitations, StreamTextChunk.append, StreamTextChunk.default]

theorem collect_proposedPlan (chunks : List Text) :
    (collectChunks proposedPlanParser .new chunks).visibleText =
        stripProposedPlanBlocks chunks.flatten ∧
      (collectChunks proposedPlanParser .new chunks).extracted.flatMap (·.pieces) =
        (proposedPlanSegments chunks.flatten).flatMap (·.pieces) := by
  obtain ⟨h1, h2⟩ := collect_eq proposedPlan_additive (s := .new) trivial chunks
  rw [h1, h2]
  refine ⟨?_, rfl⟩
  simp [collectChunks, pushChunks, stripProposedPlanBlocks, StreamTextChunk.append,
    StreamTextChunk.default]

theorem proposedPlanSegments_solid (text : Text) :
    ∀ s ∈ proposedPlanSegments text, s.pieces ≠ [] := by
  intro s hs
  simp only [proposedPlanSegments, collectChunks, pushChunks, StreamTextChunk.append,
    StreamTextChunk.default, append_nil] at hs
  rcases mem_append.mp hs with hs | hs
  · exact pushStr_solid _ _ s hs
  · exact finish_solid _ s hs

/-- However assistant text is cut into chunks, the result is that of the whole text:
its citations stripped and, in plan mode, its plan blocks stripped from what is left. -/
theorem assistantText_collect (planMode : Bool) (chunks : List Text) :
    let out := (AssistantTextStreamParser.new planMode).collect chunks
    let stripped := stripCitations chunks.flatten
    out.citations = stripped.2 ∧
      out.visibleText = (if planMode then stripProposedPlanBlocks stripped.1 else stripped.1) ∧
      mergeAdjacent out.planSegments =
        (if planMode then mergeAdjacent (proposedPlanSegments stripped.1) else []) := by
  obtain ⟨hv, hc⟩ := collect_stripCitations chunks
  have hcit := AssistantTextStreamParser.collect_citations (.new planMode) chunks
  refine ⟨hcit.trans hc, ?_⟩
  cases planMode with
  | false =>
    obtain ⟨h1, h2⟩ := AssistantTextStreamParser.collect_plain (p := .new false) rfl chunks
    refine ⟨h1.trans hv, ?_⟩
    rw [h2]
    rfl
  | true =>
    obtain ⟨h1, h2⟩ := AssistantTextStreamParser.collect_plan (p := .new true) rfl chunks
    have hflat := AssistantTextStreamParser.visibleChunks_flatten .new chunks
    obtain ⟨g1, g2⟩ := collect_proposedPlan (AssistantTextStreamParser.visibleChunks .new chunks)
    rw [hflat, hv] at g1 g2
    refine ⟨h1.trans g1, ?_⟩
    have hsolid := AssistantTextStreamParser.collect_solid (p := .new true) chunks
    rw [if_pos rfl, ← mergeAdjacent_pieces hsolid, h2,
      ← mergeAdjacent_pieces (proposedPlanSegments_solid _)]
    exact congrArg mergeAdjacent g2

def PLAN_BLOCK : Text := "<proposed_plan>\n- step\n</proposed_plan>\n".toList

set_option maxRecDepth 4000 in
/-- Outside plan mode plan blocks stay where they are. -/
theorem planBlock_visible_without_planMode : ¬ ∀ (planMode : Bool) (chunks : List Text),
      ((AssistantTextStreamParser.new planMode).collect chunks).visibleText =
        stripProposedPlanBlocks (stripCitations chunks.flatten).1 := by
  intro h
  exact absurd (h false [PLAN_BLOCK]) (by decide)

end Codex
