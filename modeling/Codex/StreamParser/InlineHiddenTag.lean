import Codex.Foundation.TagScan
import Codex.StreamParser.StreamText

/-!
# Inline hidden tags and citations

`InlineHiddenTagParser` hides configured tags from streamed text and extracts what
stands between them. With a single tag, as for citations, its pushes are the
scanner of `TagScan`, so they add up.
-/

namespace Codex

open Foundation Option

structure ExtractedInlineTag (τ : Type) where
  tag : τ
  content : Text
deriving DecidableEq

structure InlineTagSpec (τ : Type) where
  tag : τ
  opn : Text
  close : Text
deriving DecidableEq

structure ActiveTag (τ : Type) where
  tag : τ
  close : Text
  content : Text
deriving DecidableEq

structure InlineHiddenTagParser (τ : Type) where
  specs : List (InlineTagSpec τ)
  pending : Text
  active : Option (ActiveTag τ)
deriving DecidableEq

namespace InlineHiddenTagParser

variable {τ : Type}

structure OpenMatch (τ : Type) where
  pos : Nat
  len : Nat
  idx : Nat
  spec : InlineTagSpec τ

/-- The earlier match, of two at one position the longer, of two as long the first. -/
def OpenMatch.before (a b : OpenMatch τ) : Bool :=
  a.pos < b.pos || (a.pos = b.pos && (b.len < a.len || (a.len = b.len && a.idx < b.idx)))

def minMatch : List (OpenMatch τ) → Option (OpenMatch τ)
  | [] => none
  | m :: ms => some (ms.foldl (fun best n => if n.before best then n else best) m)

def findNextOpen (p : InlineHiddenTagParser τ) : Option (OpenMatch τ) :=
  minMatch (p.specs.zipIdx.filterMap fun s =>
    (findFirst s.1.opn p.pending).map fun pos => ⟨pos, s.1.opn.length, s.2, s.1⟩)

def maxOpenPrefixSuffixLen (p : InlineHiddenTagParser τ) : Nat :=
  (p.specs.map fun spec => longestSuffixPrefix spec.opn p.pending).foldl max 0

/-- The loop of `push_str`; every turn that goes on takes at least one character off
what is pending, so its length is enough fuel. -/
def pushLoop : Nat → InlineHiddenTagParser τ → StreamTextChunk (ExtractedInlineTag τ) →
    InlineHiddenTagParser τ × StreamTextChunk (ExtractedInlineTag τ)
  | 0, p, out => (p, out)
  | fuel + 1, p, out =>
    match p.active with
    | some active =>
      match findFirst active.close p.pending with
      | some closeIdx =>
        pushLoop fuel
          { p with active := none, pending := p.pending.drop (closeIdx + active.close.length) }
          { out with extracted :=
              out.extracted ++ [⟨active.tag, active.content ++ p.pending.take closeIdx⟩] }
      | none =>
        let take := p.pending.length - longestSuffixPrefix active.close p.pending
        ({ p with
            active := some { active with content := active.content ++ p.pending.take take }
            pending := p.pending.drop take }, out)
    | none =>
      match p.findNextOpen with
      | some m =>
        pushLoop fuel
          { p with
            pending := p.pending.drop (m.pos + m.spec.opn.length)
            active := some ⟨m.spec.tag, m.spec.close, []⟩ }
          { out with visibleText := out.visibleText ++ p.pending.take m.pos }
      | none =>
        let take := p.pending.length - p.maxOpenPrefixSuffixLen
        ({ p with pending := p.pending.drop take },
          { out with visibleText := out.visibleText ++ p.pending.take take })

def pushStr (p : InlineHiddenTagParser τ) (chunk : Text) :
    InlineHiddenTagParser τ × StreamTextChunk (ExtractedInlineTag τ) :=
  let p := { p with pending := p.pending ++ chunk }
  pushLoop (p.pending.length + 1) p .default

def finish (p : InlineHiddenTagParser τ) :
    InlineHiddenTagParser τ × StreamTextChunk (ExtractedInlineTag τ) :=
  match p.active with
  | some active =>
    ({ p with active := none, pending := [] },
      ⟨[], [⟨active.tag, active.content ++ p.pending⟩]⟩)
  | none => ({ p with pending := [] }, ⟨p.pending, []⟩)

/-! ## One tag -/

variable (spec : InlineTagSpec τ) (ho : spec.opn ≠ []) (hc : spec.close ≠ [])

def delimiters : Delimiters Char := ⟨spec.opn, spec.close, ho, hc⟩

def ofScan (st : ScanState Char) : InlineHiddenTagParser τ :=
  ⟨[spec], st.pending, st.active.map fun content => ⟨spec.tag, spec.close, content⟩⟩

def chunkOfScan (o : ScanOutput Char) : StreamTextChunk (ExtractedInlineTag τ) :=
  ⟨o.visible, o.extracted.map fun content => ⟨spec.tag, content⟩⟩

theorem findNextOpen_ofScan (st : ScanState Char) : (ofScan spec st).findNextOpen =
      (findFirst spec.opn st.pending).map fun pos => ⟨pos, spec.opn.length, 0, spec⟩ := by
  unfold findNextOpen ofScan
  cases h : findFirst spec.opn st.pending <;> simp [h, minMatch]

theorem pushLoop_ofScan (fuel : Nat) (st : ScanState Char)
    (out : StreamTextChunk (ExtractedInlineTag τ)) (hf : st.pending.length < fuel) :
    pushLoop fuel (ofScan spec st) out =
      (ofScan spec (scan (delimiters spec ho hc) st.active st.pending).2,
        out.append (chunkOfScan spec (scan (delimiters spec ho hc) st.active st.pending).1)) := by
  induction fuel generalizing st out with
  | zero => omega
  | succ fuel ih =>
    obtain ⟨active, pending⟩ := st
    cases active with
    | some content =>
      cases h : findFirst spec.close pending with
      | some i =>
        have hlt := findFirst_drop_lt hc h
        rw [scan_some_some (delimiters spec ho hc) h]
        simp only [pushLoop, ofScan, map_some, h]
        simp only at hf
        have := ih ⟨none, pending.drop (i + spec.close.length)⟩
          { out with extracted := out.extracted ++ [⟨spec.tag, content ++ pending.take i⟩] }
          (by simp only; omega)
        simp only [ofScan, map_none] at this
        rw [this]
        simp [StreamTextChunk.append, chunkOfScan, delimiters]
      | none =>
        rw [scan_some_none (delimiters spec ho hc) h]
        simp only [pushLoop, ofScan, map_some, h]
        simp [StreamTextChunk.append, chunkOfScan, released, heldBack, delimiters]
    | none =>
      have hopen := findNextOpen_ofScan spec ⟨none, pending⟩
      cases h : findFirst spec.opn pending with
      | some i =>
        have hlt := findFirst_drop_lt ho h
        rw [scan_none_some (delimiters spec ho hc) h]
        simp only [h, map_some] at hopen
        simp only [pushLoop, hopen]
        simp only [ofScan, map_none]
        simp only at hf
        have := ih ⟨some [], pending.drop (i + spec.opn.length)⟩
          { out with visibleText := out.visibleText ++ pending.take i } (by simp only; omega)
        simp only [ofScan, map_some] at this
        rw [this]
        simp [StreamTextChunk.append, chunkOfScan, delimiters]
      | none =>
        rw [scan_none_none (delimiters spec ho hc) h]
        simp only [h, map_none] at hopen
        simp only [pushLoop, hopen]
        simp [ofScan, StreamTextChunk.append, chunkOfScan, released, heldBack, delimiters,
          maxOpenPrefixSuffixLen]

end InlineHiddenTagParser

/-! ## Citations -/

inductive CitationTag where
  | citation
deriving DecidableEq

def CITATION_OPEN : Text := "<oai-mem-citation>".toList
def CITATION_CLOSE : Text := "</oai-mem-citation>".toList

def citationSpec : InlineTagSpec CitationTag := ⟨.citation, CITATION_OPEN, CITATION_CLOSE⟩

structure CitationStreamParser where
  inner : InlineHiddenTagParser CitationTag
deriving DecidableEq

def CitationStreamParser.new : CitationStreamParser := ⟨⟨[citationSpec], [], none⟩⟩

def citationChunk (inner : StreamTextChunk (ExtractedInlineTag CitationTag)) :
    StreamTextChunk Text :=
  ⟨inner.visibleText, inner.extracted.map (·.content)⟩

def citationParser : StreamTextParser CitationStreamParser Text where
  pushStr p chunk :=
    let (inner, out) := p.inner.pushStr chunk
    (⟨inner⟩, citationChunk out)
  finish p :=
    let (inner, out) := p.inner.finish
    (⟨inner⟩, citationChunk out)

def stripCitations (text : Text) : Text × List Text :=
  let (p, out) := citationParser.pushStr .new text
  let tail := (citationParser.finish p).2
  (out.visibleText ++ tail.visibleText, out.extracted ++ tail.extracted)

def citationDelimiters : Delimiters Char :=
  InlineHiddenTagParser.delimiters citationSpec (by decide) (by decide)

def CitationState (p : CitationStreamParser) : Prop :=
  ∃ st : ScanState Char, st.Settled citationDelimiters ∧
    p = ⟨InlineHiddenTagParser.ofScan citationSpec st⟩

theorem citation_new : CitationState .new := ⟨⟨none, []⟩, start_settled _, rfl⟩

theorem citation_pushStr (st : ScanState Char) (chunk : Text) :
    citationParser.pushStr ⟨InlineHiddenTagParser.ofScan citationSpec st⟩ chunk =
      (⟨InlineHiddenTagParser.ofScan citationSpec
          (scan citationDelimiters st.active (st.pending ++ chunk)).2⟩,
        ⟨(scan citationDelimiters st.active (st.pending ++ chunk)).1.visible,
          (scan citationDelimiters st.active (st.pending ++ chunk)).1.extracted⟩) := by
  have h := InlineHiddenTagParser.pushLoop_ofScan citationSpec (by decide) (by decide)
    ((st.pending ++ chunk).length + 1) ⟨st.active, st.pending ++ chunk⟩ .default
    (Nat.lt_succ_self _)
  have hpush : (InlineHiddenTagParser.ofScan citationSpec st).pushStr chunk =
      InlineHiddenTagParser.pushLoop ((st.pending ++ chunk).length + 1)
        (InlineHiddenTagParser.ofScan citationSpec ⟨st.active, st.pending ++ chunk⟩) .default := rfl
  simp only [citationParser]
  rw [hpush, h]
  simp [citationChunk, StreamTextChunk.append, StreamTextChunk.default,
    InlineHiddenTagParser.chunkOfScan, citationDelimiters, Function.comp_def]

theorem citation_additive : Additive citationParser (fun c => [c]) CitationState where
  keeps := by
    rintro _ ⟨st, -, rfl⟩ t
    rw [citation_pushStr]
    exact ⟨_, scan_settled citationDelimiters _ _, rfl⟩
  push_nil := by
    rintro _ ⟨st, hs, rfl⟩
    rw [citation_pushStr, List.append_nil, scan_of_settled citationDelimiters hs]
    rfl
  push_append := by
    rintro _ ⟨st, -, rfl⟩ t u
    have h := scan_append citationDelimiters st.active (st.pending ++ t) u
    simp only [citation_pushStr, ← List.append_assoc, h, ScanOutput.append, List.flatMap_append,
      and_self]

end Codex
