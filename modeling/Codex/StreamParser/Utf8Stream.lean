import Codex.StreamParser.InlineHiddenTag
import Codex.Foundation.Utf8

/-!
# Bytes streamed to a text parser

Bytes are held back while they can still become a code point. What is taken of them at each
push is text, and what a rejected push took is given back (`pushBytes_cases`).
-/

namespace Codex

open Foundation List

inductive Utf8StreamParserError
  | invalidUtf8 (validUpTo errorLen : ℕ)
  | incompleteUtf8AtEof
deriving DecidableEq

structure Utf8StreamParser (σ : Type) where
  inner : σ
  pendingUtf8 : List UInt8
deriving DecidableEq

namespace Utf8StreamParser

section
variable {σ T : Type} (P : StreamTextParser σ T)

def new (inner : σ) : Utf8StreamParser σ := ⟨inner, []⟩

def pushBytes (p : Utf8StreamParser σ) (chunk : List UInt8) :
    Utf8StreamParser σ × Except Utf8StreamParserError (StreamTextChunk T) :=
  let oldLen := p.pendingUtf8.length
  let pending := p.pendingUtf8 ++ chunk
  match strFromUtf8 pending with
  | .ok text =>
    let (inner, out) := P.pushStr p.inner text
    (⟨inner, []⟩, .ok out)
  | .error ⟨validUpTo, some errorLen⟩ =>
    (⟨p.inner, pending.take oldLen⟩, .error (.invalidUtf8 validUpTo errorLen))
  | .error ⟨validUpTo, none⟩ =>
    if validUpTo = 0 then (⟨p.inner, pending⟩, .ok .default)
    else match strFromUtf8 (pending.take validUpTo) with
      | .ok text =>
        let (inner, out) := P.pushStr p.inner text
        (⟨inner, pending.drop validUpTo⟩, .ok out)
      | .error err =>
        (⟨p.inner, pending.take oldLen⟩, .error (.invalidUtf8 err.validUpTo (err.errorLen.getD 0)))

def finish (p : Utf8StreamParser σ) :
    Utf8StreamParser σ × Except Utf8StreamParserError (StreamTextChunk T) :=
  match strFromUtf8 p.pendingUtf8 with
  | .error ⟨validUpTo, some errorLen⟩ => (p, .error (.invalidUtf8 validUpTo errorLen))
  | .error ⟨_, none⟩ => (p, .error .incompleteUtf8AtEof)
  | .ok text =>
    let (inner, out) :=
      if p.pendingUtf8 = [] then (p.inner, .default) else P.pushStr p.inner text
    let (inner, tail) := P.finish inner
    (⟨inner, []⟩, .ok (out.append tail))

def collectBytes (p : Utf8StreamParser σ) (all : StreamTextChunk T) :
    List (List UInt8) → Except Utf8StreamParserError (StreamTextChunk T)
  | [] =>
    match (finish P p).2 with
    | .ok tail => .ok (all.append tail)
    | .error err => .error err
  | chunk :: chunks =>
    match pushBytes P p chunk with
    | (p, .ok next) => collectBytes p (all.append next) chunks
    | (_, .error err) => .error err

inductive Call
  | pushBytes (chunk : List UInt8)
  | finish
deriving DecidableEq

def call (p : Utf8StreamParser σ) :
    Call → Utf8StreamParser σ × Except Utf8StreamParserError (StreamTextChunk T)
  | .pushBytes chunk => pushBytes P p chunk
  | .finish => finish P p

def run (p : Utf8StreamParser σ) :
    List Call → Utf8StreamParser σ × List (Except Utf8StreamParserError (StreamTextChunk T))
  | [] => (p, [])
  | c :: calls =>
    let (p, result) := call P p c
    let (p, results) := run p calls
    (p, result :: results)

variable (p : Utf8StreamParser σ) (chunk : List UInt8)

theorem pushBytes_cases : (∃ t rest, p.pendingUtf8 ++ chunk = utf8 t ++ rest ∧ IsPartial rest ∧
      (pushBytes P p chunk =
          (⟨(P.pushStr p.inner t).1, rest⟩, .ok (P.pushStr p.inner t).2) ∨
        t = [] ∧ pushBytes P p chunk = (⟨p.inner, rest⟩, .ok .default))) ∨
    ∃ t rest n, p.pendingUtf8 ++ chunk = utf8 t ++ rest ∧ readFront rest = .invalid n ∧
      pushBytes P p chunk = (p, .error (.invalidUtf8 (utf8 t).length n)) := by
  obtain ⟨t, rest, heq, ⟨rfl, hread⟩ | ⟨-, hpart, hread⟩ | ⟨n, hinv, hread⟩⟩ :=
    strFromUtf8_cases (p.pendingUtf8 ++ chunk)
  · refine .inl ⟨t, [], heq, isPartial_nil, .inl ?_⟩
    unfold pushBytes
    simp only [hread]
  · refine .inl ⟨t, rest, heq, hpart, ?_⟩
    unfold pushBytes
    simp only [hread]
    rw [heq]
    by_cases ht : t = []
    · rw [ht]
      exact .inr ⟨rfl, rfl⟩
    · rw [if_neg (by simpa [utf8_eq_nil] using ht), take_left, strFromUtf8_utf8, drop_left]
      exact .inl rfl
  · refine .inr ⟨t, rest, n, heq, hinv, ?_⟩
    unfold pushBytes
    simp only [hread, take_left]

theorem finish_empty (h : p.pendingUtf8 = []) : finish P p = (⟨(P.finish p.inner).1, []⟩,
    .ok ((StreamTextChunk.default).append (P.finish p.inner).2)) := by
  unfold finish
  simp only [h, strFromUtf8_nil, if_true]

theorem finish_held (h : IsPartial p.pendingUtf8) (hne : p.pendingUtf8 ≠ []) :
    ∃ err, finish P p = (p, .error err) := by
  obtain ⟨t, rest, heq, ⟨rfl, hread⟩ | ⟨-, -, hread⟩ | ⟨n, -, hread⟩⟩ :=
    strFromUtf8_cases p.pendingUtf8
  · rw [heq, append_nil] at h hne
    exact absurd (utf8_eq_nil.mpr h.eq_nil) hne
  · refine ⟨.incompleteUtf8AtEof, ?_⟩
    unfold finish
    simp only [hread]
  · refine ⟨.invalidUtf8 (utf8 t).length n, ?_⟩
    unfold finish
    simp only [hread]

/-! ## Whole streams -/

variable {P p chunk}

theorem call_holds (h : IsPartial p.pendingUtf8) (c : Call) :
    IsPartial (call P p c).1.pendingUtf8 := by
  cases c with
  | pushBytes chunk =>
    rw [call]
    obtain ⟨t, rest, -, hpart, heq | ⟨-, heq⟩⟩ | ⟨t, rest, n, -, -, heq⟩ :=
      pushBytes_cases P p chunk
    · rw [heq]
      exact hpart
    · rw [heq]
      exact hpart
    · rw [heq]
      exact h
  | finish =>
    rw [call]
    by_cases hnil : p.pendingUtf8 = []
    · rw [finish_empty P p hnil]
      exact isPartial_nil
    · obtain ⟨err, heq⟩ := finish_held P p h hnil
      rw [heq]
      exact h

theorem run_holds (h : IsPartial p.pendingUtf8) (calls : List Call) :
    IsPartial (run P p calls).1.pendingUtf8 := by
  induction calls generalizing p with
  | nil => exact h
  | cons c calls ih => exact ih (call_holds h c)

theorem pushBytes_rejected {v n : ℕ}
    (h : (pushBytes P p chunk).2 = .error (.invalidUtf8 v n)) : (pushBytes P p chunk).1 = p := by
  obtain ⟨t, rest, -, -, heq | ⟨-, heq⟩⟩ | ⟨t, rest, n, -, -, heq⟩ := pushBytes_cases P p chunk
  · rw [heq] at h
    cases h
  · rw [heq] at h
    cases h
  · rw [heq]

theorem collectBytes_pieces {text : Text} (h : IsPartial p.pendingUtf8) (chunks : List (List UInt8))
    (all : StreamTextChunk T) (htext : p.pendingUtf8 ++ chunks.flatten = utf8 text) :
    ∃ pieces, pieces.flatten = text ∧
      collectBytes P p all chunks = .ok (all.append (collectChunks P p.inner pieces)) := by
  induction chunks generalizing p all text with
  | nil =>
    rw [flatten_nil, append_nil] at htext
    have hnil : text = [] := IsPartial.eq_nil (htext ▸ h)
    have hpending : p.pendingUtf8 = [] := by rw [htext, hnil, utf8_nil]
    refine ⟨[], hnil.symm, ?_⟩
    rw [collectBytes, finish_empty P p hpending]
    rfl
  | cons chunk chunks ih =>
    rw [flatten_cons, ← List.append_assoc] at htext
    obtain ⟨t, rest, hsplit, hpart, heq | ⟨rfl, heq⟩⟩ | ⟨t, rest, n, hsplit, hinv, heq⟩ :=
      pushBytes_cases P p chunk
    · rw [hsplit, List.append_assoc] at htext
      obtain ⟨u, hu, rfl⟩ := utf8_append_left htext
      obtain ⟨pieces, rfl, hcollect⟩ := ih (p := ⟨(P.pushStr p.inner t).1, rest⟩) hpart
        (all.append (P.pushStr p.inner t).2) hu
      refine ⟨t :: pieces, rfl, ?_⟩
      rw [collectBytes, heq]
      dsimp only
      rw [hcollect, collectChunks_cons, StreamTextChunk.append_assoc]
    · rw [hsplit, utf8_nil, nil_append] at htext
      obtain ⟨pieces, hpieces, hcollect⟩ := ih (p := ⟨p.inner, rest⟩) hpart
        (all.append .default) htext
      refine ⟨pieces, hpieces, ?_⟩
      rw [collectBytes, heq]
      dsimp only
      rw [hcollect, StreamTextChunk.append_default]
    · rw [hsplit, List.append_assoc] at htext
      obtain ⟨u, hu, -⟩ := utf8_append_left htext
      exact absurd hinv (readFront_not_invalid hu n)

/-- Bytes of a text give what the text gives. A chunk in error leaves no trace. What is held
between calls is the beginning of a code point. -/
theorem bytes_as_text (P : StreamTextParser σ T) (s : σ)
    (h : ∀ chunks, collectChunks P s chunks = collectChunks P s [chunks.flatten]) :
    (∀ text chunks, chunks.flatten = utf8 text →
      collectBytes P (new s) .default chunks = .ok (collectChunks P s [text])) ∧
    (∀ p chunk v n, (pushBytes P p chunk).2 = .error (.invalidUtf8 v n) →
      (pushBytes P p chunk).1 = p ∧ ∀ later, run P p (.pushBytes chunk :: later) =
        ((run P p later).1, .error (.invalidUtf8 v n) :: (run P p later).2)) ∧
    ∀ calls, IsPartial (run P (new s) calls).1.pendingUtf8 := by
  refine ⟨fun text chunks htext => ?_, fun p chunk v n herr => ?_, run_holds isPartial_nil⟩
  · obtain ⟨pieces, rfl, hcollect⟩ :=
      collectBytes_pieces (P := P) (p := new s) isPartial_nil chunks .default htext
    rw [hcollect, StreamTextChunk.default_append]
    exact congrArg Except.ok (h pieces)
  · have hsame := pushBytes_rejected herr
    refine ⟨hsame, fun later => ?_⟩
    rw [run, call]
    dsimp only
    rw [hsame, herr]

end

theorem citation_chunks (chunks : List Text) : collectChunks citationParser .new chunks =
    collectChunks citationParser .new [chunks.flatten] := by
  obtain ⟨hvisible, hextracted⟩ := collect_eq citation_additive citation_new chunks
  rw [flatMap_singleton', flatMap_singleton'] at hextracted
  exact StreamTextChunk.ext hvisible hextracted

theorem bytes_as_text_split : collectBytes citationParser (new .new) .default [[0xC3], [0xA9]] =
    .ok (collectChunks citationParser .new ["é".toList]) :=
  (bytes_as_text citationParser .new citation_chunks).1 "é".toList _ (by decide)

end Utf8StreamParser

end Codex
