import Codex.Foundation.Text

/-!
# Streaming text parsers

A parser takes text in chunks and gives visible text and extracted payloads; at
the end it flushes what it holds. `collect_eq` : for a parser whose pushes add up,
the chunks do not matter.
-/

namespace Codex

open Foundation

@[ext] structure StreamTextChunk (T : Type) where
  visibleText : Text
  extracted : List T
deriving DecidableEq

def StreamTextChunk.default {T : Type} : StreamTextChunk T := ⟨[], []⟩

def StreamTextChunk.append {T : Type} (out next : StreamTextChunk T) : StreamTextChunk T :=
  ⟨out.visibleText ++ next.visibleText, out.extracted ++ next.extracted⟩

theorem StreamTextChunk.append_assoc {T : Type} (a b c : StreamTextChunk T) :
    (a.append b).append c = a.append (b.append c) := by
  simp [append]

theorem StreamTextChunk.append_default {T : Type} (a : StreamTextChunk T) :
    a.append .default = a := by
  simp [append, default]

theorem StreamTextChunk.default_append {T : Type} (a : StreamTextChunk T) :
    StreamTextChunk.default.append a = a := by
  simp [append, default]

structure StreamTextParser (σ T : Type) where
  pushStr : σ → Text → σ × StreamTextChunk T
  finish : σ → σ × StreamTextChunk T

variable {σ T : Type} (P : StreamTextParser σ T)

def pushChunks : σ → List Text → σ × StreamTextChunk T
  | s, [] => (s, .default)
  | s, chunk :: chunks =>
    let (s, next) := P.pushStr s chunk
    let (s, rest) := pushChunks s chunks
    (s, next.append rest)

def collectChunks (s : σ) (chunks : List Text) : StreamTextChunk T :=
  let (s, out) := pushChunks P s chunks
  out.append (P.finish s).2

theorem collectChunks_cons (s : σ) (chunk : Text) (chunks : List Text) :
    collectChunks P s (chunk :: chunks) =
      (P.pushStr s chunk).2.append (collectChunks P (P.pushStr s chunk).1 chunks) := by
  exact StreamTextChunk.append_assoc ..

/-! ## Pushes that add up -/

variable {A : Type} (view : T → List A)

/-- The state after a text does not depend on how it is pushed, and neither do the
visible text and the payloads, seen through `view`. -/
structure Additive (Inv : σ → Prop) : Prop where
  keeps : ∀ {s}, Inv s → ∀ t, Inv (P.pushStr s t).1
  push_nil : ∀ {s}, Inv s → P.pushStr s [] = (s, .default)
  push_append : ∀ {s}, Inv s → ∀ t u,
    let first := P.pushStr s t
    let second := P.pushStr first.1 u
    let whole := P.pushStr s (t ++ u)
    whole.1 = second.1 ∧ whole.2.visibleText = first.2.visibleText ++ second.2.visibleText ∧
      whole.2.extracted.flatMap view =
        first.2.extracted.flatMap view ++ second.2.extracted.flatMap view

variable {P view} {Inv : σ → Prop} (h : Additive P view Inv)
include h

theorem pushChunks_eq {s : σ} (hs : Inv s) (chunks : List Text) :
    (pushChunks P s chunks).1 = (P.pushStr s chunks.flatten).1 ∧
      (pushChunks P s chunks).2.visibleText = (P.pushStr s chunks.flatten).2.visibleText ∧
      (pushChunks P s chunks).2.extracted.flatMap view =
        (P.pushStr s chunks.flatten).2.extracted.flatMap view := by
  induction chunks generalizing s with
  | nil =>
    rw [List.flatten_nil, h.push_nil hs]
    exact ⟨rfl, rfl, rfl⟩
  | cons chunk chunks ih =>
    obtain ⟨i1, i2, i3⟩ := ih (h.keeps hs chunk)
    obtain ⟨a1, a2, a3⟩ := h.push_append hs chunk chunks.flatten
    rw [List.flatten_cons]
    refine ⟨i1.trans a1.symm, ?_, ?_⟩
    · rw [a2, ← i2]
      rfl
    · rw [a3, ← i3, ← List.flatMap_append]
      rfl

theorem collect_eq {s : σ} (hs : Inv s) (chunks : List Text) :
    (collectChunks P s chunks).visibleText = (collectChunks P s [chunks.flatten]).visibleText ∧
      (collectChunks P s chunks).extracted.flatMap view =
        (collectChunks P s [chunks.flatten]).extracted.flatMap view := by
  obtain ⟨h1, h2, h3⟩ := pushChunks_eq h hs chunks
  obtain ⟨g1, g2, g3⟩ := pushChunks_eq h hs [chunks.flatten]
  rw [List.flatten_singleton] at g1 g2 g3
  unfold collectChunks StreamTextChunk.append
  simp only [List.flatMap_append]
  rw [h1, h2, h3, g1, g2, g3]
  exact ⟨rfl, rfl⟩

end Codex
