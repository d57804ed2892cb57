import Codex.Foundation.Utf8
import Codex.UnifiedExec.HeadTailBuffer

/-!
# Output deltas of a process

Output is cut where a character ends, or byte by byte where none does, and every piece goes
into the transcript. A client sees the first pieces, up to a number of them.
-/

namespace Codex.UnifiedExec

open Foundation List

def outputDeltaMaxBytes : ℕ := 8192

def maxExecOutputDeltasPerCall : ℕ := 10000

/-- The loop of `split_valid_utf8_prefix_with_max`, from the cut at `split` down. -/
def splitLoop (buffer : List UInt8) (maxLen : ℕ) : ℕ → Option ℕ
  | 0 => none
  | split + 1 =>
    if (strFromUtf8 (buffer.take (split + 1))).isOk then some (split + 1)
    else if 4 < maxLen - (split + 1) then none
    else splitLoop buffer maxLen split

/-- The bytes taken off the front of the buffer, and those that stay in it. -/
def splitValidUtf8PrefixWithMax (buffer : List UInt8) (maxBytes : ℕ) :
    Option (List UInt8 × List UInt8) :=
  if buffer = [] then none
  else
    let maxLen := min buffer.length maxBytes
    let split := (splitLoop buffer maxLen maxLen).getD 1
    some (buffer.take split, buffer.drop split)

/-- The output task of a call. `sent` are the deltas of its events. -/
structure OutputStream where
  pending : List UInt8 := []
  transcript : HeadTailBuffer
  emittedDeltas : ℕ := 0
  sent : List (List UInt8) := []

variable {buffer taken rest : List UInt8} {maxBytes maxLen split : ℕ}

theorem splitLoop_spec {n : ℕ} (h : splitLoop buffer maxLen n = some split) :
    0 < split ∧ split ≤ n ∧ (strFromUtf8 (buffer.take split)).isOk = true := by
  induction n with
  | zero => cases h
  | succ n ih =>
    rw [splitLoop] at h
    split at h
    · next hok =>
      cases h
      exact ⟨n.succ_pos, le_rfl, hok⟩
    · split at h
      · cases h
      · obtain ⟨hpos, hle, hok⟩ := ih h
        exact ⟨hpos, hle.trans n.le_succ, hok⟩

def IsPiece (maxBytes : ℕ) (piece : List UInt8) : Prop :=
  piece ≠ [] ∧ piece.length ≤ maxBytes ∧ ((∃ t, piece = utf8 t) ∨ piece.length = 1)

theorem text_of_isOk (h : (strFromUtf8 taken).isOk = true) : ∃ t, taken = utf8 t := by
  cases hread : strFromUtf8 taken with
  | ok t => exact ⟨t, utf8_of_ok hread⟩
  | error err =>
    rw [hread] at h
    cases h

theorem split_spec (hmax : 0 < maxBytes)
    (h : splitValidUtf8PrefixWithMax buffer maxBytes = some (taken, rest)) :
    buffer = taken ++ rest ∧ IsPiece maxBytes taken := by
  unfold splitValidUtf8PrefixWithMax at h
  split at h
  · cases h
  · next hne =>
    have hlen := length_pos_iff.mpr hne
    cases h
    refine ⟨(take_append_drop _ _).symm, ?_⟩
    cases hloop : splitLoop buffer (min buffer.length maxBytes) (min buffer.length maxBytes) with
    | none =>
      have hone : (buffer.take 1).length = 1 := by rw [length_take]; omega
      exact ⟨ne_nil_of_length_pos (by rw [Option.getD_none]; omega),
        by rw [Option.getD_none]; omega, .inr hone⟩
    | some split =>
      obtain ⟨hpos, hle, hok⟩ := splitLoop_spec hloop
      rw [Option.getD_some]
      have hlength : (buffer.take split).length = split := by rw [length_take]; omega
      exact ⟨ne_nil_of_length_pos (by omega), by omega, .inl (text_of_isOk hok)⟩

/-! ## Text is cut into text -/

theorem IsPartial.length_le (h : IsPartial rest) : rest.length ≤ 3 := by
  obtain ⟨c, more, hne, heq⟩ := h
  have hlen := congrArg length heq
  rw [length_append, String.length_utf8EncodeChar] at hlen
  have hmore := length_pos_iff.mpr hne
  have hfour := c.utf8Size_le_four
  omega

theorem exists_boundary {t : Text} {n : ℕ} (hn : n ≤ (utf8 t).length) :
    ∃ s : Text, utf8 s = (utf8 t).take (utf8 s).length ∧ (utf8 s).length ≤ n ∧
      n ≤ (utf8 s).length + 3 := by
  obtain ⟨s, rest, heq, hrest⟩ := strFromUtf8_cases ((utf8 t).take n)
  have hlen := congrArg length heq
  rw [length_append, length_take, Nat.min_eq_left hn] at hlen
  have htake := congrArg (take (utf8 s).length) heq
  rw [take_left, take_take, Nat.min_eq_left (by omega)] at htake
  refine ⟨s, htake.symm, by omega, ?_⟩
  obtain ⟨rfl, -⟩ | ⟨-, hpartial, -⟩ | ⟨k, hinvalid, -⟩ := hrest
  · rw [length_nil] at hlen
    omega
  · have := IsPartial.length_le hpartial
    omega
  · have hwhole : utf8 s ++ (rest ++ (utf8 t).drop n) = utf8 t := by
      rw [← List.append_assoc, ← heq, take_append_drop]
    obtain ⟨u, hu, -⟩ := utf8_append_left hwhole
    exact absurd hinvalid (readFront_not_invalid hu k)

theorem splitLoop_isSome {n cut : ℕ} (hcut : (strFromUtf8 (buffer.take cut)).isOk = true)
    (hpos : 0 < cut) (hle : cut ≤ n) (hnear : maxLen ≤ cut + 3) :
    (splitLoop buffer maxLen n).isSome = true := by
  induction n with
  | zero => omega
  | succ n ih =>
    rw [splitLoop]
    split
    · rfl
    · next hno =>
      rw [if_neg (by omega)]
      refine ih (Nat.le_of_lt_succ (lt_of_le_of_ne hle ?_))
      rintro rfl
      exact hno hcut

theorem split_text {t : Text} (hmax : 4 ≤ maxBytes)
    (h : splitValidUtf8PrefixWithMax (utf8 t) maxBytes = some (taken, rest)) :
    ∃ s u, taken = utf8 s ∧ rest = utf8 u := by
  have hwhole := (split_spec (by omega) h).1
  suffices htaken : ∃ s, taken = utf8 s by
    obtain ⟨s, rfl⟩ := htaken
    obtain ⟨u, hu, -⟩ := utf8_append_left hwhole.symm
    exact ⟨s, u, rfl, hu⟩
  unfold splitValidUtf8PrefixWithMax at h
  split at h
  · cases h
  · next hne =>
    have hlen := length_pos_iff.mpr hne
    cases h
    obtain ⟨s, hs, hle, hnear⟩ := exists_boundary (Nat.min_le_left (utf8 t).length maxBytes)
    have hloop : (splitLoop (utf8 t) (min (utf8 t).length maxBytes)
        (min (utf8 t).length maxBytes)).isSome = true := by
      by_cases hall : (utf8 t).length ≤ maxBytes
      · refine splitLoop_isSome ?_ hlen ?_ ?_
        · rw [take_length, strFromUtf8_utf8]
          rfl
        · omega
        · omega
      · refine splitLoop_isSome ?_ (by omega) hle hnear
        rw [← hs, strFromUtf8_utf8]
        rfl
    obtain ⟨split, hsplit⟩ := Option.isSome_iff_exists.mp hloop
    obtain ⟨-, -, hok⟩ := splitLoop_spec hsplit
    rw [hsplit, Option.getD_some]
    exact text_of_isOk hok

/-! ## The output task -/

namespace OutputStream

def start (maxBytes : UInt64) : OutputStream := { transcript := .new maxBytes }

def take (o : OutputStream) (taken rest : List UInt8) : OutputStream :=
  { pending := rest
    transcript := o.transcript.pushChunk taken
    emittedDeltas :=
      if maxExecOutputDeltasPerCall ≤ o.emittedDeltas then o.emittedDeltas
      else o.emittedDeltas + 1
    sent := if maxExecOutputDeltasPerCall ≤ o.emittedDeltas then o.sent else o.sent ++ [taken] }

def splitPending (o : OutputStream) : OutputStream :=
  match _h : splitValidUtf8PrefixWithMax o.pending outputDeltaMaxBytes with
  | none => o
  | some (taken, rest) => splitPending (o.take taken rest)
termination_by o.pending.length
decreasing_by
  have hpos : 0 < outputDeltaMaxBytes := by decide
  obtain ⟨hwhole, hne, -⟩ := split_spec hpos ‹_›
  rw [hwhole, length_append]
  exact Nat.lt_add_of_pos_left (length_pos_iff.mpr hne)

def processChunk (o : OutputStream) (chunk : List UInt8) : OutputStream :=
  splitPending { o with pending := o.pending ++ chunk }

structure Streamed (maxBytes : UInt64) (o : OutputStream) (pieces : List (List UInt8)) : Prop where
  transcript : o.transcript = (HeadTailBuffer.new maxBytes).pushChunks pieces
  sent : o.sent = pieces.take maxExecOutputDeltasPerCall
  emitted : o.emittedDeltas = o.sent.length

variable {o : OutputStream} {capacity : UInt64} {pieces : List (List UInt8)}

theorem Streamed.take (h : Streamed capacity o pieces) (taken rest : List UInt8) :
    Streamed capacity (o.take taken rest) (pieces ++ [taken]) := by
  have hlen := h.emitted
  rw [h.sent, length_take] at hlen
  constructor
  · simp [OutputStream.take, h.transcript, HeadTailBuffer.pushChunks]
  · simp only [OutputStream.take, h.sent]
    split
    · rw [take_append_of_le_length (by omega)]
    · rw [take_of_length_le (l := pieces) (by omega),
        take_of_length_le (by rw [length_append, length_singleton]; omega)]
  · simp only [OutputStream.take]
    split
    · exact h.emitted
    · rw [length_append, length_singleton, h.emitted]

theorem splitPending_spec (h : Streamed capacity o pieces) :
    ∃ more, Streamed capacity o.splitPending (pieces ++ more) ∧ o.splitPending.pending = [] ∧
      more.flatten = o.pending ∧ (∀ piece ∈ more, IsPiece outputDeltaMaxBytes piece) ∧
      ((∃ t, o.pending = utf8 t) → ∀ piece ∈ more, ∃ s, piece = utf8 s) := by
  induction o using splitPending.induct generalizing pieces with
  | case1 o hnone =>
    have hnil : o.pending = [] := by
      unfold splitValidUtf8PrefixWithMax at hnone
      split at hnone
      · assumption
      · cases hnone
    rw [splitPending]
    split
    · exact ⟨[], by rwa [append_nil], hnil, hnil.symm, nofun, nofun⟩
    · next hsome => rw [hnone] at hsome; cases hsome
  | case2 o taken rest hsome ih =>
    obtain ⟨hwhole, hpiece⟩ := split_spec (by decide) hsome
    obtain ⟨more, hmore, hpending, hflat, hpieces, htext⟩ := ih (h.take taken rest)
    rw [splitPending]
    split
    · next hnone => rw [hnone] at hsome; cases hsome
    · next taken' rest' hsome' =>
      rw [hsome] at hsome'
      cases hsome'
      refine ⟨taken :: more, by simpa using hmore, hpending, ?_, ?_, ?_⟩
      · rw [flatten_cons, hflat]
        exact hwhole.symm
      · exact forall_mem_cons.mpr ⟨hpiece, hpieces⟩
      · rintro ⟨t, ht⟩
        rw [ht] at hsome
        obtain ⟨s, u, rfl, rfl⟩ := split_text (by decide) hsome
        exact forall_mem_cons.mpr ⟨⟨s, rfl⟩, htext ⟨u, rfl⟩⟩

/-- All output reaches the transcript, in pieces of which the first are sent, and nothing
is left behind. No character is cut unless a chunk cuts it. -/
theorem output_streamed (capacity : UInt64) (chunks : List (List UInt8)) :
    ∃ pieces : List (List UInt8), pieces.flatten = chunks.flatten ∧
      (∀ piece ∈ pieces, IsPiece outputDeltaMaxBytes piece) ∧
      ((∀ chunk ∈ chunks, ∃ t, chunk = utf8 t) → ∀ piece ∈ pieces, ∃ t, piece = utf8 t) ∧
      (chunks.foldl processChunk (start capacity)).pending = [] ∧
      (chunks.foldl processChunk (start capacity)).sent =
        pieces.take maxExecOutputDeltasPerCall ∧
      HeadTailBuffer.HoldsEnds (chunks.foldl processChunk (start capacity)).transcript capacity
        chunks.flatten := by
  suffices hrun : ∃ pieces, Streamed capacity (chunks.foldl processChunk (start capacity)) pieces ∧
      (chunks.foldl processChunk (start capacity)).pending = [] ∧
      pieces.flatten = chunks.flatten ∧ (∀ piece ∈ pieces, IsPiece outputDeltaMaxBytes piece) ∧
      ((∀ chunk ∈ chunks, ∃ t, chunk = utf8 t) → ∀ piece ∈ pieces, ∃ t, piece = utf8 t) by
    obtain ⟨pieces, hstreamed, hpending, hflat, hpieces, htext⟩ := hrun
    refine ⟨pieces, hflat, hpieces, htext, hpending, hstreamed.sent, ?_⟩
    rw [hstreamed.transcript, ← hflat]
    exact HeadTailBuffer.new_holdsEnds capacity pieces
  induction chunks using List.reverseRecOn with
  | nil => exact ⟨[], ⟨rfl, rfl, rfl⟩, rfl, rfl, nofun, nofun⟩
  | append_singleton chunks chunk ih =>
    obtain ⟨pieces, hstreamed, hpending, hflat, hpieces, htext⟩ := ih
    rw [foldl_append, foldl_cons, foldl_nil]
    generalize chunks.foldl processChunk (start capacity) = o at hstreamed hpending
    obtain ⟨more, hmore, hpending', hflat', hpieces', htext'⟩ := splitPending_spec
      (o := { o with pending := o.pending ++ chunk }) ⟨hstreamed.1, hstreamed.2, hstreamed.3⟩
    rw [hpending, nil_append] at hflat' htext'
    refine ⟨pieces ++ more, hmore, hpending', ?_, ?_, fun hchunks => ?_⟩
    · rw [flatten_append, flatten_append, flatten_singleton, hflat, hflat']
    · exact forall_mem_append.mpr ⟨hpieces, hpieces'⟩
    · exact forall_mem_append.mpr ⟨htext fun c hc => hchunks c (mem_append_left _ hc),
        htext' (hchunks chunk mem_concat_self)⟩

end OutputStream

end Codex.UnifiedExec
