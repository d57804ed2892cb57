import Codex.ApplyPatch.LineMachine

/-!
# Progress and error lines of the patch parser

Every step of the two loops takes at least one line and no more than are left, so
the loops end and their slices are in range. `LoopHead` holds of what is left and
of the line number counted there at every loop head of a parse; the number is
that of the first line left. An unexpected line behind an `@@` line is
reported under its own number, one that begins its chunk under the next number.
-/

namespace Codex

open Foundation List

/-! ## Progress -/

variable {ls : List Text}

theorem parseUpdateFileChunk_consumes {ln n : Nat} {b : Bool} {chunk : UpdateFileChunk}
    (h : parseUpdateFileChunk ls ln b = .ok (chunk, n)) : 1 ≤ n ∧ n ≤ ls.length := by
  cases ls with
  | nil => simp [parseUpdateFileChunk] at h
  | cons line ls =>
    cases hc : contextLine line with
    | some context =>
      rw [parseUpdateFileChunk_context ln ls b hc] at h
      cases ls with
      | nil => simp at h
      | cons l ls =>
        rw [if_neg (by simp)] at h
        rcases run_first false [] [] none [] ln context l ls with
          ⟨c, m, h1, h2, -⟩ | ⟨⟨_, _, h1⟩, -⟩
        · simp only [h1, Except.map, Except.ok.injEq, Prod.mk.injEq] at h
          simp only [length_cons]
          omega
        · simp [h1, Except.map] at h
    | none =>
      cases b with
      | false => simp [parseUpdateFileChunk_missing ln ls hc] at h
      | true =>
        rw [parseUpdateFileChunk_bare ln ls hc] at h
        rcases run_first false [] [] none [] ln none line ls with ⟨c, m, h1, h2, -⟩ | ⟨⟨_, _, h1⟩, -⟩
        · simp only [h1, Except.ok.injEq, Prod.mk.injEq] at h
          simp only [length_cons]
          omega
        · simp [h1] at h

theorem parseOneHunk_consumes {first : Text} {rest : List Text} {ln n : Nat} {allow : Bool}
    {hunk : Hunk} (h : parseOneHunk first rest ln allow = .ok (hunk, n)) :
    1 ≤ n ∧ n ≤ rest.length + 1 := by
  rcases run_one allow [] ln first rest with ⟨hunk', m, h1, h2, -⟩ | ⟨⟨e, h1⟩, -⟩
  · simp only [h1, Except.ok.injEq, Prod.mk.injEq] at h
    omega
  · simp [h1] at h

section
variable {allow : Bool} {ls : List Text} {f g : Nat} (hf : ls.length ≤ f) (hg : ls.length ≤ g)
include hf hg

theorem parseUpdateChunks_fuel (ln parsed : Nat) (chunks : List UpdateFileChunk) :
    parseUpdateChunks ln allow f ls parsed chunks = parseUpdateChunks ln allow g ls parsed chunks := by
  induction f generalizing g ls parsed chunks with
  | zero =>
    obtain rfl : ls = [] := by simpa using hf
    cases g <;> rfl
  | succ f ih =>
    cases ls with
    | nil => cases g <;> rfl
    | cons line ls =>
      obtain _ | g := g
      · simp at hg
      simp only [length_cons, Nat.add_le_add_iff_right] at hf hg
      unfold parseUpdateChunks
      cases hp : parseUpdateFileChunk (line :: ls) (ln + parsed) chunks.isEmpty with
      | error e => cases e <;> simp only [ih hf hg]
      | ok p =>
        have hn := (parseUpdateFileChunk_consumes hp).1
        have hl : ((line :: ls).drop p.2).length ≤ ls.length := by
          simp only [length_drop, length_cons]
          omega
        simp only [ih hf hg, ih (hl.trans hf) (hl.trans hg)]

theorem parseHunks_fuel (ln : Nat) (hunks : List Hunk) :
    parseHunks allow f ls ln hunks = parseHunks allow g ls ln hunks := by
  induction f generalizing g ls ln hunks with
  | zero =>
    obtain rfl : ls = [] := by simpa using hf
    cases g <;> rfl
  | succ f ih =>
    cases ls with
    | nil => cases g <;> rfl
    | cons first rest =>
      obtain _ | g := g
      · simp at hg
      simp only [length_cons, Nat.add_le_add_iff_right] at hf hg
      unfold parseHunks
      cases hp : parseOneHunk first rest ln allow with
      | error e => rfl
      | ok p =>
        have hn := (parseOneHunk_consumes hp).1
        have hl : ((first :: rest).drop p.2).length ≤ rest.length := by
          simp only [length_drop, length_cons]
          omega
        exact ih (hl.trans hf) (hl.trans hg) _ _

end

/-! ## Loop heads -/

/-- Where the parse of the lines `body` of a patch comes to the head of a loop: the lines left
and the number counted for the first of them, with the chunks read so far at the head of the
chunk loop. -/
inductive LoopHead (allow : Bool) (body : List Text) :
    List Text → Nat → Option (List UpdateFileChunk) → Prop
  | start : LoopHead allow body body 2 none
  | hunk {first rest ln hunk n} : LoopHead allow body (first :: rest) ln none →
      parseOneHunk first rest ln allow = .ok (hunk, n) →
      LoopHead allow body ((first :: rest).drop n) (ln + n) none
  | update {first rest ln path movePath remaining parsed} :
      LoopHead allow body (first :: rest) ln none →
      stripPrefix UPDATE_FILE_MARKER (trim first) = some path →
      parseMoveLine rest = (movePath, remaining, parsed) →
      LoopHead allow body remaining (ln + parsed) (some [])
  | blank {line ls ln chunks} : LoopHead allow body (line :: ls) ln (some chunks) →
      trim line = [] → LoopHead allow body ls (ln + 1) (some chunks)
  | chunk {line ls ln chunks c n} : LoopHead allow body (line :: ls) ln (some chunks) →
      parseUpdateFileChunk (line :: ls) ln chunks.isEmpty = .ok (c, n) →
      LoopHead allow body ((line :: ls).drop n) (ln + n) (some (chunks ++ [c]))

theorem LoopHead.position {allow : Bool} {body ls : List Text} {ln : Nat}
    {chunks : Option (List UpdateFileChunk)} (h : LoopHead allow body ls ln chunks) :
    ∃ before, body = before ++ ls ∧ ln = before.length + 2 := by
  -- a loop that takes `n` lines, no more than are left, adds `n` to the number
  have go : ∀ {before ls : List Text} {n : Nat}, n ≤ ls.length → body = before ++ ls →
      ∃ before', body = before' ++ ls.drop n ∧ before.length + 2 + n = before'.length + 2 := by
    rintro before ls n hn rfl
    exact ⟨before ++ ls.take n, by simp, by simp; omega⟩
  induction h with
  | start => exact ⟨[], rfl, rfl⟩
  | hunk _ hp ih =>
    obtain ⟨before, hb, rfl⟩ := ih
    exact go (parseOneHunk_consumes hp).2 hb
  | @update first rest _ path _ _ _ _ _ hm ih =>
    obtain ⟨before, hb, rfl⟩ := ih
    obtain ⟨_, k, hk, hle, -⟩ := run_header allow [] path rest
    rw [hk] at hm
    obtain ⟨rfl, rfl, rfl⟩ := by simpa using hm
    exact go (Nat.add_le_add_right hle 1) hb
  | blank _ _ ih =>
    obtain ⟨before, hb, rfl⟩ := ih
    exact go (n := 1) (by simp) hb
  | chunk _ hp ih =>
    obtain ⟨before, hb, rfl⟩ := ih
    exact go (parseUpdateFileChunk_consumes hp).2 hb

/-! ## Errors -/

/-- `start_index`: how many lines the `@@` line of a chunk takes. -/
def startIndex : List Text → Nat
  | [] => 0
  | line :: _ => if (contextLine line).isSome then 1 else 0

variable {e : ParseError}

theorem parseChunkLines_error {ln : Nat} {chunk : UpdateFileChunk} {line : Text}
    (h : parseChunkLines ln chunk 0 (line :: ls) = .error e) :
    e = .invalidHunkError noLinesMessage (ln + 1) ∨
      e = .invalidHunkError (unexpectedLineMessage line) (ln + 1) := by
  by_cases he : line = EOF_MARKER
  · rw [he, parseChunkLines_eof, if_pos rfl] at h
    exact .inl (Except.error.inj h).symm
  · rcases parseChunkLines_cons ln chunk 0 line ls he with ⟨c, -, hp⟩ | ⟨-, hp, -⟩
    · obtain ⟨_, _, hok, -⟩ := run_chunk false [] [] none [] ln ls c 0
      simp [hp, hok] at h
    · rw [hp rfl] at h
      exact .inr (Except.error.inj h).symm

theorem parseUpdateFileChunk_error {line : Text} {ln : Nat} {b : Bool}
    (h : parseUpdateFileChunk (line :: ls) ln b = .error e) :
    (∃ k, e = .invalidHunkError noLinesMessage k) ∨
    e = .invalidHunkError (expectedContextMessage line) ln ∨
    ∃ l, (line :: ls)[startIndex (line :: ls)]? = some l ∧
      e = .invalidHunkError (unexpectedLineMessage l) (ln + 1) := by
  cases hc : contextLine line with
  | some context =>
    rw [parseUpdateFileChunk_context ln ls b hc] at h
    cases ls with
    | nil => exact .inl ⟨_, (Except.error.inj h).symm⟩
    | cons l ls =>
      rw [if_neg (by simp)] at h
      cases hp : parseChunkLines ln (.empty context) 0 (l :: ls) with
      | ok p => simp [hp, Except.map] at h
      | error e' =>
        simp only [hp, Except.map, Except.error.injEq] at h
        subst h
        rcases parseChunkLines_error hp with rfl | rfl
        · exact .inl ⟨_, rfl⟩
        · exact .inr (.inr ⟨l, by simp [startIndex, hc], rfl⟩)
  | none =>
    cases b with
    | false =>
      rw [parseUpdateFileChunk_missing ln ls hc] at h
      exact .inr (.inl (Except.error.inj h).symm)
    | true =>
      rw [parseUpdateFileChunk_bare ln ls hc] at h
      rcases parseChunkLines_error h with rfl | rfl
      · exact .inl ⟨_, rfl⟩
      · exact .inr (.inr ⟨line, by simp [startIndex, hc], rfl⟩)

section
variable {allow : Bool} {body ls : List Text} {ln : Nat} {e : ParseError}

theorem parseUpdateChunks_error {fuel parsed : Nat} {chunks : List UpdateFileChunk}
    (hh : LoopHead allow body ls (ln + parsed) (some chunks))
    (h : parseUpdateChunks ln allow fuel ls parsed chunks = .error e) :
    ∃ line ls' k cs, LoopHead allow body (line :: ls') k (some cs) ∧
      parseUpdateFileChunk (line :: ls') k cs.isEmpty = .error e := by
  induction fuel generalizing ls parsed chunks with
  | zero => simp [parseUpdateChunks] at h
  | succ fuel ih =>
    cases ls with
    | nil => simp [parseUpdateChunks] at h
    | cons line ls =>
      unfold parseUpdateChunks at h
      split at h
      · rename_i hb
        have hh' := hh.blank hb
        rw [Nat.add_assoc] at hh'
        exact ih hh' h
      · split at h
        · simp at h
        · split at h
          · simp at h
          · cases hp : parseUpdateFileChunk (line :: ls) (ln + parsed) chunks.isEmpty with
            | ok p =>
              rw [hp] at h
              have hh' := hh.chunk hp
              rw [Nat.add_assoc] at hh'
              exact ih hh' h
            | error e' =>
              refine ⟨line, ls, _, _, hh, ?_⟩
              rw [hp] at h
              cases e' with
              | invalidPatchError message => rw [hp, Except.error.inj h]
              | invalidHunkError message k =>
                simp only at h
                split at h
                · simp at h
                · rw [hp, Except.error.inj h]

theorem parseOneHunk_error {first : Text} {rest : List Text}
    (hh : LoopHead allow body (first :: rest) ln none)
    (h : parseOneHunk first rest ln allow = .error e) :
    (∃ path, e = .invalidHunkError (emptyUpdateMessage path) ln) ∨
    e = .invalidHunkError (invalidHeaderMessage (trim first)) ln ∨
    ∃ line ls k cs, LoopHead allow body (line :: ls) k (some cs) ∧
      parseUpdateFileChunk (line :: ls) k cs.isEmpty = .error e := by
  cases hadd : stripPrefix ADD_FILE_MARKER (trim first) with
  | some path => simp [parseOneHunk, hadd] at h
  | none =>
    cases hdel : stripPrefix DELETE_FILE_MARKER (trim first) with
    | some path => simp [parseOneHunk, hadd, hdel] at h
    | none =>
      cases hupd : stripPrefix UPDATE_FILE_MARKER (trim first) with
      | none =>
        simp only [parseOneHunk, hadd, hdel, hupd, Except.error.injEq] at h
        exact .inr (.inl h.symm)
      | some path =>
        obtain ⟨movePath, k, hmove, -⟩ := run_header allow [] path rest
        rw [parseOneHunk_update allow ln rest hadd hdel hupd hmove] at h
        cases hp : parseUpdateChunks ln allow (rest.drop k).length (rest.drop k) (k + 1) [] with
        | error e' =>
          rw [hp] at h
          obtain rfl := Except.error.inj h
          exact .inr (.inr (parseUpdateChunks_error (.update hh hupd hmove) hp))
        | ok p =>
          simp only [hp] at h
          split at h
          · exact .inl ⟨path, (Except.error.inj h).symm⟩
          · simp at h

theorem parseHunks_error {fuel : Nat} {hunks : List Hunk} (hh : LoopHead allow body ls ln none)
    (h : parseHunks allow fuel ls ln hunks = .error e) :
    ∃ first rest k, LoopHead allow body (first :: rest) k none ∧
      parseOneHunk first rest k allow = .error e := by
  induction fuel generalizing ls ln hunks with
  | zero => simp [parseHunks] at h
  | succ fuel ih =>
    cases ls with
    | nil => simp [parseHunks] at h
    | cons first rest =>
      unfold parseHunks at h
      cases hp : parseOneHunk first rest ln allow with
      | error e' =>
        rw [hp] at h
        exact ⟨first, rest, ln, hh, by rw [hp, Except.error.inj h]⟩
      | ok p =>
        rw [hp] at h
        exact ih (.hunk hh hp) h

end

variable {mode : ParseMode}

theorem checkPatchBoundaries_error (h : checkPatchBoundaries mode ls = .error e) :
    ∃ message, e = .invalidPatchError message := by
  have ends : ∀ first last, checkStartAndEndLinesStrict first last = .error e →
      ∃ message, e = .invalidPatchError message := by
    intro first last h
    unfold checkStartAndEndLinesStrict at h
    repeat' split at h
    all_goals first | exact ⟨_, (Except.error.inj h).symm⟩ | simp at h
  have strict : ∀ ls, checkPatchBoundariesStrict ls = .error e →
      ∃ message, e = .invalidPatchError message := by
    intro ls h
    unfold checkPatchBoundariesStrict at h
    cases hc : checkStartAndEndLinesStrict ls.head? ls.getLast? with
    | ok u => simp [hc, bind, Except.bind] at h
    | error e' =>
      rw [hc] at h
      exact ends _ _ (Except.error.inj h ▸ hc)
  cases mode with
  | strict => exact strict _ h
  | lenient =>
    simp only [checkPatchBoundaries, checkPatchBoundariesLenient] at h
    split at h
    · simp at h
    · rename_i hs
      split at h
      · split at h
        · exact strict _ h
        · exact strict _ (hs.trans h)
      · exact strict _ (hs.trans h)
  | streaming =>
    simp only [checkPatchBoundaries, checkPatchBoundariesStreaming] at h
    split at h
    · split at h
      · split at h <;> simp at h
      · exact strict _ h
    · exact strict _ h

theorem checkPatchBoundaries_body {ls patchLines hunkLines : List Text}
    (h : checkPatchBoundaries mode ls = .ok (patchLines, hunkLines)) :
    ∃ first last, patchLines = first :: (hunkLines ++ last) := by
  have strict : ∀ {ls}, checkPatchBoundariesStrict ls = .ok (patchLines, hunkLines) →
      ∃ first last, patchLines = first :: (hunkLines ++ last) := by
    intro ls h
    obtain ⟨h1, -, h3⟩ := checkPatchBoundariesStrict_eq_ok.mp h
    obtain ⟨rfl, rfl⟩ := Prod.mk.inj h3
    cases patchLines with
    | nil => simp at h1
    | cons first rest =>
      exact ⟨first, rest.drop (rest.length - 1), by
        rw [innerLines, tail_cons, dropLast_eq_take, take_append_drop]⟩
  cases mode with
  | strict => exact strict h
  | lenient =>
    simp only [checkPatchBoundaries, checkPatchBoundariesLenient] at h
    split at h
    · rename_i hs
      exact strict (hs.trans h)
    · split at h
      · split at h
        · exact strict h
        · simp at h
      · simp at h
  | streaming =>
    simp only [checkPatchBoundaries, checkPatchBoundariesStreaming] at h
    split at h
    · rename_i first rest
      split at h
      · split at h
        · rename_i hf hl
          refine strict (checkPatchBoundariesStrict_eq_ok.mpr ⟨?_, hl, (Except.ok.inj h).symm⟩)
          simp [hf]
        · simp only [Except.ok.injEq, Prod.mk.injEq] at h
          exact ⟨first, [], by rw [← h.1, ← h.2, append_nil]⟩
      · exact strict h
    · exact strict h

/-! ## The reported line -/

theorem unexpectedLineMessage_inj {l l' : Text}
    (h : unexpectedLineMessage l = unexpectedLineMessage l') : l = l' :=
  append_cancel_left (append_cancel_right h)

theorem expectedContextMessage_inj {l l' : Text}
    (h : expectedContextMessage l = expectedContextMessage l') : l = l' :=
  append_cancel_left (append_cancel_right h)

theorem append_ne_append {p q : Text} (k : Nat) (hp : k ≤ p.length) (hq : k ≤ q.length)
    (h : p.take k ≠ q.take k) (a b s t : Text) : p ++ a ++ s ≠ q ++ b ++ t := by
  intro e
  rw [List.append_assoc, List.append_assoc] at e
  have e := congrArg (List.take k) e
  rw [take_append_of_le_length hp, take_append_of_le_length hq] at e
  exact h e

theorem lineMessage_ne (l m : Text) :
    expectedContextMessage m ≠ unexpectedLineMessage l ∧
    ∀ message, message = unexpectedLineMessage l ∨ message = expectedContextMessage l →
      emptyUpdateMessage m ≠ message ∧ invalidHeaderMessage m ≠ message ∧
      noLinesMessage ≠ message := by
  have hnil : noLinesMessage ++ [] ++ [] = noLinesMessage := by
    rw [append_nil, append_nil]
  refine ⟨append_ne_append 1 (by decide +kernel) (by decide +kernel) (by decide +kernel) m l _ _, ?_⟩
  rintro message (rfl | rfl)
  · exact ⟨append_ne_append 2 (by decide +kernel) (by decide +kernel) (by decide +kernel) m l _ _,
      append_ne_append 1 (by decide +kernel) (by decide +kernel) (by decide +kernel) m l _ _,
      fun e => append_ne_append (p := noLinesMessage) 2 (by decide +kernel) (by decide +kernel)
        (by decide +kernel) [] l [] _ (hnil.trans e)⟩
  · exact ⟨append_ne_append 1 (by decide +kernel) (by decide +kernel) (by decide +kernel) m l _ _,
      append_ne_append 1 (by decide +kernel) (by decide +kernel) (by decide +kernel) m l _ _,
      fun e => append_ne_append (p := noLinesMessage) 1 (by decide +kernel) (by decide +kernel)
        (by decide +kernel) [] l [] _ (hnil.trans e)⟩

theorem parsePatchText_hunkError {text message : Text} {n : Nat}
    (h : parsePatchText text mode = .error (.invalidHunkError message n)) :
    ∃ patchLines hunkLines, checkPatchBoundaries mode (lines (trim text)) =
        .ok (patchLines, hunkLines) ∧
      parseHunks (mode = .streaming) hunkLines.length hunkLines 2 [] =
        .error (.invalidHunkError message n) := by
  unfold parsePatchText at h
  cases hb : checkPatchBoundaries mode (lines (trim text)) with
  | error e =>
    rw [hb] at h
    obtain ⟨message, hm⟩ := checkPatchBoundaries_error hb
    simp [bind, Except.bind, hm] at h
  | ok p =>
    rw [hb] at h
    refine ⟨p.1, p.2, rfl, ?_⟩
    simp only [bind, Except.bind] at h
    split at h
    · rename_i he
      rw [he, Except.error.inj h]
    · simp at h

/-- The parse of `text` comes, at index `i` of the lines `patchLines` of the patch, to the
lines `ls` of a chunk that fails with the error `e`. -/
def FailsAt (text : Text) (mode : ParseMode) (e : ParseError) (patchLines ls : List Text)
    (i : Nat) : Prop :=
  ∃ hunkLines chunks,
    checkPatchBoundaries mode (lines (trim text)) = .ok (patchLines, hunkLines) ∧
    LoopHead (mode = .streaming) hunkLines ls (i + 1) (some chunks) ∧
    ls <+: patchLines.drop i ∧ parseUpdateFileChunk ls (i + 1) chunks.isEmpty = .error e

theorem parsePatchText_lineError {text line message : Text} {n : Nat}
    (hm : message = unexpectedLineMessage line ∨ message = expectedContextMessage line)
    (h : parsePatchText text mode = .error (.invalidHunkError message n)) :
    ∃ patchLines first ls i, FailsAt text mode (.invalidHunkError message n) patchLines
        (first :: ls) i ∧
      (ParseError.invalidHunkError message n =
          .invalidHunkError (expectedContextMessage first) (i + 1) ∨
        ∃ l, (first :: ls)[startIndex (first :: ls)]? = some l ∧
          ParseError.invalidHunkError message n =
            .invalidHunkError (unexpectedLineMessage l) (i + 2)) := by
  obtain ⟨patchLines, hunkLines, hb, hp⟩ := parsePatchText_hunkError h
  obtain ⟨l, rest, k, hh, hp⟩ := parseHunks_error .start hp
  rcases parseOneHunk_error hh hp with ⟨path, he⟩ | he | ⟨first, ls, ln, cs, hc, he⟩
  · exact absurd (ParseError.invalidHunkError.inj he).1.symm ((lineMessage_ne line path).2 _ hm).1
  · exact absurd (ParseError.invalidHunkError.inj he).1.symm ((lineMessage_ne line _).2 _ hm).2.1
  · obtain ⟨before, rfl, rfl⟩ := hc.position
    obtain ⟨opener, last, rfl⟩ := checkPatchBoundaries_body hb
    refine ⟨_, first, ls, before.length + 1, ⟨_, cs, hb, hc, ⟨last, by simp⟩, he⟩, ?_⟩
    rcases parseUpdateFileChunk_error he with ⟨_, hn⟩ | hn | hn
    · exact absurd (ParseError.invalidHunkError.inj hn).1.symm ((lineMessage_ne line []).2 _ hm).2.2
    · exact .inl hn
    · exact .inr hn

theorem FailsAt.getElem {text : Text} {patchLines ls : List Text} {i k : Nat} {line : Text}
    (h : FailsAt text mode e patchLines ls i) (hk : ls[k]? = some line) :
    patchLines[i + k]? = some line := by
  obtain ⟨_, _, -, -, ⟨last, hl⟩, -⟩ := h
  have hlt : k < ls.length := (List.getElem?_eq_some_iff.mp hk).1
  rw [← List.getElem?_drop, ← hl, List.getElem?_append_left hlt, hk]

/-- Each step takes at least one line and at most those left, so the two loops have their
results with any bound on their turns from the number of lines on. A line in the place of an
`@@` line is reported under its number. A line that is unexpected inside a chunk is the first
behind the chunk's `@@` line, if there is one, and reported under its number exactly if there
is. -/
theorem parse_progress_and_unexpected_line (text : Text) (mode : ParseMode) :
    (∀ first rest ln allow hunk n, parseOneHunk first rest ln allow = .ok (hunk, n) →
      1 ≤ n ∧ n ≤ (first :: rest).length) ∧
    (∀ ls ln allowMissing chunk n, parseUpdateFileChunk ls ln allowMissing = .ok (chunk, n) →
      1 ≤ n ∧ n ≤ ls.length) ∧
    (∀ allow ls ln fuel, ls.length ≤ fuel →
      (∀ hunks, parseHunks allow fuel ls ln hunks = parseHunks allow ls.length ls ln hunks) ∧
      ∀ parsed chunks, parseUpdateChunks ln allow fuel ls parsed chunks =
        parseUpdateChunks ln allow ls.length ls parsed chunks) ∧
    (∀ line n,
      parsePatchText text mode = .error (.invalidHunkError (expectedContextMessage line) n) →
      ∃ patchLines ls i,
        FailsAt text mode (.invalidHunkError (expectedContextMessage line) n) patchLines ls i ∧
        patchLines[i]? = some line ∧ n = i + 1) ∧
    ∀ line n,
      parsePatchText text mode = .error (.invalidHunkError (unexpectedLineMessage line) n) →
      ∃ patchLines ls i,
        FailsAt text mode (.invalidHunkError (unexpectedLineMessage line) n) patchLines ls i ∧
        patchLines[i + startIndex ls]? = some line ∧
        (n = i + startIndex ls + 1 ↔ startIndex ls = 1) := by
  refine ⟨fun _ _ _ _ _ _ => parseOneHunk_consumes, fun _ _ _ _ _ => parseUpdateFileChunk_consumes,
    fun _ _ _ _ hf => ⟨parseHunks_fuel hf (Nat.le_refl _) _,
      parseUpdateChunks_fuel hf (Nat.le_refl _) _⟩, fun line n h => ?_, fun line n h => ?_⟩
  · obtain ⟨patchLines, first, ls, i, hf, he | ⟨l, -, he⟩⟩ := parsePatchText_lineError (.inr rfl) h
    · obtain ⟨hm, hn⟩ := ParseError.invalidHunkError.inj he
      exact ⟨_, _, i, hf, hf.getElem (k := 0) (by simp [expectedContextMessage_inj hm]), hn⟩
    · exact absurd (ParseError.invalidHunkError.inj he).1 (lineMessage_ne l line).1
  · obtain ⟨patchLines, first, ls, i, hf, he | ⟨l, hl, he⟩⟩ := parsePatchText_lineError (.inl rfl) h
    · exact absurd (ParseError.invalidHunkError.inj he).1.symm (lineMessage_ne line first).1
    · obtain ⟨hm, hn⟩ := ParseError.invalidHunkError.inj he
      refine ⟨_, _, i, hf, hf.getElem (unexpectedLineMessage_inj hm ▸ hl), ?_⟩
      omega

def badLinePatch (context : Text) : Text :=
  "*** Begin Patch\n*** Update File: a\n".toList ++ context ++ "bad\n*** End Patch".toList

theorem bad_line_behind_context : ∃ (patchLines : List Text) (ls : List Text) (i : Nat),
    patchLines[i + startIndex ls]? = some "bad".toList ∧
    (4 = i + startIndex ls + 1 ↔ startIndex ls = 1) := by
  obtain ⟨-, -, -, -, h⟩ := parse_progress_and_unexpected_line (badLinePatch "@@\n".toList) .lenient
  obtain ⟨patchLines, ls, i, -, hl, hn⟩ := h "bad".toList 4 (by decide +kernel)
  exact ⟨patchLines, ls, i, hl, hn⟩

/-- Without an `@@` line the third line is reported as the fourth, which is the end marker. -/
theorem bad_line_number_counted_twice : parsePatchText (badLinePatch []) .lenient =
      .error (.invalidHunkError (unexpectedLineMessage "bad".toList) 4) ∧
    (checkPatchBoundaries .lenient (lines (trim (badLinePatch [])))).map Prod.fst =
      .ok ["*** Begin Patch".toList, "*** Update File: a".toList, "bad".toList,
        "*** End Patch".toList] :=
  ⟨by decide +kernel, by decide +kernel⟩

end Codex
