import Codex.ApplyPatch.Parser

/-!
# The patch parser as a line machine

The parser slices its line list by counted lines. This module says what the
slicing amounts to: an automaton that reads one line at a time and holds the
hunks that are complete and the one that is still open. `parseHunks_eq_run`
identifies the two, error texts aside.
-/

namespace Codex

open Foundation List Option

inductive ChunkState where
  | fresh
  | started (changeContext : Option Text)
  | lines (chunk : UpdateFileChunk)
deriving DecidableEq, Repr

inductive OpenHunk where
  | closed
  | add (path : PathBuf) (contents : Text)
  | header (path : PathBuf)
  | update (path : PathBuf) (movePath : Option PathBuf) (chunks : List UpdateFileChunk)
      (cur : ChunkState)
deriving DecidableEq, Repr

structure PatchState where
  done : List Hunk
  current : OpenHunk
deriving DecidableEq, Repr

def PatchState.start : PatchState := ⟨[], .closed⟩

def PatchState.finish (s : PatchState) : Option (List Hunk) :=
  match s.current with
  | .closed => some s.done
  | .add path contents => some (s.done ++ [.addFile path contents])
  | .header _ => none
  | .update _ _ _ (.started _) => none
  | .update path movePath chunks .fresh =>
    if chunks = [] then none else some (s.done ++ [.updateFile path movePath chunks])
  | .update path movePath chunks (.lines chunk) =>
    some (s.done ++ [.updateFile path movePath (chunks ++ [chunk])])

def PatchState.count (s : PatchState) : Nat :=
  s.done.length + if s.current = .closed then 0 else 1

/-! ## Steps -/

def headerLine (done : List Hunk) (line : Text) : Option PatchState :=
  match stripPrefix ADD_FILE_MARKER (trim line) with
  | some path => some ⟨done, .add path []⟩
  | none => match stripPrefix DELETE_FILE_MARKER (trim line) with
    | some path => some ⟨done ++ [.deleteFile path], .closed⟩
    | none => match stripPrefix UPDATE_FILE_MARKER (trim line) with
      | some path => some ⟨done, .header path⟩
      | none => none

def contentLine (chunk : UpdateFileChunk) : Text → Option UpdateFileChunk
  | [] => some { chunk with
      oldLines := chunk.oldLines ++ [[]], newLines := chunk.newLines ++ [[]] }
  | ' ' :: text => some { chunk with
      oldLines := chunk.oldLines ++ [text], newLines := chunk.newLines ++ [text] }
  | '+' :: text => some { chunk with newLines := chunk.newLines ++ [text] }
  | '-' :: text => some { chunk with oldLines := chunk.oldLines ++ [text] }
  | _ => none

/-- The context of a chunk's `@@` line, where the line is one. -/
def contextLine (line : Text) : Option (Option Text) :=
  if line = EMPTY_CHANGE_CONTEXT_MARKER then some none
  else (stripPrefix CHANGE_CONTEXT_MARKER line).map some

section
variable (allow : Bool) (done : List Hunk) (path : PathBuf) (movePath : Option PathBuf)
  (chunks : List UpdateFileChunk)

def freshLine (line : Text) : Option PatchState :=
  if trim line = [] then some ⟨done, .update path movePath chunks .fresh⟩
  else if line.head? = some '*' then
    if chunks = [] then none else headerLine (done ++ [.updateFile path movePath chunks]) line
  else match contextLine line with
    | some context => some ⟨done, .update path movePath chunks (.started context)⟩
    | none =>
      if chunks = [] then
        (contentLine (.empty none) line).map fun chunk =>
          ⟨done, .update path movePath chunks (.lines chunk)⟩
      else if allow then headerLine (done ++ [.updateFile path movePath chunks]) line
      else none

def startedLine (changeContext : Option Text) (line : Text) : Option PatchState :=
  if line = EOF_MARKER then none
  else (contentLine (.empty changeContext) line).map fun chunk =>
    ⟨done, .update path movePath chunks (.lines chunk)⟩

def chunkLine (chunk : UpdateFileChunk) (line : Text) : Option PatchState :=
  if line = EOF_MARKER then
    some ⟨done, .update path movePath (chunks ++ [{ chunk with isEndOfFile := true }]) .fresh⟩
  else match contentLine chunk line with
    | some chunk => some ⟨done, .update path movePath chunks (.lines chunk)⟩
    | none => freshLine allow done path movePath (chunks ++ [chunk]) line

end

def PatchState.step (allow : Bool) (s : PatchState) (line : Text) : Option PatchState :=
  match s.current with
  | .closed => headerLine s.done line
  | .add path contents =>
    match line with
    | '+' :: lineToAdd => some ⟨s.done, .add path (contents ++ (lineToAdd ++ ['\n']))⟩
    | line => headerLine (s.done ++ [.addFile path contents]) line
  | .header path =>
    match stripPrefix MOVE_TO_MARKER line with
    | some dest => some ⟨s.done, .update path (some dest) [] .fresh⟩
    | none => freshLine allow s.done path none [] line
  | .update path movePath chunks cur =>
    match cur with
    | .fresh => freshLine allow s.done path movePath chunks line
    | .started changeContext => startedLine s.done path movePath chunks changeContext line
    | .lines chunk => chunkLine allow s.done path movePath chunks chunk line

section
variable (allow : Bool) (done : List Hunk) (path : PathBuf) (movePath : Option PathBuf)
  (chunks : List UpdateFileChunk) (line : Text)

@[simp] theorem step_closed : PatchState.step allow ⟨done, .closed⟩ line = headerLine done line := rfl

@[simp] theorem step_fresh :
    PatchState.step allow ⟨done, .update path movePath chunks .fresh⟩ line =
      freshLine allow done path movePath chunks line := rfl

@[simp] theorem step_started (context : Option Text) :
    PatchState.step allow ⟨done, .update path movePath chunks (.started context)⟩ line =
      startedLine done path movePath chunks context line := rfl

@[simp] theorem step_lines (chunk : UpdateFileChunk) :
    PatchState.step allow ⟨done, .update path movePath chunks (.lines chunk)⟩ line =
      chunkLine allow done path movePath chunks chunk line := rfl

end

def PatchState.run (allow : Bool) : PatchState → List Text → Option (List Hunk)
  | s, [] => s.finish
  | s, line :: lines => (s.step allow line).bind fun s' => run allow s' lines

variable (allow : Bool)

@[simp] theorem PatchState.run_nil (s : PatchState) : s.run allow [] = s.finish := rfl

theorem PatchState.run_cons (s : PatchState) (line : Text) (lines : List Text) :
    s.run allow (line :: lines) = (s.step allow line).bind fun s' => s'.run allow lines := rfl

theorem parseAddLines_length (lines : List Text) : (parseAddLines lines).2 ≤ lines.length := by
  fun_induction parseAddLines lines with
  | case1 => simp_all
  | case2 => simp

variable (done : List Hunk)

theorem run_add (path : PathBuf) (contents : Text) (lines : List Text) :
    PatchState.run allow ⟨done, .add path contents⟩ lines =
      PatchState.run allow
        ⟨done ++ [.addFile path (contents ++ (parseAddLines lines).1)], .closed⟩
        (lines.drop (parseAddLines lines).2) := by
  fun_induction parseAddLines lines generalizing contents with
  | case1 lineToAdd lines added parsed h ih =>
    rw [PatchState.run_cons]
    simp only [PatchState.step, bind_some, drop_succ_cons]
    rw [ih, h]
    simp
  | case2 lines h =>
    cases lines with
    | nil => simp [PatchState.finish]
    | cons line lines =>
      rw [append_nil, drop_zero, PatchState.run_cons, PatchState.run_cons]
      congr 1
      cases line with
      | nil => rfl
      | cons c text =>
        by_cases hc : c = '+'
        · exact absurd (by rw [hc]) (h text lines)
        · simp [PatchState.step, hc]

/-! ## Chunks -/

theorem parseChunkLines_cons (ln : Nat) (chunk : UpdateFileChunk) (n : Nat) (line : Text)
    (lines : List Text) (hne : line ≠ EOF_MARKER) :
    (∃ chunk', contentLine chunk line = some chunk' ∧
      parseChunkLines ln chunk n (line :: lines) = parseChunkLines ln chunk' (n + 1) lines) ∨
    (contentLine chunk line = none ∧
      (n = 0 → parseChunkLines ln chunk n (line :: lines) =
        .error (.invalidHunkError (unexpectedLineMessage line) (ln + 1))) ∧
      (n ≠ 0 → parseChunkLines ln chunk n (line :: lines) = .ok (chunk, n))) := by
  unfold contentLine
  split
  · exact .inl ⟨_, rfl, by simp [parseChunkLines, hne]⟩
  · exact .inl ⟨_, rfl, by simp [parseChunkLines, hne]⟩
  · exact .inl ⟨_, rfl, by simp [parseChunkLines, hne]⟩
  · exact .inl ⟨_, rfl, by simp [parseChunkLines, hne]⟩
  · rename_i h1 h2 h3 h4
    refine .inr ⟨rfl, fun h => ?_, fun h => ?_⟩
    · rw [parseChunkLines, if_neg hne, if_pos h] <;> assumption
    · rw [parseChunkLines, if_neg hne, if_neg h] <;> assumption

theorem parseChunkLines_eof (ln : Nat) (chunk : UpdateFileChunk) (n : Nat) (lines : List Text) :
    parseChunkLines ln chunk n (EOF_MARKER :: lines) =
      if n = 0 then .error (.invalidHunkError noLinesMessage (ln + 1))
      else .ok ({ chunk with isEndOfFile := true }, n + 1) := by
  unfold parseChunkLines
  rw [if_pos rfl]

theorem cons_ne_eof {c : Char} (text : Text) (h : c ≠ '*') : c :: text ≠ EOF_MARKER := by
  intro e
  exact h (head_eq_of_cons_eq e)

theorem run_chunk (path : PathBuf) (movePath : Option PathBuf) (chunks : List UpdateFileChunk)
    (ln : Nat) (lines : List Text) (chunk : UpdateFileChunk) (n : Nat) :
    ∃ chunk' m, parseChunkLines ln chunk (n + 1) lines = .ok (chunk', n + 1 + m) ∧
      m ≤ lines.length ∧
      PatchState.run allow ⟨done, .update path movePath chunks (.lines chunk)⟩ lines =
        PatchState.run allow ⟨done, .update path movePath (chunks ++ [chunk']) .fresh⟩
          (lines.drop m) := by
  induction lines generalizing chunk n with
  | nil => exact ⟨chunk, 0, rfl, Nat.le_refl _, by simp [PatchState.finish]⟩
  | cons line lines ih =>
    by_cases he : line = EOF_MARKER
    · refine ⟨{ chunk with isEndOfFile := true }, 1, by rw [he, parseChunkLines_eof]; rfl,
        by simp, ?_⟩
      rw [PatchState.run_cons]
      simp [PatchState.step, chunkLine, he]
    · rcases parseChunkLines_cons ln chunk (n + 1) line lines he with ⟨c, hc, hp⟩ | ⟨hc, -, hp⟩
      · obtain ⟨chunk', m, h1, h2, h3⟩ := ih c (n + 1)
        refine ⟨chunk', m + 1, by rw [hp, h1]; congr 2; omega, by simpa using h2, ?_⟩
        rw [PatchState.run_cons]
        simp [PatchState.step, chunkLine, he, hc, h3]
      · refine ⟨chunk, 0, by simpa using hp (by omega), Nat.zero_le _, ?_⟩
        rw [drop_zero, PatchState.run_cons, PatchState.run_cons]
        simp [PatchState.step, chunkLine, he, hc]

def IsHeader (line : Text) : Prop :=
  ADD_FILE_MARKER <+: trim line ∨ DELETE_FILE_MARKER <+: trim line ∨ UPDATE_FILE_MARKER <+: trim line

instance (line : Text) : Decidable (IsHeader line) := inferInstanceAs (Decidable (_ ∨ _ ∨ _))

variable {line : Text}

theorem headerLine_eq_none (h : ¬ IsHeader line) : headerLine done line = none := by
  have hno : ∀ m : Text, ¬ m <+: trim line → stripPrefix m (trim line) = none := by
    intro m hm
    cases hs : stripPrefix m (trim line) with
    | none => rfl
    | some r => exact absurd ⟨r, (stripPrefix_eq_some.mp hs).symm⟩ hm
  unfold headerLine
  rw [hno _ fun e => h (.inl e), hno _ fun e => h (.inr (.inl e)), hno _ fun e => h (.inr (.inr e))]

theorem IsHeader.trim_head (h : IsHeader line) : (trim line).head? = some '*' := by
  have key : ∀ m : Text, m.head? = some '*' → m <+: trim line → (trim line).head? = some '*' := by
    rintro m hm ⟨r, hr⟩
    rw [← hr, List.head?_append, hm]
    rfl
  rcases h with h | h | h
  · exact key _ (by decide) h
  · exact key _ (by decide) h
  · exact key _ (by decide) h

theorem IsHeader.head (h : IsHeader line) :
    ∃ c, line.head? = some c ∧ (c = '*' ∨ isWhitespace c = true) := head_of_trim_head h.trim_head

theorem IsHeader.head_ne (h : IsHeader line) {c : Char} (hs : c ≠ '*')
    (hw : isWhitespace c = false) : line.head? ≠ some c := by
  intro hc
  obtain ⟨d, hd, hcase⟩ := h.head
  rw [hc, Option.some.injEq] at hd
  subst hd
  rcases hcase with rfl | hcase
  · exact hs rfl
  · simp [hw] at hcase

theorem headerLine_of_context (h : line.head? = some '@') : headerLine done line = none := by
  apply headerLine_eq_none
  intro hh
  exact hh.head_ne (by decide) (by decide) h

/-! ## The chunk loop -/

section
variable (allow : Bool) (done : List Hunk) (path : PathBuf) (movePath : Option PathBuf)
  (chunks : List UpdateFileChunk) (ln : Nat)

theorem run_first (context : Option Text) (line : Text) (lines : List Text) :
    (∃ chunk m, parseChunkLines ln (.empty context) 0 (line :: lines) = .ok (chunk, m + 1) ∧
      m ≤ lines.length ∧
      ((startedLine done path movePath chunks context line).bind fun s => s.run allow lines) =
        PatchState.run allow ⟨done, .update path movePath (chunks ++ [chunk]) .fresh⟩
          (lines.drop m)) ∨
    ((∃ message k, parseChunkLines ln (.empty context) 0 (line :: lines) =
        .error (.invalidHunkError message k)) ∧
      startedLine done path movePath chunks context line = none) := by
  by_cases he : line = EOF_MARKER
  · right
    rw [he, parseChunkLines_eof, if_pos rfl]
    exact ⟨⟨_, _, rfl⟩, by rw [startedLine, if_pos rfl]⟩
  · rcases parseChunkLines_cons ln (.empty context) 0 line lines he with ⟨c, hc, hp⟩ | ⟨hc, hp, -⟩
    · obtain ⟨chunk, m, h1, h2, h3⟩ := run_chunk allow done path movePath chunks ln lines c 0
      refine .inl ⟨chunk, m, by rw [hp, h1]; congr 2; omega, h2, ?_⟩
      rw [startedLine, if_neg he, hc, ← h3]
      rfl
    · refine .inr ⟨⟨_, _, hp rfl⟩, ?_⟩
      rw [startedLine, if_neg he, hc]
      rfl

/-- One turn of the parser's chunk loop and the machine's run from there agree. -/
def TurnAgrees (line : Text) (lines : List Text) : Prop :=
  (∃ chunk n, parseUpdateFileChunk (line :: lines) ln chunks.isEmpty = .ok (chunk, n + 1) ∧
    n ≤ lines.length ∧
    PatchState.run allow ⟨done, .update path movePath chunks .fresh⟩ (line :: lines) =
      PatchState.run allow ⟨done, .update path movePath (chunks ++ [chunk]) .fresh⟩
        (lines.drop n)) ∨
  ((∃ message k, parseUpdateFileChunk (line :: lines) ln chunks.isEmpty =
      .error (.invalidHunkError message k)) ∧
    PatchState.run allow ⟨done, .update path movePath chunks .fresh⟩ (line :: lines) =
      if allow ∧ chunks ≠ [] then
        PatchState.run allow ⟨done ++ [.updateFile path movePath chunks], .closed⟩ (line :: lines)
      else none)

variable {line : Text} {context : Option Text}

theorem contextLine_head (h : contextLine line = some context) : line.head? = some '@' := by
  unfold contextLine at h
  split at h
  · rename_i he
    rw [he]
    rfl
  · obtain ⟨text, ht, -⟩ := map_eq_some_iff.mp h
    rw [stripPrefix_eq_some.mp ht]
    rfl

section
variable (lines : List Text)

theorem parseUpdateFileChunk_context (b : Bool)
    (h : contextLine line = some context) : parseUpdateFileChunk (line :: lines) ln b =
      if lines = [] then .error (.invalidHunkError noLinesMessage (ln + 1))
      else (parseChunkLines ln (.empty context) 0 lines).map fun p => (p.1, p.2 + 1) := by
  have hl : ∀ l : Text, (1 ≥ (l :: lines).length) ↔ lines = [] := by
    cases lines <;> simp
  unfold contextLine at h
  unfold parseUpdateFileChunk
  split at h
  · rename_i he
    cases h
    simp only [he, ite_true, Except.bind, bind]
    by_cases hn : lines = []
    · simp [hn]
    · simp only [hl, hn, ite_false, drop_succ_cons, drop_zero]
      cases parseChunkLines ln (.empty none) 0 lines <;> rfl
  · rename_i he
    obtain ⟨text, ht, rfl⟩ := map_eq_some_iff.mp h
    simp only [he, ite_false, ht, Except.bind, bind]
    by_cases hn : lines = []
    · simp [hn]
    · simp only [hl, hn, ite_false, drop_succ_cons, drop_zero]
      cases parseChunkLines ln (.empty (some text)) 0 lines <;> rfl

theorem parseUpdateFileChunk_bare (h : contextLine line = none) :
    parseUpdateFileChunk (line :: lines) ln true =
      parseChunkLines ln (.empty none) 0 (line :: lines) := by
  unfold contextLine at h
  split at h
  · simp at h
  · rename_i he
    have ht : stripPrefix CHANGE_CONTEXT_MARKER line = none := by simpa using h
    unfold parseUpdateFileChunk
    simp only [he, ite_false, ht, ite_true, Except.bind, bind]
    simp only [length_cons, drop_zero, ge_iff_le, Nat.le_zero, Nat.add_one_ne_zero, ite_false]
    cases parseChunkLines ln (.empty none) 0 (line :: lines) <;> rfl

theorem parseUpdateFileChunk_missing (h : contextLine line = none) :
    parseUpdateFileChunk (line :: lines) ln false =
      .error (.invalidHunkError (expectedContextMessage line) ln) := by
  unfold contextLine at h
  split at h
  · simp at h
  · rename_i he
    have ht : stripPrefix CHANGE_CONTEXT_MARKER line = none := by simpa using h
    unfold parseUpdateFileChunk
    simp only [he, ite_false, ht, Except.bind, bind]
    rfl

theorem turnAgrees_context (hb : trim line ≠ []) (h : contextLine line = some context) :
    TurnAgrees allow done path movePath chunks ln line lines := by
  have hat := contextLine_head h
  have hstep : freshLine allow done path movePath chunks line =
      some ⟨done, .update path movePath chunks (.started context)⟩ := by
    rw [freshLine, if_neg hb, if_neg (by rw [hat]; decide), h]
  have hclosed : PatchState.run allow
      ⟨done ++ [.updateFile path movePath chunks], .closed⟩ (line :: lines) = none := by
    rw [PatchState.run_cons]
    simp [PatchState.step, headerLine_of_context _ hat]
  have hrun : PatchState.run allow ⟨done, .update path movePath chunks .fresh⟩ (line :: lines) =
      PatchState.run allow ⟨done, .update path movePath chunks (.started context)⟩ lines := by
    rw [PatchState.run_cons, step_fresh, hstep]
    rfl
  unfold TurnAgrees
  rw [hclosed, ite_self, parseUpdateFileChunk_context ln lines _ h, hrun]
  cases lines with
  | nil => exact .inr ⟨⟨_, _, rfl⟩, rfl⟩
  | cons l ls =>
    rcases run_first allow done path movePath chunks ln context l ls with
      ⟨chunk, m, h1, h2, h3⟩ | ⟨⟨message, k, h1⟩, h2⟩
    · refine .inl ⟨chunk, m + 1, by rw [h1]; rfl, by simpa using h2, ?_⟩
      rw [drop_succ_cons, ← h3]
      rfl
    · refine .inr ⟨⟨message, k, by rw [h1]; rfl⟩, ?_⟩
      simp [PatchState.run_cons, PatchState.step, h2]

end

theorem run_turn (line : Text) (lines : List Text) (hb : trim line ≠ [])
    (hs : line.head? ≠ some '*') : TurnAgrees allow done path movePath chunks ln line lines := by
  cases hc : contextLine line with
  | some context => exact turnAgrees_context allow done path movePath chunks ln lines hb hc
  | none =>
    unfold TurnAgrees
    by_cases hn : chunks = []
    · have hne : line ≠ EOF_MARKER := by
        rintro rfl
        exact hs rfl
      have hrun : PatchState.run allow ⟨done, .update path movePath chunks .fresh⟩
          (line :: lines) =
            ((startedLine done path movePath chunks none line).bind fun s => s.run allow lines) := by
        rw [PatchState.run_cons, step_fresh, startedLine, if_neg hne]
        simp only [freshLine, hb, hs, hc, hn, ite_true, ite_false]
      have he : chunks.isEmpty = true := by simp [hn]
      rw [he, parseUpdateFileChunk_bare ln lines hc, hrun, if_neg (by simp [hn])]
      rcases run_first allow done path movePath chunks ln none line lines with
        ⟨chunk, m, h1, h2, h3⟩ | ⟨h1, h2⟩
      · exact .inl ⟨chunk, m, h1, h2, h3⟩
      · exact .inr ⟨h1, by rw [h2]; rfl⟩
    · right
      have he : chunks.isEmpty = false := by simp [hn]
      refine ⟨⟨_, ln, by rw [he, parseUpdateFileChunk_missing ln lines hc]⟩, ?_⟩
      rw [PatchState.run_cons, step_fresh]
      simp only [freshLine, hb, hs, hc, hn, ite_false]
      cases allow with
      | true => simp [PatchState.run_cons, hn]
      | false => simp

theorem run_update (fuel : Nat) (lines : List Text) (hf : lines.length ≤ fuel) (parsed : Nat) :
    (∃ chunks' m, parseUpdateChunks ln allow fuel lines parsed chunks = .ok (chunks', parsed + m) ∧
      m ≤ lines.length ∧
      PatchState.run allow ⟨done, .update path movePath chunks .fresh⟩ lines =
        if chunks' = [] then none else
          PatchState.run allow ⟨done ++ [.updateFile path movePath chunks'], .closed⟩
            (lines.drop m)) ∨
    ((∃ e, parseUpdateChunks ln allow fuel lines parsed chunks = .error e) ∧
      PatchState.run allow ⟨done, .update path movePath chunks .fresh⟩ lines = none) := by
  induction fuel generalizing lines parsed chunks with
  | zero =>
    obtain rfl : lines = [] := by simpa using hf
    exact .inl ⟨chunks, 0, rfl, Nat.le_refl _, by simp [PatchState.finish]⟩
  | succ fuel ih =>
    cases lines with
    | nil => exact .inl ⟨chunks, 0, rfl, Nat.le_refl _, by simp [PatchState.finish]⟩
    | cons line lines =>
      rw [parseUpdateChunks]
      by_cases hb : trim line = []
      · rw [if_pos hb]
        have hrun : PatchState.run allow ⟨done, .update path movePath chunks .fresh⟩
            (line :: lines) =
              PatchState.run allow ⟨done, .update path movePath chunks .fresh⟩ lines := by
          rw [PatchState.run_cons, step_fresh, freshLine, if_pos hb]
          rfl
        rw [hrun]
        rcases ih chunks lines (by simpa using hf) (parsed + 1) with ⟨chunks', m, h1, h2, h3⟩ | h
        · exact .inl ⟨chunks', m + 1, by rw [h1]; congr 2; omega, by simpa using h2, by simpa using h3⟩
        · exact .inr h
      · rw [if_neg hb]
        by_cases hs : line.head? = some '*'
        · rw [if_pos hs]
          refine .inl ⟨chunks, 0, rfl, Nat.zero_le _, ?_⟩
          rw [PatchState.run_cons, step_fresh, freshLine, if_neg hb, if_pos hs]
          by_cases hn : chunks = []
          · simp [hn]
          · simp [hn, PatchState.run_cons, PatchState.step]
        · rw [if_neg hs]
          by_cases ha : allow = true ∧ line = ['@']
          · rw [if_pos ha]
            refine .inl ⟨chunks, 0, rfl, Nat.zero_le _, ?_⟩
            obtain ⟨rfl, rfl⟩ := ha
            rw [PatchState.run_cons, step_fresh, freshLine, if_neg hb, if_neg hs,
              show contextLine ['@'] = none from rfl]
            by_cases hn : chunks = []
            · simp [hn, contentLine]
            · simp [hn, PatchState.run_cons]
          · rw [if_neg ha]
            rcases run_turn allow done path movePath chunks (ln + parsed) line lines hb hs with
              ⟨chunk, n, h1, h2, h3⟩ | ⟨⟨message, k, h1⟩, h2⟩
            · rw [h1, h3]
              simp only [drop_succ_cons]
              have hlen : (lines.drop n).length ≤ fuel := by
                simp only [length_cons] at hf
                simp only [length_drop]
                omega
              rcases ih (chunks ++ [chunk]) (lines.drop n) hlen (parsed + (n + 1)) with
                ⟨chunks', m, i1, i2, i3⟩ | h
              · refine .inl ⟨chunks', n + 1 + m, by rw [i1]; congr 2; omega, ?_, ?_⟩
                · simp only [length_cons, length_drop] at i2 hf ⊢
                  omega
                · rw [i3, drop_drop, show n + 1 + m = (n + m) + 1 by omega, drop_succ_cons]
              · exact .inr h
            · rw [h1, h2]
              by_cases hn : allow = true ∧ chunks ≠ []
              · simp only [if_pos hn]
                exact .inl ⟨chunks, 0, rfl, Nat.zero_le _, by simp [hn.2]⟩
              · simp only [if_neg hn]
                exact .inr ⟨⟨_, rfl⟩, trivial⟩

end

/-! ## Hunks -/

section
variable (allow : Bool) (done : List Hunk) (ln : Nat)

theorem parseOneHunk_update {first : Text} {path : PathBuf} (rest : List Text)
    (hadd : stripPrefix ADD_FILE_MARKER (trim first) = none)
    (hdel : stripPrefix DELETE_FILE_MARKER (trim first) = none)
    (hupd : stripPrefix UPDATE_FILE_MARKER (trim first) = some path)
    {movePath : Option PathBuf} {remaining : List Text} {parsed : Nat}
    (hmove : parseMoveLine rest = (movePath, remaining, parsed)) :
    parseOneHunk first rest ln allow =
      match parseUpdateChunks ln allow remaining.length remaining parsed [] with
      | .ok (chunks, parsed) =>
        if chunks = [] then .error (.invalidHunkError (emptyUpdateMessage path) ln)
        else .ok (.updateFile path movePath chunks, parsed)
      | .error e => .error e := by
  simp only [parseOneHunk, hadd, hdel, hupd, hmove]
  cases parseUpdateChunks ln allow remaining.length remaining parsed [] <;> rfl

theorem run_header (path : PathBuf) (rest : List Text) :
    ∃ movePath k, parseMoveLine rest = (movePath, rest.drop k, k + 1) ∧ k ≤ rest.length ∧
      PatchState.run allow ⟨done, .header path⟩ rest =
        PatchState.run allow ⟨done, .update path movePath [] .fresh⟩ (rest.drop k) := by
  cases rest with
  | nil => exact ⟨none, 0, rfl, Nat.le_refl _, rfl⟩
  | cons line lines =>
    cases hm : stripPrefix MOVE_TO_MARKER line with
    | some dest =>
      refine ⟨some dest, 1, by simp [parseMoveLine, hm], by simp, ?_⟩
      simp [PatchState.run_cons, PatchState.step, hm]
    | none =>
      refine ⟨none, 0, by simp [parseMoveLine, hm], Nat.zero_le _, ?_⟩
      simp [PatchState.run_cons, PatchState.step, hm]

theorem run_one (first : Text) (rest : List Text) :
    (∃ hunk n, parseOneHunk first rest ln allow = .ok (hunk, n + 1) ∧ n ≤ rest.length ∧
      PatchState.run allow ⟨done, .closed⟩ (first :: rest) =
        PatchState.run allow ⟨done ++ [hunk], .closed⟩ (rest.drop n)) ∨
    ((∃ e, parseOneHunk first rest ln allow = .error e) ∧
      PatchState.run allow ⟨done, .closed⟩ (first :: rest) = none) := by
  rw [PatchState.run_cons, step_closed]
  cases hadd : stripPrefix ADD_FILE_MARKER (trim first) with
  | some path =>
    refine .inl ⟨.addFile path (parseAddLines rest).1, (parseAddLines rest).2, ?_,
      parseAddLines_length rest, ?_⟩
    · simp only [parseOneHunk, hadd, Nat.add_comm]
    · unfold headerLine
      rw [hadd, bind_some, run_add, nil_append]
  | none =>
    cases hdel : stripPrefix DELETE_FILE_MARKER (trim first) with
    | some path =>
      refine .inl ⟨.deleteFile path, 0, ?_, Nat.zero_le _, ?_⟩
      · simp only [parseOneHunk, hadd, hdel]
      · unfold headerLine
        rw [hadd, hdel, bind_some, drop_zero]
    | none =>
      cases hupd : stripPrefix UPDATE_FILE_MARKER (trim first) with
      | none =>
        refine .inr ⟨⟨.invalidHunkError (invalidHeaderMessage (trim first)) ln, ?_⟩, ?_⟩
        · simp only [parseOneHunk, hadd, hdel, hupd]
        · unfold headerLine
          rw [hadd, hdel, hupd, bind_none]
      | some path =>
        obtain ⟨movePath, k, hmove, hk, hrun⟩ := run_header allow done path rest
        rw [parseOneHunk_update allow ln rest hadd hdel hupd hmove]
        unfold headerLine
        rw [hadd, hdel, hupd, bind_some, hrun]
        rcases run_update allow done path movePath [] ln (rest.drop k).length (rest.drop k)
          (Nat.le_refl _) (k + 1) with ⟨chunks, m, h1, h2, h3⟩ | ⟨⟨e, h1⟩, h2⟩
        · rw [h1, h3]
          by_cases hn : chunks = []
          · simp only [if_pos hn]
            exact .inr ⟨⟨_, rfl⟩, trivial⟩
          · simp only [if_neg hn]
            refine .inl ⟨_, k + m, by congr 2; omega, ?_, by rw [drop_drop]⟩
            simp only [length_drop] at h2
            omega
        · rw [h1, h2]
          exact .inr ⟨⟨e, rfl⟩, rfl⟩

theorem parseHunks_eq_run (fuel : Nat) (lines : List Text) (hf : lines.length ≤ fuel) :
    (parseHunks allow fuel lines ln done).toOption =
      PatchState.run allow ⟨done, .closed⟩ lines := by
  induction fuel generalizing lines ln done with
  | zero =>
    obtain rfl : lines = [] := by simpa using hf
    rfl
  | succ fuel ih =>
    cases lines with
    | nil => rfl
    | cons first rest =>
      rw [parseHunks]
      rcases run_one allow done ln first rest with ⟨hunk, n, h1, h2, h3⟩ | ⟨⟨e, h1⟩, h2⟩
      · have hlen : (rest.drop n).length ≤ fuel := by
          simp only [length_cons, length_drop] at hf ⊢
          omega
        rw [h3, ← ih (done ++ [hunk]) (ln + (n + 1)) (rest.drop n) hlen, h1]
        rfl
      · rw [h1, h2]
        rfl

end

/-! ## Patch texts -/

theorem parsePatchText_eq_ok {text : Text} {mode : ParseMode} {args : ApplyPatchArgs} :
    parsePatchText text mode = .ok args ↔ ∃ patchLines hunkLines hunks,
      checkPatchBoundaries mode (lines (trim text)) = .ok (patchLines, hunkLines) ∧
      PatchState.start.run (mode = .streaming) hunkLines = some hunks ∧
      args = { patch := joinLines patchLines, hunks := hunks, workdir := none } := by
  unfold parsePatchText
  cases hb : checkPatchBoundaries mode (lines (trim text)) with
  | error e => simp [bind, Except.bind]
  | ok p =>
    obtain ⟨patchLines, hunkLines⟩ := p
    have hrun := parseHunks_eq_run (decide (mode = .streaming)) [] 2 hunkLines.length hunkLines
      (Nat.le_refl _)
    cases hp : parseHunks (decide (mode = .streaming)) hunkLines.length hunkLines 2 [] with
    | error e =>
      rw [hp] at hrun
      simp only [bind, Except.bind, hp]
      constructor
      · intro h
        simp at h
      · rintro ⟨_, _, hunks, h1, h2, -⟩
        simp only [Except.ok.injEq, Prod.mk.injEq] at h1
        obtain ⟨rfl, rfl⟩ := h1
        rw [PatchState.start, ← hrun] at h2
        simp [Except.toOption] at h2
    | ok hunks =>
      rw [hp] at hrun
      simp only [bind, Except.bind, hp]
      constructor
      · intro h
        exact ⟨patchLines, hunkLines, hunks, rfl, hrun.symm, (Except.ok.inj h).symm⟩
      · rintro ⟨_, _, hunks', h1, h2, rfl⟩
        simp only [Except.ok.injEq, Prod.mk.injEq] at h1
        obtain ⟨rfl, rfl⟩ := h1
        rw [PatchState.start, ← hrun] at h2
        obtain rfl : hunks = hunks' := by simpa [Except.toOption] using h2
        rfl

theorem checkPatchBoundariesStrict_eq_ok {ls : List Text} {p : List Text × List Text} :
    checkPatchBoundariesStrict ls = .ok p ↔ ls.head?.map trim = some BEGIN_PATCH_MARKER ∧
      ls.getLast?.map trim = some END_PATCH_MARKER ∧ p = (ls, innerLines ls) := by
  unfold checkPatchBoundariesStrict checkStartAndEndLinesStrict
  cases h1 : ls.head?.map trim with
  | none => simp [bind, Except.bind]
  | some first =>
    cases h2 : ls.getLast?.map trim with
    | none =>
      by_cases hf : first = BEGIN_PATCH_MARKER <;> simp [bind, Except.bind, hf]
    | some last =>
      by_cases hf : first = BEGIN_PATCH_MARKER
      · by_cases hl : last = END_PATCH_MARKER
        · simp [bind, Except.bind, hf, hl, eq_comm]
        · simp [bind, Except.bind, hf, hl]
      · simp [bind, Except.bind, hf]

end Codex
