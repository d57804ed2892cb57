import Codex.ApplyPatch.LineMachine

/-!
# Rendered patches parse to what was rendered

`parsePatch_renderPatch`: a patch document written out by the grammar of the parser's
header comment parses back to its hunks. The documents carry the grammar's side
conditions as fields: a content line is one that the line splitter returns
unchanged, a path is one that trimming leaves alone.
-/

namespace Codex

open Foundation List Option

structure ContentLine where
  text : Text
  isLine : IsLine text

structure PathText where
  text : Text
  ne_nil : text ≠ []
  no_newline : '\n' ∉ text
  trimmed : trim text = text

structure ChunkDoc where
  context : Option ContentLine
  oldLines : List ContentLine
  newLines : List ContentLine
  endOfFile : Bool
  ne_nil : oldLines ≠ [] ∨ newLines ≠ []

inductive HunkDoc where
  | addFile (path : PathText) (contents : List ContentLine)
  | deleteFile (path : PathText)
  | updateFile (path : PathText) (movePath : Option PathText) (chunks : List ChunkDoc)
      (ne_nil : chunks ≠ [])

def ChunkDoc.toChunk (c : ChunkDoc) : UpdateFileChunk :=
  ⟨c.context.map (·.text), c.oldLines.map (·.text), c.newLines.map (·.text), c.endOfFile⟩

def HunkDoc.toHunk : HunkDoc → Hunk
  | .addFile path contents => .addFile path.text (contents.flatMap fun l => l.text ++ ['\n'])
  | .deleteFile path => .deleteFile path.text
  | .updateFile path movePath chunks _ =>
    .updateFile path.text (movePath.map (·.text)) (chunks.map (·.toChunk))

def contextMarker : Option Text → Text
  | none => EMPTY_CHANGE_CONTEXT_MARKER
  | some context => CHANGE_CONTEXT_MARKER ++ context

def ChunkDoc.render (c : ChunkDoc) : List Text :=
  contextMarker (c.context.map (·.text)) ::
    (c.oldLines.map (fun l => '-' :: l.text) ++ c.newLines.map (fun l => '+' :: l.text) ++
      if c.endOfFile then [EOF_MARKER] else [])

def HunkDoc.render : HunkDoc → List Text
  | .addFile path contents =>
    (ADD_FILE_MARKER ++ path.text) :: contents.map fun l => '+' :: l.text
  | .deleteFile path => [DELETE_FILE_MARKER ++ path.text]
  | .updateFile path movePath chunks _ =>
    (UPDATE_FILE_MARKER ++ path.text) ::
      ((movePath.map fun dest => MOVE_TO_MARKER ++ dest.text).toList ++
        chunks.flatMap ChunkDoc.render)

def bodyOf (doc : List HunkDoc) : List Text := doc.flatMap HunkDoc.render

def renderPatch (doc : List HunkDoc) (finalNewline : Bool) : Text :=
  ((BEGIN_PATCH_MARKER :: bodyOf doc).flatMap fun l => l ++ ['\n']) ++
    (END_PATCH_MARKER ++ if finalNewline then ['\n'] else [])

/-! ## Rendered lines are lines -/

theorem IsLine.append {m t : Text} (hm : '\n' ∉ m) (ht : '\n' ∉ t) (hne : t ≠ [])
    (hr : t.getLast? ≠ some '\r') : IsLine (m ++ t) := by
  refine ⟨by simp [hm, ht], ?_⟩
  rw [List.getLast?_append, List.getLast?_eq_getLast_of_ne_nil hne]
  rw [List.getLast?_eq_getLast_of_ne_nil hne] at hr
  simpa using hr

theorem PathText.getLast (p : PathText) {c : Char} (h : p.text.getLast? = some c) :
    isWhitespace c = false := by
  rw [← p.trimmed] at h
  exact trim_getLast h

theorem isLine_marker_path {m : Text} (hm : '\n' ∉ m) (p : PathText) : IsLine (m ++ p.text) := by
  apply IsLine.append hm p.no_newline p.ne_nil
  intro h
  have := p.getLast h
  simp [isWhitespace_cr] at this

theorem isLine_cons {c : Char} (hn : c ≠ '\n') (hr : c ≠ '\r') (l : ContentLine) :
    IsLine (c :: l.text) := by
  obtain ⟨h1, h2⟩ := l.isLine
  refine ⟨by simp [h1, Ne.symm hn], ?_⟩
  rw [List.getLast?_cons]
  cases hl : l.text.getLast? with
  | none => simpa using hr
  | some d => rw [hl] at h2; simpa using h2

theorem isLine_contextMarker (context : Option ContentLine) :
    IsLine (contextMarker (context.map (·.text))) := by
  cases context with
  | none => decide
  | some l =>
    obtain ⟨h1, h2⟩ := l.isLine
    have hm : '\n' ∉ CHANGE_CONTEXT_MARKER := by decide
    by_cases hne : l.text = []
    · simp only [map_some, contextMarker, hne]
      decide
    · exact IsLine.append hm h1 hne h2

theorem ChunkDoc.isLine_render (c : ChunkDoc) : ∀ l ∈ c.render, IsLine l := by
  intro l hl
  unfold ChunkDoc.render at hl
  simp only [mem_cons, mem_append, List.mem_map] at hl
  rcases hl with rfl | (⟨t, -, rfl⟩ | ⟨t, -, rfl⟩) | hl
  · exact isLine_contextMarker c.context
  · exact isLine_cons (by decide) (by decide) t
  · exact isLine_cons (by decide) (by decide) t
  · split at hl
    · obtain rfl := mem_singleton.mp hl
      decide
    · simp at hl

theorem HunkDoc.isLine_render (h : HunkDoc) : ∀ l ∈ h.render, IsLine l := by
  intro l hl
  cases h with
  | addFile path contents =>
    simp only [HunkDoc.render, mem_cons, List.mem_map] at hl
    rcases hl with rfl | ⟨t, -, rfl⟩
    · exact isLine_marker_path (by decide) path
    · exact isLine_cons (by decide) (by decide) t
  | deleteFile path =>
    obtain rfl := mem_singleton.mp hl
    exact isLine_marker_path (by decide) path
  | updateFile path movePath chunks _ =>
    simp only [HunkDoc.render, mem_cons, mem_append, mem_toList, map_eq_some_iff, mem_flatMap] at hl
    rcases hl with rfl | ⟨dest, -, rfl⟩ | ⟨c, -, hc⟩
    · exact isLine_marker_path (by decide) path
    · exact isLine_marker_path (by decide) dest
    · exact c.isLine_render l hc

variable (doc : List HunkDoc)

theorem isLine_bodyOf : ∀ l ∈ bodyOf doc, IsLine l := by
  intro l hl
  obtain ⟨h, -, hl⟩ := mem_flatMap.mp hl
  exact h.isLine_render l hl

theorem trim_renderPatch (finalNewline : Bool) :
    trim (renderPatch doc finalNewline) = renderPatch doc false := by
  have hstart : trimStart (renderPatch doc finalNewline) = renderPatch doc finalNewline := by
    apply trimStart_eq_self
    intro c hc
    have hhead : (renderPatch doc finalNewline).head? = some '*' := rfl
    rw [hhead, Option.some.injEq] at hc
    rw [← hc]
    decide
  unfold trim
  rw [hstart]
  unfold renderPatch
  have hend : ∀ b : Bool, trimEnd (END_PATCH_MARKER ++ if b then ['\n'] else []) =
      END_PATCH_MARKER := by decide
  rw [trimEnd_append_of_ne_nil (by rw [hend]; decide), hend]
  simp

theorem lines_renderPatch (finalNewline : Bool) : lines (trim (renderPatch doc finalNewline)) =
      BEGIN_PATCH_MARKER :: (bodyOf doc ++ [END_PATCH_MARKER]) := by
  have hlines : ∀ l ∈ BEGIN_PATCH_MARKER :: bodyOf doc, IsLine l := by
    intro l hl
    rcases mem_cons.mp hl with rfl | hl
    · decide
    · exact isLine_bodyOf doc l hl
  rw [trim_renderPatch, renderPatch, lines_flatMap_newline hlines]
  have hend : lines (END_PATCH_MARKER ++ if false = true then ['\n'] else []) =
      [END_PATCH_MARKER] := by decide
  rfl

/-! ## Running the machine on rendered lines -/

/-- What may follow a hunk: nothing, or a starred line that is not the end-of-file marker. -/
def Boundary : List Text → Prop
  | [] => True
  | l :: _ => l.head? = some '*' ∧ l ≠ EOF_MARKER

theorem trim_ne_nil_of_head {l : Text} {c : Char} (h : l.head? = some c)
    (hw : isWhitespace c = false) : trim l ≠ [] := by
  intro e
  have hs : trimStart l = l := by
    apply trimStart_eq_self
    intro d hd
    rw [h, Option.some.injEq] at hd
    rw [← hd]
    exact hw
  unfold trim trimEnd at e
  rw [hs, rdropWhile_eq_nil_iff] at e
  have := e c (mem_of_mem_head? h)
  simp [hw] at this

theorem run_boundary {s : PatchState} {done : List Hunk} {rest : List Text}
    (hf : s.finish = some done) (h : Boundary rest) :
    s.run false rest = PatchState.run false ⟨done, .closed⟩ rest := by
  cases rest with
  | nil =>
    rw [PatchState.run_nil, PatchState.run_nil, hf]
    rfl
  | cons l ls =>
    obtain ⟨hl, he⟩ := h
    rw [PatchState.run_cons, PatchState.run_cons, step_closed]
    have hfresh : ∀ done path movePath chunks, chunks ≠ [] →
        freshLine false done path movePath chunks l =
          headerLine (done ++ [.updateFile path movePath chunks]) l := by
      intro done path movePath chunks hn
      rw [freshLine, if_neg (trim_ne_nil_of_head hl (by decide)), if_pos hl, if_neg hn]
    congr 1
    obtain ⟨d, cur⟩ := s
    cases cur with
    | closed =>
      obtain rfl : d = done := by simpa [PatchState.finish] using hf
      rfl
    | add path contents =>
      cases hf
      unfold PatchState.step
      dsimp only
      split
      · simp at hl
      · rfl
    | header path => simp [PatchState.finish] at hf
    | update path movePath chunks cur =>
      cases cur with
      | fresh =>
        by_cases hn : chunks = []
        · simp [PatchState.finish, hn] at hf
        · simp only [PatchState.finish, hn, ite_false, Option.some.injEq] at hf
          subst hf
          exact hfresh d path movePath chunks hn
      | started context => simp [PatchState.finish] at hf
      | lines chunk =>
        cases hf
        rw [step_lines, chunkLine, if_neg he]
        have hcontent : contentLine chunk l = none := by
          unfold contentLine
          split
          all_goals simp_all
        rw [hcontent]
        exact hfresh d path movePath (chunks ++ [chunk]) (by simp)

section
variable (done : List Hunk) (path : PathBuf)

theorem run_add_lines (contents : Text) (ls : List ContentLine) (rest : List Text) :
    PatchState.run false ⟨done, .add path contents⟩
        (ls.map (fun l => '+' :: l.text) ++ rest) =
      PatchState.run false
        ⟨done, .add path (contents ++ ls.flatMap fun l => l.text ++ ['\n'])⟩ rest := by
  induction ls generalizing contents with
  | nil => simp
  | cons l ls ih =>
    rw [map_cons, cons_append, PatchState.run_cons]
    simp only [PatchState.step, bind_some]
    rw [ih]
    simp

variable (movePath : Option PathBuf) (chunks : List UpdateFileChunk)

theorem run_old_lines (chunk : UpdateFileChunk) (ls : List ContentLine) (rest : List Text) :
    PatchState.run false ⟨done, .update path movePath chunks (.lines chunk)⟩
        (ls.map (fun l => '-' :: l.text) ++ rest) =
      PatchState.run false ⟨done, .update path movePath chunks (.lines
        { chunk with oldLines := chunk.oldLines ++ ls.map (·.text) })⟩ rest := by
  induction ls generalizing chunk with
  | nil => simp
  | cons l ls ih =>
    rw [map_cons, cons_append, PatchState.run_cons, step_lines, chunkLine,
      if_neg (cons_ne_eof _ (by decide))]
    simp only [contentLine, bind_some]
    rw [ih]
    simp

theorem run_new_lines (chunk : UpdateFileChunk) (ls : List ContentLine) (rest : List Text) :
    PatchState.run false ⟨done, .update path movePath chunks (.lines chunk)⟩
        (ls.map (fun l => '+' :: l.text) ++ rest) =
      PatchState.run false ⟨done, .update path movePath chunks (.lines
        { chunk with newLines := chunk.newLines ++ ls.map (·.text) })⟩ rest := by
  induction ls generalizing chunk with
  | nil => simp
  | cons l ls ih =>
    rw [map_cons, cons_append, PatchState.run_cons, step_lines, chunkLine,
      if_neg (cons_ne_eof _ (by decide))]
    simp only [contentLine, bind_some]
    rw [ih]
    simp

theorem contextLine_contextMarker (context : Option Text) :
    contextLine (contextMarker context) = some context := by
  cases context with
  | none => rfl
  | some t =>
    have hne : CHANGE_CONTEXT_MARKER ++ t ≠ EMPTY_CHANGE_CONTEXT_MARKER := by
      intro e
      have := congrArg List.length e
      simp [show CHANGE_CONTEXT_MARKER.length = 3 from rfl,
        show EMPTY_CHANGE_CONTEXT_MARKER.length = 2 from rfl] at this
      omega
    rfl

def ChunkState.pending : ChunkState → List UpdateFileChunk
  | .fresh => []
  | .started _ => []
  | .lines chunk => [chunk]

def ChunkState.Idle (cur : ChunkState) : Prop := ∀ context, cur ≠ .started context

theorem step_contextMarker (cur : ChunkState) (hcur : cur.Idle) (context : Option Text) :
    PatchState.step false ⟨done, .update path movePath chunks cur⟩ (contextMarker context) =
      some ⟨done, .update path movePath (chunks ++ cur.pending) (.started context)⟩ := by
  have hline := contextLine_contextMarker context
  have hat := contextLine_head hline
  have hfresh : ∀ cs, freshLine false done path movePath cs (contextMarker context) =
      some ⟨done, .update path movePath cs (.started context)⟩ := by
    intro cs
    rw [freshLine, if_neg (trim_ne_nil_of_head hat (by decide)), if_neg (by rw [hat]; decide),
      hline]
  cases cur with
  | fresh => simpa [ChunkState.pending] using hfresh chunks
  | started c => exact absurd rfl (hcur c)
  | lines chunk =>
    have he : contextMarker context ≠ EOF_MARKER := by
      intro e
      rw [e] at hat
      exact absurd hat (by decide)
    have hcontent : contentLine chunk (contextMarker context) = none := by
      unfold contentLine
      split
      all_goals simp_all
    rw [step_lines, chunkLine, if_neg he, hcontent]
    exact hfresh (chunks ++ [chunk])

theorem run_started (context : Option Text) {l : Text} {ls : List Text} (he : l ≠ EOF_MARKER)
    (hc : contentLine (.empty context) l ≠ none) :
    PatchState.run false ⟨done, .update path movePath chunks (.started context)⟩ (l :: ls) =
      PatchState.run false ⟨done, .update path movePath chunks (.lines (.empty context))⟩
        (l :: ls) := by
  rw [PatchState.run_cons, PatchState.run_cons, step_started, step_lines, startedLine, chunkLine,
    if_neg he, if_neg he]
  cases hcl : contentLine (.empty context) l with
  | none => exact absurd hcl hc
  | some chunk => rfl

theorem run_chunk_render (c : ChunkDoc) (cur : ChunkState) (hcur : cur.Idle) (rest : List Text) :
    ∃ (cs : List UpdateFileChunk) (cur' : ChunkState), cur'.Idle ∧
      cs ++ cur'.pending = chunks ++ cur.pending ++ [c.toChunk] ∧
      PatchState.run false ⟨done, .update path movePath chunks cur⟩ (c.render ++ rest) =
        PatchState.run false ⟨done, .update path movePath cs cur'⟩ rest := by
  have hcontent : PatchState.run false ⟨done, .update path movePath chunks cur⟩ (c.render ++ rest) =
      PatchState.run false ⟨done, .update path movePath (chunks ++ cur.pending) (.lines
        { c.toChunk with isEndOfFile := false })⟩
          ((if c.endOfFile then [EOF_MARKER] else []) ++ rest) := by
    have hempty : ∀ L : List Text, PatchState.run false ⟨done, .update path movePath
        (chunks ++ cur.pending) (.started (c.context.map (·.text)))⟩
          (c.oldLines.map (fun l => '-' :: l.text) ++ (c.newLines.map (fun l => '+' :: l.text) ++ L)) =
        PatchState.run false ⟨done, .update path movePath
          (chunks ++ cur.pending) (.lines (.empty (c.context.map (·.text))))⟩
          (c.oldLines.map (fun l => '-' :: l.text) ++
            (c.newLines.map (fun l => '+' :: l.text) ++ L)) := by
      intro L
      cases hold : c.oldLines with
      | cons l ls =>
        exact run_started done path movePath _ _ (cons_ne_eof _ (by decide)) (by simp [contentLine])
      | nil =>
        cases hnew : c.newLines with
        | cons l ls =>
          exact run_started done path movePath _ _ (cons_ne_eof _ (by decide))
            (by simp [contentLine])
        | nil => simpa [hold, hnew] using c.ne_nil
    unfold ChunkDoc.render
    rw [cons_append, PatchState.run_cons, step_contextMarker _ _ _ _ _ hcur,
      bind_some, List.append_assoc, List.append_assoc, hempty, run_old_lines, run_new_lines]
    rfl
  rw [hcontent]
  by_cases heof : c.endOfFile = true
  · refine ⟨chunks ++ cur.pending ++ [c.toChunk], .fresh, by simp [ChunkState.Idle],
      by simp [ChunkState.pending], ?_⟩
    rw [if_pos heof, cons_append, nil_append, PatchState.run_cons, step_lines, chunkLine,
      if_pos rfl]
    simp [ChunkDoc.toChunk, heof]
  · refine ⟨chunks ++ cur.pending, .lines c.toChunk, by simp [ChunkState.Idle],
      by simp [ChunkState.pending], ?_⟩
    simp [ChunkDoc.toChunk, heof]

theorem run_chunks_render (docs : List ChunkDoc) (cur : ChunkState) (hcur : cur.Idle)
    (rest : List Text) : ∃ (cs : List UpdateFileChunk) (cur' : ChunkState), cur'.Idle ∧
      cs ++ cur'.pending = chunks ++ cur.pending ++ docs.map (·.toChunk) ∧
      PatchState.run false ⟨done, .update path movePath chunks cur⟩
          (docs.flatMap ChunkDoc.render ++ rest) =
        PatchState.run false ⟨done, .update path movePath cs cur'⟩ rest := by
  induction docs generalizing chunks cur with
  | nil => exact ⟨chunks, cur, hcur, by simp, rfl⟩
  | cons c docs ih =>
    obtain ⟨cs, cur', h1, h2, h3⟩ := run_chunk_render done path movePath chunks c cur hcur
      (docs.flatMap ChunkDoc.render ++ rest)
    obtain ⟨cs', cur'', g1, g2, g3⟩ := ih cs cur' h1
    refine ⟨cs', cur'', g1, by rw [g2, h2]; simp, ?_⟩
    rw [flatMap_cons, List.append_assoc, h3, g3]

theorem finish_update (cur : ChunkState) (hcur : cur.Idle) (hne : chunks ++ cur.pending ≠ []) :
    PatchState.finish ⟨done, .update path movePath chunks cur⟩ =
      some (done ++ [.updateFile path movePath (chunks ++ cur.pending)]) := by
  cases cur with
  | fresh =>
    rw [ChunkState.pending, append_nil] at hne ⊢
    simp [PatchState.finish, hne]
  | started c => exact absurd rfl (hcur c)
  | lines chunk => rfl

end

/-! ## Whole documents -/

theorem trim_marker_path {m : Text} (hm : m.head? = some '*') (p : PathText) :
    trim (m ++ p.text) = m ++ p.text := by
  apply trim_eq_self
  · intro c hc
    rw [List.head?_append, hm] at hc
    obtain rfl : '*' = c := by simpa using hc
    decide
  · intro c hc
    rw [List.getLast?_append] at hc
    cases hl : p.text.getLast? with
    | none => exact absurd (List.getLast?_eq_none_iff.mp hl) p.ne_nil
    | some d =>
      rw [hl] at hc
      obtain rfl : d = c := by simpa using hc
      exact p.getLast hl

theorem boundary_render (h : HunkDoc) (rest : List Text) : Boundary (h.render ++ rest) := by
  have hne : ∀ (m : Text) (p : PathText), stripPrefix m EOF_MARKER = none →
      m ++ p.text ≠ EOF_MARKER := by
    intro m p hm e
    rw [← e, stripPrefix_append] at hm
    simp at hm
  cases h with
  | addFile path contents | deleteFile path
  | updateFile path movePath chunks _ => exact ⟨rfl, hne _ path (by decide)⟩

theorem run_hunk_render (h : HunkDoc) (done : List Hunk) (rest : List Text) :
    ∃ s : PatchState, s.finish = some (done ++ [h.toHunk]) ∧
      PatchState.run false ⟨done, .closed⟩ (h.render ++ rest) = s.run false rest := by
  cases h with
  | addFile path contents =>
    refine ⟨⟨done, .add path.text ([] ++ contents.flatMap fun l => l.text ++ ['\n'])⟩, rfl, ?_⟩
    rw [HunkDoc.render, cons_append, PatchState.run_cons, step_closed, headerLine,
      trim_marker_path rfl, stripPrefix_append]
    exact run_add_lines done path.text [] contents rest
  | deleteFile path =>
    refine ⟨⟨done ++ [.deleteFile path.text], .closed⟩, rfl, ?_⟩
    rw [HunkDoc.render, cons_append, PatchState.run_cons, step_closed, headerLine,
      trim_marker_path rfl, stripPrefix_append]
    rfl
  | updateFile path movePath chunks hne =>
    obtain ⟨cs, cur, h1, h2, h3⟩ := run_chunks_render done path.text (movePath.map (·.text)) []
      chunks .fresh (by simp [ChunkState.Idle]) rest
    have hcs : cs ++ cur.pending = chunks.map (·.toChunk) := by
      simpa [ChunkState.pending] using h2
    refine ⟨⟨done, .update path.text (movePath.map (·.text)) cs cur⟩, ?_, ?_⟩
    · rw [finish_update _ _ _ _ _ h1 (by rw [hcs]; simpa using hne), hcs]
      rfl
    · rw [← h3, HunkDoc.render, cons_append, PatchState.run_cons, step_closed, headerLine,
        trim_marker_path rfl, stripPrefix_append]
      cases movePath with
      | some dest =>
        simp only [map_some, toList_some, cons_append, nil_append]
        rfl
      | none =>
        cases chunks with
        | nil => exact absurd rfl hne
        | cons c chunks =>
          simp only [map_none, toList_none, nil_append, flatMap_cons, ChunkDoc.render, cons_append]
          show PatchState.run false ⟨done, .header path.text⟩ _ = _
          rw [PatchState.run_cons, PatchState.run_cons, PatchState.step]
          have hm : stripPrefix MOVE_TO_MARKER (contextMarker (c.context.map (·.text))) = none := by
            cases c.context <;> rfl
          simp only [hm]
          rfl

theorem run_bodyOf (s : PatchState) (done : List Hunk) (hf : s.finish = some done) :
    s.run false (bodyOf doc) = some (done ++ doc.map (·.toHunk)) := by
  induction doc generalizing s done with
  | nil =>
    rw [map_nil, append_nil]
    exact hf
  | cons h doc ih =>
    rw [bodyOf, flatMap_cons, run_boundary hf (boundary_render h _)]
    obtain ⟨s', h1, h2⟩ := run_hunk_render h done (doc.flatMap HunkDoc.render)
    rw [h2]
    have := ih s' (done ++ [h.toHunk]) h1
    rw [bodyOf] at this
    simpa using this

/-- Parsing a rendered patch gives back its hunks, in order. -/
theorem parsePatch_renderPatch (doc : List HunkDoc) (finalNewline : Bool) :
    parsePatch (renderPatch doc finalNewline) = .ok
      { patch := joinLines (BEGIN_PATCH_MARKER :: (bodyOf doc ++ [END_PATCH_MARKER]))
        hunks := doc.map (·.toHunk)
        workdir := none } := by
  have hinner : innerLines (BEGIN_PATCH_MARKER :: (bodyOf doc ++ [END_PATCH_MARKER])) =
      bodyOf doc := by
    simp [innerLines]
  have hbounds : checkPatchBoundaries .lenient (lines (trim (renderPatch doc finalNewline))) =
      .ok (BEGIN_PATCH_MARKER :: (bodyOf doc ++ [END_PATCH_MARKER]), bodyOf doc) := by
    have hstrict : checkPatchBoundariesStrict
        (BEGIN_PATCH_MARKER :: (bodyOf doc ++ [END_PATCH_MARKER])) =
          .ok (BEGIN_PATCH_MARKER :: (bodyOf doc ++ [END_PATCH_MARKER]), bodyOf doc) := by
      rw [checkPatchBoundariesStrict_eq_ok, hinner]
      refine ⟨rfl, ?_, rfl⟩
      rw [← cons_append, List.getLast?_concat]
      decide
    rw [lines_renderPatch, checkPatchBoundaries, checkPatchBoundariesLenient, hstrict]
  refine parsePatchText_eq_ok.mpr ⟨_, _, doc.map (·.toHunk), hbounds, ?_, rfl⟩
  have hrun := run_bodyOf doc .start [] rfl
  rwa [nil_append] at hrun

end Codex
