import Codex.ApplyPatch.LineMachine

/-!
# Streaming parses of a growing patch

`parsePatchStreaming_consistent`: the streaming parser agrees with the parser on
what that one accepts, and a longer prefix of the text never revises a hunk that
a shorter prefix had completed. A prefix may end inside a line; only the last
line of its trimmed text changes when the text grows, and of the machine's state
only the open hunk depends on it.
-/

namespace Codex

open Foundation List Option

/-! ## What a run keeps -/

variable {s : PatchState} {hunks : List Hunk} {allow : Bool} {line : Text}

theorem finish_spec (h : s.finish = some hunks) :
    s.done <+: hunks ∧ hunks.dropLast <+: s.done ∧ hunks.length = s.count := by
  obtain ⟨done, cur⟩ := s
  have key : ∀ hunk : Hunk, done <+: done ++ [hunk] ∧ (done ++ [hunk]).dropLast <+: done := by
    intro hunk
    exact ⟨prefix_append _ _, [], by rw [append_nil, dropLast_concat]⟩
  cases cur with
  | closed =>
    obtain rfl : done = hunks := by simpa [PatchState.finish] using h
    exact ⟨prefix_rfl, dropLast_prefix _, by simp [PatchState.count]⟩
  | add path contents =>
    cases h
    exact ⟨(key _).1, (key _).2, by simp [PatchState.count]⟩
  | header path => simp [PatchState.finish] at h
  | update path movePath chunks cur =>
    cases cur with
    | fresh =>
      by_cases hn : chunks = []
      · simp [PatchState.finish, hn] at h
      · simp only [PatchState.finish, hn, ite_false, Option.some.injEq] at h
        subst h
        exact ⟨(key _).1, (key _).2, by simp [PatchState.count]⟩
    | started context => simp [PatchState.finish] at h
    | lines chunk =>
      cases h
      exact ⟨(key _).1, (key _).2, by simp [PatchState.count]⟩

def Grows (s s' : PatchState) : Prop := s.done <+: s'.done ∧ s.count ≤ s'.count

theorem step_cases {s' : PatchState} (h : s.step allow line = some s') :
    (s'.done = s.done ∧ s'.count = s.count) ∨
      ∃ hunks, s.finish = some hunks ∧ headerLine hunks line = some s' := by
  have hfresh : ∀ done path movePath chunks,
      freshLine allow done path movePath chunks line = some s' →
        (s'.done = done ∧ s'.count = done.length + 1) ∨
          (chunks ≠ [] ∧ headerLine (done ++ [.updateFile path movePath chunks]) line = some s') := by
    intro done path movePath chunks h
    unfold freshLine at h
    by_cases hb : trim line = []
    · rw [if_pos hb] at h
      cases h
      exact .inl ⟨rfl, rfl⟩
    · rw [if_neg hb] at h
      by_cases hn : chunks = []
      · left
        split at h
        · simp at h
        · split at h
          · cases h
            exact ⟨rfl, rfl⟩
          · obtain ⟨chunk, -, rfl⟩ := map_eq_some_iff.mp h
            exact ⟨rfl, rfl⟩
      · simp only [hn, ite_false] at h
        split at h
        · exact .inr ⟨hn, h⟩
        · split at h
          · cases h
            exact .inl ⟨rfl, rfl⟩
          · split at h
            · exact .inr ⟨hn, h⟩
            · simp at h
  obtain ⟨done, cur⟩ := s
  cases cur with
  | closed => exact .inr ⟨done, rfl, h⟩
  | add path contents =>
    unfold PatchState.step at h
    dsimp only at h
    split at h
    · cases h
      exact .inl ⟨rfl, rfl⟩
    · exact .inr ⟨_, rfl, h⟩
  | header path =>
    unfold PatchState.step at h
    dsimp only at h
    left
    split at h
    · cases h
      exact ⟨rfl, rfl⟩
    · rcases hfresh _ _ _ _ h with h | ⟨hn, -⟩
      · exact h
      · exact absurd rfl hn
  | update path movePath chunks cur =>
    cases cur with
    | fresh =>
      rcases hfresh _ _ _ _ h with h | ⟨hn, h⟩
      · exact .inl h
      · exact .inr ⟨_, by simp [PatchState.finish, hn], h⟩
    | started context =>
      rw [step_started, startedLine] at h
      left
      split at h
      · simp at h
      · obtain ⟨chunk, -, rfl⟩ := map_eq_some_iff.mp h
        exact ⟨rfl, rfl⟩
    | lines chunk =>
      rw [step_lines, chunkLine] at h
      split at h
      · cases h
        exact .inl ⟨rfl, rfl⟩
      · split at h
        · cases h
          exact .inl ⟨rfl, rfl⟩
        · rcases hfresh _ _ _ _ h with h | ⟨-, h⟩
          · exact .inl h
          · exact .inr ⟨_, rfl, h⟩

theorem headerLine_spec {done : List Hunk} (h : headerLine done line = some s) :
    IsHeader line ∧ done <+: s.done ∧ s.count = done.length + 1 ∧
      ∀ hunks, s.finish = some hunks → hunks.dropLast = done := by
  unfold headerLine at h
  split at h
  · rename_i path hp
    cases h
    refine ⟨.inl ⟨path, (stripPrefix_eq_some.mp hp).symm⟩, prefix_rfl, rfl, ?_⟩
    intro hunks hf
    cases hf
    exact dropLast_concat
  · split at h
    · rename_i path hp
      cases h
      refine ⟨.inr (.inl ⟨path, (stripPrefix_eq_some.mp hp).symm⟩), prefix_append _ _,
        by simp [PatchState.count], ?_⟩
      intro hunks hf
      cases hf
      exact dropLast_concat
    · split at h
      · rename_i path hp
        cases h
        refine ⟨.inr (.inr ⟨path, (stripPrefix_eq_some.mp hp).symm⟩), prefix_rfl, rfl, ?_⟩
        intro hunks hf
        simp [PatchState.finish] at hf
      · simp at h

theorem step_grows {s' : PatchState} (h : s.step allow line = some s') : Grows s s' := by
  rcases step_cases h with ⟨hd, hc⟩ | ⟨hunks, hf, hh⟩
  · exact ⟨hd ▸ prefix_rfl, Nat.le_of_eq hc.symm⟩
  · obtain ⟨h1, -, h3⟩ := finish_spec hf
    obtain ⟨-, g1, g2, -⟩ := headerLine_spec hh
    exact ⟨h1.trans g1, by omega⟩

theorem run_grows {lines : List Text} (h : s.run allow lines = some hunks) :
    s.done <+: hunks ∧ s.count ≤ hunks.length := by
  induction lines generalizing s with
  | nil =>
    obtain ⟨h1, -, h3⟩ := finish_spec h
    exact ⟨h1, Nat.le_of_eq h3.symm⟩
  | cons line lines ih =>
    obtain ⟨s', hs, hr⟩ := bind_eq_some_iff.mp h
    have hg := step_grows hs
    obtain ⟨h1, h2⟩ := ih hr
    exact ⟨hg.1.trans h1, hg.2.trans h2⟩

theorem run_append (s : PatchState) (A B : List Text) (h : s.run allow (A ++ B) = some hunks) :
    ∃ s' : PatchState, s'.run allow B = some hunks ∧
      ∀ C, s.run allow (A ++ C) = s'.run allow C := by
  induction A generalizing s with
  | nil => exact ⟨s, h, fun _ => rfl⟩
  | cons line A ih =>
    obtain ⟨t, ht, hr⟩ := bind_eq_some_iff.mp h
    obtain ⟨s', h1, h2⟩ := ih t hr
    refine ⟨s', h1, fun C => ?_⟩
    rw [cons_append, PatchState.run_cons, ht, bind_some, h2]

/-! ## Header lines that grow -/

section
variable (h : IsHeader line)
include h

theorem IsHeader.trim_ne_nil : trim line ≠ [] := by
  intro e
  have := h.trim_head
  simp [e] at this

theorem IsHeader.of_isPrefix {line' : Text} (hp : trim line <+: trim line') : IsHeader line' := by
  rcases h with h | h | h
  · exact .inl (h.trans hp)
  · exact .inr (.inl (h.trans hp))
  · exact .inr (.inr (h.trans hp))

theorem IsHeader.append (y : Text) : IsHeader (line ++ y) :=
  h.of_isPrefix (trim_append line y h.trim_ne_nil)

theorem IsHeader.head_append (y : Text) : (line ++ y).head? = line.head? := by
  obtain ⟨c, hc, -⟩ := h.head
  rw [List.head?_append, hc]
  rfl

end

section
variable (done : List Hunk) (path : PathBuf) (movePath : Option PathBuf)
  (chunks : List UpdateFileChunk) {line : Text}

theorem freshLine_header (hn : chunks ≠ []) (h : IsHeader line) :
    freshLine true done path movePath chunks line =
      headerLine (done ++ [.updateFile path movePath chunks]) line := by
  unfold freshLine
  rw [if_neg h.trim_ne_nil]
  by_cases hs : line.head? = some '*'
  · rw [if_pos hs, if_neg hn]
  · have hc : contextLine line = none := by
      cases hc : contextLine line with
      | none => rfl
      | some context => exact absurd (contextLine_head hc) (h.head_ne (by decide) (by decide))
    rw [if_neg hs, hc]
    simp [hn]

theorem chunkLine_header (chunk : UpdateFileChunk) (h : IsHeader line)
    (hs : line.head? ≠ some ' ') : chunkLine true done path movePath chunks chunk line =
      headerLine (done ++ [.updateFile path movePath (chunks ++ [chunk])]) line := by
  have he : line ≠ EOF_MARKER := by
    rintro rfl
    revert h
    decide
  have hcontent : contentLine chunk line = none := by
    unfold contentLine
    split
    · exact absurd h (by decide)
    · exact absurd rfl hs
    · exact absurd rfl (h.head_ne (c := '+') (by decide) (by decide))
    · exact absurd rfl (h.head_ne (c := '-') (by decide) (by decide))
    · rfl
  rw [chunkLine, if_neg he, hcontent]
  exact freshLine_header done path movePath (chunks ++ [chunk]) (by simp) h

end

theorem step_header {s s' : PatchState} {line : Text} (h : IsHeader line)
    (hstep : s.step true line = some s') : (s'.done = s.done ∧ s'.count = s.count) ∨
      ∃ hunks, s.finish = some hunks ∧ headerLine hunks line = some s' ∧
        ∀ y, s.step true (line ++ y) = headerLine hunks (line ++ y) := by
  rcases step_cases hstep with hkeep | ⟨hunks, hf, hh⟩
  · exact .inl hkeep
  obtain ⟨done, cur⟩ := s
  cases cur with
  | closed =>
    obtain rfl : done = hunks := by simpa [PatchState.finish] using hf
    exact .inr ⟨done, rfl, hh, fun y => rfl⟩
  | add path contents =>
    right
    cases hf
    refine ⟨_, rfl, hh, fun y => ?_⟩
    unfold PatchState.step
    dsimp only
    split
    · rename_i heq
      exact absurd (by rw [heq]; rfl) ((h.append y).head_ne (c := '+') (by decide) (by decide))
    · rfl
  | header path => simp [PatchState.finish] at hf
  | update path movePath chunks cur =>
    cases cur with
    | fresh =>
      right
      by_cases hn : chunks = []
      · simp [PatchState.finish, hn] at hf
      · simp only [PatchState.finish, hn, ite_false, Option.some.injEq] at hf
        subst hf
        refine ⟨_, by simp [PatchState.finish, hn], hh, fun y => ?_⟩
        exact freshLine_header done path movePath chunks hn (h.append y)
    | started context => simp [PatchState.finish] at hf
    | lines chunk =>
      cases hf
      by_cases hs : line.head? = some ' '
      · -- an indented header is a context line of the open chunk
        left
        cases line with
        | nil => simp at hs
        | cons c text =>
          simp only [List.head?_cons, Option.some.injEq] at hs
          subst hs
          cases hstep
          exact ⟨rfl, rfl⟩
      · refine .inr ⟨_, rfl, hh, fun y => ?_⟩
        exact chunkLine_header done path movePath chunks chunk (h.append y)
          (by rw [h.head_append y]; exact hs)

/-! ## Leaving the strict mode -/

theorem step_mono {s s' : PatchState} {line : Text} (h : s.step false line = some s') :
    s.step true line = some s' := by
  have hfresh : ∀ done path movePath chunks,
      freshLine false done path movePath chunks line = some s' →
        freshLine true done path movePath chunks line = some s' := by
    intro done path movePath chunks h
    unfold freshLine at h ⊢
    by_cases hb : trim line = []
    · rw [if_pos hb] at h ⊢
      exact h
    · rw [if_neg hb] at h ⊢
      by_cases hs : line.head? = some '*'
      · rw [if_pos hs] at h ⊢
        exact h
      · rw [if_neg hs] at h ⊢
        cases hc : contextLine line with
        | some context => simpa only [hc] using h
        | none =>
          simp only [hc] at h ⊢
          by_cases hn : chunks = []
          · rw [if_pos hn] at h ⊢
            exact h
          · simp [hn] at h
  obtain ⟨done, cur⟩ := s
  cases cur with
  | closed | add path contents => exact h
  | header path =>
    unfold PatchState.step at h ⊢
    cases hm : stripPrefix MOVE_TO_MARKER line with
    | some dest => simpa only [hm] using h
    | none =>
      simp only [hm] at h ⊢
      exact hfresh _ _ _ _ h
  | update path movePath chunks cur =>
    cases cur with
    | fresh => exact hfresh _ _ _ _ h
    | started context => exact h
    | lines chunk =>
      rw [step_lines, chunkLine] at h ⊢
      by_cases he : line = EOF_MARKER
      · rw [if_pos he] at h ⊢
        exact h
      · rw [if_neg he] at h ⊢
        cases hc : contentLine chunk line with
        | some chunk => simpa only [hc] using h
        | none =>
          simp only [hc] at h ⊢
          exact hfresh _ _ _ _ h

theorem run_mono {s : PatchState} {lines : List Text} {hunks : List Hunk}
    (h : s.run false lines = some hunks) : s.run true lines = some hunks := by
  induction lines generalizing s with
  | nil => exact h
  | cons line lines ih =>
    rw [PatchState.run_cons] at h ⊢
    obtain ⟨s', hs, hr⟩ := bind_eq_some_iff.mp h
    rw [step_mono hs]
    exact ih hr

/-! ## Patch texts -/

def bodyLines (ls : List Text) : List Text :=
  if ls.getLast?.map trim = some END_PATCH_MARKER then innerLines ls else ls.tail

theorem checkPatchBoundariesStreaming_eq_ok {ls : List Text} {p : List Text × List Text} :
    checkPatchBoundariesStreaming ls = .ok p ↔ ls.head?.map trim = some BEGIN_PATCH_MARKER ∧
      p = (ls, bodyLines ls) := by
  cases ls with
  | nil =>
    rw [checkPatchBoundariesStreaming, checkPatchBoundariesStrict_eq_ok]
    simp
  | cons first rest =>
    rw [checkPatchBoundariesStreaming]
    by_cases hf : trim first = BEGIN_PATCH_MARKER
    · rw [if_pos hf, bodyLines]
      split
      · simp [hf, eq_comm]
      · simp [hf, eq_comm]
    · rw [if_neg hf, checkPatchBoundariesStrict_eq_ok]
      simp [hf]

theorem checkPatchBoundariesLenient_of_begin {ls : List Text} {p : List Text × List Text}
    (hb : ls.head?.map trim = some BEGIN_PATCH_MARKER)
    (h : checkPatchBoundariesLenient ls = .ok p) : checkPatchBoundariesStrict ls = .ok p := by
  unfold checkPatchBoundariesLenient at h
  split at h
  · rename_i q hq
    rw [hq, h]
  · split at h
    · rename_i first _ _ _ _ _
      split at h
      · rename_i hc
        have hne : ∀ f ∈ heredocOpeners, trim f ≠ BEGIN_PATCH_MARKER := by decide
        exact absurd (by simpa using hb) (hne first hc.1)
      · simp at h
    · simp at h

theorem parsePatchStreaming_spec {text : Text} {args : ApplyPatchArgs}
    (h : parsePatchStreaming text = .ok args) :
    (lines (trim text)).head?.map trim = some BEGIN_PATCH_MARKER ∧
      PatchState.start.run true (bodyLines (lines (trim text))) = some args.hunks := by
  obtain ⟨patchLines, hunkLines, hunks, hb, hr, rfl⟩ := parsePatchText_eq_ok.mp h
  obtain ⟨hbegin, hp⟩ := checkPatchBoundariesStreaming_eq_ok.mp hb
  obtain ⟨rfl, rfl⟩ := Prod.mk.inj hp
  exact ⟨hbegin, hr⟩

/-! ## Two prefixes of one text -/

theorem lines_trim_append {p q : Text} (hpq : p <+: q) (hp : lines (trim p) ≠ []) :
    ∃ A x y B, lines (trim p) = A ++ [x] ∧ lines (trim q) = A ++ (x ++ y) :: B := by
  have ht : trim p ≠ [] := by
    intro e
    exact hp (by rw [e]; rfl)
  obtain ⟨v, rfl⟩ := hpq
  obtain ⟨u, hu⟩ := trim_append p v ht
  have hlast : ∀ c, isWhitespace c = true → (trim p).getLast? ≠ some c := by
    intro c hc e
    simp [trim_getLast e] at hc
  obtain ⟨A, x, y, B, h1, -, h3⟩ :=
    lines_append u ht (hlast _ isWhitespace_newline) (hlast _ isWhitespace_cr)
  exact ⟨A, x, y, B, h1, by rw [← hu, h3]⟩

theorem bodyLines_append (a : Text) (A : List Text) (l : Text) (B : List Text) :
    (trim l = END_PATCH_MARKER ∧ bodyLines (a :: A ++ l :: B) = A) ∨
      ∃ B', bodyLines (a :: A ++ l :: B) = A ++ l :: B' ∧ B'.length ≤ B.length := by
  have hlast : (a :: A ++ l :: B).getLast? = (l :: B).getLast? := by
    rw [List.getLast?_append, List.getLast?_cons]
    rfl
  unfold bodyLines innerLines
  rw [hlast]
  cases B with
  | nil =>
    by_cases he : trim l = END_PATCH_MARKER
    · exact .inl ⟨he, by simp [he]⟩
    · exact .inr ⟨[], by simp [he], Nat.le_refl _⟩
  | cons b B =>
    right
    split
    · exact ⟨(b :: B).dropLast, by simp [dropLast_append_of_ne_nil], by simp⟩
    · exact ⟨b :: B, rfl, Nat.le_refl _⟩

theorem run_last_grows {s : PatchState} {x y : Text} {hp hq : List Hunk}
    (h : s.run true [x] = some hp) (hC : (trim (x ++ y) = END_PATCH_MARKER ∧ s.finish = some hq) ∨
      ∃ B, s.run true ((x ++ y) :: B) = some hq) : hp.length ≤ hq.length ∧ hp.dropLast <+: hq := by
  obtain ⟨s', hs, hf⟩ := bind_eq_some_iff.mp h
  obtain ⟨-, hdrop, hlen⟩ := finish_spec hf
  have hgrow : s.done <+: hq ∧ s.count ≤ hq.length := by
    rcases hC with ⟨-, hC⟩ | ⟨B, hC⟩
    · have hrun : s.run true [] = some hq := hC
      exact run_grows hrun
    · exact run_grows hC
  by_cases hkeep : s'.done = s.done ∧ s'.count = s.count
  · refine ⟨by omega, ?_⟩
    rw [hkeep.1] at hdrop
    exact hdrop.trans hgrow.1
  · have hheader : IsHeader x := by
      rcases step_cases hs with hk | ⟨hunks, -, hh⟩
      · exact absurd hk hkeep
      · exact (headerLine_spec hh).1
    rcases step_header hheader hs with hk | ⟨hunks, -, hh, hy⟩
    · exact absurd hk hkeep
    · obtain ⟨-, -, hcount, hlast⟩ := headerLine_spec hh
      rcases hC with ⟨he, -⟩ | ⟨B, hC⟩
      · -- a header cannot grow into the end marker
        have hend : IsHeader END_PATCH_MARKER := (hheader.append y).of_isPrefix (by rw [he]; decide)
        exact absurd hend (by decide)
      · rw [PatchState.run_cons, hy] at hC
        obtain ⟨t, ht, hr⟩ := bind_eq_some_iff.mp hC
        obtain ⟨-, g1, g2, -⟩ := headerLine_spec ht
        obtain ⟨r1, r2⟩ := run_grows hr
        refine ⟨by omega, ?_⟩
        rw [hlast hp hf]
        exact g1.trans r1

theorem streaming_prefix {p q : Text} (hpq : p <+: q) {a b : ApplyPatchArgs}
    (ha : parsePatchStreaming p = .ok a) (hb : parsePatchStreaming q = .ok b) :
    a.hunks.length ≤ b.hunks.length ∧ a.hunks.dropLast <+: b.hunks := by
  obtain ⟨hbegin, hrp⟩ := parsePatchStreaming_spec ha
  obtain ⟨-, hrq⟩ := parsePatchStreaming_spec hb
  have hne : lines (trim p) ≠ [] := by
    intro e
    simp [e] at hbegin
  obtain ⟨A, x, y, B, hp, hq⟩ := lines_trim_append hpq hne
  rw [hp] at hbegin hrp
  rw [hq] at hrq
  cases A with
  | nil =>
    -- only the begin marker has come in
    have hbody : bodyLines ([] ++ [x]) = [] := by
      unfold bodyLines
      split <;> rfl
    rw [hbody] at hrp
    have : a.hunks = [] := (Option.some.inj hrp).symm
    simp [this]
  | cons l A =>
    rcases bodyLines_append l A x [] with ⟨-, hbp⟩ | ⟨B', hbp, hB'⟩
    · rw [hbp] at hrp
      have key : ∀ C, PatchState.start.run true (A ++ C) = some b.hunks →
          a.hunks.length ≤ b.hunks.length ∧ a.hunks.dropLast <+: b.hunks := by
        intro C hC
        obtain ⟨s, hs, hall⟩ := run_append _ A C hC
        have hf : s.finish = some a.hunks := by
          rw [← hrp]
          simpa using (hall []).symm
        obtain ⟨-, h2, h3⟩ := finish_spec hf
        obtain ⟨g1, g2⟩ := run_grows hs
        exact ⟨by omega, h2.trans g1⟩
      rcases bodyLines_append l A (x ++ y) B with ⟨-, hbq⟩ | ⟨C, hbq, -⟩
      · exact key [] (by rw [append_nil, ← hbq]; exact hrq)
      · exact key _ (by rw [← hbq]; exact hrq)
    · obtain rfl : B' = [] := by simpa using hB'
      rw [hbp] at hrp
      rcases bodyLines_append l A (x ++ y) B with ⟨he, hbq⟩ | ⟨C, hbq, -⟩
      · rw [hbq] at hrq
        obtain ⟨s, hs, hall⟩ := run_append _ A [x] hrp
        have hf : s.finish = some b.hunks := by
          rw [← hrq]
          simpa using (hall []).symm
        exact run_last_grows hs (.inl ⟨he, hf⟩)
      · rw [hbq] at hrq
        obtain ⟨s, hs, hall⟩ := run_append _ A [x] hrp
        exact run_last_grows hs (.inr ⟨C, by rw [← hall]; exact hrq⟩)

theorem streaming_of_parsePatch {text : Text} {args : ApplyPatchArgs}
    (hbegin : (lines (trim text)).head?.map trim = some BEGIN_PATCH_MARKER)
    (h : parsePatch text = .ok args) : parsePatchStreaming text = .ok args := by
  obtain ⟨patchLines, hunkLines, hunks, hb, hr, rfl⟩ := parsePatchText_eq_ok.mp h
  obtain ⟨-, hlast, hp⟩ :=
    checkPatchBoundariesStrict_eq_ok.mp (checkPatchBoundariesLenient_of_begin hbegin hb)
  obtain ⟨rfl, rfl⟩ := Prod.mk.inj hp
  refine parsePatchText_eq_ok.mpr ⟨_, _, hunks, ?_, run_mono hr, rfl⟩
  refine checkPatchBoundariesStreaming_eq_ok.mpr ⟨hbegin, ?_⟩
  rw [bodyLines, if_pos hlast]

/-- The streaming parser returns what the parser returns on every text it accepts
behind a begin marker, and along the prefixes of a text it only ever adds hunks:
all but the last one stay as they are. -/
theorem parsePatchStreaming_consistent (text : Text) :
    (∀ args, (lines (trim text)).head?.map trim = some BEGIN_PATCH_MARKER →
      parsePatch text = .ok args →
        ∃ args', parsePatchStreaming text = .ok args' ∧ args'.hunks = args.hunks) ∧
    (∀ p q, p <+: q → q <+: text → ∀ a b, parsePatchStreaming p = .ok a →
      parsePatchStreaming q = .ok b →
        a.hunks.length ≤ b.hunks.length ∧ a.hunks.dropLast <+: b.hunks) := by
  constructor
  · intro args hbegin h
    exact ⟨args, streaming_of_parsePatch hbegin h, rfl⟩
  · intro p q hpq _ a b ha hb
    exact streaming_prefix hpq ha hb

def twoHunkPatch : Text :=
  "*** Begin Patch\n*** Add File: a\n+x\n*** Delete File: b\n*** End Patch".toList

def twoHunkPatchStart : Text := "*** Begin Patch\n*** Add File: a\n+".toList

theorem parsePatchStreaming_consistent_twoHunkPatch :
    (∃ args', parsePatchStreaming twoHunkPatch = .ok args' ∧
      args'.hunks = [.addFile ['a'] ['x', '\n'], .deleteFile ['b']]) ∧
    [Hunk.addFile ['a'] ['\n']].length ≤
      [Hunk.addFile ['a'] ['x', '\n'], .deleteFile ['b']].length ∧
    [Hunk.addFile ['a'] ['\n']].dropLast <+: [Hunk.addFile ['a'] ['x', '\n'], .deleteFile ['b']] :=
  ⟨(parsePatchStreaming_consistent twoHunkPatch).1
      ⟨twoHunkPatch, [.addFile ['a'] ['x', '\n'], .deleteFile ['b']], none⟩ (by decide) (by decide),
    (parsePatchStreaming_consistent twoHunkPatch).2 twoHunkPatchStart twoHunkPatch (by decide)
      prefix_rfl ⟨twoHunkPatchStart, [.addFile ['a'] ['\n']], none⟩
      ⟨twoHunkPatch, [.addFile ['a'] ['x', '\n'], .deleteFile ['b']], none⟩ (by decide)
      (by decide)⟩

end Codex
