import Codex.ApplyPatch.SeekSequence
import Codex.Foundation.Splice
import Codex.Foundation.Run

/-!
# Replacements and the new contents

The replacements of an update are sorted edits that keep apart, unless a chunk at the end
of the file finds something placed there already. Then applying them is splicing. The new
contents are the spliced lines with a newline behind each, unless the last one is blank.
-/

namespace Codex

open Foundation

/-! ## Applying replacements -/

section
variable {lines : List Text} {replacements : List Replacement}

theorem removeLines_eq (start n : ℕ) (lines : List Text) :
    removeLines start n lines = lines.take start ++ lines.drop (start + n) := by
  induction n generalizing lines with
  | zero => simp [removeLines]
  | succ n ih =>
    unfold removeLines
    by_cases hlt : start < lines.length
    · have hlength : (lines.take start).length = start := by simp [hlt.le]
      rw [if_pos hlt, ih, List.eraseIdx_eq_take_drop_succ, List.take_append_of_le_length hlength.ge,
        List.take_take, Nat.min_self, List.drop_append, hlength, Nat.add_sub_cancel_left,
        List.drop_drop, List.drop_eq_nil_of_le (by omega), List.nil_append]
      congr 2
      omega
    · rw [if_neg hlt, ih, List.drop_eq_nil_of_le (by omega), List.drop_eq_nil_of_le (by omega)]

theorem insertLines_append (p segment q : List Text) :
    insertLines p.length segment (p ++ q) = p ++ segment ++ q := by
  have hgen : ∀ (segment front : List Text) (k : ℕ), front.length = p.length + k →
      (segment.zipIdx k).foldl (fun ls x => ls.insertIdx (p.length + x.2) x.1) (front ++ q) =
        front ++ segment ++ q := by
    intro segment
    induction segment with
    | nil => simp
    | cons line segment ih =>
      intro front k hfront
      have hnext := ih (front ++ [line]) (k + 1) (by simp [hfront, Nat.add_assoc])
      rw [List.zipIdx_cons, List.foldl_cons]
      rw [← hfront, insertIdx_append]
      simpa using hnext
  exact hgen segment p 0 rfl

theorem insert_remove_eq_apply {r : Replacement} (h : r.1 ≤ lines.length) :
    insertLines r.1 r.2.2 (removeLines r.1 r.2.1 lines) = Edit.apply r lines := by
  have hlength : (lines.take r.1).length = r.1 := by simp [h]
  have hinsert := insertLines_append (lines.take r.1) r.2.2 (lines.drop (r.1 + r.2.1))
  rw [hlength] at hinsert
  rw [removeLines_eq]
  exact hinsert

theorem applyReplacements_eq_foldr (h : WellPlaced lines replacements) :
    applyReplacements lines replacements = replacements.foldr Edit.apply lines := by
  unfold applyReplacements
  rw [List.foldl_reverse]
  induction replacements with
  | nil => rfl
  | cons r replacements ih =>
    have hstop := h.inside r List.mem_cons_self
    have hrest := foldr_apply h.tail h.stop_le hstop
    rw [List.foldr_cons, List.foldr_cons, ih h.tail, insert_remove_eq_apply]
    rw [hrest, List.length_append, List.length_take, Nat.min_eq_left hstop]
    exact (Nat.le_add_right r.1 r.2.1).trans (Nat.le_add_right _ _)

theorem applyReplacements_eq_splice (h : WellPlaced lines replacements) :
    applyReplacements lines replacements = splice lines replacements :=
  (applyReplacements_eq_foldr h).trans (foldr_apply_eq_splice h)

end

/-! ## Placing a chunk -/

section
variable (lines : List Text) (chunk : UpdateFileChunk)

def contextIndex (lineIndex : ℕ) : Option ℕ :=
  match chunk.changeContext with
  | some ctxLine => (seekSequence lines [ctxLine] lineIndex false).map (· + 1)
  | none => some lineIndex

def insertionIdx : ℕ := if lastIsEmpty lines then lines.length - 1 else lines.length

/-- The replacement of a chunk, its old lines sought from an index on. -/
def placement (lineIndex : ℕ) : Option Replacement :=
  if chunk.oldLines = [] then some (insertionIdx lines, 0, chunk.newLines)
  else
    match seekSequence lines chunk.oldLines lineIndex chunk.isEndOfFile with
    | some idx => some (idx, chunk.oldLines.length, chunk.newLines)
    | none =>
      if lastIsEmpty chunk.oldLines then
        (seekSequence lines chunk.oldLines.dropLast lineIndex chunk.isEndOfFile).map fun idx =>
          (idx, chunk.oldLines.dropLast.length,
            if lastIsEmpty chunk.newLines then chunk.newLines.dropLast else chunk.newLines)
      else none

def nextIndex (lineIndex : ℕ) (r : Replacement) : ℕ :=
  if chunk.oldLines = [] then lineIndex else r.1 + r.2.1

/-- What is placed before does not get in the way of the chunk. A chunk without old lines
must find a blank last line unreplaced. What old lines at the end of the file meet must
end before them, or be put behind the last line. -/
def Fits (placed : List Replacement) (r : Replacement) : Prop :=
  if chunk.oldLines = [] then
    lastIsEmpty lines = true → ∀ q ∈ placed, 0 < q.2.1 → q.1 + q.2.1 < lines.length
  else 0 < r.2.1 → r.1 + r.2.1 = lines.length → ∀ q ∈ placed, q.1 + q.2.1 ≤ r.1 ∨ q.1 = lines.length

end

def Orderly (lines : List Text) : List UpdateFileChunk → ℕ → List Replacement → Prop
  | [], _, _ => True
  | chunk :: chunks, lineIndex, placed => ∀ start r, contextIndex lines chunk lineIndex = some start →
      placement lines chunk start = some r →
        Fits lines chunk placed r ∧ Orderly lines chunks (nextIndex chunk start r) (placed ++ [r])

section
variable {lines : List Text} {path : AbsolutePathBuf} {chunk : UpdateFileChunk}
  {chunks : List UpdateFileChunk} {lineIndex start : ℕ} {placed out : List Replacement}
  {r : Replacement}

theorem computeReplacementsLoop_context
    (h : computeReplacementsLoop lines path (chunk :: chunks) lineIndex placed = .ok out) :
    ∃ start, contextIndex lines chunk lineIndex = some start ∧
      computeReplacementsLoop lines path ({ chunk with changeContext := none } :: chunks) start
        placed = .ok out := by
  unfold contextIndex
  rw [computeReplacementsLoop] at h
  cases hctx : chunk.changeContext with
  | none =>
    rw [hctx] at h
    refine ⟨lineIndex, rfl, ?_⟩
    exact h
  | some ctxLine =>
    rw [hctx] at h
    dsimp only at h ⊢
    cases hseek : seekSequence lines [ctxLine] lineIndex false with
    | none =>
      rw [hseek] at h
      cases h
    | some idx =>
      rw [hseek] at h
      refine ⟨idx + 1, rfl, ?_⟩
      exact h

theorem computeReplacementsLoop_cons
    (h : computeReplacementsLoop lines path (chunk :: chunks) lineIndex placed = .ok out) :
    ∃ start r, contextIndex lines chunk lineIndex = some start ∧
      placement lines chunk start = some r ∧
      computeReplacementsLoop lines path chunks (nextIndex chunk start r) (placed ++ [r]) =
        .ok out := by
  obtain ⟨start, hcontext, h⟩ := computeReplacementsLoop_context h
  refine ⟨start, ?_⟩
  simp only [hcontext, true_and]
  rw [computeReplacementsLoop] at h
  simp only [bind, Except.bind] at h
  unfold placement nextIndex
  by_cases hold : chunk.oldLines = []
  · rw [if_pos hold] at h
    exact ⟨_, if_pos hold, by rw [if_pos hold]; exact h⟩
  · rw [if_neg hold] at h
    simp only [if_neg hold]
    cases hseek : seekSequence lines chunk.oldLines start chunk.isEndOfFile with
    | some idx =>
      rw [hseek] at h
      exact ⟨_, rfl, h⟩
    | none =>
      rw [hseek] at h
      by_cases hlast : lastIsEmpty chunk.oldLines = true
      · rw [if_pos hlast] at h ⊢
        cases hagain : seekSequence lines chunk.oldLines.dropLast start chunk.isEndOfFile with
        | none =>
          rw [hagain] at h
          cases h
        | some idx =>
          rw [hagain] at h
          exact ⟨_, rfl, h⟩
      · rw [if_neg hlast] at h
        cases h

/-! ## What is placed -/

theorem seekSequence_bounds {pattern : List Text} {eof : Bool} {i : ℕ} (hstart : start ≤ lines.length)
    (h : seekSequence lines pattern start eof = some i) : i + pattern.length ≤ lines.length ∧
      (start ≤ i ∨ i + pattern.length = lines.length) := by
  by_cases hne : pattern = []
  · subst hne
    cases h
    exact ⟨hstart, .inl le_rfl⟩
  · cases eof with
    | false =>
      obtain ⟨_, _, _, _, hstands, _⟩ := (seekSequence_eq_some hne).mp h
      exact ⟨hstands.2.1, .inl hstands.1⟩
    | true =>
      have hroom : pattern.length ≤ lines.length := by
        by_contra hroom
        rw [seekSequence_no_room hne hroom] at h
        cases h
      rw [seekSequence_eof hne hroom] at h
      split at h
      · cases h
        unfold lastPosition
        omega
      · cases h

theorem contextIndex_bounds (hindex : lineIndex ≤ lines.length)
    (h : contextIndex lines chunk lineIndex = some start) :
    lineIndex ≤ start ∧ start ≤ lines.length := by
  unfold contextIndex at h
  split at h
  · rename_i ctxLine _
    obtain ⟨idx, hidx, rfl⟩ := Option.map_eq_some_iff.mp h
    obtain ⟨_, _, _, _, hstands, _⟩ := (seekSequence_eq_some (by simp)).mp hidx
    have hroom := hstands.2.1
    have := hstands.1
    simp only [List.length_singleton] at hroom
    omega
  · cases h
    exact ⟨le_rfl, hindex⟩

theorem placement_bounds (hstart : start ≤ lines.length) (hold : chunk.oldLines ≠ [])
    (h : placement lines chunk start = some r) :
    r.1 + r.2.1 ≤ lines.length ∧ (start ≤ r.1 ∨ r.1 + r.2.1 = lines.length) := by
  unfold placement at h
  rw [if_neg hold] at h
  split at h
  · rename_i idx hidx
    cases h
    exact seekSequence_bounds hstart hidx
  · split at h
    · obtain ⟨idx, hidx, rfl⟩ := Option.map_eq_some_iff.mp h
      exact seekSequence_bounds hstart hidx
    · cases h

variable (lines lineIndex) in
/-- What is placed lies inside the file and before the index, but for lines without a
place of their own. -/
def PlacedBefore (placed : List Replacement) : Prop :=
  lineIndex ≤ lines.length ∧ ∀ q ∈ placed, q.1 + q.2.1 ≤ lines.length ∧
    (q.1 + q.2.1 ≤ lineIndex ∨ q.2.1 = 0 ∧ q.1 = insertionIdx lines)

theorem insertionIdx_le (lines : List Text) : insertionIdx lines ≤ lines.length := by
  unfold insertionIdx
  split <;> omega

theorem PlacedBefore.step (hplaced : PlacedBefore lines lineIndex placed)
    (hcontext : contextIndex lines chunk lineIndex = some start)
    (hr : placement lines chunk start = some r) :
    PlacedBefore lines (nextIndex chunk start r) (placed ++ [r]) := by
  obtain ⟨hle, hstart⟩ := contextIndex_bounds hplaced.1 hcontext
  by_cases hold : chunk.oldLines = []
  · unfold placement at hr
    rw [if_pos hold] at hr
    cases hr
    have hnext : nextIndex chunk start (insertionIdx lines, 0, chunk.newLines) = start := if_pos hold
    rw [hnext]
    refine ⟨hstart, fun q hq => ?_⟩
    rcases List.mem_append.mp hq with hq | hq
    · obtain ⟨hin, hbefore⟩ := hplaced.2 q hq
      exact ⟨hin, hbefore.imp_left fun h => h.trans hle⟩
    · rw [List.mem_singleton.mp hq]
      exact ⟨insertionIdx_le lines, .inr ⟨rfl, rfl⟩⟩
  · obtain ⟨hin, hwhere⟩ := placement_bounds hstart hold hr
    have hnext : nextIndex chunk start r = r.1 + r.2.1 := if_neg hold
    rw [hnext]
    refine ⟨hin, fun q hq => ?_⟩
    rcases List.mem_append.mp hq with hq | hq
    · obtain ⟨hin', hbefore⟩ := hplaced.2 q hq
      refine ⟨hin', hbefore.imp_left fun h => ?_⟩
      omega
    · rw [List.mem_singleton.mp hq]
      exact ⟨hin, .inl le_rfl⟩

/-! ## What fits -/

def startsBefore (lhs rhs : Replacement) : Prop := lhs.1 ≤ rhs.1

instance instDecidableStartsBefore : DecidableRel startsBefore :=
  fun lhs rhs => inferInstanceAs (Decidable (lhs.1 ≤ rhs.1))

instance instTotalStartsBefore : Std.Total startsBefore := ⟨fun lhs rhs => Nat.le_total lhs.1 rhs.1⟩

instance instTransStartsBefore : IsTrans Replacement startsBefore :=
  ⟨fun _ _ _ h h' => Nat.le_trans h h'⟩

def Apart (q r : Replacement) : Prop := 0 < q.2.1 → q.1 + q.2.1 ≤ r.1

theorem sorts_apart_iff {q r : Replacement} : Sorts startsBefore Apart q r ↔
    (q.1 ≤ r.1 → 0 < q.2.1 → q.1 + q.2.1 ≤ r.1) ∧ (r.1 < q.1 → 0 < r.2.1 → r.1 + r.2.1 ≤ q.1) := by
  unfold Sorts startsBefore Apart
  rw [not_le]

theorem fits_iff (hplaced : PlacedBefore lines lineIndex placed)
    (hcontext : contextIndex lines chunk lineIndex = some start)
    (hr : placement lines chunk start = some r) :
    (∀ q ∈ placed, Sorts startsBefore Apart q r) ↔ Fits lines chunk placed r := by
  obtain ⟨hle, hstart⟩ := contextIndex_bounds hplaced.1 hcontext
  unfold Fits
  split
  · rename_i hold
    unfold placement at hr
    rw [if_pos hold] at hr
    cases hr
    simp only [sorts_apart_iff, lt_irrefl, false_imp_iff, imp_true_iff, and_true]
    constructor
    · intro h hblank q hq hpos
      have hin := (hplaced.2 q hq).1
      have hins : insertionIdx lines = lines.length - 1 := if_pos hblank
      have hkeep := h q hq (by omega) hpos
      omega
    · intro h q hq hle hpos
      have hin := (hplaced.2 q hq).1
      cases hblank : lastIsEmpty lines with
      | true =>
        have hins : insertionIdx lines = lines.length - 1 := if_pos hblank
        have := h hblank q hq hpos
        omega
      | false =>
        have hins : insertionIdx lines = lines.length := if_neg (by simp [hblank])
        omega
  · rename_i hold
    obtain ⟨hin, hwhere⟩ := placement_bounds hstart hold hr
    have hins : lines.length - 1 ≤ insertionIdx lines := by
      unfold insertionIdx
      split <;> omega
    simp only [sorts_apart_iff]
    constructor
    · intro h hpos hend q hq
      obtain ⟨hin', -⟩ := hplaced.2 q hq
      obtain ⟨hfirst, hlast⟩ := h q hq
      omega
    · intro h q hq
      obtain ⟨hin', hbefore⟩ := hplaced.2 q hq
      have hfit := fun hpos hend => h hpos hend q hq
      omega

theorem loop_apart (hplaced : PlacedBefore lines lineIndex placed)
    (h : computeReplacementsLoop lines path chunks lineIndex placed = .ok out) :
    (∀ q ∈ out, q.1 + q.2.1 ≤ lines.length) ∧
      (out.Pairwise (Sorts startsBefore Apart) ↔
        placed.Pairwise (Sorts startsBefore Apart) ∧ Orderly lines chunks lineIndex placed) := by
  induction chunks generalizing lineIndex placed with
  | nil =>
    obtain rfl : placed = out := Except.ok.inj h
    exact ⟨fun q hq => (hplaced.2 q hq).1, by simp [Orderly]⟩
  | cons chunk chunks ih =>
    obtain ⟨start, r, hcontext, hr, hrest⟩ := computeReplacementsLoop_cons h
    obtain ⟨hinside, happart⟩ := ih (hplaced.step hcontext hr) hrest
    refine ⟨hinside, happart.trans ?_⟩
    have hone : (placed ++ [r]).Pairwise (Sorts startsBefore Apart) ↔
        placed.Pairwise (Sorts startsBefore Apart) ∧ Fits lines chunk placed r := by
      rw [List.pairwise_append, ← fits_iff hplaced hcontext hr]
      simp
    rw [hone, and_assoc]
    refine and_congr_right fun _ => ?_
    refine ⟨fun hall s r' hs hr' => ?_, fun hall => hall start r hcontext hr⟩
    cases hcontext.symm.trans hs
    cases hr.symm.trans hr'
    exact hall

/-- What is computed keeps apart and is applied as a splice exactly if the chunks come in
order. -/
theorem computeReplacements_wellPlaced_iff (h : computeReplacements lines path chunks = .ok out) :
    (WellPlaced lines out ∧ applyReplacements lines out = splice lines out) ↔
      Orderly lines chunks 0 [] := by
  obtain ⟨unsorted, hloop, hsort⟩ := bind_ok_iff.mp h
  obtain rfl : unsorted.insertionSort startsBefore = out := Except.ok.inj hsort
  have hplaced : PlacedBefore lines 0 [] := ⟨Nat.zero_le _, by simp⟩
  obtain ⟨hinside, happart⟩ := loop_apart hplaced hloop
  simp only [List.Pairwise.nil, true_and] at happart
  rw [← happart, ← pairwise_insertionSort]
  constructor
  · exact fun hwell => hwell.1.apart
  · intro hpair
    have hwell : WellPlaced lines (unsorted.insertionSort startsBefore) :=
      ⟨List.pairwise_insertionSort startsBefore unsorted,
        fun r hr => hinside r ((List.mem_insertionSort _).mp hr), hpair⟩
    exact ⟨hwell, applyReplacements_eq_splice hwell⟩

end

def orderedChunks : List UpdateFileChunk :=
  [⟨none, [['a']], [['x']], false⟩, ⟨none, [], [['z']], false⟩]

theorem computeReplacements_wellPlaced_iff_ordered :
    (WellPlaced [['a'], ['b']] [(0, 1, [['x']]), (2, 0, [['z']])] ∧
        applyReplacements [['a'], ['b']] [(0, 1, [['x']]), (2, 0, [['z']])] =
          splice [['a'], ['b']] [(0, 1, [['x']]), (2, 0, [['z']])]) ↔
      Orderly [['a'], ['b']] orderedChunks 0 [] :=
  have h : computeReplacements [['a'], ['b']] .root orderedChunks =
      .ok [(0, 1, [['x']]), (2, 0, [['z']])] := by decide
  computeReplacements_wellPlaced_iff h

def endTwice : List UpdateFileChunk :=
  [⟨none, [['a']], [['b']], false⟩, ⟨none, [['a']], [['c']], true⟩]

theorem end_replaced_twice :
    computeReplacements [['a']] .root endTwice = .ok [(0, 1, [['b']]), (0, 1, [['c']])] ∧
      ¬ WellPlaced [['a']] [(0, 1, [['b']]), (0, 1, [['c']])] ∧
      applyReplacements [['a']] [(0, 1, [['b']]), (0, 1, [['c']])] = [['b']] ∧
      splice [['a']] [(0, 1, [['b']]), (0, 1, [['c']])] = [['b'], ['c']] := by
  refine ⟨by decide, fun h => ?_, by decide, by decide⟩
  have hapart := (List.pairwise_cons.mp h.apart).1 (0, 1, [['c']]) List.mem_cons_self
  exact absurd (hapart Nat.one_pos) (by decide)

/-! ## New contents -/

def endLines (lines : List Text) : Text := lines.flatMap fun line => line ++ ['\n']

theorem joinLines_snoc_blank (lines : List Text) : joinLines (lines ++ [[]]) = endLines lines := by
  unfold joinLines endLines
  induction lines with
  | nil => rfl
  | cons line lines ih =>
    rw [List.cons_append, List.intercalate_cons_of_ne_nil (by simp), ih, List.flatMap_cons]

theorem splitOn_newline {contents : Text} (h : contents.getLast? = some '\n') :
    ∃ lines, contents.splitOn '\n' = lines ++ [[]] ∧ endLines lines = contents := by
  obtain ⟨body, rfl⟩ := List.getLast?_eq_some_iff.mp h
  have hsplit : (body ++ ['\n']).splitOn '\n' = body.splitOn '\n' ++ [[]] :=
    List.splitOn_append_cons_self body []
  refine ⟨body.splitOn '\n', hsplit, ?_⟩
  rw [← joinLines_snoc_blank, ← hsplit]
  exact List.intercalate_splitOn '\n'

theorem lastIsEmpty_snoc (lines : List Text) : lastIsEmpty (lines ++ [[]]) = true := by
  simp [lastIsEmpty]

section
variable {lines : List Text} {path : AbsolutePathBuf} {chunks : List UpdateFileChunk}
  {replacements : List Replacement} {contents : Text} {patch : AppliedPatch}

theorem join_eq_endLines_iff (lines : List Text) :
    joinLines (if lastIsEmpty lines then lines else lines ++ [[]]) = endLines lines ↔
      lastIsEmpty lines = false := by
  cases hlast : lastIsEmpty lines with
  | false => simp [joinLines_snoc_blank]
  | true =>
    obtain ⟨front, rfl⟩ := List.getLast?_eq_some_iff.mp (of_decide_eq_true hlast)
    rw [if_pos rfl, joinLines_snoc_blank]
    simp only [Bool.true_eq_false, iff_false]
    intro heq
    have hlen := congrArg List.length heq
    simp [endLines] at hlen

def PutsBack (lines : List Text) (replacements : List Replacement) : Prop :=
  ∀ r ∈ replacements, (lines.drop r.1).take r.2.1 = r.2.2

theorem computeReplacements_inside (h : computeReplacements lines path chunks = .ok replacements) :
    ∀ r ∈ replacements, r.1 + r.2.1 ≤ lines.length := by
  obtain ⟨unsorted, hloop, hsort⟩ := bind_ok_iff.mp h
  obtain rfl : unsorted.insertionSort startsBefore = replacements := Except.ok.inj hsort
  exact fun r hr =>
    (loop_apart ⟨Nat.zero_le _, by simp⟩ hloop).1 r ((List.mem_insertionSort _).mp hr)

theorem applyReplacements_putsBack (hinside : ∀ r ∈ replacements, r.1 + r.2.1 ≤ lines.length)
    (hback : PutsBack lines replacements) : applyReplacements lines replacements = lines := by
  unfold applyReplacements
  rw [List.foldl_reverse]
  induction replacements with
  | nil => rfl
  | cons r replacements ih =>
    have hin := hinside r List.mem_cons_self
    rw [List.foldr_cons, ih (fun q hq => hinside q (List.mem_cons_of_mem _ hq))
      (fun q hq => hback q (List.mem_cons_of_mem _ hq)), insert_remove_eq_apply (by omega)]
    unfold Edit.apply Edit.stop
    rw [← hback r List.mem_cons_self, List.append_assoc, ← List.drop_drop, List.take_append_drop,
      List.take_append_drop]

/-- New contents are the spliced lines with a newline behind each, and the old contents if
all that is replaced is put back, exactly if the spliced lines do not end in a blank one. -/
theorem newContents_line_exact_iff (hend : contents.getLast? = some '\n')
    (h : deriveFromText contents path chunks = .ok patch) :
    ∃ lines replacements, contents = endLines lines ∧ '\n' ∉ lines.flatten ∧
      computeReplacements lines path chunks = .ok replacements ∧
      ((patch.newContents = endLines (applyReplacements lines replacements) ∧
          (PutsBack lines replacements → patch.newContents = contents)) ↔
        lastIsEmpty (applyReplacements lines replacements) = false) := by
  obtain ⟨lines, hsplit, hlines⟩ := splitOn_newline hend
  obtain ⟨replacements, hcompute, hpatch⟩ := bind_ok_iff.mp h
  cases hpatch
  have hpieces : ∀ line ∈ lines, line ∈ contents.splitOn '\n' := fun line hline => by
    rw [hsplit]
    exact List.mem_append_left _ hline
  rw [hsplit, lastIsEmpty_snoc, if_pos rfl, List.dropLast_concat] at hcompute ⊢
  refine ⟨lines, replacements, hlines.symm, ?_, hcompute, ?_⟩
  · rw [List.mem_flatten]
    rintro ⟨line, hline, hmem⟩
    exact not_mem_of_mem_splitOn (hpieces line hline) hmem
  · rw [← join_eq_endLines_iff]
    refine and_iff_left_of_imp fun hexact hback => ?_
    rw [hexact, applyReplacements_putsBack (computeReplacements_inside hcompute) hback, hlines]

end

theorem newContents_line_exact_iff_replaced :
    ∃ lines replacements, ['a', '\n'] = endLines lines ∧ '\n' ∉ lines.flatten ∧
      computeReplacements lines .root [⟨none, [['a']], [['b']], false⟩] = .ok replacements ∧
      ((['b', '\n'] = endLines (applyReplacements lines replacements) ∧
          (PutsBack lines replacements → ['b', '\n'] = ['a', '\n'])) ↔
        lastIsEmpty (applyReplacements lines replacements) = false) :=
  have h : deriveFromText ['a', '\n'] .root [⟨none, [['a']], [['b']], false⟩] =
      .ok ⟨['a', '\n'], ['b', '\n']⟩ := by decide
  newContents_line_exact_iff rfl h

/-- A chunk that changes nothing takes away a blank line at the end of the file. -/
theorem blank_line_lost : computeReplacements [['a'], []] .root [⟨none, [['a']], [['a']], false⟩] =
        .ok [(0, 1, [['a']])] ∧
      PutsBack [['a'], []] [(0, 1, [['a']])] ∧
      deriveFromText ['a', '\n', '\n'] .root [⟨none, [['a']], [['a']], false⟩] =
        .ok ⟨['a', '\n', '\n'], ['a', '\n']⟩ ∧
      endLines (applyReplacements [['a'], []] [(0, 1, [['a']])]) = ['a', '\n', '\n'] :=
  ⟨by decide, by simp [PutsBack], by decide, by decide⟩

end Codex
