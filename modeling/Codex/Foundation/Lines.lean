import Codex.Foundation.Text

/-!
# Lines of a text

`lines` splits at line feeds; a line that a line feed ends loses one carriage
return before it, and a last line without a line feed is kept as it is. The
empty text has no lines.
-/

namespace Foundation

open List

def stripCr (l : Text) : Text := if l.getLast? = some '\r' then l.dropLast else l

/-- `lines` with the line that is being read in `cur`. -/
def linesFrom : Text → Text → List Text
  | cur, [] => if cur.isEmpty then [] else [cur]
  | cur, c :: s => if c = '\n' then stripCr cur :: linesFrom [] s else linesFrom (cur ++ [c]) s

def lines (s : Text) : List Text := linesFrom [] s

def joinLines (ls : List Text) : Text := List.intercalate ['\n'] ls

theorem stripCr_eq_self {l : Text} (h : l.getLast? ≠ some '\r') : stripCr l = l := if_neg h

theorem stripCr_append {x y : Text} (hx : x.getLast? ≠ some '\r') :
    stripCr (x ++ y) = x ++ stripCr y := by
  unfold stripCr
  cases y using List.reverseRecOn with
  | nil => simp [hx]
  | append_singleton y c =>
    by_cases hc : c = '\r'
    · simp [hc]
    · simp [hc]

theorem linesFrom_append_newline (cur l s : Text) (hl : '\n' ∉ l) :
    linesFrom cur (l ++ '\n' :: s) = stripCr (cur ++ l) :: lines s := by
  induction l generalizing cur with
  | nil => simp [linesFrom, lines]
  | cons c l ih =>
    have hc : c ≠ '\n' := fun e => hl (by simp [e])
    have hl' : '\n' ∉ l := fun h => hl (mem_cons_of_mem _ h)
    simp [linesFrom, hc, ih _ hl']

theorem linesFrom_of_not_mem (cur l : Text) (hl : '\n' ∉ l) :
    linesFrom cur l = if cur ++ l = [] then [] else [cur ++ l] := by
  induction l generalizing cur with
  | nil => cases cur <;> simp [linesFrom]
  | cons c l ih =>
    have hc : c ≠ '\n' := fun e => hl (by simp [e])
    have hl' : '\n' ∉ l := fun h => hl (mem_cons_of_mem _ h)
    simp [linesFrom, hc, ih _ hl']

@[simp] theorem lines_nil : lines [] = [] := rfl

theorem lines_append_newline {l s : Text} (hl : '\n' ∉ l) :
    lines (l ++ '\n' :: s) = stripCr l :: lines s := by
  simpa [lines] using linesFrom_append_newline [] l s hl

theorem lines_of_not_mem {l : Text} (hne : l ≠ []) (hl : '\n' ∉ l) : lines l = [l] := by
  simpa [lines, hne] using linesFrom_of_not_mem [] l hl

theorem newline_cases (s : Text) : '\n' ∉ s ∨ ∃ l t, '\n' ∉ l ∧ s = l ++ '\n' :: t := by
  by_cases h : '\n' ∈ s
  · obtain ⟨l, t, rfl, hl⟩ := eq_append_cons_of_mem h
    exact .inr ⟨l, t, hl, rfl⟩
  · exact .inl h

def cutLines : Text → List Text
  | [] => []
  | c :: s =>
    if c = '\n' then [c] :: cutLines s
    else match cutLines s with
      | [] => [[c]]
      | line :: lines => (c :: line) :: lines

theorem cutLines_append_newline {l : Text} (hl : '\n' ∉ l) (s : Text) :
    cutLines (l ++ '\n' :: s) = (l ++ ['\n']) :: cutLines s := by
  induction l with
  | nil => simp [cutLines]
  | cons c l ih =>
    rw [mem_cons, not_or] at hl
    obtain ⟨hc, hl⟩ := hl
    rw [cons_append, cutLines, if_neg (Ne.symm hc), ih hl]
    rfl

theorem cutLines_of_not_mem {l : Text} (hne : l ≠ []) (hl : '\n' ∉ l) : cutLines l = [l] := by
  induction l with
  | nil => exact absurd rfl hne
  | cons c l ih =>
    rw [mem_cons, not_or] at hl
    obtain ⟨hc, hl⟩ := hl
    rw [cutLines, if_neg (Ne.symm hc)]
    cases l with
    | nil => rfl
    | cons d l => rw [ih (cons_ne_nil d l) hl]

/-- A line the splitter returns unchanged wherever it stands: no line feed in it
and no carriage return at its end. -/
def IsLine (l : Text) : Prop := '\n' ∉ l ∧ l.getLast? ≠ some '\r'

instance (l : Text) : Decidable (IsLine l) := inferInstanceAs (Decidable (_ ∧ _))

theorem lines_flatMap_newline {ls : List Text} (h : ∀ l ∈ ls, IsLine l) (s : Text) :
    lines (ls.flatMap (fun l => l ++ ['\n']) ++ s) = ls ++ lines s := by
  induction ls with
  | nil => rfl
  | cons l ls ih =>
    have hl := h l (by simp)
    simp only [flatMap_cons, List.append_assoc, cons_append, nil_append]
    rw [lines_append_newline hl.1, stripCr_eq_self hl.2, ih fun m hm => h m (by simp [hm])]

/-! ## Folding over lines

A reader of a text takes one step for what stands between two line feeds, and none for
a blank. -/

section
variable {σ ε : Type}

def foldLines (step : σ → Text → Except ε σ) (start : σ) (s : Text) : Except ε σ :=
  (s.splitOn '\n').foldlM step start

variable {step : σ → Text → Except ε σ} {start u : σ} {s line : Text}

theorem foldLines_single (hline : '\n' ∉ line) : foldLines step start line = step start line := by
  unfold foldLines
  rw [splitOn_eq_singleton hline, foldlM_cons]
  cases step start line <;> rfl

theorem foldLines_line (hline : '\n' ∉ line) (h : foldLines step start s = .ok u) :
    foldLines step start (s ++ '\n' :: line) = step u line := by
  unfold foldLines at h ⊢
  rw [splitOn_append_cons_self, foldlM_append, h, splitOn_eq_singleton hline]
  show List.foldlM step u [line] = step u line
  rw [foldlM_cons]
  cases step u line <;> rfl

theorem foldLines_newline (hblank : ∀ v, step v [] = .ok v) :
    foldLines step start (s ++ ['\n']) = foldLines step start s := by
  cases h : foldLines step start s with
  | ok u => rw [foldLines_line (not_mem_nil) h, hblank]
  | error e =>
    unfold foldLines at h ⊢
    rw [splitOn_append_cons_self, foldlM_append, h]
    rfl

end

/-! ## Extending a text

A text whose last line is unfinished keeps every finished line when it grows;
only the last line gets longer. -/

/-- Growing a text: the finished lines stay, the unfinished last line `x` is
continued, and more lines may follow. -/
theorem lines_append {t : Text} (u : Text) (hne : t ≠ [])
    (hn : t.getLast? ≠ some '\n') (hr : t.getLast? ≠ some '\r') :
    ∃ (A : List Text) (x y : Text) (B : List Text), lines t = A ++ [x] ∧ x.getLast? = t.getLast? ∧
      lines (t ++ u) = A ++ (x ++ y) :: B := by
  rcases newline_cases t with ht | ⟨l, s, hl, rfl⟩
  · refine ⟨[], t, ?_⟩
    rcases newline_cases u with hu | ⟨v, w, hv, rfl⟩
    · refine ⟨u, [], by simp [lines_of_not_mem hne ht], rfl, ?_⟩
      have : '\n' ∉ t ++ u := by simp [ht, hu]
      simp [lines_of_not_mem (by simp [hne]) this]
    · refine ⟨stripCr v, lines w, by simp [lines_of_not_mem hne ht], rfl, ?_⟩
      have : '\n' ∉ t ++ v := by simp [ht, hv]
      rw [← List.append_assoc, lines_append_newline this, stripCr_append hr]
      rfl
  · have hs : s ≠ [] := by rintro rfl; simp at hn
    have hlast : (l ++ '\n' :: s).getLast? = s.getLast? := by
      cases s with
      | nil => exact absurd rfl hs
      | cons c s => simp [List.getLast?_append, List.getLast?_cons]
    rw [hlast] at hn hr ⊢
    obtain ⟨A, x, y, B, h1, h2, h3⟩ := lines_append u hs hn hr
    refine ⟨stripCr l :: A, x, y, B, ?_, h2, ?_⟩
    · rw [lines_append_newline hl, h1]; rfl
    · rw [List.append_assoc, cons_append, lines_append_newline hl, h3]; rfl
termination_by t.length
decreasing_by subst_vars; simp; omega

/-! ## Trimming before splitting -/

theorem trim_head {s : Text} {c : Char} (h : (trim s).head? = some c) : isWhitespace c = false := by
  have hp : trim s <+: trimStart s := trimEnd_isPrefix _
  obtain ⟨t, ht⟩ := hp
  cases hs : trim s with
  | nil => simp [hs] at h
  | cons d r =>
    have : (trimStart s).head? = some c := by rw [← ht]; simpa [hs] using h
    exact trimStart_head this

theorem head_of_trim_head {s : Text} {c : Char} (h : (trim s).head? = some c) :
    ∃ d, s.head? = some d ∧ (d = c ∨ isWhitespace d = true) := by
  cases s with
  | nil => simp [trim, trimStart, trimEnd] at h
  | cons d s =>
    refine ⟨d, rfl, ?_⟩
    by_cases hd : isWhitespace d = true
    · exact .inr hd
    · left
      have hs : trimStart (d :: s) = d :: s :=
        trimStart_eq_self fun e he => by
          simp only [List.head?_cons, Option.some.injEq] at he
          simpa [he] using hd
      obtain ⟨t, ht⟩ := trimEnd_isPrefix (d :: s)
      unfold trim at h
      rw [hs] at h
      cases hq : trimEnd (d :: s) with
      | nil => simp [hq] at h
      | cons e q =>
        rw [hq] at h ht
        simp only [cons_append, List.cons.injEq] at ht
        simpa [ht.1] using h

theorem trim_getLast {s : Text} {c : Char} (h : (trim s).getLast? = some c) :
    isWhitespace c = false := trimEnd_getLast h

theorem trim_trim (s : Text) : trim (trim s) = trim s :=
  trim_eq_self (fun _ h => trim_head h) (fun _ h => trim_getLast h)

theorem isWhitespace_newline : isWhitespace '\n' = true := by decide
theorem isWhitespace_cr : isWhitespace '\r' = true := by decide
theorem trim_append (p u : Text) (h : trim p ≠ []) : trim p <+: trim (p ++ u) := by
  have hs : trimStart p ≠ [] := by
    intro e; apply h; unfold trim; rw [e]; rfl
  have hsu : trimStart (p ++ u) = trimStart p ++ u := by
    unfold trimStart at *
    rw [dropWhile_append, if_neg (by simpa using hs)]
  unfold trim at *
  rw [hsu]
  obtain ⟨w, hw⟩ := trimEnd_isPrefix (trimStart p)
  conv_rhs => rw [← hw, List.append_assoc]
  by_cases hwu : trimEnd (w ++ u) = []
  · exact ⟨[], by rw [append_nil, trimEnd_append_of_eq_nil hwu, trimEnd_idem]⟩
  · rw [trimEnd_append_of_ne_nil hwu]
    exact prefix_append _ _

end Foundation
