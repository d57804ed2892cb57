import Codex.Foundation.Text

/-!
# Search in the contents of files

The files of a walk are searched one after the other. A sink takes their matching lines,
counts them in all and in each file, and stops a file at either limit; after a file the
search stops when the limit of all matches is reached. What is sent are the first matches
within the limits. The flag that says that some were left out is set by a line that comes
after the limit, so nothing sets it when the limit is reached on the last line of a file
(`capped_iff`).
-/

namespace Codex.ContentSearch

open Foundation List

def defaultMaxMatches : ℕ := 1024

def defaultMaxPerFile : ℕ := 200

structure SearchOptions where
  query : Text
  caseSensitive : Bool := false
  regex : Bool := false
  wholeWord : Bool := false
  maxMatches : ℕ := defaultMaxMatches
  maxPerFile : ℕ := defaultMaxPerFile

structure ContentMatch where
  path : Text
  lineNumber : ℕ
  preview : Text
deriving DecidableEq

def trimLine (line : Text) (max : ℕ) : Text :=
  let line := line.rdropWhile fun c => c = '\r' || c = '\n'
  if line.length ≤ max then line else line.take max ++ ['…']

structure MatchedLine where
  lineNumber : ℕ
  line : Text
deriving DecidableEq

/-- A file with its matching lines; a file that is not readable fails behind the last of them. -/
structure FileScan where
  path : Text
  lines : List MatchedLine
  readable : Bool

structure Progress where
  total : ℕ
  capped : Bool
  sent : List ContentMatch

def toMatch (path : Text) (l : MatchedLine) : ContentMatch :=
  ⟨path, l.lineNumber, trimLine l.line 240⟩

/-- The state is the progress and the count of the file; the answer is whether to go on. -/
def sink (opts : SearchOptions) (path : Text) : Progress × ℕ → MatchedLine → Bool × (Progress × ℕ)
  | (s, perFile), l =>
    if opts.maxMatches ≤ s.total then (false, ({ s with capped := true }, perFile))
    else if opts.maxPerFile ≤ perFile then (false, (s, perFile))
    else
      (true, ({ s with total := s.total + 1, sent := s.sent ++ [toMatch path l] }, perFile + 1))

def searchPath {σ : Type} (sink : σ → MatchedLine → Bool × σ) (readable : Bool) :
    List MatchedLine → σ → Bool × σ
  | [], s => (readable, s)
  | l :: lines, s =>
    match sink s l with
    | (true, s) => searchPath sink readable lines s
    | (false, s) => (true, s)

/-! ## All files -/

def searchFiles (opts : SearchOptions) : List FileScan → Progress → Progress
  | [], s => s
  | f :: files, s =>
    match searchPath (sink opts f.path) f.readable f.lines (s, 0) with
    | (false, (s, _)) => searchFiles opts files s
    | (true, (s, _)) => if opts.maxMatches ≤ s.total then s else searchFiles opts files s

structure DirEntry where
  path : Text
  isFile : Bool

section
variable {RegexMatcher : Type} (escape : Text → Text)
  (build : Bool → Text → Except Text RegexMatcher)
  (scan : RegexMatcher → Text → List MatchedLine × Bool)

/-- The first argument of `build` asks for a matcher that ignores case. -/
def buildMatcher (query : Text) (caseSensitive regex wholeWord : Bool) :
    Except Text RegexMatcher :=
  let pat := if regex then query else escape query
  let pat := if wholeWord then "\\b".toList ++ pat ++ "\\b".toList else pat
  build (!caseSensitive) pat

def SearchOptions.matcher (opts : SearchOptions) : Except Text RegexMatcher :=
  buildMatcher escape build opts.query opts.caseSensitive opts.regex opts.wholeWord

def scans (matcher : RegexMatcher) (walk : List DirEntry) : List FileScan :=
  (walk.filter (·.isFile)).map fun ent =>
    ⟨ent.path, (scan matcher ent.path).1, (scan matcher ent.path).2⟩

def filesOf (opts : SearchOptions) (walk : List DirEntry) : List FileScan :=
  match opts.matcher escape build with
  | .ok matcher => scans scan matcher walk
  | .error _ => []

def runSearch (opts : SearchOptions) (walk : List DirEntry) : Except Text Progress :=
  match opts.matcher escape build with
  | .ok matcher => .ok (searchFiles opts (scans scan matcher walk) ⟨0, false, []⟩)
  | .error _ => .error "failed to build search matcher".toList

def drainAll (opts : SearchOptions) (walk : List DirEntry) : List ContentMatch × Bool :=
  match runSearch escape build scan opts walk with
  | .ok s => (s.sent, s.capped)
  | .error _ => ([], false)

end

/-! ## What is sent -/

def advance (path : Text) (lines : List MatchedLine) (s : Progress) : Progress :=
  { s with total := s.total + lines.length, sent := s.sent ++ lines.map (toMatch path) }

@[simp] theorem advance_total (path : Text) (lines : List MatchedLine) (s : Progress) :
    (advance path lines s).total = s.total + lines.length := rfl

@[simp] theorem advance_sent (path : Text) (lines : List MatchedLine) (s : Progress) :
    (advance path lines s).sent = s.sent ++ lines.map (toMatch path) := rfl

@[simp] theorem advance_capped (path : Text) (lines : List MatchedLine) (s : Progress) :
    (advance path lines s).capped = s.capped := rfl

section
variable (opts : SearchOptions)

theorem searchPath_append (path : Text) (readable : Bool) (lines rest : List MatchedLine)
    (s : Progress) (perFile : ℕ) (htotal : s.total + lines.length ≤ opts.maxMatches)
    (hfile : perFile + lines.length ≤ opts.maxPerFile) :
    searchPath (sink opts path) readable (lines ++ rest) (s, perFile)
      = searchPath (sink opts path) readable rest
          (advance path lines s, perFile + lines.length) := by
  induction lines generalizing s perFile with
  | nil => simp [advance]
  | cons l lines ih =>
    rw [length_cons] at htotal hfile
    have hsink : sink opts path (s, perFile) l = (true, (advance path [l] s, perFile + 1)) := by
      simp only [sink, if_neg (show ¬ opts.maxMatches ≤ s.total by omega),
        if_neg (show ¬ opts.maxPerFile ≤ perFile by omega)]
      rfl
    have hnext : (advance path [l] s).total = s.total + 1 := rfl
    simp only [cons_append, searchPath, hsink]
    rw [ih _ _ (by omega) (by omega)]
    simp [advance, Nat.add_assoc, Nat.add_comm 1]

theorem searchPath_all (path : Text) (readable : Bool) (lines : List MatchedLine) (s : Progress)
    (htotal : s.total + lines.length ≤ opts.maxMatches) (hfile : lines.length ≤ opts.maxPerFile) :
    searchPath (sink opts path) readable lines (s, 0)
      = (readable, (advance path lines s, lines.length)) := by
  have hall := searchPath_append opts path readable lines [] s 0 htotal (by omega)
  rw [append_nil, Nat.zero_add] at hall
  exact hall

theorem searchPath_perFile (path : Text) (readable : Bool) (lines : List MatchedLine) (s : Progress)
    (htotal : s.total + opts.maxPerFile < opts.maxMatches)
    (hlong : opts.maxPerFile < lines.length) : searchPath (sink opts path) readable lines (s, 0)
      = (true, (advance path (lines.take opts.maxPerFile) s, opts.maxPerFile)) := by
  have hlen : (lines.take opts.maxPerFile).length = opts.maxPerFile := by
    rw [length_take]
    omega
  obtain ⟨l, rest, hrest⟩ : ∃ l rest, lines.drop opts.maxPerFile = l :: rest :=
    exists_cons_of_length_pos (by rw [length_drop]; omega)
  have hsplit := searchPath_append opts path readable (lines.take opts.maxPerFile) (l :: rest) s 0
    (by omega) (by omega)
  rw [← hrest, take_append_drop] at hsplit
  have hnext : (advance path (lines.take opts.maxPerFile) s).total
      = s.total + opts.maxPerFile := by rw [advance_total, hlen]
  rw [hsplit, hrest, hlen, Nat.zero_add]
  simp only [searchPath, sink, if_neg (show ¬ opts.maxMatches ≤ (advance path
    (lines.take opts.maxPerFile) s).total by omega), if_pos (Nat.le_refl _)]

theorem searchPath_capped (path : Text) (readable : Bool) (lines : List MatchedLine) (s : Progress)
    {n : ℕ} (htotal : s.total + n = opts.maxMatches) (hfile : n ≤ opts.maxPerFile)
    (hlong : n < lines.length) : searchPath (sink opts path) readable lines (s, 0)
      = (true, ({ advance path (lines.take n) s with capped := true }, n)) := by
  have hlen : (lines.take n).length = n := by
    rw [length_take]
    omega
  obtain ⟨l, rest, hrest⟩ : ∃ l rest, lines.drop n = l :: rest :=
    exists_cons_of_length_pos (by rw [length_drop]; omega)
  have hsplit := searchPath_append opts path readable (lines.take n) (l :: rest) s 0
    (by omega) (by omega)
  rw [← hrest, take_append_drop] at hsplit
  have hnext : (advance path (lines.take n) s).total = s.total + n := by rw [advance_total, hlen]
  rw [hsplit, hrest, hlen, Nat.zero_add]
  simp only [searchPath, sink, if_pos (show opts.maxMatches ≤ (advance path
    (lines.take n) s).total by omega)]

end

def matchesOf (maxPerFile : ℕ) (f : FileScan) : List ContentMatch :=
  (f.lines.take maxPerFile).map (toMatch f.path)

def withinLimits (maxPerFile : ℕ) (files : List FileScan) : List ContentMatch :=
  files.flatMap (matchesOf maxPerFile)

variable (maxPerFile : ℕ)

section
variable {opts : SearchOptions} {f : FileScan} {files : List FileScan} {s : Progress}

theorem length_matchesOf (f : FileScan) :
    (matchesOf maxPerFile f).length = min maxPerFile f.lines.length := by
  rw [matchesOf, length_map, length_take]

@[simp] theorem withinLimits_nil : withinLimits maxPerFile [] = [] := rfl

@[simp] theorem withinLimits_cons (f : FileScan) (files : List FileScan) :
    withinLimits maxPerFile (f :: files)
      = matchesOf maxPerFile f ++ withinLimits maxPerFile files := rfl

@[simp] theorem withinLimits_append (files files' : List FileScan) :
    withinLimits maxPerFile (files ++ files')
      = withinLimits maxPerFile files ++ withinLimits maxPerFile files' := by
  rw [withinLimits, flatMap_append]
  rfl

theorem searchFiles_pass
    (hless : s.total + (matchesOf opts.maxPerFile f).length < opts.maxMatches) :
    searchFiles opts (f :: files) s
      = searchFiles opts files (advance f.path (f.lines.take opts.maxPerFile) s) := by
  rw [length_matchesOf] at hless
  have hless' : ¬ opts.maxMatches
      ≤ (advance f.path (f.lines.take opts.maxPerFile) s).total := by
    rw [advance_total, length_take]
    omega
  rcases Nat.lt_or_ge opts.maxPerFile f.lines.length with hlong | hshort
  · rw [searchFiles, searchPath_perFile opts f.path f.readable f.lines s (by omega) hlong]
    exact if_neg hless'
  · rw [take_of_length_le hshort] at hless' ⊢
    rw [searchFiles, searchPath_all opts f.path f.readable f.lines s (by omega) hshort]
    cases f.readable
    · rfl
    · exact if_neg hless'

theorem searchFiles_capped {n : ℕ} (htotal : s.total + n = opts.maxMatches)
    (hfile : n ≤ opts.maxPerFile) (hlong : n < f.lines.length) : searchFiles opts (f :: files) s
      = { advance f.path (f.lines.take n) s with capped := true } := by
  rw [searchFiles, searchPath_capped opts f.path f.readable f.lines s htotal hfile hlong]
  have hn : (advance f.path (f.lines.take n) s).total = opts.maxMatches := by
    rw [advance_total, length_take]
    omega
  exact if_pos (Nat.le_of_eq hn.symm)

theorem searchFiles_filled (htotal : s.total + f.lines.length = opts.maxMatches)
    (hfile : f.lines.length ≤ opts.maxPerFile) : searchFiles opts (f :: files) s
      = if f.readable then advance f.path f.lines s
        else searchFiles opts files (advance f.path f.lines s) := by
  rw [searchFiles, searchPath_all opts f.path f.readable f.lines s (by omega) hfile]
  cases f.readable
  · rfl
  · exact if_pos (by rw [advance_total]; omega)

theorem file_cases (f : FileScan) (n : ℕ) : (matchesOf maxPerFile f).length < n ∨
      (n ≤ maxPerFile ∧ n < f.lines.length) ∨ (n = f.lines.length ∧ n ≤ maxPerFile) := by
  rw [length_matchesOf]
  omega

theorem searchFiles_sent (files : List FileScan) (htotal : s.total ≤ opts.maxMatches) :
    (searchFiles opts files s).sent
      = s.sent ++ (withinLimits opts.maxPerFile files).take (opts.maxMatches - s.total) := by
  induction files generalizing s with
  | nil => simp [searchFiles]
  | cons f files ih =>
    have hafter : ∀ s : Progress, s.total = opts.maxMatches →
        (searchFiles opts files s).sent = s.sent := by
      intro s heq
      rw [ih (Nat.le_of_eq heq), heq, Nat.sub_self, take_zero, append_nil]
    rw [withinLimits_cons, take_append]
    rcases file_cases opts.maxPerFile f (opts.maxMatches - s.total) with
      hless | ⟨hfile, hlong⟩ | ⟨hall, hfile⟩
    · have hpass : s.total + (matchesOf opts.maxPerFile f).length < opts.maxMatches := by omega
      have hnext : (advance f.path (f.lines.take opts.maxPerFile) s).total
          = s.total + (matchesOf opts.maxPerFile f).length := by
        rw [advance_total, matchesOf, length_map]
      rw [searchFiles_pass hpass, ih (by rw [hnext]; omega), hnext, Nat.sub_add_eq,
        take_of_length_le (Nat.le_of_lt hless), advance_sent, List.append_assoc]
      rfl
    · have hfull : opts.maxMatches - s.total - (matchesOf opts.maxPerFile f).length = 0 := by
        rw [length_matchesOf]
        omega
      rw [searchFiles_capped (by omega) hfile hlong, hfull, take_zero, append_nil,
        matchesOf, ← map_take, take_take, Nat.min_eq_left hfile]
      rfl
    · have hshort : f.lines.length ≤ opts.maxPerFile := hall ▸ hfile
      have hfull : opts.maxMatches - s.total - (matchesOf opts.maxPerFile f).length = 0 := by
        rw [length_matchesOf]
        omega
      rw [searchFiles_filled (by omega) hshort, hfull, take_zero, append_nil, matchesOf,
        take_of_length_le hshort, hall, ← map_take, take_length]
      cases f.readable
      · exact hafter _ (by rw [advance_total]; omega)
      · rfl

/-! ## What the flag says -/

/-- The files searched when the limit is reached: up to the first that is readable. -/
def lookedInto : List FileScan → List FileScan
  | [] => []
  | f :: files => if f.readable then [f] else f :: lookedInto files

theorem capped_after (htotal : s.total = opts.maxMatches) :
    (searchFiles opts files s).capped = true ↔
      s.capped = true ∨ ∃ g ∈ lookedInto files, g.lines ≠ [] := by
  induction files generalizing s with
  | nil => simp [searchFiles, lookedInto]
  | cons f files ih =>
    by_cases hnil : f.lines = []
    · have hadvance : (advance f.path f.lines s).total = opts.maxMatches := by
        rw [advance_total, hnil]
        exact htotal
      rw [searchFiles_filled (by rw [hnil]; exact htotal) (by rw [hnil]; exact Nat.zero_le _),
        lookedInto]
      cases f.readable with
      | true => simp [hnil]
      | false =>
        simp only [Bool.false_eq_true, if_false]
        rw [ih hadvance, advance_capped]
        simp [hnil]
    · have hlong : 0 < f.lines.length := length_pos_iff.mpr hnil
      have hmem : f ∈ lookedInto (f :: files) := by
        rw [lookedInto]
        split <;> exact mem_cons_self
      have hzero : s.total + 0 = opts.maxMatches := htotal
      rw [searchFiles_capped hzero (Nat.zero_le _) hlong]
      exact iff_of_true rfl (.inr ⟨f, hmem, hnil⟩)

theorem searchFiles_passes (pre files : List FileScan)
    (hless : s.total + (withinLimits opts.maxPerFile pre).length < opts.maxMatches) :
    ∃ t : Progress, t.total = s.total + (withinLimits opts.maxPerFile pre).length ∧
      t.capped = s.capped ∧ searchFiles opts (pre ++ files) s = searchFiles opts files t := by
  induction pre generalizing s with
  | nil => exact ⟨s, rfl, rfl, rfl⟩
  | cons f pre ih =>
    rw [withinLimits_cons, length_append] at hless ⊢
    have hnext : (advance f.path (f.lines.take opts.maxPerFile) s).total
        = s.total + (matchesOf opts.maxPerFile f).length := by
      rw [advance_total, matchesOf, length_map]
    obtain ⟨t, ht, hcapped, hrun⟩ := ih (by rw [hnext]; omega)
    rw [hnext, Nat.add_assoc] at ht
    rw [cons_append, searchFiles_pass (by omega)]
    exact ⟨t, ht, hcapped, hrun⟩

end

/-- The file of a walk that reaches the limit of all matches. -/
structure Fills (maxMatches maxPerFile : ℕ) (files pre : List FileScan) (f : FileScan)
    (post : List FileScan) : Prop where
  split : files = pre ++ f :: post
  before : pre = [] ∨ (withinLimits maxPerFile pre).length < maxMatches
  reaches : maxMatches ≤ (withinLimits maxPerFile pre).length + (matchesOf maxPerFile f).length

def wanted (maxMatches maxPerFile : ℕ) (pre : List FileScan) : ℕ :=
  maxMatches - (withinLimits maxPerFile pre).length

/-- The sink is called once more: by that file, or by one searched since it was not readable. -/
def CalledAgain (wanted : ℕ) (f : FileScan) (post : List FileScan) : Prop :=
  wanted < f.lines.length ∨ f.readable = false ∧ ∃ g ∈ lookedInto post, g.lines ≠ []

/-- The file has more within its own limit, or some file behind it has. -/
def LeavesOut (maxPerFile wanted : ℕ) (f : FileScan) (post : List FileScan) : Prop :=
  wanted < min maxPerFile f.lines.length ∨ 0 < maxPerFile ∧ ∃ g ∈ post, g.lines ≠ []

/-- At the file that reaches the limit the sink is called again when it should be. -/
def CapTells (maxMatches maxPerFile : ℕ) (files : List FileScan) : Prop :=
  ∀ pre f post, Fills maxMatches maxPerFile files pre f post →
    (CalledAgain (wanted maxMatches maxPerFile pre) f post ↔
      LeavesOut maxPerFile (wanted maxMatches maxPerFile pre) f post)

theorem withinLimits_pos (files : List FileScan) :
    0 < (withinLimits maxPerFile files).length ↔ 0 < maxPerFile ∧ ∃ g ∈ files, g.lines ≠ [] := by
  induction files with
  | nil => simp
  | cons f files ih =>
    rw [withinLimits_cons, length_append, Nat.add_pos_iff_pos_or_pos, ih, length_matchesOf,
      Nat.lt_min, length_pos_iff]
    simp only [mem_cons, exists_eq_or_imp]
    tauto

section
variable {opts : SearchOptions} {files pre post : List FileScan} {f : FileScan}

variable {maxMatches maxPerFile : ℕ}

theorem Fills.before_le (h : Fills maxMatches maxPerFile files pre f post) :
    (withinLimits maxPerFile pre).length ≤ maxMatches := by
  rcases h.before with rfl | hless
  · exact Nat.zero_le _
  · exact Nat.le_of_lt hless

theorem exists_fills (hne : files ≠ [])
    (hle : maxMatches ≤ (withinLimits maxPerFile files).length) :
    ∃ pre f post, Fills maxMatches maxPerFile files pre f post := by
  induction files generalizing maxMatches with
  | nil => exact absurd rfl hne
  | cons f files ih =>
    by_cases hreach : maxMatches ≤ (matchesOf maxPerFile f).length
    · exact ⟨[], f, files, rfl, .inl rfl, by simpa using hreach⟩
    · rw [withinLimits_cons, length_append] at hle
      have hne' : files ≠ [] := by
        rintro rfl
        simp at hle
        omega
      have hrest : maxMatches - (matchesOf maxPerFile f).length
          ≤ (withinLimits maxPerFile files).length := by omega
      obtain ⟨pre, g, post, rfl, hbefore, hreaches⟩ := ih hne' hrest
      refine ⟨f :: pre, g, post, rfl, .inr ?_, ?_⟩ <;>
        rw [withinLimits_cons, length_append]
      · rcases hbefore with rfl | hbefore
        · simpa using hreach
        · omega
      · omega

theorem Fills.called_again (h : Fills opts.maxMatches opts.maxPerFile files pre f post) :
    (searchFiles opts files ⟨0, false, []⟩).capped = true ↔
      CalledAgain (wanted opts.maxMatches opts.maxPerFile pre) f post := by
  obtain ⟨t, htotal, hcapped, hrun⟩ : ∃ t : Progress,
      t.total = (withinLimits opts.maxPerFile pre).length ∧ t.capped = false ∧
        searchFiles opts files ⟨0, false, []⟩ = searchFiles opts (f :: post) t := by
    rw [h.split]
    rcases h.before with rfl | hless
    · exact ⟨_, rfl, rfl, rfl⟩
    · have hless' : (⟨0, false, []⟩ : Progress).total
          + (withinLimits opts.maxPerFile pre).length < opts.maxMatches := by
        rwa [Nat.zero_add]
      simpa using searchFiles_passes pre (f :: post) hless'
  have hle := h.before_le
  have hwanted : t.total + wanted opts.maxMatches opts.maxPerFile pre = opts.maxMatches := by
    rw [htotal, wanted]
    omega
  rw [hrun]
  rcases file_cases opts.maxPerFile f (wanted opts.maxMatches opts.maxPerFile pre) with
    hless | ⟨hfile, hlong⟩ | ⟨hall, hfile⟩
  · have hreaches := h.reaches
    omega
  · rw [searchFiles_capped hwanted hfile hlong]
    exact iff_of_true rfl (.inl hlong)
  · rw [hall] at hwanted hfile
    rw [searchFiles_filled hwanted hfile, CalledAgain, hall]
    cases hread : f.readable with
    | true => simp [hcapped]
    | false =>
      simp only [Bool.false_eq_true, if_false]
      rw [capped_after (by rw [advance_total]; exact hwanted), advance_capped, hcapped]
      simp

theorem Fills.lt_iff (h : Fills maxMatches maxPerFile files pre f post) :
    maxMatches < (withinLimits maxPerFile files).length ↔
      LeavesOut maxPerFile (wanted maxMatches maxPerFile pre) f post := by
  have hle := h.before_le
  have hreaches := h.reaches
  rw [LeavesOut, ← withinLimits_pos, ← length_matchesOf, h.split, withinLimits_append,
    withinLimits_cons, length_append, length_append, wanted]
  omega

theorem capped_of_lt (hless : (withinLimits opts.maxPerFile files).length < opts.maxMatches) :
    (searchFiles opts files ⟨0, false, []⟩).capped = false := by
  have hless' : (⟨0, false, []⟩ : Progress).total
      + (withinLimits opts.maxPerFile files).length < opts.maxMatches := by
    rwa [Nat.zero_add]
  obtain ⟨t, htotal, hcapped, hrun⟩ := searchFiles_passes files [] hless'
  rw [append_nil] at hrun
  rw [hrun]
  exact hcapped

theorem flag_iff : ((searchFiles opts files ⟨0, false, []⟩).capped = true ↔
        opts.maxMatches < (withinLimits opts.maxPerFile files).length) ↔
      CapTells opts.maxMatches opts.maxPerFile files := by
  constructor
  · intro h pre f post hfills
    rw [← hfills.called_again, ← hfills.lt_iff]
    exact h
  · intro h
    by_cases hreached : files ≠ [] ∧ opts.maxMatches ≤ (withinLimits opts.maxPerFile files).length
    · obtain ⟨pre, f, post, hfills⟩ := exists_fills hreached.1 hreached.2
      rw [hfills.called_again, hfills.lt_iff]
      exact h pre f post hfills
    · rcases Decidable.em (files = []) with rfl | hne
      · simp [searchFiles]
      · have hless : (withinLimits opts.maxPerFile files).length < opts.maxMatches := by
          by_contra hge
          exact hreached ⟨hne, by omega⟩
        rw [capped_of_lt hless]
        simp
        omega

end

section
variable {RegexMatcher : Type} (escape : Text → Text)
  (build : Bool → Text → Except Text RegexMatcher)
  (scan : RegexMatcher → Text → List MatchedLine × Bool)

/-- What is received is always right. The flag is, exactly when at the file that reaches the
limit a further line is read if and only if one within the limits is left out. -/
theorem capped_iff (opts : SearchOptions) (walk : List DirEntry) :
    ((drainAll escape build scan opts walk).1
          = (withinLimits opts.maxPerFile (filesOf escape build scan opts walk)).take
            opts.maxMatches ∧
        ((drainAll escape build scan opts walk).2 = true ↔
          opts.maxMatches
            < (withinLimits opts.maxPerFile (filesOf escape build scan opts walk)).length)) ↔
      CapTells opts.maxMatches opts.maxPerFile (filesOf escape build scan opts walk) := by
  have hdrain : drainAll escape build scan opts walk =
      ((searchFiles opts (filesOf escape build scan opts walk) ⟨0, false, []⟩).sent,
        (searchFiles opts (filesOf escape build scan opts walk) ⟨0, false, []⟩).capped) := by
    rw [drainAll, runSearch, filesOf]
    cases opts.matcher escape build <;> rfl
  have hzero : (⟨0, false, []⟩ : Progress).total ≤ opts.maxMatches := Nat.zero_le _
  have hsent := searchFiles_sent (filesOf escape build scan opts walk) hzero
  rw [hdrain, ← flag_iff]
  exact and_iff_right (by simpa using hsent)

end

/-- Two files with one match each; the only limit is one match in all. -/
theorem second_file_unseen :
    ¬ ((drainAll id (fun _ => Except.ok) (fun _ _ => ([⟨1, "lorem".toList⟩], true))
          { query := "lorem".toList, maxMatches := 1 }
          [⟨"a.txt".toList, true⟩, ⟨"b.txt".toList, true⟩]).2 = true ↔
        1 < (withinLimits defaultMaxPerFile
          (filesOf id (fun _ => Except.ok) (fun _ _ => ([⟨1, "lorem".toList⟩], true))
            { query := "lorem".toList, maxMatches := 1 }
            [⟨"a.txt".toList, true⟩, ⟨"b.txt".toList, true⟩])).length) := by
  decide

end Codex.ContentSearch
