import Mathlib.Data.Set.Finite.Lemmas
import Mathlib.Data.Set.Finite.List
import Codex.StreamParser.InlineHiddenTag

/-!
# Several hidden tags

The scan of a whole text takes the earliest opener, the longest one there, and then
everything up to its closer. The parser does the same for every split of the text exactly
if no opener can be complete while another that began no later still needs characters.
-/

namespace Codex.InlineHiddenTagParser

open Foundation List

section
variable {τ : Type}

/-- The opener to take next: the earliest one, of two at one position the longer, of two
as long the first. -/
def IsNextOpener (specs : List (InlineTagSpec τ)) (text : Text) (pos idx : ℕ)
    (spec : InlineTagSpec τ) : Prop :=
  specs[idx]? = some spec ∧ spec.opn <+: text.drop pos ∧
    ∀ idx' spec' pos', specs[idx']? = some spec' → spec'.opn <+: text.drop pos' →
      pos < pos' ∨ pos = pos' ∧ (spec'.opn.length < spec.opn.length ∨
        spec'.opn.length = spec.opn.length ∧ idx ≤ idx')

/-- What the scan makes of the rest of a text, outside a tag or inside one. -/
inductive Scanned (specs : List (InlineTagSpec τ)) :
    Option (ActiveTag τ) → Text → StreamTextChunk (ExtractedInlineTag τ) → Prop where
  | plain {text : Text} (h : ∀ spec ∈ specs, ∀ pos, ¬ spec.opn <+: text.drop pos) :
      Scanned specs none text ⟨text, []⟩
  | opens {text : Text} {pos idx : ℕ} {spec : InlineTagSpec τ}
      {out : StreamTextChunk (ExtractedInlineTag τ)} (h : IsNextOpener specs text pos idx spec)
      (hrest : Scanned specs (some ⟨spec.tag, spec.close, []⟩)
        (text.drop (pos + spec.opn.length)) out) :
      Scanned specs none text ⟨text.take pos ++ out.visibleText, out.extracted⟩
  | unclosed {text : Text} {active : ActiveTag τ} (h : findFirst active.close text = none) :
      Scanned specs (some active) text ⟨[], [⟨active.tag, active.content ++ text⟩]⟩
  | closes {text : Text} {active : ActiveTag τ} {i : ℕ}
      {out : StreamTextChunk (ExtractedInlineTag τ)} (h : findFirst active.close text = some i)
      (hrest : Scanned specs none (text.drop (i + active.close.length)) out) :
      Scanned specs (some active) text
        ⟨out.visibleText, ⟨active.tag, active.content ++ text.take i⟩ :: out.extracted⟩

def NoRace (specs : List (InlineTagSpec τ)) : Prop :=
  ∀ p ∈ specs, ∀ q ∈ specs, ∀ x y : Text, q.opn = x ++ p.opn ++ y → y = []

/-! ## The next opener -/

theorem before_iff {a b : OpenMatch τ} : a.before b = true ↔
    a.pos < b.pos ∨ a.pos = b.pos ∧ (b.len < a.len ∨ a.len = b.len ∧ a.idx < b.idx) := by
  simp [OpenMatch.before]

theorem minMatch_eq_none {ms : List (OpenMatch τ)} : minMatch ms = none ↔ ms = [] := by
  cases ms <;> simp [minMatch]

theorem minMatch_eq_some {ms : List (OpenMatch τ)} {m : OpenMatch τ} (h : minMatch ms = some m) :
    m ∈ ms ∧ ∀ n ∈ ms, ¬ n.before m = true := by
  have hfold : ∀ (ms : List (OpenMatch τ)) (best : OpenMatch τ),
      (ms.foldl (fun best n => if n.before best then n else best) best ∈ best :: ms) ∧
        ∀ n ∈ best :: ms,
          ¬ n.before (ms.foldl (fun best n => if n.before best then n else best) best) = true := by
    intro ms
    induction ms with
    | nil => simp [before_iff]
    | cons k ms ih =>
      intro best
      rw [foldl_cons]
      by_cases hk : k.before best = true
      · rw [if_pos hk]
        obtain ⟨hmem, hleast⟩ := ih k
        refine ⟨mem_cons_of_mem _ hmem, fun n hn => ?_⟩
        rcases mem_cons.mp hn with rfl | hn
        · have hkk := hleast k mem_cons_self
          rw [before_iff] at hk hkk ⊢
          omega
        · exact hleast n hn
      · rw [if_neg hk]
        obtain ⟨hmem, hleast⟩ := ih best
        refine ⟨?_, fun n hn => ?_⟩
        · rcases mem_cons.mp hmem with h | h
          · rw [h]
            exact mem_cons_self
          · exact mem_cons_of_mem _ (mem_cons_of_mem _ h)
        · rcases mem_cons.mp hn with rfl | hn
          · exact hleast n mem_cons_self
          · rcases mem_cons.mp hn with rfl | hn
            · have hbest := hleast best mem_cons_self
              rw [before_iff] at hk hbest ⊢
              omega
            · exact hleast n (mem_cons_of_mem _ hn)
  cases ms with
  | nil => cases h
  | cons first ms =>
    cases h
    exact hfold ms first

theorem findFirst_none_iff {needle s : Text} :
    findFirst needle s = none ↔ ∀ pos, ¬ needle <+: s.drop pos := by
  rw [findFirst_eq_none]
  constructor
  · intro h pos
    rcases Nat.le_total pos s.length with hle | hge
    · exact h pos hle
    · have hend := h s.length le_rfl
      rwa [drop_eq_nil_of_le hge, ← drop_length (l := s)]
  · exact fun h pos _ => h pos

theorem exists_findFirst {needle s : Text} {pos : ℕ} (h : needle <+: s.drop pos) :
    ∃ i, findFirst needle s = some i ∧ i ≤ pos := by
  cases hfind : findFirst needle s with
  | none => exact absurd h (findFirst_none_iff.mp hfind pos)
  | some i =>
    refine ⟨i, rfl, ?_⟩
    by_contra hlt
    exact (findFirst_eq_some.mp hfind).2.2 pos (not_le.mp hlt) h

variable {parser : InlineHiddenTagParser τ} {m : OpenMatch τ} {specs : List (InlineTagSpec τ)}
  {s t : Text}

theorem mem_matches : m ∈ (parser.specs.zipIdx.filterMap fun s =>
      (findFirst s.1.opn parser.pending).map fun pos => (⟨pos, s.1.opn.length, s.2, s.1⟩ :
        OpenMatch τ)) ↔
    parser.specs[m.idx]? = some m.spec ∧ m.len = m.spec.opn.length ∧
      findFirst m.spec.opn parser.pending = some m.pos := by
  simp only [mem_filterMap, Option.map_eq_some_iff, Prod.exists, mk_mem_zipIdx_iff_getElem?]
  constructor
  · rintro ⟨spec, idx, hspec, pos, hpos, rfl⟩
    exact ⟨hspec, rfl, hpos⟩
  · rintro ⟨hspec, hlen, hpos⟩
    refine ⟨m.spec, m.idx, hspec, m.pos, hpos, ?_⟩
    rw [← hlen]

theorem findNextOpen_eq_none : parser.findNextOpen = none ↔
    ∀ spec ∈ parser.specs, findFirst spec.opn parser.pending = none := by
  unfold findNextOpen
  rw [minMatch_eq_none, filterMap_eq_nil_iff]
  simp only [Option.map_eq_none_iff, Prod.forall]
  constructor
  · intro h spec hspec
    obtain ⟨idx, hidx⟩ := mem_iff_getElem?.mp hspec
    exact h spec idx (mk_mem_zipIdx_iff_getElem?.mpr hidx)
  · intro h spec idx hidx
    exact h spec (mem_iff_getElem?.mpr ⟨idx, mk_mem_zipIdx_iff_getElem?.mp hidx⟩)

theorem findNextOpen_eq_some (h : parser.findNextOpen = some m) :
    findFirst m.spec.opn parser.pending = some m.pos ∧
      IsNextOpener parser.specs parser.pending m.pos m.idx m.spec := by
  obtain ⟨hmem, hleast⟩ := minMatch_eq_some h
  obtain ⟨hspec, hlen, hpos⟩ := mem_matches.mp hmem
  refine ⟨hpos, hspec, (findFirst_eq_some.mp hpos).2.1, fun idx' spec' pos' hspec' hocc => ?_⟩
  obtain ⟨i, hi, hle⟩ := exists_findFirst hocc
  have hno := hleast ⟨i, spec'.opn.length, idx', spec'⟩ (mem_matches.mpr ⟨hspec', rfl, hi⟩)
  rw [before_iff] at hno
  dsimp only at hno
  omega

theorem IsNextOpener.unique {pos pos' idx idx' : ℕ} {spec spec' : InlineTagSpec τ}
    (h : IsNextOpener specs s pos idx spec) (h' : IsNextOpener specs s pos' idx' spec') :
    pos = pos' ∧ spec = spec' := by
  have hle := h.2.2 idx' spec' pos' h'.1 h'.2.1
  have hge := h'.2.2 idx spec pos h.1 h.2.1
  obtain ⟨rfl, rfl⟩ : pos = pos' ∧ idx = idx' := by omega
  exact ⟨rfl, Option.some.inj (h.1.symm.trans h'.1)⟩

variable {spec : InlineTagSpec τ}

theorem IsNextOpener.append {pos idx : ℕ} (hrace : NoRace specs) (hne : spec.opn ≠ [])
    (h : IsNextOpener specs s pos idx spec) (t : Text) :
    IsNextOpener specs (s ++ t) pos idx spec := by
  obtain ⟨hspec, hocc, hleast⟩ := h
  have hlen := hocc.length_le
  have hpos := length_pos_iff.mpr hne
  rw [length_drop] at hlen
  refine ⟨hspec, ?_, fun idx' spec' pos' hspec' hocc' => ?_⟩
  · rw [drop_append_of_le_length (by omega)]
    exact hocc.trans (prefix_append _ _)
  · by_cases hin : pos' + spec'.opn.length ≤ s.length
    · refine hleast idx' spec' pos' hspec' ?_
      rw [drop_append_of_le_length (by omega)] at hocc'
      refine prefix_append_left hocc' ?_
      rw [length_drop]
      omega
    · -- an opener from there on would still need characters when this one is complete
      by_contra hlate
      have hle : pos' ≤ pos := by omega
      obtain ⟨u, hu⟩ := hocc
      have hsplit : (s ++ t).drop pos' =
          ((s.drop pos').take (pos - pos') ++ spec.opn) ++ (u ++ t) := by
        rw [drop_append_of_le_length (by omega), List.append_assoc, ← List.append_assoc spec.opn,
          hu, ← List.append_assoc]
        congr 1
        have hdrop : s.drop pos = (s.drop pos').drop (pos - pos') := by
          rw [drop_drop, Nat.add_sub_cancel' hle]
        rw [hdrop, take_append_drop]
      rw [hsplit] at hocc'
      have hinner : (s.drop pos').take (pos - pos') ++ spec.opn <+: spec'.opn := by
        refine prefix_of_prefix_length_le (prefix_append _ _) hocc' ?_
        simp only [length_append, length_take, length_drop]
        omega
      obtain ⟨y, hy⟩ := hinner
      have hnil := hrace spec (mem_iff_getElem?.mpr ⟨idx, hspec⟩) spec'
        (mem_iff_getElem?.mpr ⟨idx', hspec'⟩) _ y hy.symm
      have hlen' := congrArg List.length hy
      rw [hnil] at hlen'
      simp only [length_append, length_take, length_drop, length_nil] at hlen'
      omega

/-! ## What is held back for any of the tags -/

theorem le_foldl_max (l : List ℕ) (start : ℕ) :
    start ≤ l.foldl max start ∧ (∀ n ∈ l, n ≤ l.foldl max start) ∧
      (l.foldl max start = start ∨ l.foldl max start ∈ l) := by
  induction l generalizing start with
  | nil => simp
  | cons k l ih =>
    obtain ⟨hstart, hall, hwhich⟩ := ih (max start k)
    rw [foldl_cons]
    refine ⟨(le_max_left _ _).trans hstart, fun n hn => ?_, ?_⟩
    · rcases mem_cons.mp hn with rfl | hn
      · exact (le_max_right _ _).trans hstart
      · exact hall n hn
    · rcases hwhich with hwhich | hwhich
      · rw [hwhich]
        rcases max_choice start k with h | h
        · exact .inl h
        · rw [h]
          exact .inr mem_cons_self
      · exact .inr (mem_cons_of_mem _ hwhich)

theorem longest_le_maxOpen (h : spec ∈ parser.specs) :
    longestSuffixPrefix spec.opn parser.pending ≤ parser.maxOpenPrefixSuffixLen :=
  (le_foldl_max _ 0).2.1 _ (mem_map_of_mem h)

theorem not_occurs_visible (hnone : parser.findNextOpen = none) (hspec : spec ∈ parser.specs)
    {j : ℕ} (hj : j < parser.pending.length - parser.maxOpenPrefixSuffixLen) :
    ¬ spec.opn <+: (parser.pending ++ t).drop j := by
  refine not_occurs_released (findNextOpen_eq_none.mp hnone spec hspec) t ?_
  have hle := longest_le_maxOpen hspec
  unfold released
  rw [length_take]
  omega

theorem drop_shift {n : ℕ} (hn : n ≤ s.length) (i : ℕ) :
    (s ++ t).drop (n + i) = (s.drop n ++ t).drop i := by
  rw [← drop_drop, drop_append_of_le_length hn]

variable {out : StreamTextChunk (ExtractedInlineTag τ)}

theorem Scanned.shift {n : ℕ} (hn : n ≤ s.length)
    (hno : ∀ spec ∈ specs, ∀ j < n, ¬ spec.opn <+: (s ++ t).drop j)
    (h : Scanned specs none (s.drop n ++ t) out) :
    Scanned specs none (s ++ t) ⟨s.take n ++ out.visibleText, out.extracted⟩ := by
  have hwhole : s ++ t = s.take n ++ (s.drop n ++ t) := by
    rw [← List.append_assoc, take_append_drop]
  have htake : (s.take n).length = n := by simp [hn]
  cases h with
  | plain hplain =>
    rw [← hwhole]
    refine .plain fun spec hspec pos hocc => ?_
    rcases Nat.lt_or_ge pos n with hlt | hge
    · exact hno spec hspec pos hlt hocc
    · obtain ⟨k, rfl⟩ := Nat.exists_eq_add_of_le hge
      rw [drop_shift hn] at hocc
      exact hplain spec hspec k hocc
  | @opens _ pos idx spec out hnext hrest =>
    have hopens : IsNextOpener specs (s ++ t) (n + pos) idx spec := by
      refine ⟨hnext.1, by rw [drop_shift hn]; exact hnext.2.1, fun idx' spec' pos' hspec' hocc => ?_⟩
      rcases Nat.lt_or_ge pos' n with hlt | hge
      · exact absurd hocc (hno spec' (mem_iff_getElem?.mpr ⟨idx', hspec'⟩) pos' hlt)
      · obtain ⟨k, rfl⟩ := Nat.exists_eq_add_of_le hge
        rw [drop_shift hn] at hocc
        have := hnext.2.2 idx' spec' k hspec' hocc
        omega
    have htext : (s ++ t).take (n + pos) = s.take n ++ (s.drop n ++ t).take pos := by
      have hadd : (s.take n ++ (s.drop n ++ t)).take ((s.take n).length + pos) =
          s.take n ++ (s.drop n ++ t).take pos := take_length_add_append pos
      rwa [htake, ← hwhole] at hadd
    have hdrop : (s ++ t).drop (n + pos + spec.opn.length) =
        (s.drop n ++ t).drop (pos + spec.opn.length) := by
      rw [Nat.add_assoc, drop_shift hn]
    have hall := Scanned.opens hopens (by rw [hdrop]; exact hrest)
    rw [htext] at hall
    rw [← List.append_assoc]
    exact hall

theorem Scanned.shift_active {active : ActiveTag τ} (hnone : findFirst active.close s = none)
    (h : Scanned specs (some { active with content := active.content ++ released active.close s })
      (heldBack active.close s ++ t) out) : Scanned specs (some active) (s ++ t) out := by
  have hwhole : s ++ t = released active.close s ++ (heldBack active.close s ++ t) := by
    rw [← List.append_assoc, released_append_heldBack]
  cases h with
  | unclosed hun =>
    rw [List.append_assoc, ← hwhole]
    exact .unclosed (by rw [findFirst_append_of_none hnone, hun]; rfl)
  | @closes _ _ i out hclose hrest =>
    have hfound : findFirst active.close (s ++ t) =
        some ((released active.close s).length + i) := by
      rw [findFirst_append_of_none hnone, hclose]
      rfl
    have htake : (s ++ t).take ((released active.close s).length + i) =
        released active.close s ++ (heldBack active.close s ++ t).take i := by
      rw [hwhole, take_length_add_append]
    rw [List.append_assoc, ← htake]
    refine .closes hfound ?_
    rwa [Nat.add_assoc, occurs_shift]

variable (parser) in
def Settled : Prop :=
  match parser.active with
  | some active => findFirst active.close parser.pending = none
  | none => ∀ spec ∈ parser.specs, ∀ pos, ¬ spec.opn <+: parser.pending.drop pos

variable (specs) in
structure NonemptyDelimiters : Prop where
  opn : ∀ spec ∈ specs, spec.opn ≠ []
  close : ∀ spec ∈ specs, spec.close ≠ []

variable {needle : Text}

theorem findFirst_take_drop {i : ℕ} (h : findFirst needle s = some i) (t : Text) :
    (s ++ t).take i = s.take i ∧
      (s ++ t).drop (i + needle.length) = s.drop (i + needle.length) ++ t := by
  obtain ⟨hi, hp, -⟩ := findFirst_eq_some.mp h
  have hl := hp.length_le
  rw [length_drop] at hl
  exact ⟨take_append_of_le_length hi, drop_append_of_le_length (by omega)⟩

theorem findFirst_suffix_none {n : ℕ} (h : findFirst needle s = none) :
    findFirst needle (s.drop n) = none := by
  refine findFirst_none_iff.mpr fun pos hocc => ?_
  rw [drop_drop] at hocc
  exact findFirst_none_iff.mp h _ hocc

/-! ### One turn of the loop -/

section
variable {active : ActiveTag τ} {i : ℕ} (fuel : ℕ)

theorem pushLoop_found (hactive : parser.active = some active)
    (hfind : findFirst active.close parser.pending = some i)
    (out : StreamTextChunk (ExtractedInlineTag τ)) : pushLoop (fuel + 1) parser out = pushLoop fuel
      { parser with active := none, pending := parser.pending.drop (i + active.close.length) }
      { out with extracted :=
          out.extracted ++ [⟨active.tag, active.content ++ parser.pending.take i⟩] } := by
  rw [pushLoop]
  simp only [hactive, hfind]

theorem pushLoop_held (hactive : parser.active = some active)
    (hfind : findFirst active.close parser.pending = none)
    (out : StreamTextChunk (ExtractedInlineTag τ)) : pushLoop (fuel + 1) parser out = ({ parser with
      active := some { active with
        content := active.content ++ released active.close parser.pending }
      pending := heldBack active.close parser.pending }, out) := by
  rw [pushLoop]
  simp only [hactive, hfind]
  rfl

theorem pushLoop_opened (hactive : parser.active = none) (hopen : parser.findNextOpen = some m)
    (out : StreamTextChunk (ExtractedInlineTag τ)) : pushLoop (fuel + 1) parser out = pushLoop fuel
      { parser with
        pending := parser.pending.drop (m.pos + m.spec.opn.length)
        active := some ⟨m.spec.tag, m.spec.close, []⟩ }
      { out with visibleText := out.visibleText ++ parser.pending.take m.pos } := by
  rw [pushLoop]
  simp only [hactive, hopen]

end

/-- What is given in going from one state to another is what the scan of any further text
begins with, and nothing is left to take. -/
structure Gives (before after : InlineHiddenTagParser τ)
    (given : StreamTextChunk (ExtractedInlineTag τ)) : Prop where
  specs : after.specs = before.specs
  settled : after.Settled
  close : ∀ active, after.active = some active → active.close ≠ []
  scanned : ∀ t rest, Scanned before.specs after.active (after.pending ++ t) rest →
    Scanned before.specs before.active (before.pending ++ t) (given.append rest)

theorem pushLoop_gives (fuel : ℕ) : ∀ (parser : InlineHiddenTagParser τ)
    (out : StreamTextChunk (ExtractedInlineTag τ)), NonemptyDelimiters parser.specs →
      NoRace parser.specs → (∀ active, parser.active = some active → active.close ≠ []) →
      parser.pending.length < fuel →
      ∃ given, (pushLoop fuel parser out).2 = out.append given ∧
        Gives parser (pushLoop fuel parser out).1 given := by
  induction fuel with
  | zero => exact fun _ _ _ _ _ h => absurd h (Nat.not_lt_zero _)
  | succ fuel ih =>
    intro parser out hne hrace hclose hfuel
    cases hactive : parser.active with
    | some active =>
      have hcl := hclose active hactive
      cases hfind : findFirst active.close parser.pending with
      | some i =>
        have hlt := findFirst_drop_lt hcl hfind
        obtain ⟨given, hgiven, hg⟩ := ih { parser with
            active := none, pending := parser.pending.drop (i + active.close.length) }
          { out with extracted :=
              out.extracted ++ [⟨active.tag, active.content ++ parser.pending.take i⟩] }
          hne hrace (by simp) (by dsimp only; omega)
        rw [pushLoop_found fuel hactive hfind out]
        refine ⟨⟨given.visibleText, ⟨active.tag, active.content ++ parser.pending.take i⟩ ::
          given.extracted⟩, ?_, hg.specs, hg.settled, hg.close, fun t rest hrest => ?_⟩
        · rw [hgiven]
          simp [StreamTextChunk.append]
        · obtain ⟨htake, hdrop⟩ := findFirst_take_drop hfind t
          have hcont := Scanned.closes (findFirst_append_of_some hfind t)
            (by rw [hdrop]; exact hg.scanned t rest hrest)
          rw [htake] at hcont
          rw [hactive]
          exact hcont
      | none =>
        rw [pushLoop_held fuel hactive hfind out]
        refine ⟨.default, by simp [StreamTextChunk.append, StreamTextChunk.default], rfl,
          findFirst_suffix_none hfind, ?_, fun t rest hrest => ?_⟩
        · rintro _ ⟨⟩
          exact hcl
        · rw [hactive]
          exact hrest.shift_active hfind
    | none =>
      cases hopen : parser.findNextOpen with
      | some m =>
        obtain ⟨hfind, hnext⟩ := findNextOpen_eq_some hopen
        have hmem : m.spec ∈ parser.specs := mem_iff_getElem?.mpr ⟨m.idx, hnext.1⟩
        have hopn := hne.opn m.spec hmem
        have hlt := findFirst_drop_lt hopn hfind
        obtain ⟨given, hgiven, hg⟩ := ih { parser with
            pending := parser.pending.drop (m.pos + m.spec.opn.length)
            active := some ⟨m.spec.tag, m.spec.close, []⟩ }
          { out with visibleText := out.visibleText ++ parser.pending.take m.pos } hne hrace
          (by rintro _ ⟨⟩; exact hne.close m.spec hmem) (by dsimp only; omega)
        rw [pushLoop_opened fuel hactive hopen out]
        refine ⟨⟨parser.pending.take m.pos ++ given.visibleText, given.extracted⟩, ?_, hg.specs,
          hg.settled, hg.close, fun t rest hrest => ?_⟩
        · rw [hgiven]
          simp [StreamTextChunk.append]
        · obtain ⟨htake, hdrop⟩ := findFirst_take_drop hfind t
          have hcont := Scanned.opens (hnext.append hrace hopn t)
            (by rw [hdrop]; exact hg.scanned t rest hrest)
          rw [htake] at hcont
          rw [hactive]
          simpa [StreamTextChunk.append] using hcont
      | none =>
        have hstep : pushLoop (fuel + 1) parser out = ({ parser with
            pending := parser.pending.drop (parser.pending.length - parser.maxOpenPrefixSuffixLen) },
            { out with visibleText := out.visibleText ++
              parser.pending.take (parser.pending.length - parser.maxOpenPrefixSuffixLen) }) := by
          rw [pushLoop]
          simp only [hactive, hopen]
        rw [hstep]
        refine ⟨⟨parser.pending.take (parser.pending.length - parser.maxOpenPrefixSuffixLen), []⟩,
          by simp [StreamTextChunk.append], rfl, ?_, by simp [hactive], fun t rest hrest => ?_⟩
        · rw [hactive]
          intro spec hspec pos
          exact findFirst_none_iff.mp
            (findFirst_suffix_none (findNextOpen_eq_none.mp hopen spec hspec)) pos
        · simp only [hactive] at hrest ⊢
          exact hrest.shift (Nat.sub_le _ _) fun spec hspec j hj =>
            not_occurs_visible hopen hspec hj

/-! ## Splits without races -/

def new (specs : List (InlineTagSpec τ)) : InlineHiddenTagParser τ := ⟨specs, [], none⟩

def hiddenTagParser : StreamTextParser (InlineHiddenTagParser τ) (ExtractedInlineTag τ) where
  pushStr := pushStr
  finish := finish

theorem collect_cons (parser : InlineHiddenTagParser τ) (chunk : Text) (chunks : List Text) :
    collectChunks hiddenTagParser parser (chunk :: chunks) =
      (parser.pushStr chunk).2.append
        (collectChunks hiddenTagParser (parser.pushStr chunk).1 chunks) :=
  collectChunks_cons hiddenTagParser parser chunk chunks

theorem collect_nil (parser : InlineHiddenTagParser τ) :
    collectChunks hiddenTagParser parser [] = parser.finish.2 := by
  simp [collectChunks, pushChunks, hiddenTagParser, StreamTextChunk.append, StreamTextChunk.default]

theorem finish_scanned (h : parser.Settled) :
    Scanned parser.specs parser.active parser.pending parser.finish.2 := by
  unfold Settled at h
  unfold finish
  cases hactive : parser.active with
  | some active =>
    rw [hactive] at h
    exact .unclosed h
  | none =>
    rw [hactive] at h
    exact .plain h

theorem pushStr_gives (hne : NonemptyDelimiters parser.specs) (hrace : NoRace parser.specs)
    (hclose : ∀ active, parser.active = some active → active.close ≠ []) (chunk : Text) :
    Gives { parser with pending := parser.pending ++ chunk } (parser.pushStr chunk).1
      (parser.pushStr chunk).2 := by
  obtain ⟨given, hgiven, hg⟩ := pushLoop_gives ((parser.pending ++ chunk).length + 1)
    { parser with pending := parser.pending ++ chunk } .default hne hrace hclose (Nat.lt_succ_self _)
  have hout : (parser.pushStr chunk).2 = given := by
    refine hgiven.trans ?_
    simp [StreamTextChunk.append, StreamTextChunk.default]
  rw [hout]
  exact hg

theorem collect_scanned (hne : NonemptyDelimiters parser.specs) (hrace : NoRace parser.specs)
    (hsettled : parser.Settled) (hclose : ∀ active, parser.active = some active → active.close ≠ [])
    (chunks : List Text) : Scanned parser.specs parser.active (parser.pending ++ chunks.flatten)
      (collectChunks hiddenTagParser parser chunks) := by
  induction chunks generalizing parser with
  | nil =>
    rw [collect_nil, flatten_nil, append_nil]
    exact finish_scanned hsettled
  | cons chunk chunks ih =>
    have hg := pushStr_gives hne hrace hclose chunk
    have hspecs : (parser.pushStr chunk).1.specs = parser.specs := hg.specs
    have hrest := ih (by rw [hspecs]; exact hne) (by rw [hspecs]; exact hrace) hg.settled hg.close
    rw [hspecs] at hrest
    rw [collect_cons, flatten_cons, ← List.append_assoc]
    exact hg.scanned _ _ hrest

theorem new_settled (hne : NonemptyDelimiters specs) : (new specs).Settled := by
  intro spec hspec pos hocc
  unfold new at hocc
  rw [drop_nil] at hocc
  exact hne.opn spec hspec (prefix_nil.mp hocc)

/-! ## Splits with a race -/

def upToClose (close text : Text) : Text :=
  match findFirst close text with
  | some i => text.take i
  | none => text

theorem upToClose_append {close : Text} (hnone : findFirst close s = none) (t : Text) :
    upToClose close (s ++ t) = released close s ++ upToClose close (heldBack close s ++ t) := by
  have hwhole : s ++ t = released close s ++ (heldBack close s ++ t) := by
    rw [← List.append_assoc, released_append_heldBack]
  unfold upToClose
  rw [findFirst_append_of_none hnone]
  cases findFirst close (heldBack close s ++ t) with
  | none => exact hwhole
  | some i =>
    dsimp only [Option.map_some]
    rw [hwhole, take_length_add_append]

theorem upToClose_nil_append {close : Text} (hs : s ≠ []) (h : upToClose close s = []) :
    upToClose close (s ++ t) = [] := by
  unfold upToClose at h ⊢
  cases hfind : findFirst close s with
  | none =>
    rw [hfind] at h
    exact absurd h hs
  | some i =>
    rw [hfind] at h
    rw [findFirst_append_of_some hfind]
    dsimp only at h ⊢
    rw [(findFirst_take_drop hfind t).1, h]

theorem pushLoop_grows (fuel : ℕ) (parser : InlineHiddenTagParser τ)
    (out : StreamTextChunk (ExtractedInlineTag τ)) :
    out.visibleText <+: (pushLoop fuel parser out).2.visibleText ∧
      out.extracted <+: (pushLoop fuel parser out).2.extracted := by
  induction fuel generalizing parser out with
  | zero => exact ⟨prefix_rfl, prefix_rfl⟩
  | succ fuel ih =>
    rw [pushLoop]
    split
    · rename_i active _
      split
      · rename_i i _
        obtain ⟨hvisible, hextracted⟩ := ih
          { parser with active := none, pending := parser.pending.drop (i + active.close.length) }
          { out with extracted :=
              out.extracted ++ [⟨active.tag, active.content ++ parser.pending.take i⟩] }
        exact ⟨hvisible, (prefix_append _ _).trans hextracted⟩
      · exact ⟨prefix_rfl, prefix_rfl⟩
    · split
      · rename_i m _
        obtain ⟨hvisible, hextracted⟩ := ih
          { parser with
            pending := parser.pending.drop (m.pos + m.spec.opn.length)
            active := some ⟨m.spec.tag, m.spec.close, []⟩ }
          { out with visibleText := out.visibleText ++ parser.pending.take m.pos }
        exact ⟨(prefix_append _ _).trans hvisible, hextracted⟩
      · exact ⟨prefix_append _ _, prefix_rfl⟩

theorem pushLoop_found_grows (fuel : ℕ) {active : ActiveTag τ} {i : ℕ}
    (hactive : parser.active = some active) (hfind : findFirst active.close parser.pending = some i)
    (out : StreamTextChunk (ExtractedInlineTag τ)) :
    out.extracted ++ [⟨active.tag, active.content ++ parser.pending.take i⟩] <+:
      (pushLoop (fuel + 1) parser out).2.extracted := by
  rw [pushLoop_found fuel hactive hfind out]
  exact (pushLoop_grows fuel
    { parser with active := none, pending := parser.pending.drop (i + active.close.length) }
    { out with extracted :=
        out.extracted ++ [⟨active.tag, active.content ++ parser.pending.take i⟩] }).2

theorem loop_collect_active (chunks : List Text) (fuel : ℕ) (parser : InlineHiddenTagParser τ)
    (active : ActiveTag τ) (hactive : parser.active = some active)
    (out : StreamTextChunk (ExtractedInlineTag τ)) :
    out.extracted ++ [⟨active.tag, active.content ++
        upToClose active.close (parser.pending ++ chunks.flatten)⟩] <+:
      (pushLoop (fuel + 1) parser out).2.extracted ++
        (collectChunks hiddenTagParser (pushLoop (fuel + 1) parser out).1 chunks).extracted := by
  induction chunks generalizing fuel parser active out with
  | nil =>
    rw [flatten_nil, append_nil]
    cases hfind : findFirst active.close parser.pending with
    | some i =>
      have hgrows := pushLoop_found_grows fuel hactive hfind out
      have hup : upToClose active.close parser.pending = parser.pending.take i := by
        simp [upToClose, hfind]
      rw [hup]
      exact hgrows.trans (prefix_append _ _)
    | none =>
      have hup : upToClose active.close parser.pending = parser.pending := by
        simp [upToClose, hfind]
      rw [pushLoop_held fuel hactive hfind out, hup, collect_nil]
      simp [finish, released_append_heldBack]
  | cons chunk chunks ih =>
    rw [flatten_cons]
    cases hfind : findFirst active.close parser.pending with
    | some i =>
      have hgrows := pushLoop_found_grows fuel hactive hfind out
      have hup : upToClose active.close (parser.pending ++ (chunk ++ chunks.flatten)) =
          parser.pending.take i := by
        simp [upToClose, findFirst_append_of_some hfind, (findFirst_take_drop hfind _).1]
      rw [hup]
      exact hgrows.trans (prefix_append _ _)
    | none =>
      have hpushed := ih (heldBack active.close parser.pending ++ chunk).length
        { parser with
          active := some { active with
            content := active.content ++ released active.close parser.pending }
          pending := heldBack active.close parser.pending ++ chunk } _ rfl .default
      rw [pushLoop_held fuel hactive hfind out, collect_cons, upToClose_append hfind,
        ← List.append_assoc, ← List.append_assoc (heldBack _ _)]
      exact prefix_append_right_inj _ |>.mpr hpushed

theorem split_takes (hne : NonemptyDelimiters specs) {chunk : Text}
    (hopen : (⟨specs, chunk, none⟩ : InlineHiddenTagParser τ).findNextOpen = some m) (rest : Text) :
    [⟨m.spec.tag, upToClose m.spec.close ((chunk ++ rest).drop (m.pos + m.spec.opn.length))⟩] <+:
      (collectChunks hiddenTagParser (new specs) [chunk, rest]).extracted := by
  obtain ⟨hfind, hnext⟩ := findNextOpen_eq_some hopen
  have hpos := length_pos_iff.mpr (hne.opn m.spec (mem_iff_getElem?.mpr ⟨_, hnext.1⟩))
  have hlen := hnext.2.1.length_le
  rw [length_drop] at hlen
  dsimp only at hlen
  obtain ⟨fuel, hfuel⟩ : ∃ fuel, chunk.length = fuel + 1 := Nat.exists_eq_add_one.mpr (by omega)
  have htaken := loop_collect_active [rest] fuel
    ⟨specs, chunk.drop (m.pos + m.spec.opn.length), some ⟨m.spec.tag, m.spec.close, []⟩⟩ _ rfl
    ⟨chunk.take m.pos, []⟩
  have hpush : (new specs).pushStr chunk = pushLoop (fuel + 1)
      ⟨specs, chunk.drop (m.pos + m.spec.opn.length), some ⟨m.spec.tag, m.spec.close, []⟩⟩
      ⟨chunk.take m.pos, []⟩ := by
    rw [← hfuel]
    exact pushLoop_opened chunk.length rfl hopen .default
  rw [collect_cons, hpush, (findFirst_take_drop hfind rest).2]
  simp only [flatten_cons, flatten_nil, append_nil, nil_append] at htaken
  exact htaken

theorem Scanned.at_opener {idx : ℕ} {c : Text} (hnext : IsNextOpener specs s 0 idx spec)
    (hdrop : s.drop spec.opn.length = c) (hclose : findFirst spec.close c = none)
    (h : Scanned specs none s out) : out.extracted = [⟨spec.tag, c⟩] := by
  cases h with
  | plain hplain => exact absurd hnext.2.1 (hplain spec (mem_iff_getElem?.mpr ⟨_, hnext.1⟩) 0)
  | opens hnext' hrest =>
    obtain ⟨rfl, rfl⟩ := hnext.unique hnext'
    rw [Nat.zero_add, hdrop] at hrest
    cases hrest with
    | unclosed => rfl
    | closes hfound =>
      rw [hclose] at hfound
      cases hfound

theorem findFirst_nil (hne : needle ≠ []) : findFirst needle [] = none := by
  refine findFirst_none_iff.mpr fun pos hocc => hne ?_
  rw [drop_nil] at hocc
  exact prefix_nil.mp hocc

theorem findFirst_singleton {c : Char} (hne : needle ≠ []) (hhead : needle.head? ≠ some c) :
    findFirst needle [c] = none := by
  refine findFirst_none_iff.mpr fun pos hocc => ?_
  obtain ⟨a, needle, rfl⟩ := exists_cons_of_ne_nil hne
  cases pos with
  | zero =>
    obtain ⟨rfl, -⟩ := cons_prefix_cons.mp hocc
    exact hhead rfl
  | succ pos => simp at hocc

theorem exists_not_head (needle : Text) : ∃ c : Char, needle.head? ≠ some c := by
  by_cases h : needle.head? = some 'a'
  · exact ⟨'b', by simp [h]⟩
  · exact ⟨'a', h⟩

theorem exists_findNextOpen (hspec : spec ∈ specs) (pos : ℕ) (hocc : spec.opn <+: s.drop pos) :
    ∃ m, (⟨specs, s, none⟩ : InlineHiddenTagParser τ).findNextOpen = some m := by
  cases hopen : (⟨specs, s, none⟩ : InlineHiddenTagParser τ).findNextOpen with
  | none => exact absurd hocc (findFirst_none_iff.mp (findNextOpen_eq_none.mp hopen spec hspec) pos)
  | some m => exact ⟨m, rfl⟩

theorem exists_split_of_race (hne : NonemptyDelimiters specs) (hrace : ¬ NoRace specs) :
    ∃ chunks, ¬ Scanned specs none chunks.flatten
      (collectChunks hiddenTagParser (new specs) chunks) := by
  let racing : Set (InlineTagSpec τ) :=
    {q | q ∈ specs ∧ ∃ p ∈ specs, ∃ x y : Text, q.opn = x ++ p.opn ++ y ∧ y ≠ []}
  have hfinite : racing.Finite := (finite_toSet specs).subset fun q hq => hq.1
  have hsome : racing.Nonempty := by
    unfold NoRace at hrace
    push Not at hrace
    obtain ⟨p, hp, q, hq, x, y, hxy, hy⟩ := hrace
    exact ⟨q, hq, p, hp, x, y, hxy, hy⟩
  -- of the openers with one inside take a longest
  obtain ⟨q, ⟨hq, p, hp, x, y, hxy, hy⟩, hlongest⟩ :=
    Set.exists_max_image racing (fun q => q.opn.length) hfinite hsome
  obtain ⟨m, hinner⟩ := exists_findNextOpen (s := x ++ p.opn) hp x.length (by rw [drop_left])
  obtain ⟨n, houter⟩ := exists_findNextOpen (s := q.opn) hq 0 prefix_rfl
  have hn := (findNextOpen_eq_some houter).2
  have hmem : n.spec ∈ specs := mem_iff_getElem?.mpr ⟨_, hn.1⟩
  obtain ⟨hpos, hlen⟩ : n.pos = 0 ∧ n.spec.opn.length = q.opn.length := by
    obtain ⟨idx, hidx⟩ := mem_iff_getElem?.mp hq
    have hbest := hn.2.2 idx q 0 hidx prefix_rfl
    have hle := hn.2.1.length_le
    rw [length_drop] at hle
    dsimp only at hle
    omega
  rw [hpos] at hn
  obtain ⟨c, hc⟩ := exists_not_head n.spec.close
  have hnext : IsNextOpener specs (q.opn ++ [c]) 0 n.idx n.spec := by
    refine ⟨hn.1, hn.2.1.trans (prefix_append _ _), fun idx' spec' pos' hspec' hocc => ?_⟩
    rcases Nat.eq_zero_or_pos pos' with rfl | hpos'
    · rw [drop_zero] at hocc
      rcases Nat.lt_or_ge q.opn.length spec'.opn.length with hlong | hshort
      · -- one longer by the character added has the same opener inside
        have hle := hocc.length_le
        rw [length_append, length_singleton] at hle
        have hwhole : spec'.opn = q.opn ++ [c] :=
          hocc.eq_of_length (by rw [length_append, length_singleton]; omega)
        have hmax := hlongest spec' ⟨mem_iff_getElem?.mpr ⟨_, hspec'⟩, p, hp, x, y ++ [c],
          by rw [hwhole, hxy]; simp, by simp⟩
        omega
      · exact hn.2.2 idx' spec' 0 hspec' (prefix_append_left hocc hshort)
    · exact .inl hpos'
  by_contra hall
  push Not at hall
  have hwhole : x ++ p.opn ++ y = q.opn := hxy.symm
  have hclose := hne.close n.spec hmem
  have hscan := hall [x ++ p.opn, y]
  have hscan' := hall [x ++ p.opn, y ++ [c]]
  simp only [flatten_cons, flatten_nil, append_nil] at hscan hscan'
  rw [← List.append_assoc, hwhole] at hscan'
  rw [hwhole] at hscan
  -- nothing stands after the opener, then just the character added
  have hempty := hscan.at_opener hn (by rw [hlen, drop_length]) (findFirst_nil hclose)
  have hone := hscan'.at_opener hnext (by rw [hlen, drop_left]) (findFirst_singleton hclose hc)
  have hfirst := split_takes hne hinner y
  have hfirst' := split_takes hne hinner (y ++ [c])
  rw [hempty, hwhole] at hfirst
  rw [hone, ← List.append_assoc, hwhole] at hfirst'
  have hrest := (cons_prefix_cons.mp hfirst).1
  have hrest' := (cons_prefix_cons.mp hfirst').1
  simp only [ExtractedInlineTag.mk.injEq] at hrest hrest'
  have hinlen := (findNextOpen_eq_some hinner).2.2.1.length_le
  have hylen := length_pos_iff.mpr hy
  have houtlen := congrArg List.length hwhole
  simp only [length_append, length_drop] at hinlen houtlen
  have hmlen := length_pos_iff.mpr
    (hne.opn m.spec (mem_iff_getElem?.mpr ⟨_, (findNextOpen_eq_some hinner).2.1⟩))
  have hleft : q.opn.drop (m.pos + m.spec.opn.length) ≠ [] := by
    intro hnil
    have hle := drop_eq_nil_iff.mp hnil
    omega
  rw [drop_append_of_le_length (by omega), upToClose_nil_append hleft hrest.2] at hrest'
  exact cons_ne_nil c [] hrest'.2.symm

/-- The parser takes every text, however it is split, as its scan does, exactly if no opener
is complete inside another that still needs characters. -/
theorem collectChunks_scanned_iff {specs : List (InlineTagSpec τ)} (hne : NonemptyDelimiters specs) :
    (∀ chunks : List Text, Scanned specs none chunks.flatten
      (collectChunks hiddenTagParser (new specs) chunks)) ↔ NoRace specs := by
  constructor
  · intro hall
    by_contra hrace
    obtain ⟨chunks, hnot⟩ := exists_split_of_race hne hrace
    exact hnot (hall chunks)
  · intro hrace chunks
    have hscan : Scanned (new specs).specs (new specs).active
        ((new specs).pending ++ chunks.flatten) (collectChunks hiddenTagParser (new specs) chunks) :=
      collect_scanned hne hrace (new_settled hne) (by simp [new]) chunks
    exact hscan

end

def plainTags : List (InlineTagSpec Bool) :=
  [⟨false, "<a>".toList, "</a>".toList⟩, ⟨true, "<b>".toList, "</b>".toList⟩]

theorem collectChunks_scanned_plain :
    Scanned plainTags none ["x<a".toList, ">y</a>z".toList].flatten
      (collectChunks hiddenTagParser (new plainTags) ["x<a".toList, ">y</a>z".toList]) := by
  refine (collectChunks_scanned_iff ⟨by decide, by decide⟩).mpr ?_ _
  intro p hp q hq x y h
  have hlen : ∀ spec ∈ plainTags, spec.opn.length = 3 := by decide
  have hsum := congrArg List.length h
  simp only [length_append, hlen p hp, hlen q hq] at hsum
  exact length_eq_zero_iff.mp (by omega)

def racingTags : List (InlineTagSpec Bool) :=
  [⟨false, "<a".toList, "</a>".toList⟩, ⟨true, "<ab>".toList, "</ab>".toList⟩]

theorem shorter_opener_taken : ¬ Scanned racingTags none ["<a".toList, "b>y".toList].flatten
    (collectChunks hiddenTagParser (new racingTags) ["<a".toList, "b>y".toList]) := by
  intro h
  have hfound : (⟨racingTags, "<ab>y".toList, none⟩ : InlineHiddenTagParser Bool).findNextOpen =
      some ⟨0, 4, 1, ⟨true, "<ab>".toList, "</ab>".toList⟩⟩ := rfl
  have hextracted := h.at_opener (findNextOpen_eq_some hfound).2 (c := "y".toList) rfl (by decide)
  exact absurd hextracted (by decide)

end Codex.InlineHiddenTagParser
