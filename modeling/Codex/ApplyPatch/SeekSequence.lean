import Codex.ApplyPatch.Derive
import Codex.Foundation.TieredSearch

/-!
# What seeking a sequence finds

The search goes through four ways of comparing lines, each laxer than the one before, and
takes the first position of the first that matches anywhere. For the end of the file only
the last possible position is looked at, wherever the search is to start.
-/

namespace Codex

open Foundation

/-! ## Passes -/

def passes : List (Text → Text) := [id, trimEnd, trim, normalise]

variable {lines pattern : List Text} {start i : ℕ} {eof : Bool} {view view' : Text → Text}

theorem trim_trimEnd (s : Text) : trim (trimEnd s) = trim s := by
  induction s using List.reverseRecOn with
  | nil => rfl
  | append_singleton s c ih =>
    unfold trim trimEnd trimStart at *
    by_cases hc : isWhitespace c = true
    · rw [List.rdropWhile_concat_pos _ _ _ hc, ih, List.dropWhile_append]
      split
      · rename_i hnil
        simp [List.isEmpty_iff.mp hnil, hc]
      · rw [List.rdropWhile_concat_pos _ _ _ hc]
    · rw [List.rdropWhile_concat_neg _ _ _ hc]

theorem matchesAt_map (f : Text → Text) (hf : ∀ s, f (view s) = view' s)
    (h : matchesAt view lines pattern i = true) : matchesAt view' lines pattern i = true := by
  unfold matchesAt at *
  simp only [List.all_eq_true, id_eq] at *
  intro b hb
  rw [List.mem_iff_getElem?] at hb
  obtain ⟨n, hn⟩ := hb
  obtain ⟨l, p, hl, hp, rfl⟩ := List.getElem?_zipWith_eq_some.mp hn
  have hsame := h (decide (view l = view p)) <| List.mem_iff_getElem?.mpr
    ⟨n, List.getElem?_zipWith_eq_some.mpr ⟨l, p, hl, hp, rfl⟩⟩
  rw [decide_eq_true_eq] at hsame ⊢
  rw [← hf l, ← hf p, hsame]

theorem matchesAt_laxer {stricter laxer : List (Text → Text)}
    (hpasses : passes = stricter ++ view :: laxer) (hlax : view' ∈ laxer)
    (h : matchesAt view lines pattern i = true) : matchesAt view' lines pattern i = true := by
  have hsteps : passes.Pairwise fun v v' => ∃ f : Text → Text, ∀ s, f (v s) = v' s := by
    unfold passes
    simp only [List.pairwise_cons, List.mem_cons, List.not_mem_nil, or_false, forall_eq_or_imp,
      forall_eq, id_eq]
    refine ⟨⟨⟨trimEnd, fun _ => rfl⟩, ⟨trim, fun _ => rfl⟩, ⟨normalise, fun _ => rfl⟩⟩,
      ⟨⟨trim, trim_trimEnd⟩, ⟨normalise, fun s => ?_⟩⟩, ⟨List.map normaliseChar, fun _ => rfl⟩, ?_⟩
    · unfold normalise
      rw [trim_trimEnd]
    · simp
  rw [hpasses] at hsteps
  obtain ⟨f, hf⟩ := (List.pairwise_cons.mp (List.pairwise_append.mp hsteps).2.1).1 view' hlax
  exact matchesAt_map f hf h

/-! ## Search -/

def StandsAt (view : Text → Text) (lines pattern : List Text) (start i : ℕ) : Prop :=
  start ≤ i ∧ i + pattern.length ≤ lines.length ∧ matchesAt view lines pattern i = true

instance instDecidableStandsAt (view : Text → Text) (lines pattern : List Text) (start i : ℕ) :
    Decidable (StandsAt view lines pattern start i) := inferInstanceAs (Decidable (_ ∧ _ ∧ _))

abbrev lastPosition (lines pattern : List Text) : ℕ := lines.length - pattern.length

theorem seekSequence_eq (hne : pattern ≠ []) (hroom : pattern.length ≤ lines.length) :
    seekSequence lines pattern start eof =
      let first := if eof then lastPosition lines pattern else start
      tieredSearch (fun view i => matchesAt view lines pattern i) passes
        (List.range' first (lastPosition lines pattern + 1 - first)) := by
  unfold seekSequence
  rw [if_neg hne, if_neg (not_lt.mpr hroom)]
  unfold tieredSearch passes seekPass
  simp only [List.findSome?_cons, List.findSome?_nil]
  generalize (List.range' _ _).find? (matchesAt id lines pattern) = a
  generalize (List.range' _ _).find? (matchesAt trimEnd lines pattern) = b
  generalize (List.range' _ _).find? (matchesAt trim lines pattern) = c
  generalize (List.range' _ _).find? (matchesAt normalise lines pattern) = d
  cases a <;> cases b <;> cases c <;> cases d <;> rfl

theorem mem_candidates {first : ℕ} (hroom : pattern.length ≤ lines.length) :
    i ∈ List.range' first (lastPosition lines pattern + 1 - first) ↔
      first ≤ i ∧ i + pattern.length ≤ lines.length := by
  rw [List.mem_range'_1]
  unfold lastPosition
  omega

theorem seekSequence_no_room (hne : pattern ≠ []) (hroom : ¬ pattern.length ≤ lines.length) :
    seekSequence lines pattern start eof = none := by
  unfold seekSequence
  rw [if_neg hne, if_pos (not_le.mp hroom)]

theorem StandsAt.room (h : StandsAt view lines pattern start i) :
    pattern.length ≤ lines.length := (Nat.le_add_left _ _).trans h.2.1

theorem seekSequence_eq_none (hne : pattern ≠ []) : seekSequence lines pattern start false = none ↔
      ∀ view ∈ passes, ∀ i, ¬ StandsAt view lines pattern start i := by
  by_cases hroom : pattern.length ≤ lines.length
  · rw [seekSequence_eq hne hroom, tieredSearch_eq_none]
    refine forall₂_congr fun view _ => ⟨fun h i ⟨hs, hfit, hm⟩ => ?_, fun h i hi => ?_⟩
    · rw [h i ((mem_candidates hroom).mpr ⟨hs, hfit⟩)] at hm
      cases hm
    · obtain ⟨hs, hfit⟩ := (mem_candidates hroom).mp hi
      exact Bool.eq_false_iff.mpr fun hm => h i ⟨hs, hfit, hm⟩
  · simp only [seekSequence_no_room hne hroom, true_iff]
    exact fun view _ i h => hroom h.room

theorem seekSequence_eq_some (hne : pattern ≠ []) :
    seekSequence lines pattern start false = some i ↔ ∃ stricter view laxer,
      passes = stricter ++ view :: laxer ∧ StandsAt view lines pattern start i ∧
        (∀ j, StandsAt view lines pattern start j → i ≤ j) ∧
        ∀ v ∈ stricter, ∀ j, ¬ StandsAt v lines pattern start j := by
  by_cases hroom : pattern.length ≤ lines.length
  · rw [seekSequence_eq hne hroom, tieredSearch_eq_some]
    simp only [Bool.false_eq_true, if_false, find?_range'_eq_some]
    refine exists_congr fun stricter => exists_congr fun view => exists_congr fun laxer => ?_
    refine and_congr_right fun _ => ⟨?_, ?_⟩
    · rintro ⟨⟨hs, hlt, hm, hfirst⟩, hnone⟩
      have hi := List.mem_range'_1.mpr ⟨hs, hlt⟩
      refine ⟨⟨hs, ((mem_candidates hroom).mp hi).2, hm⟩, fun j hj => ?_, fun v hv j hj => ?_⟩
      · by_contra hlt
        have hno := hfirst j hj.1 (not_le.mp hlt)
        rw [hj.2.2] at hno
        cases hno
      · have hno := hnone v hv j ((mem_candidates hroom).mpr ⟨hj.1, hj.2.1⟩)
        rw [hj.2.2] at hno
        cases hno
    · rintro ⟨⟨hs, hfit, hm⟩, hleast, hnone⟩
      have hi := (mem_candidates hroom).mpr ⟨hs, hfit⟩
      refine ⟨⟨hs, (List.mem_range'_1.mp hi).2, hm, fun j hj hji => ?_⟩, fun v hv j hj => ?_⟩
      · refine Bool.eq_false_iff.mpr fun hm' => ?_
        exact absurd (hleast j ⟨hj, by omega, hm'⟩) (not_le.mpr hji)
      · obtain ⟨hs', hfit'⟩ := (mem_candidates hroom).mp hj
        exact Bool.eq_false_iff.mpr fun hm' => hnone v hv j ⟨hs', hfit', hm'⟩
  · simp only [seekSequence_no_room hne hroom, reduceCtorEq, false_iff]
    rintro ⟨-, view, -, -, hstands, -⟩
    exact hroom hstands.room

theorem seekSequence_eof (hne : pattern ≠ []) (hroom : pattern.length ≤ lines.length) :
    seekSequence lines pattern start true =
      if ∃ view ∈ passes, matchesAt view lines pattern (lastPosition lines pattern) = true then
        some (lastPosition lines pattern) else none := by
  rw [seekSequence_eq hne hroom]
  simp only [if_true, Nat.add_sub_cancel_left, List.range'_one]
  split
  · rename_i h
    obtain ⟨view, hv, hm⟩ := h
    cases hfound : tieredSearch (fun view i => matchesAt view lines pattern i) passes
        [lastPosition lines pattern] with
    | none =>
      rw [tieredSearch_eq_none.mp hfound view hv _ List.mem_cons_self] at hm
      cases hm
    | some i =>
      obtain ⟨-, v, -, -, hfind, -⟩ := tieredSearch_eq_some.mp hfound
      rw [List.mem_singleton.mp (List.mem_of_find?_eq_some hfind)]
  · rename_i h
    refine tieredSearch_eq_none.mpr fun view hv i hi => ?_
    rw [List.mem_singleton.mp hi]
    exact Bool.eq_false_iff.mpr fun hm => h ⟨view, hv, hm⟩

/-! ## What is sought -/

variable (lines pattern start eof) in
/-- What the search is to find: a position from the start on in the strictest pass that
matches at one, the first of them; for the end of the file rather the last position of
all, where that matches in this pass. -/
def Sought : Option ℕ → Prop
  | none => ∀ view ∈ passes, ∀ i, ¬ StandsAt view lines pattern start i
  | some i => ∃ stricter view laxer, passes = stricter ++ view :: laxer ∧
      StandsAt view lines pattern start i ∧
      (∀ v ∈ stricter, ∀ j, ¬ StandsAt v lines pattern start j) ∧
      if eof = true ∧ StandsAt view lines pattern start (lastPosition lines pattern) then
        i = lastPosition lines pattern
      else ∀ j, StandsAt view lines pattern start j → i ≤ j

variable (lines pattern start) in
/-- The last position decides: it matches in each pass in which some position from the
start on does, and in none if it is before the start. -/
def LastDecides : Prop :=
  lines.length < pattern.length ∨
    (∀ view ∈ passes, (∃ i, StandsAt view lines pattern start i) →
      matchesAt view lines pattern (lastPosition lines pattern) = true) ∧
    (lastPosition lines pattern < start → ∀ view ∈ passes,
      matchesAt view lines pattern (lastPosition lines pattern) = false)

theorem standsAt_last (hroom : pattern.length ≤ lines.length) :
    StandsAt view lines pattern start (lastPosition lines pattern) ↔
      start ≤ lastPosition lines pattern ∧
        matchesAt view lines pattern (lastPosition lines pattern) = true := by
  unfold StandsAt lastPosition
  simp [Nat.sub_add_cancel hroom]

theorem sought_eof_iff (hne : pattern ≠ []) (hroom : pattern.length ≤ lines.length) :
    Sought lines pattern start true (seekSequence lines pattern start true) ↔
      LastDecides lines pattern start := by
  rw [seekSequence_eof hne hroom]
  constructor
  · intro h
    refine .inr ?_
    split at h
    · obtain ⟨stricter, view, laxer, hpasses, hstands, hnone, -⟩ := h
      have hlast := (standsAt_last hroom).mp hstands
      refine ⟨fun v hv ⟨i, hi⟩ => ?_, fun hlt => absurd hlast.1 (not_le.mpr hlt)⟩
      rw [hpasses] at hv
      rcases List.mem_append.mp hv with hv | hv
      · exact absurd hi (hnone v hv i)
      · rcases List.mem_cons.mp hv with rfl | hv
        · exact hlast.2
        · exact matchesAt_laxer hpasses hv hlast.2
    · rename_i hno
      refine ⟨fun v hv ⟨i, hi⟩ => absurd hi (h v hv i), fun _ v hv => ?_⟩
      exact Bool.eq_false_iff.mpr fun hm => hno ⟨v, hv, hm⟩
  · rintro (hlt | ⟨hall, hbefore⟩)
    · exact absurd hroom (not_le.mpr hlt)
    split
    · rename_i hyes
      have hle : start ≤ lastPosition lines pattern := by
        by_contra hlt
        obtain ⟨v, hv, hm⟩ := hyes
        rw [hbefore (not_le.mp hlt) v hv] at hm
        cases hm
      -- the strictest pass that matches at the last position
      obtain ⟨view, hfind⟩ : ∃ view, passes.find? (fun view =>
          matchesAt view lines pattern (lastPosition lines pattern)) = some view :=
        Option.isSome_iff_exists.mp (List.find?_isSome.mpr hyes)
      obtain ⟨hm, stricter, laxer, hpasses, hfirst⟩ := List.find?_eq_some_iff_append.mp hfind
      have hstands := (standsAt_last hroom).mpr ⟨hle, hm⟩
      refine ⟨stricter, view, laxer, hpasses, hstands, fun v hv j hj => ?_, ?_⟩
      · have hlast := hall v (by rw [hpasses]; simp [hv]) ⟨j, hj⟩
        have hno := hfirst v hv
        rw [hlast] at hno
        cases hno
      · rw [if_pos ⟨rfl, hstands⟩]
    · rename_i hno
      exact fun v hv i hi => hno ⟨v, hv, hall v hv ⟨i, hi⟩⟩

/-- The search finds what is sought, but for the end of the file only if the last
position decides. -/
theorem seekSequence_sought_iff (hne : pattern ≠ []) :
    Sought lines pattern start eof (seekSequence lines pattern start eof) ↔
      (eof = true → LastDecides lines pattern start) := by
  by_cases hroom : pattern.length ≤ lines.length
  · cases eof with
    | true => simp [sought_eof_iff hne hroom]
    | false =>
      simp only [Bool.false_eq_true, false_imp_iff, iff_true]
      cases hseek : seekSequence lines pattern start false with
      | none => exact (seekSequence_eq_none hne).mp hseek
      | some i =>
        obtain ⟨stricter, view, laxer, hpasses, hstands, hleast, hnone⟩ :=
          (seekSequence_eq_some hne).mp hseek
        refine ⟨stricter, view, laxer, hpasses, hstands, hnone, ?_⟩
        exact hleast
  · rw [seekSequence_no_room hne hroom]
    simp only [LastDecides, not_le.mp hroom, true_or, implies_true, iff_true]
    exact fun view _ i h => hroom h.room

theorem seekSequence_sought_iff_last :
    Sought [['a'], ['b']] [['b']] 0 true (seekSequence [['a'], ['b']] [['b']] 0 true) ↔
      (true = true → LastDecides [['a'], ['b']] [['b']] 0) :=
  seekSequence_sought_iff (by decide)

/-- A pattern that stands only before the end is not found when it is sought there. -/
theorem eof_does_not_fall_back : seekSequence [['a'], ['b']] [['a']] 0 true = none ∧
      ¬ Sought [['a'], ['b']] [['a']] 0 true (seekSequence [['a'], ['b']] [['a']] 0 true) := by
  have hnone : seekSequence [['a'], ['b']] [['a']] 0 true = none := by decide
  refine ⟨hnone, fun h => ?_⟩
  exact h id (by simp [passes]) 0 (by decide)

end Codex
