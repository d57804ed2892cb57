import Codex.ExecPolicy.Overlay

/-!
# Policies that match every command by the same rules

Agreement is kept when both policies get the same rules on top. A rule on top of a
policy changes no match exactly if the policy has its match already.
-/

namespace Codex.Policy

open Foundation List

variable (paths : ProcessPaths)

/-- Every command gets the same matches, as a set, and the same decision. -/
def Agree (p q : Policy) : Prop :=
  ∀ cmd options,
    (∀ heuristics m, m ∈ p.matchesForCommandWithOptions paths cmd heuristics options ↔
      m ∈ q.matchesForCommandWithOptions paths cmd heuristics options) ∧
    ∀ heuristics, (p.checkWithOptions paths cmd heuristics options).map (·.decision) =
      (q.checkWithOptions paths cmd heuristics options).map (·.decision)

variable {paths} {p q o : Policy} {cmd : List Text}

theorem eq_nil_congr {α : Type} {l l' : List α} (h : ∀ a, a ∈ l ↔ a ∈ l') : l = [] ↔ l' = [] := by
  simp only [eq_nil_iff_forall_not_mem, h]

theorem fromMatches_decision (ms : List RuleMatch) :
    (Evaluation.fromMatches ms).map (·.decision) = strictestOf ms := by
  unfold Evaluation.fromMatches strictestOf
  cases (ms.map (·.decision)).max? <;> rfl

theorem agree_iff : Agree paths p q ↔
    ∀ cmd options m, m ∈ p.matchedRules paths cmd options ↔ m ∈ q.matchedRules paths cmd options := by
  constructor
  · intro h cmd options m
    have hnone := (h cmd options).1 none m
    rwa [matchesForCommand_none, matchesForCommand_none] at hnone
  · intro h cmd options
    have hsets : ∀ heuristics m, m ∈ p.matchesForCommandWithOptions paths cmd heuristics options ↔
        m ∈ q.matchesForCommandWithOptions paths cmd heuristics options := by
      intro heuristics m
      by_cases hp : p.matchedRules paths cmd options = []
      · have hq := (eq_nil_congr (h cmd options)).mp hp
        unfold matchesForCommandWithOptions
        rw [hp, hq]
      · have hq := mt (eq_nil_congr (h cmd options)).mpr hp
        rw [matchesForCommand_of_matched hp, matchesForCommand_of_matched hq]
        exact h cmd options m
    refine ⟨hsets, fun heuristics => ?_⟩
    unfold checkWithOptions
    rw [fromMatches_decision, fromMatches_decision]
    exact strictestOf_congr (hsets (some heuristics))

theorem Agree.refl (p : Policy) : Agree paths p p := agree_iff.mpr fun _ _ _ => Iff.rfl

theorem Agree.symm (h : Agree paths p q) : Agree paths q p := by
  rw [agree_iff] at h ⊢
  intro cmd options m
  exact (h cmd options m).symm

theorem Agree.trans (h : Agree paths p q) (h' : Agree paths q o) : Agree paths p o := by
  rw [agree_iff] at h h' ⊢
  intro cmd options m
  exact (h cmd options m).trans (h' cmd options m)

theorem Agree.exact (h : Agree paths p q) (m : RuleMatch) :
    m ∈ p.matchExactRules cmd ↔ m ∈ q.matchExactRules cmd := by
  have hexact : ∀ r : Policy, r.matchedRules paths cmd ⟨false⟩ = r.matchExactRules cmd := by
    intro r
    unfold matchedRules
    by_cases hr : r.matchExactRules cmd = []
    · rw [if_neg (not_not_intro hr), hr]
      rfl
    · rw [if_pos hr]
  have hm := agree_iff.mp h cmd ⟨false⟩ m
  rwa [hexact, hexact] at hm

/-! ## Rules on top -/

/-- The table keeps the command's program out of the rules for its base name. -/
def Excluded (paths : ProcessPaths) (policy : Policy) (cmd : List Text) : Prop :=
  ∃ program basename, hostProgram paths cmd = some (program, basename) ∧
    policy.excludes program basename = true

theorem mem_matchHost_mergeOverlay (ho : o.hostExecutablesByName = []) (m : RuleMatch) :
    m ∈ (p.mergeOverlay o).matchHostExecutableRules paths cmd ↔
      m ∈ p.matchHostExecutableRules paths cmd ∨
        ¬ Excluded paths p cmd ∧ m ∈ o.matchHostExecutableRules paths cmd := by
  have hnone : ∀ basename, o.hostExecutables basename = none := by
    intro basename
    unfold hostExecutables
    rw [ho]
    rfl
  unfold matchHostExecutableRules Excluded
  cases hp : hostProgram paths cmd with
  | none => simp
  | some found =>
    obtain ⟨program, basename⟩ := found
    have hoexcl : o.excludes program basename = false := by
      unfold excludes
      rw [hnone]
    simp only [excludes_mergeOverlay, hnone, if_true, hoexcl, getVec_mergeOverlay,
      filterMap_append, map_append, Option.some.injEq, Prod.mk.injEq]
    cases hexcl : p.excludes program basename with
    | true | false => simp [hexcl]

theorem excluded_congr (h : p.hostExecutablesByName = q.hostExecutablesByName) :
    Excluded paths p cmd ↔ Excluded paths q cmd := by
  unfold Excluded excludes hostExecutables
  rw [h]

theorem mem_matchedRules {options : MatchOptions} (m : RuleMatch) :
    m ∈ p.matchedRules paths cmd options ↔
      m ∈ p.matchExactRules cmd ∨ p.matchExactRules cmd = [] ∧
        options.resolveHostExecutables = true ∧ m ∈ p.matchHostExecutableRules paths cmd := by
  unfold matchedRules
  by_cases hexact : p.matchExactRules cmd = []
  · rw [if_neg (not_not_intro hexact), hexact]
    cases options.resolveHostExecutables <;> simp
  · rw [if_pos hexact]
    simp [hexact]

theorem Agree.mergeOverlay (h : Agree paths p q)
    (htable : p.hostExecutablesByName = q.hostExecutablesByName)
    (ho : o.hostExecutablesByName = []) : Agree paths (p.mergeOverlay o) (q.mergeOverlay o) := by
  rw [agree_iff]
  intro cmd options m
  have hexact : ∀ m, m ∈ (p.mergeOverlay o).matchExactRules cmd ↔
      m ∈ (q.mergeOverlay o).matchExactRules cmd := by
    intro m
    rw [matchExactRules_mergeOverlay, matchExactRules_mergeOverlay, mem_append, mem_append, h.exact]
  rw [mem_matchedRules, mem_matchedRules, hexact, eq_nil_congr hexact]
  refine or_congr_right (and_congr_right fun hnil => and_congr_right fun hresolve => ?_)
  rw [matchExactRules_mergeOverlay, append_eq_nil_iff] at hnil
  have hpnil := (eq_nil_congr fun m => h.exact m).mpr hnil.1
  have hhost := agree_iff.mp h cmd options m
  rw [mem_matchedRules, mem_matchedRules, hpnil, hnil.1] at hhost
  simp only [not_mem_nil, false_or, true_and, hresolve] at hhost
  rw [mem_matchHost_mergeOverlay ho, mem_matchHost_mergeOverlay ho, hhost, excluded_congr htable]

/-! ## A redundant rule -/

def allowRule (first : Text) (rest : List Text) : Policy :=
  ⟨[(first, ⟨⟨first, rest.map .single⟩, .allow, none⟩)], [], []⟩

def allowMatch (pre : List Text) : RuleMatch := .prefixRuleMatch pre .allow none none

theorem zip_append_right {α β : Type} {l : List α} {x : List β} (h : x.length = l.length)
    (y : List β) : l.zip (x ++ y) = l.zip x := by
  calc l.zip (x ++ y)
      = (l ++ []).zip (x ++ y) := by rw [append_nil]
    _ = l.zip x ++ [].zip y := zip_append h.symm
    _ = l.zip x := append_nil _

theorem matchesPrefix_eq_some {pattern : PrefixPattern} {cmd matched : List Text} :
    pattern.matchesPrefix cmd = some matched ↔
      ∃ args tail, cmd = matched ++ tail ∧ matched = pattern.first :: args ∧
        args.length = pattern.rest.length ∧
        (pattern.rest.zip args).all (fun (token, arg) => token.matchesToken arg) = true := by
  cases cmd with
  | nil =>
    constructor
    · intro h
      cases h
    · rintro ⟨args, tail, hcmd, rfl, -, -⟩
      cases hcmd
  | cons program given =>
    unfold PrefixPattern.matchesPrefix
    by_cases hbad : given.length < pattern.rest.length ∨ program ≠ pattern.first
    · simp only [if_pos hbad]
      constructor
      · intro h
        cases h
      · rintro ⟨args, tail, hcmd, rfl, hlen, -⟩
        obtain ⟨hprogram, hgiven⟩ := List.cons.inj hcmd
        rcases hbad with hshort | hother
        · rw [hgiven, append_eq, length_append] at hshort
          omega
        · exact absurd hprogram hother
    · simp only [if_neg hbad]
      rw [not_or, Nat.not_lt, not_not] at hbad
      obtain ⟨hlong, rfl⟩ := hbad
      constructor
      · intro h
        have hlen : (given.take pattern.rest.length).length = pattern.rest.length := by
          rw [length_take]
          omega
        have hz := zip_append_right hlen (given.drop pattern.rest.length)
        rw [take_append_drop] at hz
        by_cases hall : (pattern.rest.zip given).all (fun (token, arg) => token.matchesToken arg) = true
        · rw [if_pos hall, Option.some.injEq] at h
          refine ⟨given.take pattern.rest.length, given.drop pattern.rest.length, ?_, h.symm, hlen, ?_⟩
          · rw [← h, take_succ_cons, cons_append, take_append_drop]
          · rw [← hz]
            exact hall
        · rw [if_neg hall] at h
          cases h
      · rintro ⟨args, tail, hcmd, rfl, hlen, hall⟩
        obtain ⟨-, rfl⟩ := List.cons.inj hcmd
        rw [append_eq, zip_append_right hlen, if_pos hall, take_succ_cons, ← hlen, take_left]

theorem zip_singles_all {tokens args : List Text} (h : args.length = tokens.length) :
    ((tokens.map PatternToken.single).zip args).all (fun (token, arg) => token.matchesToken arg) =
      true ↔ args = tokens := by
  induction tokens generalizing args with
  | nil => simpa using h
  | cons t tokens ih =>
    cases args with
    | nil => cases h
    | cons a args =>
      rw [map_cons, zip_cons_cons, all_cons, Bool.and_eq_true, ih (Nat.succ.inj h), List.cons.injEq]
      refine and_congr_left fun _ => ?_
      show decide (t = a) = true ↔ a = t
      rw [decide_eq_true_eq]
      exact eq_comm

variable {first : Text} {rest : List Text} {m : RuleMatch}

theorem matchesPrefix_singles {cmd matched : List Text} :
    (PrefixPattern.mk first (rest.map .single)).matchesPrefix cmd = some matched ↔
      matched = first :: rest ∧ first :: rest <+: cmd := by
  rw [matchesPrefix_eq_some]
  constructor
  · rintro ⟨args, tail, rfl, rfl, hlen, hall⟩
    rw [length_map] at hlen
    rw [zip_singles_all hlen] at hall
    rw [hall]
    exact ⟨rfl, prefix_append _ _⟩
  · rintro ⟨rfl, tail, rfl⟩
    exact ⟨rest, tail, rfl, rfl, by rw [length_map], (zip_singles_all rfl).mpr rfl⟩

theorem matchesCommand_append {rule : PrefixRule} {pre tail : List Text} {d : Decision}
    {j : Option Text} (h : rule.matchesCommand pre = some (.prefixRuleMatch pre d none j)) :
    rule.matchesCommand (pre ++ tail) = some (.prefixRuleMatch pre d none j) := by
  unfold PrefixRule.matchesCommand at h ⊢
  rw [Option.map_eq_some_iff] at h ⊢
  obtain ⟨matched, hmatched, heq⟩ := h
  obtain ⟨rfl, rfl, rfl⟩ : matched = pre ∧ rule.decision = d ∧ rule.justification = j := by
    simpa using heq
  obtain ⟨args, tail', -, hshape, hlen, hall⟩ := matchesPrefix_eq_some.mp hmatched
  exact ⟨matched, matchesPrefix_eq_some.mpr ⟨args, tail, rfl, hshape, hlen, hall⟩, rfl⟩

theorem matchesCommand_allowRule {cmd : List Text} :
    PrefixRule.matchesCommand ⟨⟨first, rest.map .single⟩, .allow, none⟩ cmd = some m ↔
      m = allowMatch (first :: rest) ∧ first :: rest <+: cmd := by
  unfold PrefixRule.matchesCommand allowMatch
  rw [Option.map_eq_some_iff]
  constructor
  · rintro ⟨matched, hmatched, rfl⟩
    obtain ⟨rfl, hpre⟩ := matchesPrefix_singles.mp hmatched
    exact ⟨rfl, hpre⟩
  · rintro ⟨rfl, hpre⟩
    exact ⟨first :: rest, matchesPrefix_singles.mpr ⟨rfl, hpre⟩, rfl⟩

theorem getVec_allowRule {program : Text} {rule : PrefixRule} :
    rule ∈ (allowRule first rest).getVec program ↔
      first = program ∧ rule = ⟨⟨first, rest.map .single⟩, .allow, none⟩ := by
  unfold getVec allowRule
  by_cases h : first = program <;> simp [h]

theorem mem_exact_allowRule : m ∈ (allowRule first rest).matchExactRules cmd ↔
      m = allowMatch (first :: rest) ∧ first :: rest <+: cmd := by
  cases cmd with
  | nil =>
    constructor
    · intro h
      exact absurd h not_mem_nil
    · rintro ⟨-, h⟩
      exact absurd (prefix_nil.mp h) (cons_ne_nil _ _)
  | cons program args =>
    unfold matchExactRules
    simp only [mem_filterMap, getVec_allowRule]
    constructor
    · rintro ⟨rule, ⟨rfl, rfl⟩, hm⟩
      exact matchesCommand_allowRule.mp hm
    · rintro ⟨rfl, hpre⟩
      obtain ⟨rfl, -⟩ := cons_prefix_cons.mp hpre
      exact ⟨_, ⟨rfl, rfl⟩, matchesCommand_allowRule.mpr ⟨rfl, hpre⟩⟩

theorem mem_exact_of_prefix (h : allowMatch (first :: rest) ∈ p.matchExactRules (first :: rest))
    (hpre : first :: rest <+: cmd) : allowMatch (first :: rest) ∈ p.matchExactRules cmd := by
  obtain ⟨tail, rfl⟩ := hpre
  unfold matchExactRules at h ⊢
  simp only [cons_append, mem_filterMap] at h ⊢
  obtain ⟨rule, hrule, hm⟩ := h
  exact ⟨rule, hrule, matchesCommand_append hm⟩

theorem mem_host_of_exact (h : allowMatch (first :: rest) ∈ p.matchExactRules (first :: rest))
    (hexcl : ¬ Excluded paths p cmd)
    (hm : m ∈ (allowRule first rest).matchHostExecutableRules paths cmd) :
    m ∈ p.matchHostExecutableRules paths cmd := by
  unfold matchHostExecutableRules Excluded at *
  cases hp : hostProgram paths cmd with
  | none =>
    rw [hp] at hm
    exact absurd hm not_mem_nil
  | some found =>
    obtain ⟨program, basename⟩ := found
    have hin : p.excludes program basename = false := by
      by_contra hex
      rw [Bool.not_eq_false] at hex
      exact hexcl ⟨program, basename, hp, hex⟩
    rw [hp] at hm
    simp only [hin, Bool.false_eq_true, if_false, mem_map]
    have hnotable : (allowRule first rest).excludes program basename = false := rfl
    simp only [hnotable, Bool.false_eq_true, if_false, mem_map, mem_filterMap,
      getVec_allowRule] at hm
    obtain ⟨_, ⟨rule, ⟨rfl, rfl⟩, hmatch⟩, rfl⟩ := hm
    obtain ⟨rfl, hpre⟩ := matchesCommand_allowRule.mp hmatch
    exact ⟨_, mem_exact_of_prefix h hpre, rfl⟩

theorem agree_allowRule_iff : Agree paths (p.mergeOverlay (allowRule first rest)) p ↔
      allowMatch (first :: rest) ∈ p.matchExactRules (first :: rest) := by
  constructor
  · intro h
    rw [← h.exact, matchExactRules_mergeOverlay, mem_append, mem_exact_allowRule]
    exact .inr ⟨rfl, prefix_rfl⟩
  · intro h
    rw [agree_iff]
    intro cmd options m
    have hexact : ∀ m, m ∈ (p.mergeOverlay (allowRule first rest)).matchExactRules cmd ↔
        m ∈ p.matchExactRules cmd := by
      intro m
      rw [matchExactRules_mergeOverlay, mem_append, mem_exact_allowRule]
      refine or_iff_left_of_imp ?_
      rintro ⟨rfl, hpre⟩
      exact mem_exact_of_prefix h hpre
    rw [mem_matchedRules, mem_matchedRules, hexact, eq_nil_congr hexact,
      mem_matchHost_mergeOverlay rfl]
    refine or_congr_right (and_congr_right fun _ => and_congr_right fun _ => ?_)
    refine or_iff_left_of_imp ?_
    rintro ⟨hexcl, hm⟩
    exact mem_host_of_exact h hexcl hm

/-- Of two policies that agree, each may take the rule or not: they still agree exactly if
both take it, neither does, or its match is there already. -/
theorem agree_taken_iff {left right : Prop} [Decidable left] [Decidable right] (h : Agree paths p q)
    (htable : p.hostExecutablesByName = q.hostExecutablesByName) :
    Agree paths (if left then p else p.mergeOverlay (allowRule first rest))
        (if right then q else q.mergeOverlay (allowRule first rest)) ↔
      (left ↔ right) ∨ allowMatch (first :: rest) ∈ q.matchExactRules (first :: rest) := by
  by_cases hl : left <;> by_cases hr : right
  · rw [if_pos hl, if_pos hr]
    exact ⟨fun _ => .inl ⟨fun _ => hr, fun _ => hl⟩, fun _ => h⟩
  · rw [if_pos hl, if_neg hr, ← agree_allowRule_iff]
    simp only [hl, hr, true_iff, false_or]
    exact ⟨fun h' => h'.symm.trans h, fun h' => h.trans h'.symm⟩
  · rw [if_neg hl, if_pos hr, ← h.exact, ← agree_allowRule_iff]
    simp only [hl, hr, false_iff, not_true, false_or]
    exact ⟨fun h' => h'.trans h.symm, fun h' => h'.trans h⟩
  · rw [if_neg hl, if_neg hr]
    exact ⟨fun _ => .inl ⟨fun h => absurd h hl, fun h => absurd h hr⟩,
      fun _ => h.mergeOverlay htable rfl⟩

end Codex.Policy
