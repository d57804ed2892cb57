import Codex.ExecPolicy.Approval

/-!
# How strict an approval requirement is

The requirement of a list of segments is a function of the strictest decision and of
whether a rule prompts. More segments make it stricter, with one exception: a prompt
of a rule takes precedence over prompts for the sandbox, and granular settings may
let the first through and not the second (`approvalRequirement_ordered`).
-/

namespace Codex

open Foundation Policy List

/-! ## Strictness -/

def ExecApprovalRequirement.strictness : ExecApprovalRequirement → Nat
  | .skip .. => 0
  | .needsApproval .. => 1
  | .forbidden _ => 2

def ExecApprovalRequirement.bypassesSandbox : ExecApprovalRequirement → Bool
  | .skip bypassSandbox _ => bypassSandbox
  | _ => false

def AskForApproval.letsOnlyRulesThrough : AskForApproval → Bool
  | .granular config => config.rules && !config.sandboxApproval
  | _ => false

def verdict (approvalPolicy : AskForApproval) (decision : Decision) (promptIsRule : Bool) : Nat :=
  match decision with
  | .allow => 0
  | .prompt => if (promptIsRejectedByPolicy approvalPolicy promptIsRule).isSome then 2 else 1
  | .forbidden => 2

theorem verdict_prompt (a : AskForApproval) (p : Bool) :
    verdict a .prompt p = 1 ∨ verdict a .prompt p = 2 := by
  by_cases h : (promptIsRejectedByPolicy a p).isSome = true
  · exact .inr (if_pos h)
  · exact .inl (if_neg h)

variable {a : AskForApproval}

theorem verdict_eq_zero {d : Decision} {p : Bool} : verdict a d p = 0 ↔ d = .allow := by
  cases d with
  | allow => exact ⟨fun _ => rfl, fun _ => rfl⟩
  | prompt => rcases verdict_prompt a p with h | h <;> simp [h]
  | forbidden => simp [verdict]

theorem verdict_le_two (a : AskForApproval) (d : Decision) (p : Bool) : verdict a d p ≤ 2 := by
  cases d with
  | allow => exact Nat.zero_le 2
  | prompt => rcases verdict_prompt a p with h | h <;> simp [h]
  | forbidden => exact Nat.le_refl 2

theorem rejected_mono {p p' : Bool} (hp : p = true → p' = true) :
    verdict a .prompt p ≤ verdict a .prompt p' ↔
      ¬ (a.letsOnlyRulesThrough = true ∧ p = false ∧ p' = true) := by
  cases p with
  | true =>
    obtain rfl : p' = true := hp rfl
    simp
  | false =>
    cases p' with
    | false => simp
    | true =>
      cases a with
      | granular config =>
        obtain ⟨sandboxApproval, rules⟩ := config
        cases sandboxApproval <;> cases rules <;> decide
      | _ => decide

theorem verdict_le_iff {d d' : Decision} {p p' : Bool} (hd : d ≤ d') (hp : p = true → p' = true) :
    verdict a d p ≤ verdict a d' p' ↔
      ¬ (a.letsOnlyRulesThrough = true ∧ d = .prompt ∧ d' = .prompt ∧ p = false ∧ p' = true) := by
  cases d with
  | allow => simp [verdict]
  | forbidden =>
    obtain rfl : d' = .forbidden := le_antisymm (Decision.le_forbidden d') hd
    simp [verdict]
  | prompt =>
    cases d' with
    | allow => exact absurd hd (by decide)
    | forbidden => simp [verdict_le_two a .prompt p, show verdict a .forbidden p' = 2 from rfl]
    | prompt => simpa using rejected_mono hp

/-! ## The matches of all segments -/

section
variable (shlexTryJoin : List Text → Option Text) (paths : ProcessPaths) (policy : Policy)
  (fallback : List Text → Decision)

def segmentMatches (command : List Text) : List RuleMatch :=
  policy.matchesForCommandWithOptions paths command (some fallback) ⟨true⟩

def allMatches (commands : List (List Text)) : List RuleMatch :=
  commands.flatMap (segmentMatches paths policy fallback)

def ruleAllowed (command : List Text) : Bool :=
  (policy.matchesForCommandWithOptions paths command none ⟨true⟩).any isRuleAllow

/-- A rule prompts for the new segment, which the settings let through; the segments
before it prompt for other reasons only, which the settings reject. -/
def RulePromptOverrides (approvalPolicy : AskForApproval) (commands : List (List Text))
    (command : List Text) : Prop :=
  approvalPolicy.letsOnlyRulesThrough = true ∧
    strictestOf (allMatches paths policy fallback commands) = some .prompt ∧
    (∀ m ∈ allMatches paths policy fallback commands, isRulePrompt m = false) ∧
    (∃ m ∈ segmentMatches paths policy fallback command, isRulePrompt m = true) ∧
    ∀ m ∈ segmentMatches paths policy fallback command, m.decision ≠ .forbidden

variable {shlexTryJoin paths policy fallback}

variable (paths policy fallback) in
theorem strictest_of_cons (first : List Text) (rest : List (List Text)) :
    ∃ d, strictestOf (allMatches paths policy fallback (first :: rest)) = some d := by
  cases h : strictestOf (allMatches paths policy fallback (first :: rest)) with
  | some d => exact ⟨d, rfl⟩
  | none =>
    have hnil := strictestOf_eq_none.mp h
    unfold allMatches at hnil
    rw [flatMap_cons, append_eq_nil_iff] at hnil
    exact absurd hnil.1 (matchesForCommand_ne_nil policy first fallback ⟨true⟩)

variable (paths policy fallback) in
theorem mem_allMatches_congr {commands commands' : List (List Text)}
    (h : ∀ c, c ∈ commands ↔ c ∈ commands') (m : RuleMatch) :
    m ∈ allMatches paths policy fallback commands ↔ m ∈ allMatches paths policy fallback commands' := by
  unfold allMatches
  simp only [mem_flatMap, h]

theorem any_congr_of_mem {α : Type} {l l' : List α} (h : ∀ a, a ∈ l ↔ a ∈ l') (p : α → Bool) :
    l.any p = l'.any p := by
  rw [Bool.eq_iff_iff]
  simp only [any_eq_true, h]

/-! ## The requirement from the strictest decision -/

variable (shlexTryJoin) in
theorem requirement_spec (approvalPolicy : AskForApproval) (req : ApprovalRequest)
    {commands : List (List Text)} {d : Decision}
    (hd : strictestOf (allMatches paths policy fallback commands) = some d) :
    ∃ r, approvalRequirementForCommands shlexTryJoin paths policy fallback approvalPolicy req
          commands = some r ∧
      r.strictness = verdict approvalPolicy d
        ((allMatches paths policy fallback commands).any isRulePrompt) ∧
      (r.bypassesSandbox = true ↔
        d = .allow ∧ ∀ command ∈ commands, ruleAllowed paths policy command = true) := by
  have heval : policy.checkMultipleWithOptions paths commands fallback ⟨true⟩ =
      some ⟨d, allMatches paths policy fallback commands⟩ :=
    fromMatches_eq_some.mpr ⟨hd, rfl⟩
  unfold approvalRequirementForCommands
  rw [heval]
  refine ⟨_, rfl, ?_⟩
  cases d with
  | forbidden =>
    refine ⟨rfl, fun h => ?_, fun h => ?_⟩
    · cases h
    · cases h.1
  | prompt =>
    unfold verdict
    simp only []
    cases promptIsRejectedByPolicy approvalPolicy
        ((allMatches paths policy fallback commands).any isRulePrompt) with
    | some reason | none =>
      refine ⟨rfl, fun h => ?_, fun h => ?_⟩
      · cases h
      · cases h.1
  | allow =>
    refine ⟨rfl, fun h => ⟨rfl, ?_⟩, fun h => ?_⟩
    · exact all_eq_true.mp h
    · exact all_eq_true.mpr h.2

theorem matches_allow_of_strictest {commands : List (List Text)}
    (h : strictestOf (allMatches paths policy fallback commands) = some .allow) :
    ∀ command ∈ commands, ∀ m ∈ segmentMatches paths policy fallback command,
      m.decision = .allow := by
  intro command hc m hm
  have hmem : m ∈ allMatches paths policy fallback commands := mem_flatMap.mpr ⟨command, hc, hm⟩
  have hle := (max?_eq_some.mp h).2 m.decision (mem_map_of_mem hmem)
  exact le_antisymm hle (Decision.allow_le _)

variable (paths policy fallback) in
theorem strictest_append (commands : List (List Text)) (command : List Text) :
    allMatches paths policy fallback (commands ++ [command]) =
      allMatches paths policy fallback commands ++ segmentMatches paths policy fallback command := by
  unfold allMatches
  rw [flatMap_append, flatMap_singleton]

theorem strictest_append_prompt {ms ns : List RuleMatch} (h : strictestOf ms = some .prompt) :
    strictestOf (ms ++ ns) = some .prompt ↔ ∀ m ∈ ns, m.decision ≠ .forbidden := by
  obtain ⟨hin, hle⟩ := max?_eq_some.mp h
  unfold strictestOf
  rw [max?_eq_some, map_append]
  constructor
  · rintro ⟨-, hall⟩ m hm hf
    have hbad := hall m.decision (mem_append_right _ (mem_map_of_mem hm))
    rw [hf] at hbad
    exact absurd hbad (by decide)
  · intro hns
    refine ⟨mem_append_left _ hin, fun d hd => ?_⟩
    rcases mem_append.mp hd with hd | hd
    · exact hle d hd
    · obtain ⟨m, hm, rfl⟩ := mem_map.mp hd
      have hne := hns m hm
      cases hdec : m.decision with
      | allow => decide
      | prompt => exact le_refl _
      | forbidden => exact absurd hdec hne

/-! ## What a further segment does -/

theorem rulePromptOverrides_iff {approvalPolicy : AskForApproval} {commands : List (List Text)}
    {command : List Text} {d d' : Decision}
    (hd : strictestOf (allMatches paths policy fallback commands) = some d)
    (hd' : strictestOf (allMatches paths policy fallback (commands ++ [command])) = some d') :
    RulePromptOverrides paths policy fallback approvalPolicy commands command ↔
      approvalPolicy.letsOnlyRulesThrough = true ∧ d = .prompt ∧ d' = .prompt ∧
        (allMatches paths policy fallback commands).any isRulePrompt = false ∧
        (allMatches paths policy fallback (commands ++ [command])).any isRulePrompt = true := by
  rw [strictest_append] at hd' ⊢
  unfold RulePromptOverrides
  rw [hd, Option.some.injEq, any_append, any_eq_false]
  constructor
  · rintro ⟨hlets, rfl, hno, ⟨m, hm, hrule⟩, hforbid⟩
    rw [(strictest_append_prompt hd).mpr hforbid] at hd'
    refine ⟨hlets, rfl, (Option.some.inj hd').symm, fun m hm => ?_, ?_⟩
    · rw [hno m hm]
      exact Bool.false_ne_true
    · rw [Bool.or_eq_true]
      exact .inr (any_eq_true.mpr ⟨m, hm, hrule⟩)
  · rintro ⟨hlets, rfl, rfl, hno, hany⟩
    have hold : (allMatches paths policy fallback commands).any isRulePrompt = false :=
      any_eq_false.mpr hno
    rw [hold, Bool.false_or] at hany
    refine ⟨hlets, rfl, fun m hm => ?_, any_eq_true.mp hany, ?_⟩
    · exact Bool.eq_false_of_not_eq_true (hno m hm)
    · exact (strictest_append_prompt hd).mp hd'

theorem requirement_append (approvalPolicy : AskForApproval) (req' : ApprovalRequest)
    {commands : List (List Text)} (command : List Text) {d : Decision} {r : ExecApprovalRequirement}
    (hd : strictestOf (allMatches paths policy fallback commands) = some d)
    (hstrict : r.strictness = verdict approvalPolicy d
      ((allMatches paths policy fallback commands).any isRulePrompt))
    (hbypass : r.bypassesSandbox = true ↔
      d = .allow ∧ ∀ command ∈ commands, ruleAllowed paths policy command = true) :
    ∃ r', approvalRequirementForCommands shlexTryJoin paths policy fallback approvalPolicy req'
          (commands ++ [command]) = some r' ∧
      (r.strictness ≤ r'.strictness ↔
        ¬ RulePromptOverrides paths policy fallback approvalPolicy commands command) ∧
      (r'.bypassesSandbox = true → r.bypassesSandbox = true) := by
  have happ := strictest_append paths policy fallback commands command
  have hsub : ∀ m ∈ allMatches paths policy fallback commands,
      m ∈ allMatches paths policy fallback (commands ++ [command]) := by
    intro m hm
    rw [happ]
    exact mem_append_left _ hm
  obtain ⟨d', hd', hle⟩ := strictestOf_mono hsub hd
  obtain ⟨r', hr', hstrict', hbypass'⟩ := requirement_spec shlexTryJoin approvalPolicy req' hd'
  refine ⟨r', hr', ?_, fun h => ?_⟩
  · rw [hstrict, hstrict', rulePromptOverrides_iff hd hd', verdict_le_iff hle]
    intro hp
    rw [happ, any_append, hp]
    rfl
  · obtain ⟨hallow, hrules⟩ := hbypass'.mp h
    rw [hallow] at hle
    refine hbypass.mpr ⟨le_antisymm hle (Decision.allow_le d), fun c hc => ?_⟩
    exact hrules c (mem_append_left _ hc)

theorem commandsForExecPolicy_cons (parsers : ShellParsers) (command : List Text) :
    ∃ first rest, (commandsForExecPolicy parsers command).1 = first :: rest := by
  unfold commandsForExecPolicy
  split
  · exact ⟨_, _, rfl⟩
  · cases parsers.parseShellLcSingleCommandPrefix command with
    | none | some single => exact ⟨_, _, rfl⟩

variable (shlexTryJoin paths policy fallback)

/-- What the requirement of some segments says about them and about other segments. -/
structure RequirementOrdered (approvalPolicy : AskForApproval) (commands : List (List Text))
    (r : ExecApprovalRequirement) : Prop where
  skip_allows : r.strictness = 0 → ∀ command ∈ commands,
    ∀ m ∈ segmentMatches paths policy fallback command, m.decision = .allow
  bypass_allows : r.bypassesSandbox = true →
    ∀ command ∈ commands, ruleAllowed paths policy command = true
  same_members : ∀ req' commands', (∀ c, c ∈ commands ↔ c ∈ commands') →
    ∃ r', approvalRequirementForCommands shlexTryJoin paths policy fallback approvalPolicy req'
          commands' = some r' ∧
      r'.strictness = r.strictness ∧ r'.bypassesSandbox = r.bypassesSandbox
  append : ∀ req' command,
    ∃ r', approvalRequirementForCommands shlexTryJoin paths policy fallback approvalPolicy req'
          (commands ++ [command]) = some r' ∧
      (r.strictness ≤ r'.strictness ↔
        ¬ RulePromptOverrides paths policy fallback approvalPolicy commands command) ∧
      (r'.bypassesSandbox = true → r.bypassesSandbox = true)

variable {shlexTryJoin paths policy fallback}

theorem requirement_ordered (approvalPolicy : AskForApproval) (req : ApprovalRequest)
    (first : List Text) (rest : List (List Text)) :
    ∃ r, approvalRequirementForCommands shlexTryJoin paths policy fallback approvalPolicy req
          (first :: rest) = some r ∧
      RequirementOrdered shlexTryJoin paths policy fallback approvalPolicy (first :: rest) r := by
  obtain ⟨d, hd⟩ := strictest_of_cons paths policy fallback first rest
  obtain ⟨r, hr, hstrict, hbypass⟩ := requirement_spec shlexTryJoin approvalPolicy req hd
  refine ⟨r, hr, fun hskip => ?_, fun h => (hbypass.mp h).2, fun req' commands hmem => ?_,
    fun req' command => requirement_append approvalPolicy req' command hd hstrict hbypass⟩
  · rw [hstrict, verdict_eq_zero] at hskip
    rw [hskip] at hd
    exact matches_allow_of_strictest hd
  · have hms := mem_allMatches_congr paths policy fallback hmem
    rw [strictestOf_congr hms] at hd
    obtain ⟨r', hr', hstrict', hbypass'⟩ := requirement_spec shlexTryJoin approvalPolicy req' hd
    refine ⟨r', hr', ?_, ?_⟩
    · rw [hstrict, hstrict', any_congr_of_mem hms]
    · rw [Bool.eq_iff_iff, hbypass, hbypass']
      simp only [hmem]

/-- For segments and a fallback of any kind, and for those the code reads off a command:
the requirement skips only what every match allows, bypasses the sandbox only where a rule
allows every segment, and does not depend on order or repetition. A further segment
relaxes it exactly where a prompt of a rule overrides prompts the settings reject. -/
theorem approvalRequirement_ordered (shlexTryJoin : List Text → Option Text) (paths : ProcessPaths)
    (policy : Policy) (approvalPolicy : AskForApproval) : (∀ fallback req first rest,
      ∃ r, approvalRequirementForCommands shlexTryJoin paths policy fallback approvalPolicy req
            (first :: rest) = some r ∧
        RequirementOrdered shlexTryJoin paths policy fallback approvalPolicy (first :: rest) r) ∧
    ∀ parsers safety setting prefixRule command,
      ∃ r, createExecApprovalRequirementForCommand shlexTryJoin paths policy parsers safety
            approvalPolicy setting prefixRule command = some r ∧
        RequirementOrdered shlexTryJoin paths policy
          (renderDecisionForUnmatchedCommand safety approvalPolicy setting
            (commandsForExecPolicy parsers command).2)
          approvalPolicy (commandsForExecPolicy parsers command).1 r := by
  refine ⟨fun fallback req first rest => requirement_ordered approvalPolicy req first rest, ?_⟩
  intro parsers safety setting prefixRule command
  obtain ⟨first, rest, hcons⟩ := commandsForExecPolicy_cons parsers command
  unfold createExecApprovalRequirementForCommand
  simp only [hcons]
  exact requirement_ordered approvalPolicy _ first rest

end

def promptGitPush : Policy :=
  ⟨[("git".toList, ⟨⟨"git".toList, [.single "push".toList]⟩, .prompt, none⟩)], [], []⟩

def rulesOnly : AskForApproval := .granular ⟨false, true⟩

def rmForce : List Text := ["rm".toList, "-rf".toList, "dir".toList]

def gitPush : List Text := ["git".toList, "push".toList]

theorem rulePrompt_relaxes_rejection :
    ∃ r r', approvalRequirementForCommands (fun _ => none) absolutePaths promptGitPush
          (fun _ => .prompt) rulesOnly ⟨rmForce, false, none⟩ [rmForce] = some r ∧
      approvalRequirementForCommands (fun _ => none) absolutePaths promptGitPush
          (fun _ => .prompt) rulesOnly ⟨rmForce, false, none⟩ [rmForce, gitPush] = some r' ∧
      ¬ r.strictness ≤ r'.strictness := by
  refine ⟨.forbidden REJECT_SANDBOX_APPROVAL_REASON,
    .needsApproval (some "`rm -rf dir` requires approval by policy".toList) none, ?_, ?_, ?_⟩
  · decide
  · decide
  · decide

end Codex
