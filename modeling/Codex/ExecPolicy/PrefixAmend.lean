import Codex.ExecPolicy.Agreement
import Codex.ExecPolicy.Approval
import Codex.ExecPolicy.NetworkAmend

/-!
# Prefix amendments, live and in the rules file

An approved prefix is written to the rules file as an allow rule. The live policy takes
the rule only if it does not allow the prefix already, so the two may come to hold
different rules. `amendments_agree` says for which runs every command is still matched
by the same rules.
-/

namespace Codex

open Foundation List Option
open Policy (absolutePaths)

def spelledPrefixRule (pre : List Text) : Text :=
  let tokens := pre.map jsonString
  let pattern := "[".toList ++ ", ".toList.intercalate tokens ++ "]".toList
  "prefix_rule(pattern=".toList ++ pattern ++ ", decision=\"allow\")".toList

def blockingAppendAllowPrefixRule (contents : Text) (pre : List Text) : Except AmendError Text :=
  if pre = [] then .error .emptyPrefix
  else .ok (appendLockedLine contents (spelledPrefixRule pre))

section
variable (paths : ProcessPaths)

def alreadyAllowed (policy : Policy) (command : List Text) : Bool :=
  match policy.checkMultipleWithOptions paths [command] (fun _ => .forbidden) ⟨true⟩ with
  | some evaluation => evaluation.decision = .allow && evaluation.matchedRules.any isRuleAllow
  | none => false

def appendAmendmentAndUpdate (s : RulesState) (amendment : ExecPolicyAmendment) :
    Except ExecPolicyUpdateError RulesState :=
  match blockingAppendAllowPrefixRule s.contents amendment.command with
  | .error e => .error (.appendRule e)
  | .ok contents =>
    if alreadyAllowed paths s.live amendment.command then .ok ⟨contents, s.live⟩
    else
      match s.live.addPrefixRule amendment.command .allow with
      | .error e => .error (.addRule e)
      | .ok live => .ok ⟨contents, live⟩

end

/-! ## Reading a prefix rule -/

inductive PatternValue where
  | string (s : Text)
  | list (tokens : List Text)

def PatternToken.alternatives : PatternToken → List Text
  | .single expected => [expected]
  | .alts alternatives => alternatives

def parsePatternToken : PatternValue → Except PolicyError PatternToken
  | .string s => .ok (.single s)
  | .list [] => .error (.invalidPattern "pattern alternatives cannot be empty".toList)
  | .list [token] => .ok (.single token)
  | .list tokens => .ok (.alts tokens)

def prefixRule (builder : Policy) (pattern : List PatternValue) (decision justification : Option Text) :
    Except PolicyError Policy :=
  match (match decision with
    | some raw => Decision.parse raw
    | none => .ok .allow) with
  | .error e => .error e
  | .ok decision =>
    if justification.any (trim · = []) then
      .error (.invalidRule "justification cannot be empty".toList)
    else
      match pattern.mapM parsePatternToken with
      | .error e => .error e
      | .ok [] => .error (.invalidPattern "pattern cannot be empty".toList)
      | .ok (first :: rest) =>
        .ok { builder with
          rulesByProgram := builder.rulesByProgram ++
            first.alternatives.map fun head => (head, ⟨⟨head, rest⟩, decision, justification⟩) }

def ReadsAmendments (parse : Text → Except PolicyError Policy) : Prop :=
  ∀ contents policy pre, pre ≠ [] → spelledPrefixRule pre ∉ lines contents →
    parse contents = .ok policy →
    parse (appendLockedLine contents (spelledPrefixRule pre)) =
      prefixRule policy (pre.map .string) (some "allow".toList) none

def AmendmentsPersisted (paths : ProcessPaths) (parse : Text → Except PolicyError Policy)
    (s : RulesState) : Prop :=
  ∃ reloaded, parse s.contents = .ok reloaded ∧ Policy.Agree paths reloaded s.live

/-- The file takes the line exactly if the live policy takes the rule, or the live policy
has a rule with the same match. -/
def AmendmentPersists (paths : ProcessPaths) (s : RulesState) (amendment : ExecPolicyAmendment) :
    Prop :=
  (spelledPrefixRule amendment.command ∈ lines s.contents ↔
      alreadyAllowed paths s.live amendment.command = true) ∨
    Policy.allowMatch amendment.command ∈ s.live.matchExactRules amendment.command

/-! ## One amendment -/

section
variable {paths : ProcessPaths} {parse : Text → Except PolicyError Policy} {s t : RulesState}
  {amendment : ExecPolicyAmendment}

theorem addPrefixRule_allow (policy : Policy) (first : Text) (rest : List Text) :
    policy.addPrefixRule (first :: rest) .allow =
      .ok (policy.mergeOverlay (Policy.allowRule first rest)) := by
  unfold Policy.addPrefixRule Policy.mergeOverlay Policy.allowRule
  simp

theorem prefixRule_allow (policy : Policy) (first : Text) (rest : List Text) :
    prefixRule policy ((first :: rest).map .string) (some "allow".toList) none =
      .ok (policy.mergeOverlay (Policy.allowRule first rest)) := by
  have hdecision : Decision.parse "allow".toList = .ok .allow := rfl
  have htokens : ∀ tokens : List Text,
      (tokens.map PatternValue.string).mapM parsePatternToken =
        (.ok (tokens.map .single) : Except PolicyError _) := by
    intro tokens
    induction tokens with
    | nil => rfl
    | cons token tokens ih =>
      rw [map_cons, mapM_cons, ih]
      rfl
  unfold prefixRule
  simp only [hdecision]
  rw [htokens]
  simp [Policy.mergeOverlay, Policy.allowRule, PatternToken.alternatives]

theorem amendment_spec (h : appendAmendmentAndUpdate paths s amendment = .ok t) :
    ∃ first rest, amendment.command = first :: rest ∧
      t.contents = appendLockedLine s.contents (spelledPrefixRule amendment.command) ∧
      t.live = if alreadyAllowed paths s.live amendment.command then s.live
        else s.live.mergeOverlay (Policy.allowRule first rest) := by
  unfold appendAmendmentAndUpdate blockingAppendAllowPrefixRule at h
  cases hc : amendment.command with
  | nil =>
    rw [hc] at h
    cases h
  | cons first rest =>
    rw [hc, if_neg (cons_ne_nil _ _)] at h
    simp only [addPrefixRule_allow] at h
    refine ⟨first, rest, rfl, ?_⟩
    by_cases hallowed : alreadyAllowed paths s.live (first :: rest) = true
    · rw [if_pos hallowed] at h ⊢
      cases h
      exact ⟨rfl, rfl⟩
    · rw [if_neg hallowed] at h ⊢
      cases h
      exact ⟨rfl, rfl⟩

theorem amendment_reload (hreads : ReadsAmendments parse) {reloaded : Policy}
    (hparse : parse s.contents = .ok reloaded)
    (h : appendAmendmentAndUpdate paths s amendment = .ok t) :
    ∃ first rest, amendment.command = first :: rest ∧
      parse t.contents = .ok (if spelledPrefixRule amendment.command ∈ lines s.contents then reloaded
        else reloaded.mergeOverlay (Policy.allowRule first rest)) ∧
      t.live = if alreadyAllowed paths s.live amendment.command = true then s.live
        else s.live.mergeOverlay (Policy.allowRule first rest) := by
  obtain ⟨first, rest, hc, hcontents, hlive⟩ := amendment_spec h
  refine ⟨first, rest, hc, ?_, hlive⟩
  rw [hcontents]
  by_cases hknown : spelledPrefixRule amendment.command ∈ lines s.contents
  · rw [if_pos hknown, ← hparse]
    exact congrArg parse (if_pos hknown)
  · have hne : amendment.command ≠ [] := by
      rw [hc]
      exact cons_ne_nil _ _
    rw [if_neg hknown, hreads _ _ _ hne hknown hparse, hc]
    exact prefixRule_allow reloaded first rest

def TablesAgree (parse : Text → Except PolicyError Policy) (s : RulesState) : Prop :=
  ∃ reloaded, parse s.contents = .ok reloaded ∧
    reloaded.hostExecutablesByName = s.live.hostExecutablesByName

theorem tablesAgree_step (hreads : ReadsAmendments parse) (hs : TablesAgree parse s)
    (h : appendAmendmentAndUpdate paths s amendment = .ok t) : TablesAgree parse t := by
  obtain ⟨reloaded, hparse, htable⟩ := hs
  obtain ⟨first, rest, -, hfile, hlive⟩ := amendment_reload hreads hparse h
  refine ⟨_, hfile, ?_⟩
  rw [hlive]
  have hkeep : ∀ (p : Policy) (c : Prop) [Decidable c],
      (if c then p else p.mergeOverlay (Policy.allowRule first rest)).hostExecutablesByName =
        p.hostExecutablesByName := by
    intro p c _
    by_cases hc : c
    · rw [if_pos hc]
    · rw [if_neg hc]
      rfl
  rw [hkeep, hkeep, htable]

theorem amendmentsPersisted_step (hreads : ReadsAmendments parse)
    (hs : AmendmentsPersisted paths parse s ∧ TablesAgree parse s)
    (h : appendAmendmentAndUpdate paths s amendment = .ok t) :
    AmendmentsPersisted paths parse t ∧ TablesAgree parse t ↔
      AmendmentPersists paths s amendment := by
  obtain ⟨⟨reloaded, hparse, hagree⟩, htables⟩ := hs
  have htables' := tablesAgree_step hreads htables h
  obtain ⟨_, hparse', htable⟩ := htables
  rw [hparse] at hparse'
  cases hparse'
  obtain ⟨first, rest, hc, hfile, hlive⟩ := amendment_reload hreads hparse h
  have hpersisted : AmendmentsPersisted paths parse t ↔
      Policy.Agree paths (if spelledPrefixRule amendment.command ∈ lines s.contents then reloaded
        else reloaded.mergeOverlay (Policy.allowRule first rest)) t.live := by
    unfold AmendmentsPersisted
    rw [hfile]
    simp only [Except.ok.injEq, exists_eq_left']
  rw [and_iff_left htables', hpersisted, hlive, Policy.agree_taken_iff hagree htable]
  unfold AmendmentPersists
  rw [hc]

/-- In every run of successful calls from a policy that was read from the file, every
command is matched by the same rules, live and after reading the file again, at every
point exactly if every call meets the condition. -/
theorem amendments_agree (hreads : ReadsAmendments parse)
    (hstart : parse s.contents = .ok s.live) (amendments : List ExecPolicyAmendment)
    (hrun : amendments.foldlM (appendAmendmentAndUpdate paths) s = .ok t) :
    (∀ pre u, pre <+: amendments → pre.foldlM (appendAmendmentAndUpdate paths) s = .ok u →
        AmendmentsPersisted paths parse u) ↔
      ∀ pre a u, pre ++ [a] <+: amendments → pre.foldlM (appendAmendmentAndUpdate paths) s = .ok u →
        AmendmentPersists paths u a := by
  have htables : TablesAgree parse s := ⟨s.live, hstart, rfl⟩
  have hinit : AmendmentsPersisted paths parse s ∧ TablesAgree parse s :=
    ⟨⟨s.live, hstart, Policy.Agree.refl s.live⟩, htables⟩
  rw [← always_iff (fun u a v hu h => amendmentsPersisted_step hreads hu h) hinit hrun]
  constructor
  · intro hall pre u hpre hu
    exact ⟨hall pre u hpre hu,
      run_keeps (fun v a w hv h => tablesAgree_step hreads hv h) htables hu⟩
  · intro hall pre u hpre hu
    exact (hall pre u hpre hu).1

end

/-! ## A reader of such lines -/

def readStringList : Nat → Text → Option (List Text × Text)
  | 0, _ => none
  | n + 1, s => do
    let (token, s) ← readJsonString s
    match stripPrefix ", ".toList s with
    | some s => (readStringList n s).map fun (tokens, s) => (token :: tokens, s)
    | none => (stripPrefix "]".toList s).map fun s => ([token], s)

def readPrefixRuleLine (line : Text) : Option (List Text × Text) := do
  let s ← stripPrefix "prefix_rule(pattern=[".toList line
  let (tokens, s) ← readStringList s.length s
  let s ← stripPrefix ", decision=".toList s
  let (decision, s) ← readJsonString s
  if s = ")".toList then some (tokens, decision) else none

def readPrefixLine (builder : Policy) (line : Text) : Except PolicyError Policy :=
  if line = [] then .ok builder
  else
    match readPrefixRuleLine line with
    | some (tokens, decision) => prefixRule builder (tokens.map .string) (some decision) none
    | none => .error (.invalidRule line)

def readPrefixRules (contents : Text) : Except PolicyError Policy :=
  foldLines readPrefixLine Policy.empty contents

variable (pre : List Text)

theorem readStringList_spelled (hne : pre ≠ []) (rest : Text) (n : Nat) (hn : pre.length ≤ n) :
    readStringList n (", ".toList.intercalate (pre.map jsonString) ++ ("]".toList ++ rest)) =
      some (pre, rest) := by
  induction pre generalizing n with
  | nil => exact absurd rfl hne
  | cons token pre ih =>
    cases n with
    | zero => exact absurd hn (Nat.not_succ_le_zero _)
    | succ n =>
      cases pre with
      | nil =>
        have hclosed : stripPrefix ", ".toList ("]".toList ++ rest) = none := rfl
        rw [map_singleton, intercalate_singleton]
        unfold readStringList
        rw [readJsonString_jsonString]
        simp only [bind_eq_bind, bind_some, hclosed, stripPrefix_append, map_some]
      | cons token' pre =>
        have ih' := ih (cons_ne_nil _ _) n (Nat.le_of_succ_le_succ hn)
        rw [map_cons] at ih'
        rw [map_cons, map_cons, intercalate_cons_cons, List.append_assoc, List.append_assoc]
        unfold readStringList
        rw [readJsonString_jsonString]
        simp only [bind_eq_bind, bind_some, stripPrefix_append, ih', map_some]

theorem length_le_intercalate :
    pre.length ≤ (", ".toList.intercalate (pre.map jsonString)).length := by
  induction pre with
  | nil => exact Nat.zero_le _
  | cons token pre ih =>
    have htoken : 1 ≤ (jsonString token).length := Nat.succ_le_succ (Nat.zero_le _)
    cases pre with
    | nil =>
      rw [map_singleton, intercalate_singleton]
      exact htoken
    | cons token' pre =>
      rw [map_cons] at ih
      rw [map_cons, map_cons, intercalate_cons_cons, length_append, length_append, length_cons]
      omega

theorem spelledPrefixRule_eq : spelledPrefixRule pre =
    "prefix_rule(pattern=[".toList ++ (", ".toList.intercalate (pre.map jsonString) ++
      ("]".toList ++ (", decision=".toList ++ (jsonString "allow".toList ++ ")".toList)))) := by
  unfold spelledPrefixRule
  simp only [List.append_assoc]
  rfl

theorem readPrefixRuleLine_spelled {pre : List Text} (hne : pre ≠ []) :
    readPrefixRuleLine (spelledPrefixRule pre) = some (pre, "allow".toList) := by
  have hlist : ∀ rest, readStringList
      (", ".toList.intercalate (pre.map jsonString) ++ ("]".toList ++ rest)).length
      (", ".toList.intercalate (pre.map jsonString) ++ ("]".toList ++ rest)) = some (pre, rest) := by
    intro rest
    refine readStringList_spelled pre hne rest _ ?_
    rw [length_append]
    exact (length_le_intercalate pre).trans (Nat.le_add_right _ _)
  unfold readPrefixRuleLine
  rw [spelledPrefixRule_eq, stripPrefix_append]
  simp only [bind_eq_bind, bind_some, hlist, stripPrefix_append, readJsonString_jsonString, if_true]

theorem newline_not_mem_spelledPrefixRule : '\n' ∉ spelledPrefixRule pre := by
  have htokens : ∀ l : List Text, '\n' ∉ ", ".toList.intercalate (l.map jsonString) := by
    intro l
    induction l with
    | nil => exact not_mem_nil
    | cons token l ih =>
      cases l with
      | nil =>
        rw [map_singleton, intercalate_singleton]
        exact newline_not_mem_jsonString token
      | cons token' l =>
        rw [map_cons, map_cons, intercalate_cons_cons]
        simp only [mem_append, not_or]
        exact ⟨⟨newline_not_mem_jsonString token, by decide⟩, ih⟩
  rw [spelledPrefixRule_eq]
  simp only [mem_append, not_or]
  exact ⟨by decide, htokens pre, by decide, by decide, newline_not_mem_jsonString _, by decide⟩

theorem readPrefixRules_reads : ReadsAmendments readPrefixRules := by
  intro contents policy pre hne hnew hparse
  have hline : spelledPrefixRule pre ≠ [] := by
    intro h
    have hspelled := readPrefixRuleLine_spelled hne
    rw [h] at hspelled
    cases hspelled
  refine (foldLines_appendLockedLine (fun _ => rfl) (newline_not_mem_spelledPrefixRule pre)
    hnew hparse).trans ?_
  unfold readPrefixLine
  rw [if_neg hline, readPrefixRuleLine_spelled hne]

/-! ## A prefix of an absolute program -/

def rmRules : Text :=
  "prefix_rule(pattern=[\"rm\"], decision=\"allow\")\n".toList ++
    "prefix_rule(pattern=[\"rm\", \"-rf\", \"/\"], decision=\"forbidden\")\n".toList

def rmPolicy : Policy :=
  ⟨[("rm".toList, ⟨⟨"rm".toList, []⟩, .allow, none⟩),
    ("rm".toList, ⟨⟨"rm".toList, [.single "-rf".toList, .single "/".toList]⟩, .forbidden, none⟩)],
    [], []⟩

def sayHi : ExecPolicyAmendment := ⟨["say".toList, "\"hi\"\n".toList]⟩

theorem amendments_agree_sayHi :
    ∃ t, [sayHi].foldlM (appendAmendmentAndUpdate absolutePaths) ⟨rmRules, rmPolicy⟩ = .ok t ∧
      AmendmentsPersisted absolutePaths readPrefixRules t := by
  have hrun : [sayHi].foldlM (appendAmendmentAndUpdate absolutePaths) ⟨rmRules, rmPolicy⟩ =
      .ok ⟨rmRules ++ spelledPrefixRule sayHi.command ++ ['\n'],
        rmPolicy.mergeOverlay (Policy.allowRule "say".toList ["\"hi\"\n".toList])⟩ := by
    decide +kernel
  refine ⟨_, hrun, (amendments_agree readPrefixRules_reads (by decide +kernel) _ hrun).mpr ?_ _ _
    prefix_rfl hrun⟩
  intro pre a u hpre hu
  cases pre with
  | nil =>
    obtain ⟨rfl, -⟩ := cons_prefix_cons.mp hpre
    cases hu
    exact .inl (by decide +kernel)
  | cons first pre =>
    have hlen := hpre.length_le
    simp at hlen

def binRmForce : ExecPolicyAmendment := ⟨["/bin/rm".toList, "-rf".toList]⟩

def binRmRoot : List Text := ["/bin/rm".toList, "-rf".toList, "/".toList]

/-- The prefix is allowed by base name, so only the file gets the rule for the exact
program, behind which the rules for the base name no longer count. -/
theorem exact_amendment_not_live :
    ReadsAmendments readPrefixRules ∧ readPrefixRules rmRules = .ok rmPolicy ∧
      ∃ t reloaded, [binRmForce].foldlM (appendAmendmentAndUpdate absolutePaths)
          ⟨rmRules, rmPolicy⟩ = .ok t ∧
        readPrefixRules t.contents = .ok reloaded ∧
        (t.live.checkWithOptions absolutePaths binRmRoot (fun _ => .prompt) ⟨true⟩).map
          (·.decision) = some .forbidden ∧
        (reloaded.checkWithOptions absolutePaths binRmRoot (fun _ => .prompt) ⟨true⟩).map
          (·.decision) = some .allow := by
  refine ⟨readPrefixRules_reads, by decide +kernel,
    ⟨rmRules ++ spelledPrefixRule binRmForce.command ++ ['\n'], rmPolicy⟩,
    rmPolicy.mergeOverlay (Policy.allowRule "/bin/rm".toList ["-rf".toList]), ?_, ?_, ?_, ?_⟩
  · decide +kernel
  · decide +kernel
  · decide +kernel
  · decide +kernel

end Codex
