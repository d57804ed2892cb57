import Codex.Foundation.Sides
import Codex.ExecPolicy.Policy
import Codex.Foundation.Json
import Codex.Foundation.Lines
import Codex.Foundation.Run

/-!
# Network domains and amendments

The network rules are compiled in order into two lists. They are the two sides of a
store in which the last writer wins (`compiledNetworkDomains_eq`): a host is on the side
of the last rule for it that decides (`mem_networkSides`).

An amendment is written to the rules file as one line and added to the live policy.
The file does not take a line it already has, the live policy takes every rule; a
written host is normalised again when the file is read. `live_eq_persisted` says for
which runs the live domains are those of the file.
-/

namespace Codex

open Foundation List

variable {host : Text}

namespace Policy

def upsertDomain (entries : List Text) (host : Text) : List Text :=
  entries.filter (· ≠ host) ++ [host]

def compileNetworkRule (domains : List Text × List Text) (rule : NetworkRule) :
    List Text × List Text :=
  match rule.decision with
  | .allow => (upsertDomain domains.1 rule.host, domains.2.filter (· ≠ rule.host))
  | .forbidden => (domains.1.filter (· ≠ rule.host), upsertDomain domains.2 rule.host)
  | .prompt => domains

def compiledNetworkDomains (policy : Policy) : List Text × List Text :=
  policy.networkRules.foldl compileNetworkRule ([], [])

/-! ## Rules as writers -/

def sideOf : Decision → Option Bool
  | .allow => some true
  | .forbidden => some false
  | .prompt => none

def writeRule (sides : Sides Text) (rule : NetworkRule) : Sides Text :=
  match sideOf rule.decision with
  | some side => sides.put side rule.host
  | none => sides

def networkSides (rules : List NetworkRule) : Sides Text := rules.foldl writeRule .empty

def domainsFor (policy : Policy) : Decision → List Text
  | .allow => policy.compiledNetworkDomains.1
  | .forbidden => policy.compiledNetworkDomains.2
  | .prompt => []

variable (rules : List NetworkRule)

theorem networkSides_snoc (rule : NetworkRule) :
    networkSides (rules ++ [rule]) = writeRule (networkSides rules) rule := by
  unfold networkSides
  rw [foldl_append]
  rfl

theorem compileNetworkRule_sides (sides : Sides Text) (rule : NetworkRule) :
    compileNetworkRule (sides.side true, sides.side false) rule =
      ((writeRule sides rule).side true, (writeRule sides rule).side false) := by
  unfold compileNetworkRule writeRule
  cases rule.decision <;> rfl

theorem compiledNetworkDomains_eq (policy : Policy) : policy.compiledNetworkDomains =
      ((networkSides policy.networkRules).side true,
        (networkSides policy.networkRules).side false) := by
  unfold compiledNetworkDomains
  induction policy.networkRules using List.reverseRecOn with
  | nil => rfl
  | append_singleton rules rule ih =>
    rw [foldl_append, ih, networkSides_snoc]
    exact compileNetworkRule_sides _ rule

theorem compiledNetworkDomains_inj {p q : Policy} :
    p.compiledNetworkDomains = q.compiledNetworkDomains ↔
      networkSides p.networkRules = networkSides q.networkRules := by
  rw [compiledNetworkDomains_eq, compiledNetworkDomains_eq, Prod.mk.injEq]
  constructor
  · rintro ⟨htrue, hfalse⟩
    ext side : 2
    cases side with
    | true => exact htrue
    | false => exact hfalse
  · intro h
    rw [h]
    exact ⟨rfl, rfl⟩

theorem domainsFor_of_side {policy : Policy} {decision : Decision} {side : Bool}
    (h : sideOf decision = some side) :
    policy.domainsFor decision = (networkSides policy.networkRules).side side := by
  cases decision with
  | allow =>
    cases h
    exact congrArg Prod.fst (compiledNetworkDomains_eq policy)
  | forbidden =>
    cases h
    exact congrArg Prod.snd (compiledNetworkDomains_eq policy)
  | prompt => cases h

theorem sideOf_cases (decision : Decision) : decision = .prompt ∧ sideOf decision = none ∨
      decision ≠ .prompt ∧ ∃ side, sideOf decision = some side := by
  cases decision with
  | allow | forbidden => exact .inr ⟨by decide, _, rfl⟩
  | prompt => exact .inl ⟨rfl, rfl⟩

theorem writeRule_eq_self {policy : Policy} {rule : NetworkRule} :
    writeRule (networkSides policy.networkRules) rule = networkSides policy.networkRules ↔
      rule.decision = .prompt ∨ (policy.domainsFor rule.decision).getLast? = some rule.host := by
  unfold writeRule
  rcases sideOf_cases rule.decision with ⟨hp, hside⟩ | ⟨hp, side, hside⟩
  · rw [hside]
    simp [hp]
  · rw [hside, domainsFor_of_side hside]
    simp only [hp, false_or]
    exact Sides.put_eq_self

theorem writeRule_eq_writeRule {sides : Sides Text} {rule rule' : NetworkRule}
    (h : rule'.decision = rule.decision) : writeRule sides rule' = writeRule sides rule ↔
      rule.decision = .prompt ∨ rule'.host = rule.host := by
  unfold writeRule
  rw [h]
  rcases sideOf_cases rule.decision with ⟨hp, hside⟩ | ⟨hp, side, hside⟩
  · rw [hside]
    simp [hp]
  · rw [hside]
    simp only [hp, false_or]
    constructor
    · intro heq
      exact Sides.put_injective heq
    · intro heq
      rw [heq]

/-! ## The last rule for a host -/

def lastDecision (rules : List NetworkRule) (host : Text) : Option Decision :=
  ((rules.filter fun rule => rule.host = host ∧ rule.decision ≠ .prompt).getLast?).map (·.decision)

theorem lastDecision_snoc (rule : NetworkRule) (host : Text) : lastDecision (rules ++ [rule]) host =
      if rule.host = host ∧ rule.decision ≠ .prompt then some rule.decision
      else lastDecision rules host := by
  unfold lastDecision
  rw [filter_append]
  by_cases h : rule.host = host ∧ rule.decision ≠ .prompt
  · have hone : [rule].filter (fun rule => rule.host = host ∧ rule.decision ≠ .prompt) = [rule] :=
      filter_cons_of_pos (decide_eq_true h)
    rw [if_pos h, hone, List.getLast?_concat]
    rfl
  · have hnone : [rule].filter (fun rule => rule.host = host ∧ rule.decision ≠ .prompt) = [] :=
      filter_cons_of_neg (mt of_decide_eq_true h)
    rw [if_neg h, hnone, append_nil]

theorem mem_networkSides (host : Text) (side : Bool) :
    host ∈ (networkSides rules).side side ↔ (lastDecision rules host).bind sideOf = some side := by
  induction rules using List.reverseRecOn with
  | nil => simp [networkSides, Sides.empty, lastDecision]
  | append_singleton rules rule ih =>
    rw [networkSides_snoc, lastDecision_snoc]
    unfold writeRule
    rcases sideOf_cases rule.decision with ⟨hp, hside⟩ | ⟨hp, written, hside⟩
    · rw [hside, if_neg (fun h => h.2 hp)]
      exact ih
    · simp only [hside, Sides.mem_side_put, ih]
      by_cases hhost : rule.host = host
      · rw [if_pos hhost.symm, if_pos ⟨hhost, hp⟩, Option.bind_some, hside, Option.some.injEq,
          eq_comm]
      · rw [if_neg (Ne.symm hhost), if_neg (fun h => hhost h.1)]

theorem lastDecision_eq_none {rules : List NetworkRule}
    (h : ∀ rule ∈ rules, rule.host = host → rule.decision = .prompt) :
    lastDecision rules host = none := by
  have hnone : rules.filter (fun rule => rule.host = host ∧ rule.decision ≠ .prompt) = [] := by
    refine filter_eq_nil_iff.mpr fun rule hrule => ?_
    simpa using h rule hrule
  rw [lastDecision, hnone]
  rfl

theorem sideOf_eq_some {last : Option Decision} :
    (last.bind sideOf = some true ↔ last = some .allow) ∧
      (last.bind sideOf = some false ↔ last = some .forbidden) := by
  cases last with
  | none => simp
  | some decision => cases decision <;> simp [sideOf]

/-- The two lists are disjoint and free of duplicates, and the last rule for a host that
is not a prompt says in which of them it is. -/
theorem compiledNetworkDomains_lastWriter (policy : Policy) :
    policy.compiledNetworkDomains.1.Nodup ∧ policy.compiledNetworkDomains.2.Nodup ∧
      (∀ host ∈ policy.compiledNetworkDomains.1, host ∉ policy.compiledNetworkDomains.2) ∧
      ∀ host,
        (host ∈ policy.compiledNetworkDomains.1 ↔
          lastDecision policy.networkRules host = some .allow) ∧
        (host ∈ policy.compiledNetworkDomains.2 ↔
          lastDecision policy.networkRules host = some .forbidden) ∧
        ((∀ rule ∈ policy.networkRules, rule.host = host → rule.decision = .prompt) →
          host ∉ policy.compiledNetworkDomains.1 ∧ host ∉ policy.compiledNetworkDomains.2) := by
  have hsides := compiledNetworkDomains_eq policy
  obtain ⟨hallowed, hdenied⟩ := Prod.ext_iff.mp hsides
  have hallow : ∀ host, host ∈ policy.compiledNetworkDomains.1 ↔
      lastDecision policy.networkRules host = some .allow := by
    intro host
    rw [hallowed, mem_networkSides]
    exact sideOf_eq_some.1
  have hdeny : ∀ host, host ∈ policy.compiledNetworkDomains.2 ↔
      lastDecision policy.networkRules host = some .forbidden := by
    intro host
    rw [hdenied, mem_networkSides]
    exact sideOf_eq_some.2
  refine ⟨?_, ?_, ?_, fun host => ⟨hallow host, hdeny host, fun hprompts => ?_⟩⟩
  · rw [hallowed]
    exact (networkSides policy.networkRules).nodup true
  · rw [hdenied]
    exact (networkSides policy.networkRules).nodup false
  · intro host h
    rw [hallowed] at h
    rw [hdenied]
    exact (networkSides policy.networkRules).disjoint true host h
  · have hnone := lastDecision_eq_none hprompts
    rw [hallow, hdeny, hnone]
    exact ⟨nofun, nofun⟩

end Policy

structure NetworkAmendment where
  host : Text
  protocol : NetworkRuleProtocol
  decision : Decision
  justification : Option Text
deriving DecidableEq

def networkDecisionText : Decision → Text
  | .allow => "allow".toList
  | .prompt => "prompt".toList
  | .forbidden => "deny".toList

def spelledNetworkRule (host : Text) (protocol : NetworkRuleProtocol) (decision : Decision)
    (justification : Option Text) : Text :=
  let args := ["host=".toList ++ jsonString host,
    "protocol=".toList ++ jsonString protocol.asPolicyString,
    "decision=".toList ++ jsonString (networkDecisionText decision)] ++
      justification.toList.map fun raw => "justification=".toList ++ jsonString raw
  "network_rule(".toList ++ ", ".toList.intercalate args ++ ")".toList

def NetworkAmendment.line (call : NetworkAmendment) (host : Text) : Text :=
  spelledNetworkRule host call.protocol call.decision call.justification

/-! ## The rules file -/

inductive AmendError where
  | emptyPrefix
  | invalidNetworkRule (message : Text)
deriving DecidableEq

def PolicyError.message : PolicyError → Text
  | .invalidDecision raw => "invalid decision: ".toList ++ raw
  | .invalidPattern message => "invalid pattern element: ".toList ++ message
  | .invalidRule message => "invalid rule: ".toList ++ message

/-- A line the file has is not written again; an unfinished last line is finished. -/
def appendLockedLine (contents line : Text) : Text :=
  if line ∈ lines contents then contents
  else
    (if contents ≠ [] ∧ contents.getLast? ≠ some '\n' then contents ++ ['\n'] else contents) ++
      line ++ ['\n']

def blockingAppendNetworkRule (contents : Text) (call : NetworkAmendment) :
    Except AmendError Text :=
  match normalizeNetworkRuleHost call.host with
  | .error e => .error (.invalidNetworkRule e.message)
  | .ok host =>
    if call.justification.any (trim · = []) then
      .error (.invalidNetworkRule "justification cannot be empty".toList)
    else .ok (appendLockedLine contents (call.line host))

inductive ExecPolicyUpdateError where
  | appendRule (source : AmendError)
  | addRule (source : PolicyError)
deriving DecidableEq

structure RulesState where
  contents : Text
  live : Policy
deriving DecidableEq

def appendNetworkRuleAndUpdate (s : RulesState) (call : NetworkAmendment) :
    Except ExecPolicyUpdateError RulesState :=
  match blockingAppendNetworkRule s.contents call with
  | .error e => .error (.appendRule e)
  | .ok contents =>
    match s.live.addNetworkRule call.host call.protocol call.decision call.justification with
    | .error e => .error (.addRule e)
    | .ok live => .ok ⟨contents, live⟩

def parseNetworkRuleDecision (raw : Text) : Except PolicyError Decision :=
  if raw = "deny".toList then .ok .forbidden else Decision.parse raw

def networkRule (builder : Policy) (host protocol decision : Text) (justification : Option Text) :
    Except PolicyError Policy :=
  match NetworkRuleProtocol.parse protocol with
  | .error e => .error e
  | .ok protocol =>
    match parseNetworkRuleDecision decision with
    | .error e => .error e
    | .ok decision =>
      if justification.any (trim · = []) then
        .error (.invalidRule "justification cannot be empty".toList)
      else
        match normalizeNetworkRuleHost host with
        | .error e => .error e
        | .ok host =>
          .ok { builder with
            networkRules := builder.networkRules ++ [⟨host, protocol, decision, justification⟩] }

def ReadsAppended (parse : Text → Except PolicyError Policy) : Prop :=
  ∀ contents policy host protocol decision justification,
    spelledNetworkRule host protocol decision justification ∉ lines contents →
    parse contents = .ok policy →
    parse (appendLockedLine contents (spelledNetworkRule host protocol decision justification)) =
      networkRule policy host protocol.asPolicyString (networkDecisionText decision) justification

def Persisted (parse : Text → Except PolicyError Policy) (s : RulesState) : Prop :=
  ∃ reloaded, parse s.contents = .ok reloaded ∧
    reloaded.compiledNetworkDomains = s.live.compiledNetworkDomains

/-- A line the file has changes nothing live; a new line is read with the host it was
written with. -/
def CallPersists (s : RulesState) (call : NetworkAmendment) : Prop :=
  ∀ host, normalizeNetworkRuleHost call.host = .ok host →
    if call.line host ∈ lines s.contents then
      call.decision = .prompt ∨ (s.live.domainsFor call.decision).getLast? = some host
    else
      ∃ host', normalizeNetworkRuleHost host = .ok host' ∧ (call.decision = .prompt ∨ host' = host)

/-! ## One call -/

theorem parse_networkDecisionText (decision : Decision) :
    parseNetworkRuleDecision (networkDecisionText decision) = .ok decision := by
  cases decision <;> rfl

theorem append_spec {s t : RulesState} {call : NetworkAmendment}
    (h : appendNetworkRuleAndUpdate s call = .ok t) :
    ∃ host, normalizeNetworkRuleHost call.host = .ok host ∧
      call.justification.any (trim · = []) = false ∧
      t.contents = appendLockedLine s.contents (call.line host) ∧
      t.live.networkRules =
        s.live.networkRules ++ [⟨host, call.protocol, call.decision, call.justification⟩] := by
  unfold appendNetworkRuleAndUpdate blockingAppendNetworkRule Policy.addNetworkRule at h
  cases hn : normalizeNetworkRuleHost call.host with
  | error e =>
    rw [hn] at h
    cases h
  | ok host =>
    rw [hn] at h
    cases hj : call.justification.any (trim · = []) with
    | true =>
      rw [hj] at h
      cases h
    | false =>
      rw [hj] at h
      cases h
      exact ⟨host, rfl, rfl, rfl, rfl⟩

theorem networkRule_spelled {builder : Policy} {protocol : NetworkRuleProtocol}
    {decision : Decision} {justification : Option Text}
    (hj : justification.any (trim · = []) = false) :
    networkRule builder host protocol.asPolicyString (networkDecisionText decision) justification =
      match normalizeNetworkRuleHost host with
      | .error e => .error e
      | .ok host' =>
        .ok { builder with
          networkRules := builder.networkRules ++ [⟨host', protocol, decision, justification⟩] } := by
  unfold networkRule
  rw [NetworkRuleProtocol.parse_asPolicyString, parse_networkDecisionText, hj]
  rfl

section
variable {parse : Text → Except PolicyError Policy} {s t : RulesState} {call : NetworkAmendment}

theorem persisted_of_known (hs : Persisted parse s) (hcontents : t.contents = s.contents)
    (hlive : t.live.networkRules =
      s.live.networkRules ++ [⟨host, call.protocol, call.decision, call.justification⟩]) :
    Persisted parse t ↔
      call.decision = .prompt ∨ (s.live.domainsFor call.decision).getLast? = some host := by
  obtain ⟨reloaded, hparse, hdomains⟩ := hs
  rw [Policy.compiledNetworkDomains_inj] at hdomains
  have hsame : Persisted parse t ↔
      Policy.networkSides t.live.networkRules = Policy.networkSides s.live.networkRules := by
    unfold Persisted
    rw [hcontents, hparse]
    simp only [Except.ok.injEq, exists_eq_left', Policy.compiledNetworkDomains_inj, hdomains]
    exact eq_comm
  rw [hsame, hlive, Policy.networkSides_snoc, Policy.writeRule_eq_self]

theorem persisted_of_new (hreads : ReadsAppended parse) (hs : Persisted parse s)
    (hnew : call.line host ∉ lines s.contents) (hj : call.justification.any (trim · = []) = false)
    (hcontents : t.contents = appendLockedLine s.contents (call.line host))
    (hlive : t.live.networkRules =
      s.live.networkRules ++ [⟨host, call.protocol, call.decision, call.justification⟩]) :
    Persisted parse t ↔
      ∃ host', normalizeNetworkRuleHost host = .ok host' ∧
        (call.decision = .prompt ∨ host' = host) := by
  obtain ⟨reloaded, hparse, hdomains⟩ := hs
  rw [Policy.compiledNetworkDomains_inj] at hdomains
  have hread : parse t.contents = _ :=
    (congrArg parse hcontents).trans
      ((hreads s.contents reloaded host _ _ _ hnew hparse).trans (networkRule_spelled hj))
  unfold Persisted
  rw [hread]
  cases normalizeNetworkRuleHost host with
  | error e => simp
  | ok host' =>
    simp only [Except.ok.injEq, exists_eq_left', Policy.compiledNetworkDomains_inj, hlive,
      Policy.networkSides_snoc, hdomains]
    exact Policy.writeRule_eq_writeRule rfl

theorem persisted_step (hreads : ReadsAppended parse) (hs : Persisted parse s)
    (hcall : appendNetworkRuleAndUpdate s call = .ok t) :
    Persisted parse t ↔ CallPersists s call := by
  obtain ⟨host, hhost, hj, hcontents, hlive⟩ := append_spec hcall
  unfold CallPersists
  simp only [hhost, Except.ok.injEq, forall_eq']
  by_cases hknown : call.line host ∈ lines s.contents
  · rw [if_pos hknown]
    refine persisted_of_known hs ?_ hlive
    rw [hcontents]
    exact if_pos hknown
  · rw [if_neg hknown]
    exact persisted_of_new hreads hs hknown hj hcontents hlive

theorem callPersists_of_new (hhost : normalizeNetworkRuleHost call.host = .ok host)
    (hstable : normalizeNetworkRuleHost host = .ok host)
    (hnew : call.line host ∉ lines s.contents) : CallPersists s call := by
  intro host' hhost'
  rw [hhost] at hhost'
  cases hhost'
  rw [if_neg hnew]
  exact ⟨host, hstable, .inr rfl⟩

/-- In every run of successful calls from a policy that was read from the file, the file
stays in step with the live policy at every point exactly if every call meets the
condition. -/
theorem live_eq_persisted (hreads : ReadsAppended parse) (hstart : parse s.contents = .ok s.live)
    (calls : List NetworkAmendment) (hrun : calls.foldlM appendNetworkRuleAndUpdate s = .ok t) :
    (∀ pre u, pre <+: calls → pre.foldlM appendNetworkRuleAndUpdate s = .ok u →
        Persisted parse u) ↔
      ∀ pre call u, pre ++ [call] <+: calls → pre.foldlM appendNetworkRuleAndUpdate s = .ok u →
        CallPersists u call :=
  always_iff (fun _ _ _ hs hcall => persisted_step hreads hs hcall) ⟨s.live, hstart, rfl⟩ hrun

end

/-! ## A reader of such lines -/

def readNetworkRuleLine (line : Text) : Option (Text × Text × Text × Option Text) := do
  let s ← stripPrefix "network_rule(host=".toList line
  let (host, s) ← readJsonString s
  let s ← stripPrefix ", protocol=".toList s
  let (protocol, s) ← readJsonString s
  let s ← stripPrefix ", decision=".toList s
  let (decision, s) ← readJsonString s
  if s = ")".toList then some (host, protocol, decision, none)
  else do
    let s ← stripPrefix ", justification=".toList s
    let (raw, s) ← readJsonString s
    if s = ")".toList then some (host, protocol, decision, some raw) else none

def readRuleLine (builder : Policy) (line : Text) : Except PolicyError Policy :=
  if line = [] then .ok builder
  else
    match readNetworkRuleLine line with
    | some (host, protocol, decision, justification) =>
      networkRule builder host protocol decision justification
    | none => .error (.invalidRule line)

def readRules (contents : Text) : Except PolicyError Policy :=
  (contents.splitOn '\n').foldlM readRuleLine Policy.empty

theorem readNetworkRuleLine_spelled (host : Text) (protocol : NetworkRuleProtocol)
    (decision : Decision) (justification : Option Text) :
    readNetworkRuleLine (spelledNetworkRule host protocol decision justification) =
      some (host, protocol.asPolicyString, networkDecisionText decision, justification) := by
  have hline : ∃ rest, spelledNetworkRule host protocol decision justification =
        "network_rule(host=".toList ++ (jsonString host ++ (", protocol=".toList ++
          (jsonString protocol.asPolicyString ++ (", decision=".toList ++
            (jsonString (networkDecisionText decision) ++ rest))))) ∧
      (justification = none ∧ rest = ")".toList ∨ ∃ raw, justification = some raw ∧
        rest = ", justification=".toList ++ (jsonString raw ++ ")".toList)) := by
    unfold spelledNetworkRule
    cases justification with
    | none => exact ⟨")".toList, by simp [List.intercalate], .inl ⟨rfl, rfl⟩⟩
    | some raw =>
      exact ⟨", justification=".toList ++ (jsonString raw ++ ")".toList),
        by simp [List.intercalate], .inr ⟨raw, rfl, rfl⟩⟩
  obtain ⟨rest, hline, ⟨rfl, rfl⟩ | ⟨raw, rfl, rfl⟩⟩ := hline
  · unfold readNetworkRuleLine
    rw [hline]
    simp only [stripPrefix_append, readJsonString_jsonString, Option.bind_eq_bind,
      Option.bind_some, if_true]
  · have hne : ", justification=".toList ++ (jsonString raw ++ ")".toList) ≠ ")".toList := by
      simp
    unfold readNetworkRuleLine
    rw [hline]
    simp only [stripPrefix_append, readJsonString_jsonString, Option.bind_eq_bind,
      Option.bind_some, if_true, if_neg hne]

theorem newline_not_mem_spelled (host : Text) (protocol : NetworkRuleProtocol)
    (decision : Decision) (justification : Option Text) :
    '\n' ∉ spelledNetworkRule host protocol decision justification := by
  unfold spelledNetworkRule
  cases justification <;> simp [List.intercalate, newline_not_mem_jsonString]

theorem foldLines_appendLockedLine {σ ε : Type} {step : σ → Text → Except ε σ} {start u : σ}
    {contents line : Text} (hblank : ∀ v, step v [] = .ok v) (hline : '\n' ∉ line)
    (hnew : line ∉ lines contents) (h : foldLines step start contents = .ok u) :
    foldLines step start (appendLockedLine contents line) = step u line := by
  unfold appendLockedLine
  rw [if_neg hnew, foldLines_newline hblank]
  by_cases hopen : contents ≠ [] ∧ contents.getLast? ≠ some '\n'
  · rw [if_pos hopen, List.append_assoc]
    exact foldLines_line hline h
  · rw [if_neg hopen]
    by_cases hempty : contents = []
    · rw [hempty, foldLines_single List.not_mem_nil, hblank] at h
      cases h
      rw [hempty]
      exact foldLines_single hline
    · have hlast : contents.getLast? = some '\n' := by
        by_contra hlast
        exact hopen ⟨hempty, hlast⟩
      obtain ⟨body, rfl⟩ := List.getLast?_eq_some_iff.mp hlast
      rw [foldLines_newline hblank] at h
      rw [List.append_assoc]
      exact foldLines_line hline h

theorem readRules_readsAppended : ReadsAppended readRules := by
  intro contents policy host protocol decision justification hnew hparse
  have hline : spelledNetworkRule host protocol decision justification ≠ [] := by
    intro h
    have hspelled := readNetworkRuleLine_spelled host protocol decision justification
    rw [h] at hspelled
    cases hspelled
  refine (foldLines_appendLockedLine (fun _ => rfl)
    (newline_not_mem_spelled host protocol decision justification) hnew hparse).trans ?_
  unfold readRuleLine
  rw [if_neg hline, readNetworkRuleLine_spelled]

/-! ## A host flipped back and forth -/

def exampleCall (decision : Decision) : NetworkAmendment :=
  ⟨"example.com".toList, .https, decision, none⟩

def exampleRule (decision : Decision) : NetworkRule :=
  ⟨"example.com".toList, .https, decision, none⟩

def exampleLine (decision : Decision) : Text :=
  spelledNetworkRule "example.com".toList .https decision none

def exampleState (written live : List Decision) : RulesState :=
  ⟨written.flatMap fun d => exampleLine d ++ ['\n'], ⟨[], live.map exampleRule, []⟩⟩

theorem normalize_example :
    normalizeNetworkRuleHost "example.com".toList = .ok "example.com".toList := by decide +kernel

theorem live_eq_persisted_allow_deny :
    Persisted readRules (exampleState [.allow, .forbidden] [.allow, .forbidden]) := by
  have hrun : [exampleCall .allow, exampleCall .forbidden].foldlM appendNetworkRuleAndUpdate
      (exampleState [] []) = .ok (exampleState [.allow, .forbidden] [.allow, .forbidden]) := by
    decide +kernel
  refine (live_eq_persisted readRules_readsAppended (by decide +kernel) _ hrun).mpr ?_ _ _
    List.prefix_rfl hrun
  intro pre call u hpre hu
  cases pre with
  | nil =>
    obtain ⟨rfl, -⟩ := List.cons_prefix_cons.mp hpre
    cases hu
    exact callPersists_of_new normalize_example normalize_example (by decide +kernel)
  | cons first pre =>
    obtain ⟨rfl, hrest⟩ := List.cons_prefix_cons.mp hpre
    cases pre with
    | nil =>
      obtain ⟨rfl, -⟩ := List.cons_prefix_cons.mp hrest
      have hfirst : [exampleCall .allow].foldlM appendNetworkRuleAndUpdate (exampleState [] []) =
          .ok (exampleState [.allow] [.allow]) := by decide +kernel
      cases hu
      exact callPersists_of_new normalize_example normalize_example (by decide +kernel)
    | cons second pre =>
      have hlen := hrest.length_le
      simp at hlen

/-- The second time, the allowing line is in the file already. -/
theorem flipped_back_not_persisted : ReadsAppended readRules ∧
      readRules (exampleState [] []).contents = .ok (exampleState [] []).live ∧
      ∃ t, [exampleCall .allow, exampleCall .forbidden, exampleCall .allow].foldlM
          appendNetworkRuleAndUpdate (exampleState [] []) = .ok t ∧ ¬ Persisted readRules t := by
  refine ⟨readRules_readsAppended, by decide +kernel,
    exampleState [.allow, .forbidden] [.allow, .forbidden, .allow], by decide +kernel, ?_⟩
  rintro ⟨reloaded, hread, hdomains⟩
  have hfile : readRules (exampleState [.allow, .forbidden] []).contents =
      .ok (exampleState [] [.allow, .forbidden]).live := by decide +kernel
  have heq : reloaded = (exampleState [] [.allow, .forbidden]).live :=
    Except.ok.inj (hread.symm.trans hfile)
  rw [heq] at hdomains
  exact absurd hdomains (by decide +kernel)

end Codex
