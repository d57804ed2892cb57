import Codex.Foundation.MostSpecific
import Codex.Path

/-!
# The execution policy

Decisions are ordered by strictness. A prefix rule matches the first tokens of a
command; a network rule names a host, which is normalised before it is stored. Prefix
rules are keyed by program, network rules stand in order, and a program name may stand for
some paths. Rules for the exact program come first; only if none matches are the rules for
its base name tried.
-/

namespace Codex

open Foundation

inductive Decision where
  | allow
  | prompt
  | forbidden
deriving DecidableEq

def Decision.rank : Decision → Nat
  | .allow => 0
  | .prompt => 1
  | .forbidden => 2

theorem Decision.rank_injective : Function.Injective Decision.rank := by
  intro a b h
  cases a <;> cases b <;> first | rfl | cases h

instance : LinearOrder Decision := LinearOrder.lift' Decision.rank Decision.rank_injective

theorem Decision.allow_le (d : Decision) : .allow ≤ d := Nat.zero_le d.rank

theorem Decision.le_forbidden (d : Decision) : d ≤ .forbidden := by
  cases d <;> decide

inductive PolicyError where
  | invalidDecision (raw : Text)
  | invalidPattern (message : Text)
  | invalidRule (message : Text)
deriving DecidableEq

def Decision.parse (raw : Text) : Except PolicyError Decision :=
  if raw = "allow".toList then .ok .allow
  else if raw = "prompt".toList then .ok .prompt
  else if raw = "forbidden".toList then .ok .forbidden
  else .error (.invalidDecision raw)

/-! ## Prefix rules -/

inductive PatternToken where
  | single (expected : Text)
  | alts (alternatives : List Text)
deriving DecidableEq

def PatternToken.matchesToken : PatternToken → Text → Bool
  | .single expected, token => expected = token
  | .alts alternatives, token => token ∈ alternatives

structure PrefixPattern where
  first : Text
  rest : List PatternToken
deriving DecidableEq

def PrefixPattern.matchesPrefix (p : PrefixPattern) (cmd : List Text) : Option (List Text) :=
  match cmd with
  | [] => none
  | program :: args =>
    if args.length < p.rest.length ∨ program ≠ p.first then none
    else if (p.rest.zip args).all fun (token, arg) => token.matchesToken arg then
      some (cmd.take (p.rest.length + 1))
    else none

structure PrefixRule where
  pattern : PrefixPattern
  decision : Decision
  justification : Option Text
deriving DecidableEq

inductive RuleMatch where
  | prefixRuleMatch (matchedPrefix : List Text) (decision : Decision)
      (resolvedProgram : Option AbsolutePathBuf) (justification : Option Text)
  | heuristicsRuleMatch (command : List Text) (decision : Decision)
deriving DecidableEq

def RuleMatch.decision : RuleMatch → Decision
  | .prefixRuleMatch _ decision _ _ => decision
  | .heuristicsRuleMatch _ decision => decision

def RuleMatch.withResolvedProgram (program : AbsolutePathBuf) : RuleMatch → RuleMatch
  | .prefixRuleMatch matchedPrefix decision _ justification =>
    .prefixRuleMatch matchedPrefix decision (some program) justification
  | other => other

def PrefixRule.matchesCommand (rule : PrefixRule) (cmd : List Text) : Option RuleMatch :=
  (rule.pattern.matchesPrefix cmd).map fun matchedPrefix =>
    .prefixRuleMatch matchedPrefix rule.decision none rule.justification

inductive NetworkRuleProtocol where
  | http
  | https
  | socks5Tcp
  | socks5Udp
deriving DecidableEq

def NetworkRuleProtocol.parse (raw : Text) : Except PolicyError NetworkRuleProtocol :=
  if raw = "http".toList then .ok .http
  else if raw ∈ ["https".toList, "https_connect".toList, "http-connect".toList] then .ok .https
  else if raw = "socks5_tcp".toList then .ok .socks5Tcp
  else if raw = "socks5_udp".toList then .ok .socks5Udp
  else .error (.invalidRule
    ("network_rule protocol must be one of http, https, socks5_tcp, socks5_udp (got ".toList ++
      raw ++ ")".toList))

def NetworkRuleProtocol.asPolicyString : NetworkRuleProtocol → Text
  | .http => "http".toList
  | .https => "https".toList
  | .socks5Tcp => "socks5_tcp".toList
  | .socks5Udp => "socks5_udp".toList

theorem NetworkRuleProtocol.parse_asPolicyString (p : NetworkRuleProtocol) :
    parse p.asPolicyString = .ok p := by
  cases p <;> rfl

structure NetworkRule where
  host : Text
  protocol : NetworkRuleProtocol
  decision : Decision
  justification : Option Text
deriving DecidableEq

/-! ## Hosts -/

def isPort (port : Text) : Bool := port ≠ [] && port.all Char.isDigit

def stripHostDecoration (raw host : Text) : Except PolicyError Text :=
  match host with
  | '[' :: stripped =>
    match splitOnce ']' stripped with
    | none => .error (.invalidRule "network_rule host has an invalid bracketed IPv6 literal".toList)
    | some (inside, rest) =>
      let portOk : Bool := match rest with
        | ':' :: port => isPort port
        | _ => false
      if rest ≠ [] ∧ ¬ portOk then
        .error (.invalidRule ("network_rule host contains an unsupported suffix: ".toList ++ raw))
      else .ok inside
  | host =>
    match rsplitOnce ':' host with
    | some (candidate, port) =>
      if host.count ':' = 1 ∧ candidate ≠ [] ∧ isPort port then .ok candidate else .ok host
    | none => .ok host

def normalizeNetworkRuleHost (raw : Text) : Except PolicyError Text :=
  let host := trim raw
  if host = [] then .error (.invalidRule "network_rule host cannot be empty".toList)
  else if "://".toList <:+: host ∨ '/' ∈ host ∨ '?' ∈ host ∨ '#' ∈ host then
    .error (.invalidRule
      "network_rule host must be a hostname or IP literal (without scheme or path)".toList)
  else
    match stripHostDecoration raw host with
    | .error e => .error e
    | .ok host =>
      let normalized := toAsciiLowercase (trim (host.rdropWhile (· = '.')))
      if normalized = [] then .error (.invalidRule "network_rule host cannot be empty".toList)
      else if '*' ∈ normalized then
        .error (.invalidRule
          "network_rule host must be a specific host; wildcards are not allowed".toList)
      else if normalized.any isWhitespace then
        .error (.invalidRule "network_rule host cannot contain whitespace".toList)
      else .ok normalized

def executablePathLookupKey (path : AbsolutePathBuf) : Option Text := path.comps.getLast?

structure MatchOptions where
  resolveHostExecutables : Bool

/-- The rules of a program stand in the order in which they were inserted; the table
of host executables is looked up from its newest entry. -/
structure Policy where
  rulesByProgram : List (Text × PrefixRule)
  networkRules : List NetworkRule
  hostExecutablesByName : List (Text × List AbsolutePathBuf)
deriving DecidableEq

structure Evaluation where
  decision : Decision
  matchedRules : List RuleMatch

/-- The decision is the strictest one; `none` where the code would panic. -/
def Evaluation.fromMatches (matchedRules : List RuleMatch) : Option Evaluation :=
  (matchedRules.map (·.decision)).max?.map fun decision => ⟨decision, matchedRules⟩

def isPolicyMatch : RuleMatch → Bool
  | .prefixRuleMatch .. => true
  | .heuristicsRuleMatch .. => false

namespace Policy

def empty : Policy := ⟨[], [], []⟩

def getVec (policy : Policy) (program : Text) : List PrefixRule :=
  (policy.rulesByProgram.filter (·.1 = program)).map (·.2)

def hostExecutables (policy : Policy) (name : Text) : Option (List AbsolutePathBuf) :=
  policy.hostExecutablesByName.lookup name

def addPrefixRule (policy : Policy) (pre : List Text) (decision : Decision) :
    Except PolicyError Policy :=
  match pre with
  | [] => .error (.invalidPattern "prefix cannot be empty".toList)
  | first :: rest =>
    .ok { policy with
      rulesByProgram :=
        policy.rulesByProgram ++ [(first, ⟨⟨first, rest.map .single⟩, decision, none⟩)] }

def addNetworkRule (policy : Policy) (host : Text) (protocol : NetworkRuleProtocol)
    (decision : Decision) (justification : Option Text) : Except PolicyError Policy :=
  match normalizeNetworkRuleHost host with
  | .error e => .error e
  | .ok host =>
    if justification.any (trim · = []) then
      .error (.invalidRule "justification cannot be empty".toList)
    else
      .ok { policy with
        networkRules := policy.networkRules ++ [⟨host, protocol, decision, justification⟩] }

/-- Rules add up; a table entry of the overlay replaces that of the base. -/
def mergeOverlay (base overlay : Policy) : Policy :=
  ⟨base.rulesByProgram ++ overlay.rulesByProgram, base.networkRules ++ overlay.networkRules,
    overlay.hostExecutablesByName ++ base.hostExecutablesByName⟩

/-! ## Matching -/

def matchExactRules (policy : Policy) (cmd : List Text) : List RuleMatch :=
  match cmd with
  | [] => []
  | first :: _ => (policy.getVec first).filterMap (·.matchesCommand cmd)

section
variable (paths : ProcessPaths)

def hostProgram (cmd : List Text) : Option (AbsolutePathBuf × Text) :=
  match cmd with
  | [] => none
  | first :: _ =>
    (paths.absolutePath first).bind fun program =>
      (executablePathLookupKey program).map fun basename => (program, basename)

def excludes (policy : Policy) (program : AbsolutePathBuf) (basename : Text) : Bool :=
  match policy.hostExecutables basename with
  | some listed => program ∉ listed
  | none => false

def matchHostExecutableRules (policy : Policy) (cmd : List Text) : List RuleMatch :=
  match hostProgram paths cmd with
  | none => []
  | some (program, basename) =>
    if policy.excludes program basename then []
    else
      ((policy.getVec basename).filterMap (·.matchesCommand (basename :: cmd.drop 1))).map
        (·.withResolvedProgram program)

def matchedRules (policy : Policy) (cmd : List Text) (options : MatchOptions) :
    List RuleMatch :=
  if policy.matchExactRules cmd ≠ [] then policy.matchExactRules cmd
  else if options.resolveHostExecutables then policy.matchHostExecutableRules paths cmd
  else []

def matchesForCommandWithOptions (policy : Policy) (cmd : List Text)
    (heuristicsFallback : Option (List Text → Decision)) (options : MatchOptions) :
    List RuleMatch :=
  let matched := policy.matchedRules paths cmd options
  match matched, heuristicsFallback with
  | [], some heuristicsFallback => [.heuristicsRuleMatch cmd (heuristicsFallback cmd)]
  | matched, _ => matched

def checkWithOptions (policy : Policy) (cmd : List Text)
    (heuristicsFallback : List Text → Decision) (options : MatchOptions) : Option Evaluation :=
  Evaluation.fromMatches (policy.matchesForCommandWithOptions paths cmd (some heuristicsFallback) options)

def checkMultipleWithOptions (policy : Policy) (commands : List (List Text))
    (heuristicsFallback : List Text → Decision) (options : MatchOptions) : Option Evaluation :=
  Evaluation.fromMatches (commands.flatMap fun command =>
    policy.matchesForCommandWithOptions paths command (some heuristicsFallback) options)

variable {paths}

theorem matchesForCommand_ne_nil (policy : Policy) (cmd : List Text)
    (heuristicsFallback : List Text → Decision) (options : MatchOptions) :
    policy.matchesForCommandWithOptions paths cmd (some heuristicsFallback) options ≠ [] := by
  unfold matchesForCommandWithOptions
  cases policy.matchedRules paths cmd options with
  | nil | cons m ms => exact List.cons_ne_nil _ _

theorem matchesForCommand_none (policy : Policy) (cmd : List Text) (options : MatchOptions) :
    policy.matchesForCommandWithOptions paths cmd none options =
      policy.matchedRules paths cmd options := by
  unfold matchesForCommandWithOptions
  cases policy.matchedRules paths cmd options <;> rfl

theorem matchesForCommand_of_matched {policy : Policy} {cmd : List Text} {options : MatchOptions}
    (h : policy.matchedRules paths cmd options ≠ [])
    (heuristicsFallback : Option (List Text → Decision)) :
    policy.matchesForCommandWithOptions paths cmd heuristicsFallback options =
      policy.matchedRules paths cmd options := by
  unfold matchesForCommandWithOptions
  cases hm : policy.matchedRules paths cmd options with
  | nil => exact absurd hm h
  | cons m ms => rfl

theorem matchesForCommand_of_unmatched {policy : Policy} {cmd : List Text} {options : MatchOptions}
    (h : policy.matchedRules paths cmd options = []) (heuristicsFallback : List Text → Decision) :
    policy.matchesForCommandWithOptions paths cmd (some heuristicsFallback) options =
      [.heuristicsRuleMatch cmd (heuristicsFallback cmd)] := by
  unfold matchesForCommandWithOptions
  rw [h]

end

theorem getVec_mergeOverlay (base overlay : Policy) (program : Text) :
    (base.mergeOverlay overlay).getVec program = base.getVec program ++ overlay.getVec program := by
  unfold getVec mergeOverlay
  rw [List.filter_append, List.map_append]

end Policy

end Codex
