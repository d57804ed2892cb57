import Codex.ExecPolicy.Overlay
import Codex.Sandbox.FileSystemPolicy

/-!
# Approval requirements

A shell command is split into segments; each is matched by rules or, failing that,
by a fallback decision. The strictest decision of all matches, and the approval
settings, say whether the command runs, needs approval or is forbidden.
-/

namespace Codex

open Foundation

/-! ## Settings -/

structure GranularApprovalConfig where
  sandboxApproval : Bool
  rules : Bool
deriving DecidableEq

inductive AskForApproval where
  | unlessTrusted
  | onFailure
  | onRequest
  | granular (config : GranularApprovalConfig)
  | never
deriving DecidableEq

structure ExecPolicyAmendment where
  command : List Text
deriving DecidableEq

inductive ExecApprovalRequirement where
  | skip (bypassSandbox : Bool) (proposedExecpolicyAmendment : Option ExecPolicyAmendment)
  | needsApproval (reason : Option Text) (proposedExecpolicyAmendment : Option ExecPolicyAmendment)
  | forbidden (reason : Text)
deriving DecidableEq

def PROMPT_CONFLICT_REASON : Text :=
  "approval required by policy, but AskForApproval is set to Never".toList
def REJECT_SANDBOX_APPROVAL_REASON : Text :=
  "approval required by policy, but AskForApproval::Granular.sandbox_approval is false".toList
def REJECT_RULES_APPROVAL_REASON : Text :=
  "approval required by policy rule, but AskForApproval::Granular.rules is false".toList

def BANNED_PREFIX_SUGGESTIONS : List (List Text) :=
  [["python3"], ["python3", "-"], ["python3", "-c"], ["python"], ["python", "-"],
    ["python", "-c"], ["py"], ["py", "-3"], ["pythonw"], ["pyw"], ["pypy"], ["pypy3"], ["git"],
    ["bash"], ["bash", "-lc"], ["sh"], ["sh", "-c"], ["sh", "-lc"], ["zsh"], ["zsh", "-lc"],
    ["/bin/zsh"], ["/bin/zsh", "-lc"], ["/bin/bash"], ["/bin/bash", "-lc"], ["pwsh"],
    ["pwsh", "-Command"], ["pwsh", "-c"], ["powershell"], ["powershell", "-Command"],
    ["powershell", "-c"], ["powershell.exe"], ["powershell.exe", "-Command"],
    ["powershell.exe", "-c"], ["env"], ["sudo"], ["node"], ["node", "-e"], ["perl"],
    ["perl", "-e"], ["ruby"], ["ruby", "-e"], ["php"], ["php", "-r"], ["lua"], ["lua", "-e"],
    ["osascript"]].map (·.map String.toList)

/-- A rejection reason when the settings do not let a prompt through. Where a rule
prompts, the `rules` setting decides and not `sandbox_approval`. -/
def promptIsRejectedByPolicy (approvalPolicy : AskForApproval) (promptIsRule : Bool) :
    Option Text :=
  match approvalPolicy with
  | .never => some PROMPT_CONFLICT_REASON
  | .onFailure => none
  | .onRequest => none
  | .unlessTrusted => none
  | .granular config =>
    if promptIsRule then
      if !config.rules then some REJECT_RULES_APPROVAL_REASON else none
    else if !config.sandboxApproval then some REJECT_SANDBOX_APPROVAL_REASON
    else none

/-! ## Unmatched commands -/

inductive PermissionProfile where
  | managed
  | disabled
  | external
deriving DecidableEq

inductive SandboxPermissions where
  | useDefault
  | requireEscalated
  | withAdditionalPermissions
deriving DecidableEq

def SandboxPermissions.requestsSandboxOverride : SandboxPermissions → Bool
  | .useDefault => false
  | _ => true

structure SandboxSetting where
  windows : Bool
  permissionProfile : PermissionProfile
  fileSystemKind : FileSystemSandboxKind
  hasFullDiskWriteAccess : Bool
  writableRoots : List AbsolutePathBuf
  sandboxPermissions : SandboxPermissions

def SandboxSetting.profileIsManagedReadOnly (setting : SandboxSetting) : Bool :=
  setting.permissionProfile = .managed && setting.fileSystemKind = .restricted &&
    !setting.hasFullDiskWriteAccess && setting.writableRoots.isEmpty

structure CommandSafety where
  isKnownSafeCommand : List Text → Bool
  commandMightBeDangerous : List Text → Bool

def renderDecisionForUnmatchedCommand (safety : CommandSafety) (approvalPolicy : AskForApproval)
    (setting : SandboxSetting) (usedComplexParsing : Bool) (command : List Text) : Decision :=
  if safety.isKnownSafeCommand command ∧ ¬ usedComplexParsing then .allow
  else if safety.commandMightBeDangerous command ∨
      (setting.windows ∧ setting.profileIsManagedReadOnly) then
    match approvalPolicy, setting.permissionProfile with
    | .never, .managed => .forbidden
    | .never, _ => .allow
    | _, _ => .prompt
  else
    match approvalPolicy with
    | .never => .allow
    | .onFailure => .allow
    | .unlessTrusted => .prompt
    | _ =>
      match setting.fileSystemKind with
      | .restricted =>
        if setting.sandboxPermissions.requestsSandboxOverride then .prompt else .allow
      | _ => .allow

/-! ## Amendments and reasons -/

def isRulePrompt (m : RuleMatch) : Bool := isPolicyMatch m && m.decision == .prompt

def isRuleAllow (m : RuleMatch) : Bool := isPolicyMatch m && m.decision == .allow

def heuristicsAmendment (decision : Decision) (matched : List RuleMatch) :
    Option ExecPolicyAmendment :=
  matched.findSome? fun
    | .heuristicsRuleMatch command d => if d = decision then some ⟨command⟩ else none
    | _ => none

def tryDeriveExecpolicyAmendmentForPromptRules (matched : List RuleMatch) :
    Option ExecPolicyAmendment :=
  if matched.any isRulePrompt then none else heuristicsAmendment .prompt matched

def tryDeriveExecpolicyAmendmentForAllowRules (matched : List RuleMatch) :
    Option ExecPolicyAmendment :=
  if matched.any isPolicyMatch then none else heuristicsAmendment .allow matched

/-- `Iterator::max_by_key`: the last of the greatest. -/
def maxByKey {α : Type} (key : α → Nat) : List α → Option α
  | [] => none
  | a :: l => match maxByKey key l with
    | none => some a
    | some b => if key a ≤ key b then some b else some a

/-- The matched prefix and the justification of the longest match of a rule with the
decision. -/
def mostSpecific (decision : Decision) (matched : List RuleMatch) :
    Option (List Text × Option Text) :=
  maxByKey (·.1.length) (matched.filterMap fun
    | .prefixRuleMatch matchedPrefix d _ justification =>
      if d = decision then some (matchedPrefix, justification) else none
    | _ => none)

variable (shlexTryJoin : List Text → Option Text)

def renderShlexCommand (args : List Text) : Text :=
  (shlexTryJoin args).getD ([' '].intercalate args)

def derivePromptReason (commandArgs : List Text) (matched : List RuleMatch) : Option Text :=
  let command := renderShlexCommand shlexTryJoin commandArgs
  match mostSpecific .prompt matched with
  | some (_, some justification) =>
    some ("`".toList ++ command ++ "` requires approval: ".toList ++ justification)
  | some (_, none) => some ("`".toList ++ command ++ "` requires approval by policy".toList)
  | none => none

def deriveForbiddenReason (commandArgs : List Text) (matched : List RuleMatch) : Text :=
  let command := renderShlexCommand shlexTryJoin commandArgs
  match mostSpecific .forbidden matched with
  | some (_, some justification) =>
    "`".toList ++ command ++ "` rejected: ".toList ++ justification
  | some (matchedPrefix, none) =>
    "`".toList ++ command ++ "` rejected: policy forbids commands starting with `".toList ++
      renderShlexCommand shlexTryJoin matchedPrefix ++ "`".toList
  | none => "`".toList ++ command ++ "` rejected: blocked by policy".toList

variable (paths : ProcessPaths) (policy : Policy) (fallback : List Text → Decision)

def prefixRuleWouldApproveAllCommands (prefixRule : List Text) (commands : List (List Text)) :
    Bool :=
  match policy.addPrefixRule prefixRule .allow with
  | .error _ => false
  | .ok policyWithPrefixRule => commands.all fun command =>
      (policyWithPrefixRule.checkWithOptions paths command fallback ⟨true⟩).map (·.decision) ==
        some .allow

def deriveRequestedExecpolicyAmendmentFromPrefixRule (prefixRule : Option (List Text))
    (matched : List RuleMatch) (commands : List (List Text)) : Option ExecPolicyAmendment :=
  match prefixRule with
  | none => none
  | some prefixRule =>
    if prefixRule = [] ∨ prefixRule ∈ BANNED_PREFIX_SUGGESTIONS ∨ matched.any isPolicyMatch then none
    else if prefixRuleWouldApproveAllCommands paths policy fallback prefixRule commands then
      some ⟨prefixRule⟩
    else none

/-! ## The requirement -/

structure ApprovalRequest where
  command : List Text
  usedComplexParsing : Bool
  prefixRule : Option (List Text)

/-- The requirement for the segments of a command; `none` where the code would panic. -/
def approvalRequirementForCommands (approvalPolicy : AskForApproval) (req : ApprovalRequest)
    (commands : List (List Text)) : Option ExecApprovalRequirement :=
  (policy.checkMultipleWithOptions paths commands fallback ⟨true⟩).map fun evaluation =>
    let matched := evaluation.matchedRules
    let requestedAmendment := deriveRequestedExecpolicyAmendmentFromPrefixRule paths policy
      fallback req.prefixRule matched commands
    match evaluation.decision with
    | .forbidden => .forbidden (deriveForbiddenReason shlexTryJoin req.command matched)
    | .prompt =>
      match promptIsRejectedByPolicy approvalPolicy (matched.any isRulePrompt) with
      | some reason => .forbidden reason
      | none =>
        .needsApproval (derivePromptReason shlexTryJoin req.command matched)
          (requestedAmendment.or
            (if !req.usedComplexParsing then tryDeriveExecpolicyAmendmentForPromptRules matched
            else none))
    | .allow =>
      .skip
        (commands.all fun command =>
          (policy.matchesForCommandWithOptions paths command none ⟨true⟩).any isRuleAllow)
        (if !req.usedComplexParsing then tryDeriveExecpolicyAmendmentForAllowRules matched
        else none)

structure ShellParsers where
  parseShellLcPlainCommands : List Text → Option (List (List Text))
  parseShellLcSingleCommandPrefix : List Text → Option (List Text)

def commandsForExecPolicy (parsers : ShellParsers) (command : List Text) :
    List (List Text) × Bool :=
  match parsers.parseShellLcPlainCommands command with
  | some (first :: rest) => (first :: rest, false)
  | _ =>
    match parsers.parseShellLcSingleCommandPrefix command with
    | some single => ([single], true)
    | none => ([command], false)

def createExecApprovalRequirementForCommand (parsers : ShellParsers) (safety : CommandSafety)
    (approvalPolicy : AskForApproval) (setting : SandboxSetting) (prefixRule : Option (List Text))
    (command : List Text) : Option ExecApprovalRequirement :=
  let (commands, usedComplexParsing) := commandsForExecPolicy parsers command
  approvalRequirementForCommands shlexTryJoin paths policy
    (renderDecisionForUnmatchedCommand safety approvalPolicy setting usedComplexParsing)
    approvalPolicy ⟨command, usedComplexParsing, prefixRule⟩ commands

end Codex
