import Codex.Foundation.Retention
import Codex.NetworkProxy.Constraints
import Codex.Path

/-!
# The shared state of the proxy

Tasks share one `ConfigState` behind a lock. What a task does while it holds the lock is
one step; between two locks, and while it waits for the config reloader, steps of other
tasks come in. A blocked request is an event of any type.
-/

namespace Codex.NetworkProxy

open Foundation

/-- Where the intercepted traffic goes; the certificates are left out. -/
structure MitmState where
  allowUpstreamProxy : Bool

structure ConfigState (ε : Type) where
  config : NetworkProxySettings
  allowSet : GlobSet
  denySet : GlobSet
  mitm : Option MitmState
  constraints : NetworkProxyConstraints
  blocked : List ε
  blockedTotal : UInt64

def maxBlockedEvents : ℕ := 200

def saturatingSucc (n : UInt64) : UInt64 := if n.toNat + 1 < UInt64.size then n + 1 else n

def ConfigState.record {ε : Type} (s : ConfigState ε) (entry : ε) : ConfigState ε :=
  { s with
    blocked := pushBounded maxBlockedEvents s.blocked entry
    blockedTotal := saturatingSucc s.blockedTotal }

/-- The libraries the proxy calls, and whether its certificates can be loaded or made. -/
structure Env where
  urlHost : UrlHost
  engine : GlobEngine
  managedMitmCa : Bool

inductive Failure where
  | reload
  | invalidHost
  | constrained (value : InvalidValue)
  | invalidUnixSocket (index : ℕ)
  | compile (error : CompileError)
  | mitm
deriving DecidableEq

/-- The first socket path that is not absolute, by its index. -/
def validateUnixSocketAllowlistPaths (config : NetworkProxySettings) : Except Failure Unit :=
  match config.allowUnixSockets.findIdx? fun path => !isAbsolute path with
  | some index => .error (.invalidUnixSocket index)
  | none => .ok ()

def MitmState.new (env : Env) (allowUpstreamProxy : Bool) : Except Failure MitmState :=
  if env.managedMitmCa then .ok ⟨allowUpstreamProxy⟩ else .error .mitm

def buildConfigState {ε : Type} (env : Env) (config : NetworkProxySettings)
    (constraints : NetworkProxyConstraints) : Except Failure (ConfigState ε) := do
  validateUnixSocketAllowlistPaths config
  let allowed := config.allowedDomains.getD []
  let denied := config.deniedDomains.getD []
  (validateNonGlobalWildcardDomainPatterns "network.denied_domains".toList denied).mapError
    .constrained
  let denySet ← (compileDenylistGlobset env.engine denied).mapError .compile
  let allowSet ← (compileAllowlistGlobset env.engine allowed).mapError .compile
  let mitm ← (if config.mitm then (MitmState.new env config.allowUpstreamProxy).map some
    else .ok none)
  .ok ⟨config, allowSet, denySet, mitm, constraints, [], 0⟩

inductive DomainListKind where
  | allow
  | deny
deriving DecidableEq

namespace DomainListKind

def permission : DomainListKind → NetworkDomainPermission
  | allow => .allow
  | deny => .deny

def entries (kind : DomainListKind) (network : NetworkProxySettings) : List Text :=
  match kind with
  | allow => network.allowedDomains.getD []
  | deny => network.deniedDomains.getD []

def oppositeEntries (kind : DomainListKind) (network : NetworkProxySettings) : List Text :=
  match kind with
  | allow => network.deniedDomains.getD []
  | deny => network.allowedDomains.getD []

end DomainListKind

/-- What `update_domain_list` holds between its two locks. -/
structure UpdatePlan (ε : Type) where
  previousCfg : NetworkProxySettings
  constraints : NetworkProxyConstraints
  newState : ConfigState ε

/-- From the snapshot of an update to its swap: nothing to do, a failure, or a plan. -/
def planUpdate {ε : Type} (env : Env) (host : Text) (target : DomainListKind)
    (s : ConfigState ε) : Except Failure (Option (UpdatePlan ε)) := do
  let lists (entries : List Text) := entries.any fun entry => normalizeHost entry = host
  if lists (target.entries s.config) && !lists (target.oppositeEntries s.config) then .ok none
  else
    let candidate := s.config.upsertDomainPermission host target.permission normalizeHost
    (validatePolicyAgainstConstraints env.urlHost candidate s.constraints).mapError .constrained
    let newState ← buildConfigState (ε := ε) env candidate s.constraints
    .ok (some ⟨s.config, s.constraints,
      { newState with blocked := s.blocked, blockedTotal := s.blockedTotal }⟩)

/-! ## Tasks -/

/-- The operations that start with `reload_if_needed`. `read` stands for all that only look
at the state. -/
inductive Op (ε : Type) where
  | read
  | recordBlocked (entry : ε)
  | drainBlocked
  | replaceConfigState (newState : ConfigState ε)
  | updateDomainList (host : Text) (target : DomainListKind)
  | setNetworkMode (mode : NetworkMode)

inductive Call (ε : Type) where
  | operation (op : Op ε)
  | forceReload

inductive Outcome (ε : Type) where
  | ok
  | drained (entries : List ε)
  | failed (failure : Failure)

inductive Pc (ε : Type) where
  | idle
  | reload (op : Op ε)
  | reloadRead (op : Op ε) (newState : ConfigState ε)
  | reloadWrite (op : Op ε) (newState : ConfigState ε)
  | ready (op : Op ε)
  | updateWrite (host : Text) (target : DomainListKind) (plan : UpdatePlan ε)
  | modeWrite (mode : NetworkMode) (constraints : NetworkProxyConstraints)
  | forceRead
  | forceReload
  | forceWrite (newState : ConfigState ε)
  | done (outcome : Outcome ε)

variable {ε : Type}

def Call.begin : Call ε → Pc ε
  | .operation (.updateDomainList host target) =>
    match Host.parse host with
    | some host => .reload (.updateDomainList host.text target)
    | none => .done (.failed .invalidHost)
  | .operation op => .reload op
  | .forceReload => .forceRead

def Pc.isFree : Pc ε → Bool
  | .idle => true
  | .done _ => true
  | _ => false

def Pc.maybeReload (answer : Except Unit (Option (ConfigState ε))) : Pc ε → Option (Pc ε)
  | .reload op =>
    match answer with
    | .error _ => some (.done (.failed .reload))
    | .ok none => some (.ready op)
    | .ok (some newState) => some (.reloadRead op newState)
  | _ => none

def Pc.reloadNow (answer : Except Unit (ConfigState ε)) : Pc ε → Option (Pc ε)
  | .forceReload =>
    match answer with
    | .error _ => some (.done (.failed .reload))
    | .ok newState => some (.forceWrite newState)
  | _ => none

/-- The buffer and the count of `s` on a new state. -/
def ConfigState.carryTo (s newState : ConfigState ε) : ConfigState ε :=
  { newState with blocked := s.blocked, blockedTotal := s.blockedTotal }

def Op.acquire (env : Env) (s : ConfigState ε) : Op ε → ConfigState ε × Pc ε
  | .read => (s, .done .ok)
  | .recordBlocked entry => (s.record entry, .done .ok)
  | .drainBlocked => ({ s with blocked := [] }, .done (.drained s.blocked))
  | .replaceConfigState newState => (s.carryTo newState, .done .ok)
  | .updateDomainList host target =>
    match planUpdate env host target s with
    | .error failure => (s, .done (.failed failure))
    | .ok none => (s, .done .ok)
    | .ok (some plan) => (s, .updateWrite host target plan)
  | .setNetworkMode mode =>
    match validatePolicyAgainstConstraints env.urlHost { s.config with mode := mode }
        s.constraints with
    | .error value => (s, .done (.failed (.constrained value)))
    | .ok _ => (s, .modeWrite mode s.constraints)

def Pc.acquire (env : Env) (s : ConfigState ε) : Pc ε → Option (ConfigState ε × Pc ε)
  | .reloadRead op newState => some (s, .reloadWrite op (s.carryTo newState))
  | .reloadWrite op newState => some (newState, .ready op)
  | .ready op => some (op.acquire env s)
  | .updateWrite host target plan =>
    -- the policy has changed since the snapshot: the update starts again
    if s.constraints ≠ plan.constraints ∨ s.config ≠ plan.previousCfg then
      some (s, .reload (.updateDomainList host target))
    else some (plan.newState, .done .ok)
  | .modeWrite mode constraints =>
    if s.constraints ≠ constraints then some (s, .reload (.setNetworkMode mode))
    else some ({ s with config := { s.config with mode := mode } }, .done .ok)
  | .forceRead => some (s, .forceReload)
  | .forceWrite newState => some ({ newState with blocked := s.blocked }, .done .ok)
  | _ => none

structure System (ε : Type) where
  state : ConfigState ε
  tasks : ℕ → Pc ε

inductive Action (ε : Type) where
  | call (task : ℕ) (call : Call ε)
  | maybeReload (task : ℕ) (answer : Except Unit (Option (ConfigState ε)))
  | reloadNow (task : ℕ) (answer : Except Unit (ConfigState ε))
  | acquire (task : ℕ)

inductive Disabled where
  | disabled
deriving DecidableEq

def System.setTask (s : System ε) (task : ℕ) (pc : Pc ε) : System ε :=
  { s with tasks := Function.update s.tasks task pc }

theorem setTask_tasks (s : System ε) (task k : ℕ) (pc : Pc ε) :
    (s.setTask task pc).tasks k = if k = task then pc else s.tasks k := by
  simp [System.setTask, Function.update_apply]

def step (env : Env) (s : System ε) : Action ε → Except Disabled (System ε)
  | .call task call =>
    if (s.tasks task).isFree then .ok (s.setTask task call.begin) else .error .disabled
  | .maybeReload task answer =>
    match (s.tasks task).maybeReload answer with
    | some pc => .ok (s.setTask task pc)
    | none => .error .disabled
  | .reloadNow task answer =>
    match (s.tasks task).reloadNow answer with
    | some pc => .ok (s.setTask task pc)
    | none => .error .disabled
  | .acquire task =>
    match (s.tasks task).acquire env s.state with
    | some (state, pc) => .ok ({ s with state := state }.setTask task pc)
    | none => .error .disabled

end Codex.NetworkProxy
