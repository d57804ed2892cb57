import Codex.NetworkProxy.Policy

/-!
# Settings of the network proxy and constraints on them

A pattern may stand several times among the entries of a config. The strongest of its
permissions counts, at the place of its first entry.

`validatePolicyAgainstConstraints` makes its checks in the order of the source; the first
one that fails names its field.
-/

namespace Codex.NetworkProxy

open Foundation

/-! ## The settings of the network proxy -/

/-- The variants in order of precedence: deny wins over allow. -/
inductive NetworkDomainPermission where
  | none
  | allow
  | deny
deriving DecidableEq

namespace NetworkDomainPermission

def rank : NetworkDomainPermission → ℕ
  | none => 0
  | allow => 1
  | deny => 2

def strongest (a b : NetworkDomainPermission) : NetworkDomainPermission :=
  if a.rank < b.rank then b else a

end NetworkDomainPermission

structure NetworkDomainPermissionEntry where
  pattern : Text
  permission : NetworkDomainPermission
deriving DecidableEq

/-- One entry of the config on the entries that count so far. The list holds the keys of
the source's map in the order of its `order`. -/
def mergeEntry (effective : List NetworkDomainPermissionEntry)
    (entry : NetworkDomainPermissionEntry) : List NetworkDomainPermissionEntry :=
  if effective.any (·.pattern = entry.pattern) then
    effective.map fun e =>
      if e.pattern = entry.pattern then
        { e with permission := e.permission.strongest entry.permission }
      else e
  else effective ++ [entry]

def effectiveEntries (entries : List NetworkDomainPermissionEntry) :
    List NetworkDomainPermissionEntry :=
  entries.foldl mergeEntry []

inductive NetworkUnixSocketPermission where
  | allow
  | none
deriving DecidableEq

inductive NetworkMode where
  | limited
  | full
deriving DecidableEq

namespace NetworkMode

def rank : NetworkMode → ℕ
  | limited => 0
  | full => 1

def debug : NetworkMode → Text
  | limited => "Limited".toList
  | full => "Full".toList

end NetworkMode

structure NetworkProxySettings where
  enabled : Bool := false
  proxyUrl : Text := "http://127.0.0.1:3128".toList
  enableSocks5 : Bool := true
  socksUrl : Text := "http://127.0.0.1:8081".toList
  enableSocks5Udp : Bool := true
  allowUpstreamProxy : Bool := true
  dangerouslyAllowNonLoopbackProxy : Bool := false
  dangerouslyAllowAllUnixSockets : Bool := false
  mode : NetworkMode := .full
  domains : Option (List NetworkDomainPermissionEntry) := none
  unixSockets : Option (List (Text × NetworkUnixSocketPermission)) := none
  allowLocalBinding : Bool := false
  mitm : Bool := false
deriving DecidableEq

namespace NetworkProxySettings

def domainEntries (network : NetworkProxySettings) (permission : NetworkDomainPermission) :
    Option (List Text) :=
  (network.domains.map fun entries =>
    ((effectiveEntries entries).filter (·.permission = permission)).map (·.pattern)).filter (· ≠ [])

def allowedDomains (network : NetworkProxySettings) : Option (List Text) :=
  network.domainEntries .allow

def deniedDomains (network : NetworkProxySettings) : Option (List Text) :=
  network.domainEntries .deny

def allowUnixSockets (network : NetworkProxySettings) : List Text :=
  match network.unixSockets with
  | some entries => (entries.filter (·.2 = .allow)).map (·.1)
  | none => []

/-- A pattern is set by one entry at the end; entries that `normalize` to it are dropped. -/
def upsertDomainPermission (network : NetworkProxySettings) (host : Text)
    (permission : NetworkDomainPermission) (normalize : Text → Text) : NetworkProxySettings :=
  let kept := (network.domains.getD []).filter fun entry =>
    normalize entry.pattern ≠ normalize host
  { network with domains := some (kept ++ [⟨host, permission⟩]) }

end NetworkProxySettings

/-! ## Managed constraints on a proxy config -/

structure NetworkProxyConstraints where
  enabled : Option Bool := none
  mode : Option NetworkMode := none
  allowUpstreamProxy : Option Bool := none
  dangerouslyAllowNonLoopbackProxy : Option Bool := none
  dangerouslyAllowAllUnixSockets : Option Bool := none
  allowedDomains : Option (List Text) := none
  allowlistExpansionEnabled : Option Bool := none
  deniedDomains : Option (List Text) := none
  denylistExpansionEnabled : Option Bool := none
  allowUnixSockets : Option (List Text) := none
  allowLocalBinding : Option Bool := none
deriving DecidableEq

/-- A text of an error, or a list of texts in debug form. -/
inductive Shown where
  | text (text : Text)
  | debug (entries : List Text)
deriving DecidableEq

structure InvalidValue where
  fieldName : Text
  candidate : Shown
  allowed : Shown
deriving DecidableEq

abbrev Check := Except InvalidValue Unit

def invalidValue (fieldName : Text) (candidate allowed : Shown) : Check :=
  .error ⟨fieldName, candidate, allowed⟩

def validateNonGlobalWildcardDomainPatterns (fieldName : Text) (patterns : List Text) : Check :=
  match patterns.find? isGlobalWildcardDomainPattern with
  | some pattern =>
    invalidValue fieldName (.text (trim pattern))
      (.text "exact hosts or scoped wildcards like *.example.com or **.example.com".toList)
  | none => .ok ()

/-- A switch of the config that the managed constraints may hold at `false`. -/
def validateSwitch (fieldName : Text) (allowed candidate : Bool) : Check :=
  if candidate && !allowed then
    invalidValue fieldName (.text "true".toList)
      (.text "false (disabled by managed config)".toList)
  else .ok ()

def validateMode (maxMode candidate : NetworkMode) : Check :=
  if candidate.rank > maxMode.rank then
    invalidValue "network.mode".toList (.text candidate.debug)
      (.text (maxMode.debug ++ " or more restrictive".toList))
  else .ok ()

/-! ## Lists as sets of lower-case entries -/

def lowered (entries : List Text) : List Text := entries.map toAsciiLowercase

def sameSet (s t : List Text) : Bool := s.all (t.contains ·) && t.all (s.contains ·)

def validateNoneMissing (fieldName message : Text) (required excused candidate : List Text) :
    Check :=
  let missing := (lowered required).dedup.filter fun entry =>
    !(lowered candidate).contains entry && !(lowered excused).contains entry
  if missing = [] then .ok () else invalidValue fieldName (.text message) (.debug missing)

def validateEach (fieldName message : Text) (allowed : Text → Bool) (candidate : List Text) :
    Check :=
  let invalid := candidate.filter fun entry => !allowed entry
  if invalid = [] then .ok () else invalidValue fieldName (.debug invalid) (.text message)

def validateExact (fieldName message : Text) (expected candidate : List Text) : Check :=
  if sameSet (lowered candidate) expected then .ok ()
  else invalidValue fieldName (.debug candidate) (.text message)

/-- The managed patterns as the comparison reads them allow the entry. -/
def allowedByManaged (urlHost : UrlHost) (managed : List Text) (entry : Text) : Bool :=
  (managed.map (DomainPattern.parseForConstraints urlHost)).any
    (·.allows (DomainPattern.parseForConstraints urlHost entry))

def validateAllowedDomains (urlHost : UrlHost) (expansionEnabled : Option Bool)
    (managed denied candidate : List Text) : Check := do
  validateNonGlobalWildcardDomainPatterns "network.allowed_domains".toList managed
  match expansionEnabled with
  | some true =>
    validateNoneMissing "network.allowed_domains".toList
      "missing managed allowed_domains entries".toList managed denied candidate
  | some false =>
    validateExact "network.allowed_domains".toList "must match managed allowed_domains".toList
      ((lowered managed).filter fun entry => !(lowered denied).contains entry) candidate
  | none =>
    validateEach "network.allowed_domains".toList "subset of managed allowed_domains".toList
      (allowedByManaged urlHost managed) candidate

def validateDeniedDomains (expansionEnabled : Option Bool) (managed candidate : List Text) :
    Check := do
  validateNonGlobalWildcardDomainPatterns "network.denied_domains".toList managed
  match expansionEnabled with
  | some false =>
    validateExact "network.denied_domains".toList "must match managed denied_domains".toList
      (lowered managed) candidate
  | _ =>
    validateNoneMissing "network.denied_domains".toList
      "missing managed denied_domains entries".toList managed [] candidate

def whenSet {α : Type} (constraint : Option α) (check : α → Check) : Check :=
  match constraint with
  | some value => check value
  | none => .ok ()

def validatePolicyAgainstConstraints (urlHost : UrlHost) (config : NetworkProxySettings)
    (constraints : NetworkProxyConstraints) : Check := do
  let allowed := config.allowedDomains.getD []
  let denied := config.deniedDomains.getD []
  validateNonGlobalWildcardDomainPatterns "network.denied_domains".toList denied
  whenSet constraints.enabled fun max =>
    validateSwitch "network.enabled".toList max config.enabled
  whenSet constraints.mode fun max => validateMode max config.mode
  validateSwitch "network.allow_upstream_proxy".toList
    (constraints.allowUpstreamProxy.getD true) config.allowUpstreamProxy
  validateSwitch "network.dangerously_allow_non_loopback_proxy".toList
    (constraints.dangerouslyAllowNonLoopbackProxy.getD true)
    config.dangerouslyAllowNonLoopbackProxy
  validateSwitch "network.dangerously_allow_all_unix_sockets".toList
    (constraints.dangerouslyAllowAllUnixSockets.getD constraints.allowUnixSockets.isNone)
    config.dangerouslyAllowAllUnixSockets
  whenSet constraints.allowLocalBinding fun max =>
    validateSwitch "network.allow_local_binding".toList max config.allowLocalBinding
  whenSet constraints.allowedDomains fun managed =>
    validateAllowedDomains urlHost constraints.allowlistExpansionEnabled managed denied allowed
  whenSet constraints.deniedDomains fun managed =>
    validateDeniedDomains constraints.denylistExpansionEnabled managed denied
  whenSet constraints.allowUnixSockets fun managed =>
    validateEach "network.allow_unix_sockets".toList
      "subset of managed allow_unix_sockets".toList
      (fun entry => (lowered managed).contains (toAsciiLowercase entry)) config.allowUnixSockets

/-! ## What a check that passes says -/

theorem check_bind_ok {check : Check} {rest : Unit → Check} (h : (check >>= rest) = .ok ()) :
    check = .ok () ∧ rest () = .ok () := by
  cases check with
  | error e => cases h
  | ok u => exact ⟨rfl, h⟩

theorem mem_sameSet {s t : List Text} (h : sameSet s t = true) (entry : Text) :
    entry ∈ s ↔ entry ∈ t := by
  simp only [sameSet, Bool.and_eq_true, List.all_eq_true, List.contains_iff_mem] at h
  exact ⟨h.1 entry, h.2 entry⟩

theorem validateEach_ok {fieldName message : Text} {allowed : Text → Bool}
    {candidate : List Text} (h : validateEach fieldName message allowed candidate = .ok ())
    {entry : Text} (hentry : entry ∈ candidate) : allowed entry = true := by
  unfold validateEach at h
  by_cases hall : (candidate.filter fun entry => !allowed entry) = []
  · rw [List.filter_eq_nil_iff] at hall
    simpa using hall entry hentry
  · simp only [hall, if_false, invalidValue] at h
    cases h

theorem validateExact_ok {fieldName message : Text} {expected candidate : List Text}
    (h : validateExact fieldName message expected candidate = .ok ()) {entry : Text}
    (hentry : entry ∈ candidate) : toAsciiLowercase entry ∈ expected := by
  unfold validateExact at h
  by_cases hsame : sameSet (lowered candidate) expected = true
  · exact (mem_sameSet hsame _).mp (List.mem_map_of_mem hentry)
  · simp only [hsame, invalidValue] at h
    cases h

theorem validateAllowedDomains_ok {urlHost : UrlHost} {config : NetworkProxySettings}
    {constraints : NetworkProxyConstraints} {managed : List Text}
    (hok : validatePolicyAgainstConstraints urlHost config constraints = .ok ())
    (hmanaged : constraints.allowedDomains = some managed) :
    validateAllowedDomains urlHost constraints.allowlistExpansionEnabled managed
      (config.deniedDomains.getD []) (config.allowedDomains.getD []) = .ok () := by
  -- the checks in front of the one of the allowed domains
  iterate 7 obtain ⟨-, hok⟩ := check_bind_ok hok
  obtain ⟨hallowed, -⟩ := check_bind_ok hok
  rw [hmanaged] at hallowed
  exact hallowed

end Codex.NetworkProxy
