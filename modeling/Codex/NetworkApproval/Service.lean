import Codex.Foundation.Decimal
import Codex.Foundation.Table
import Codex.Foundation.ListEnds
import Codex.Sandbox.ModeRequirements
import Mathlib.Data.Finset.Basic

/-!
# The network approval service

Requests for hosts off the allowlist, reports of blocked requests, and the tool calls that
these are attributed to run at once. What they share lies behind five locks, and each step
here takes one of them once.
-/

namespace Codex.NetworkApproval

open Foundation Option

/-! ## Requests and decisions -/

inductive NetworkProtocol where
  | http
  | httpsConnect
  | socks5Tcp
  | socks5Udp
deriving DecidableEq

inductive NetworkApprovalProtocol where
  | http
  | https
  | socks5Tcp
  | socks5Udp
deriving DecidableEq

def NetworkApprovalProtocol.ofProtocol : NetworkProtocol → NetworkApprovalProtocol
  | .http => .http
  | .httpsConnect => .https
  | .socks5Tcp => .socks5Tcp
  | .socks5Udp => .socks5Udp

def protocolKeyLabel : NetworkApprovalProtocol → Text
  | .http => "http".toList
  | .https => "https".toList
  | .socks5Tcp => "socks5-tcp".toList
  | .socks5Udp => "socks5-udp".toList

structure NetworkPolicyRequest where
  protocol : NetworkProtocol
  host : Text
  port : UInt16
deriving DecidableEq

structure HostApprovalKey where
  host : Text
  protocol : Text
  port : UInt16
deriving DecidableEq

def HostApprovalKey.fromRequest (request : NetworkPolicyRequest)
    (protocol : NetworkApprovalProtocol) : HostApprovalKey :=
  ⟨toAsciiLowercase request.host, protocolKeyLabel protocol, request.port⟩

inductive NetworkDecisionSource where
  | baselinePolicy
  | modeGuard
  | proxyState
  | decider
deriving DecidableEq

inductive NetworkPolicyDecision where
  | deny
  | ask
deriving DecidableEq

inductive NetworkDecision where
  | allow
  | deny (reason : Text) (source : NetworkDecisionSource) (decision : NetworkPolicyDecision)
deriving DecidableEq

def NetworkDecision.denyFor (reason : Text) : NetworkDecision :=
  .deny (if reason = [] then "policy_denied".toList else reason) .decider .deny

inductive PendingApprovalDecision where
  | allowOnce
  | allowForSession
  | deny
deriving DecidableEq

def notAllowed : NetworkDecision := .denyFor "not_allowed".toList

def PendingApprovalDecision.toNetworkDecision : PendingApprovalDecision → NetworkDecision
  | .allowOnce => .allow
  | .allowForSession => .allow
  | .deny => notAllowed

inductive NetworkApprovalOutcome where
  | deniedByUser
  | deniedByPolicy (message : Text)
deriving DecidableEq

def formatNetworkTarget (protocol host : Text) (port : UInt16) : Text :=
  protocol ++ "://".toList ++ host ++ ":".toList ++ decimal port.toNat

def policyDenialMessage (target : Text) : Text :=
  "Network access to \"".toList ++ target ++ "\" was blocked by policy.".toList

/-! ## The approval flow -/

structure GranularApprovalConfig where
  sandboxApproval : Bool
  rules : Bool
  skillApproval : Bool
  requestPermissions : Bool
  mcpElicitations : Bool

inductive AskForApproval where
  | unlessTrusted
  | onFailure
  | onRequest
  | granular (config : GranularApprovalConfig)
  | never

def allowsNetworkApprovalFlow : AskForApproval → Bool
  | .never => false
  | _ => true

def permissionProfileAllowsNetworkApprovalFlow : Requirements.PermissionProfile → Bool
  | .managed _ _ => true
  | _ => false

structure TurnContext where
  permissionProfile : Requirements.PermissionProfile
  approvalPolicy : AskForApproval

/-- There is a turn, and both its profile and its policy allow the flow. -/
def flowAllowed : Option TurnContext → Bool
  | none => false
  | some turn =>
    permissionProfileAllowsNetworkApprovalFlow turn.permissionProfile &&
      allowsNetworkApprovalFlow turn.approvalPolicy

inductive NetworkPolicyRuleAction where
  | allow
  | deny
deriving DecidableEq

inductive ReviewDecision where
  | approved
  | approvedExecpolicyAmendment
  | approvedForSession
  | networkPolicyAmendment (action : NetworkPolicyRuleAction)
  | denied
  | timedOut
  | abort
deriving DecidableEq

/-- A hook answers, or else the review does. A review by the guardian comes with the
message that a rejection of its would have. -/
inductive Answer where
  | hookAllow
  | hookDeny (message : Text)
  | review (decision : ReviewDecision) (guardianRejection : Option Text)
deriving DecidableEq

def guardianTimeoutMessage : Text :=
  ("The automatic permission approval review did not finish before its deadline. " ++
    "Do not assume the action is unsafe based on the timeout alone. " ++
    "You may retry once, or ask the user for guidance or explicit approval.").toList

/-- What an answer leads to: an outcome for the owner call, the decision for all who wait,
and whether a denial is kept for the session. -/
structure Settlement where
  outcome : Option NetworkApprovalOutcome
  resolved : PendingApprovalDecision
  cacheSessionDeny : Bool
deriving DecidableEq

def settle : Answer → Settlement
  | .hookAllow => ⟨none, .allowOnce, false⟩
  | .hookDeny message => ⟨some (.deniedByPolicy message), .deny, false⟩
  | .review .approved _ => ⟨none, .allowOnce, false⟩
  | .review .approvedExecpolicyAmendment _ => ⟨none, .allowOnce, false⟩
  | .review .approvedForSession _ => ⟨none, .allowForSession, false⟩
  | .review (.networkPolicyAmendment .allow) _ => ⟨none, .allowForSession, false⟩
  | .review (.networkPolicyAmendment .deny) _ => ⟨some .deniedByUser, .deny, true⟩
  | .review .denied (some message) => ⟨some (.deniedByPolicy message), .deny, false⟩
  | .review .denied none => ⟨some .deniedByUser, .deny, false⟩
  | .review .abort (some message) => ⟨some (.deniedByPolicy message), .deny, false⟩
  | .review .abort none => ⟨some .deniedByUser, .deny, false⟩
  | .review .timedOut _ => ⟨some (.deniedByPolicy guardianTimeoutMessage), .deny, false⟩

inductive SessionAnswer where
  | allow
  | deny
deriving DecidableEq

def Settlement.sessionAnswer (settlement : Settlement) : Option SessionAnswer :=
  if settlement.resolved = .allowForSession then some .allow
  else if settlement.cacheSessionDeny then some .deny
  else none

structure BlockedRequest where
  host : Text
  reason : Text
  decision : Option Text
deriving DecidableEq

def parseNetworkPolicyDecision (value : Text) : Option NetworkPolicyDecision :=
  if value = "deny".toList then some .deny
  else if value = "ask".toList then some .ask
  else none

def blockedDetail (reason : Text) : Text :=
  if reason = "denied".toList then
    "domain is explicitly denied by policy and cannot be approved from this prompt".toList
  else if reason = "not_allowed".toList then
    "domain is not on the allowlist for the current sandbox mode".toList
  else if reason = "not_allowed_local".toList then
    "local/private network addresses are blocked by the sandbox policy".toList
  else if reason = "method_not_allowed".toList then
    "request method is blocked by the current network mode".toList
  else if reason = "proxy_disabled".toList then "network proxy is disabled".toList
  else "request is blocked by network policy".toList

def deniedNetworkPolicyMessage (blocked : BlockedRequest) : Option Text :=
  if blocked.decision.bind parseNetworkPolicyDecision ≠ some .deny then none
  else if trim blocked.host = [] then some "Network access was blocked by policy.".toList
  else
    some ("Network access to \"".toList ++ trim blocked.host ++ "\" was blocked: ".toList ++
      blockedDetail blocked.reason ++ ".".toList)

/-! ## The state -/

/-- An outcome on its way to the single active call: that call is looked up, and then the
outcome is recorded. -/
inductive Attribution where
  | resolving (outcome : NetworkApprovalOutcome)
  | recording (registrationId : Text) (outcome : NetworkApprovalOutcome)
  | done
deriving DecidableEq

/-- Where a request is between two locks. -/
inductive Phase where
  | called
  | notDenied
  | notApproved
  | waiting (owner : ℕ)
  | owner
  | cleared
  | asking (ownerCall : Option Text)
  | recording (registrationId : Text) (outcome : NetworkApprovalOutcome) (settlement : Settlement)
  | forgetting (answer : SessionAnswer) (resolved : PendingApprovalDecision)
  | storing (answer : SessionAnswer) (resolved : PendingApprovalDecision)
  | deciding (resolved : PendingApprovalDecision) (late : Option NetworkApprovalOutcome)
  | clearing (resolved : PendingApprovalDecision) (late : Option NetworkApprovalOutcome)
  | attributing (late : Attribution)
  | returned (waitedOn : Option ℕ) (decision : NetworkDecision)
deriving DecidableEq

/-- `decision` is that of the pending approval that the request has made. -/
structure Request where
  request : NetworkPolicyRequest
  phase : Phase
  decision : Option PendingApprovalDecision
deriving DecidableEq

inductive NetworkApprovalMode where
  | immediate
  | deferred
deriving DecidableEq

/-- `report` is the outcome that an immediate finish has taken. -/
inductive FinishPhase where
  | taking
  | deactivating (report : Option (Option NetworkApprovalOutcome))
  | dropping (report : Option (Option NetworkApprovalOutcome))
  | finished (report : Option (Option NetworkApprovalOutcome))
deriving DecidableEq

structure Finish where
  registrationId : Text
  phase : FinishPhase
deriving DecidableEq

inductive HistoryEvent where
  | registered (registrationId : Text)
  | attributed (registrationId : Text) (outcome : NetworkApprovalOutcome)
  | taken (registrationId : Text)
deriving DecidableEq

/-- A pending approval is the number of the request that made it. `answers` are the answers
for the session, the latest first, and `history` what was done to calls, in order. -/
structure Service where
  activeCalls : List Text
  callOutcomes : Table Text NetworkApprovalOutcome
  pendingHostApprovals : Table HostApprovalKey ℕ
  sessionApprovedHosts : Finset HostApprovalKey
  sessionDeniedHosts : Finset HostApprovalKey
  requests : List Request
  reports : List Attribution
  registrations : Table Text NetworkApprovalMode
  finishes : List Finish
  answers : List (HostApprovalKey × SessionAnswer)
  history : List HistoryEvent

def Request.key (r : Request) : HostApprovalKey :=
  .fromRequest r.request (.ofProtocol r.request.protocol)

def Request.at (r : Request) (phase : Phase) : Request := { r with phase := phase }

@[simp] theorem Request.at_key (r : Request) (phase : Phase) : (r.at phase).key = r.key := rfl

@[simp] theorem Request.at_phase (r : Request) (phase : Phase) : (r.at phase).phase = phase := rfl

@[simp] theorem Request.at_decision (r : Request) (phase : Phase) :
    (r.at phase).decision = r.decision := rfl

def Request.policyDenial (r : Request) : NetworkApprovalOutcome :=
  .deniedByPolicy (policyDenialMessage (formatNetworkTarget r.key.protocol r.request.host r.key.port))

namespace Service

/-- A service with the approvals of another session, which count as answers. -/
def withApproved (hosts : List HostApprovalKey) : Service where
  activeCalls := []
  callOutcomes := ∅
  pendingHostApprovals := ∅
  sessionApprovedHosts := hosts.toFinset
  sessionDeniedHosts := ∅
  requests := []
  reports := []
  registrations := ∅
  finishes := []
  answers := hosts.map fun key => (key, .allow)
  history := []

section
variable (s : Service)

def resolveSingleActiveCall : Option Text :=
  match s.activeCalls with
  | [registrationId] => some registrationId
  | _ => none

def recordCallOutcome (registrationId : Text) (outcome : NetworkApprovalOutcome) : Service :=
  { s with
    callOutcomes :=
      match s.callOutcomes.lookup registrationId with
      | some .deniedByUser => s.callOutcomes
      | _ => s.callOutcomes.insert registrationId outcome
    history := s.history ++ [.attributed registrationId outcome] }

def recordOutcomeForSingleActiveCall : Attribution → Option (Service × Attribution)
  | .resolving outcome =>
    match s.resolveSingleActiveCall with
    | some registrationId => some (s, .recording registrationId outcome)
    | none => some (s, .done)
  | .recording registrationId outcome => some (s.recordCallOutcome registrationId outcome, .done)
  | .done => none

def forget (key : HostApprovalKey) : SessionAnswer → Service
  | .allow => { s with sessionDeniedHosts := s.sessionDeniedHosts.erase key }
  | .deny => { s with sessionApprovedHosts := s.sessionApprovedHosts.erase key }

def store (key : HostApprovalKey) : SessionAnswer → Service
  | .allow =>
    { s with
      sessionApprovedHosts := insert key s.sessionApprovedHosts
      answers := (key, .allow) :: s.answers }
  | .deny =>
    { s with
      sessionDeniedHosts := insert key s.sessionDeniedHosts
      answers := (key, .deny) :: s.answers }

end

/-! ## The way of a request -/

def afterOutcome (settlement : Settlement) : Phase :=
  match settlement.sessionAnswer with
  | some answer => .forgetting answer settlement.resolved
  | none => .deciding settlement.resolved none

def afterAnswer (ownerCall : Option Text) (settlement : Settlement) : Phase :=
  match ownerCall, settlement.outcome with
  | some registrationId, some outcome => .recording registrationId outcome settlement
  | _, _ => afterOutcome settlement

/-- The next lock that request number `i` takes. -/
def handleInlinePolicyRequest (s : Service) (i : ℕ) (r : Request) : Option (Service × Request) :=
  match r.phase with
  | .called =>
    some (s, r.at (if r.key ∈ s.sessionDeniedHosts then .returned none notAllowed else .notDenied))
  | .notDenied =>
    some (s, r.at (if r.key ∈ s.sessionApprovedHosts then .returned none .allow else .notApproved))
  | .notApproved =>
    match s.pendingHostApprovals.lookup r.key with
    | some owner => some (s, r.at (.waiting owner))
    | none =>
      some ({ s with pendingHostApprovals := s.pendingHostApprovals.insert r.key i }, r.at .owner)
  | .waiting owner =>
    match (s.requests[owner]?).bind Request.decision with
    | some decision => some (s, r.at (.returned (some owner) decision.toNetworkDecision))
    | none => none
  | .owner => none
  | .cleared => some (s, r.at (.asking s.resolveSingleActiveCall))
  | .asking _ => none
  | .recording registrationId outcome settlement =>
    some (s.recordCallOutcome registrationId outcome, r.at (afterOutcome settlement))
  | .forgetting answer resolved => some (s.forget r.key answer, r.at (.storing answer resolved))
  | .storing answer resolved => some (s.store r.key answer, r.at (.deciding resolved none))
  | .deciding resolved late =>
    some (s, { r with phase := .clearing resolved late, decision := some resolved })
  | .clearing resolved late =>
    some ({ s with pendingHostApprovals := s.pendingHostApprovals.erase r.key },
      r.at (match late with
        | some outcome => .attributing (.resolving outcome)
        | none => .returned none resolved.toNetworkDecision))
  | .attributing attribution =>
    match s.recordOutcomeForSingleActiveCall attribution with
    | some (s', attribution') => some (s', r.at (.attributing attribution'))
    | none => some (s, r.at (.returned none notAllowed))
  | .returned _ _ => none

/-- The next lock that a finish takes. -/
def finishNetworkApproval (s : Service) (f : Finish) : Option (Service × Finish) :=
  match f.phase with
  | .taking =>
    some ({ s with
        callOutcomes := s.callOutcomes.erase f.registrationId
        history := s.history ++ [.taken f.registrationId] },
      { f with phase := .deactivating (some (s.callOutcomes.lookup f.registrationId)) })
  | .deactivating report =>
    some ({ s with activeCalls := s.activeCalls.erase f.registrationId },
      { f with phase := .dropping report })
  | .dropping report =>
    some ({ s with callOutcomes := s.callOutcomes.erase f.registrationId },
      { f with phase := .finished report })
  | .finished _ => none

def finishResult : Option NetworkApprovalOutcome → Except Text Unit
  | some .deniedByUser => .error "rejected by user".toList
  | some (.deniedByPolicy message) => .error message
  | none => .ok ()

/-! ## Steps -/

inductive Action where
  | request (request : NetworkPolicyRequest)
  | advance (request : ℕ)
  | readTurn (request : ℕ) (turn : Option TurnContext)
  | answer (request : ℕ) (answer : Answer)
  | blocked (blocked : BlockedRequest)
  | report (report : ℕ)
  | register (registrationId : Text) (mode : NetworkApprovalMode)
  | finishImmediate (registrationId : Text)
  | unregister (registrationId : Text)
  | finish (finish : ℕ)

def putRequest (s : Service) (i : ℕ) (r : Request) : Service :=
  { s with requests := s.requests.set i r }

def putReport (s : Service) (j : ℕ) (a : Attribution) : Service :=
  { s with reports := s.reports.set j a }

def putFinish (s : Service) (j : ℕ) (f : Finish) : Service :=
  { s with finishes := s.finishes.set j f }

/-- A step that cannot be taken in the state is none. Registration ids are fresh, and only
a call that waits for its result is finished at once, once. -/
def stepOption (s : Service) : Action → Option Service
  | .request request => some { s with requests := s.requests ++ [⟨request, .called, none⟩] }
  | .advance i => do
    let r ← s.requests[i]?
    let (s', r') ← s.handleInlinePolicyRequest i r
    some (s'.putRequest i r')
  | .readTurn i turn => do
    let r ← s.requests[i]?
    if r.phase = .owner then
      some (s.putRequest i
        (r.at (if flowAllowed turn then .cleared else .deciding .deny (some r.policyDenial))))
    else none
  | .answer i answer => do
    let r ← s.requests[i]?
    match r.phase with
    | .asking ownerCall => some (s.putRequest i (r.at (afterAnswer ownerCall (settle answer))))
    | _ => none
  | .blocked blocked =>
    some { s with
      reports := s.reports ++
        [match deniedNetworkPolicyMessage blocked with
          | some message => .resolving (.deniedByPolicy message)
          | none => .done] }
  | .report j => do
    let a ← s.reports[j]?
    let (s', a') ← s.recordOutcomeForSingleActiveCall a
    some (s'.putReport j a')
  | .register registrationId mode =>
    if registrationId ∈ s.registrations then none
    else some { s with
      activeCalls := s.activeCalls ++ [registrationId]
      registrations := s.registrations.insert registrationId mode
      history := s.history ++ [.registered registrationId] }
  | .finishImmediate registrationId =>
    if s.registrations.lookup registrationId = some .immediate ∧
        ∀ f ∈ s.finishes, f.registrationId ≠ registrationId then
      some { s with finishes := s.finishes ++ [⟨registrationId, .taking⟩] }
    else none
  | .unregister registrationId =>
    if s.registrations.lookup registrationId = some .deferred then
      some { s with finishes := s.finishes ++ [⟨registrationId, .deactivating none⟩] }
    else none
  | .finish j => do
    let f ← s.finishes[j]?
    let (s', f') ← s.finishNetworkApproval f
    some (s'.putFinish j f')

def step (s : Service) (action : Action) : Except Unit Service :=
  match s.stepOption action with
  | some s' => .ok s'
  | none => .error ()

theorem mem_of_resolveSingle {s : Service} {registrationId : Text}
    (h : s.resolveSingleActiveCall = some registrationId) : registrationId ∈ s.activeCalls := by
  unfold resolveSingleActiveCall at h
  split at h
  · next hone =>
    cases h
    rw [hone]
    exact List.mem_singleton.mpr rfl
  · cases h

theorem step_eq_ok {s s' : Service} {action : Action} :
    s.step action = .ok s' ↔ s.stepOption action = some s' := by
  unfold step
  cases s.stepOption action <;> simp

/-! ## What a step tells -/

variable {s s' s₁ : Service} {i : ℕ} {registrationId : Text}

theorem advance_ok (h : s.stepOption (.advance i) = some s') : ∃ r s₁ r',
    s.requests[i]? = some r ∧ s.handleInlinePolicyRequest i r = some (s₁, r') ∧
      s' = s₁.putRequest i r' := by
  obtain ⟨r, hr, h⟩ := bind_eq_some_iff.mp h
  obtain ⟨⟨s₁, r'⟩, hmove, h⟩ := bind_eq_some_iff.mp h
  cases h
  exact ⟨r, s₁, r', hr, hmove, rfl⟩

theorem readTurn_ok {turn : Option TurnContext} (h : s.stepOption (.readTurn i turn) = some s') :
    ∃ r, s.requests[i]? = some r ∧ r.phase = .owner ∧ s' = s.putRequest i
      (r.at (if flowAllowed turn then .cleared else .deciding .deny (some r.policyDenial))) := by
  obtain ⟨r, hr, h⟩ := bind_eq_some_iff.mp h
  split at h
  · next hphase =>
    cases h
    exact ⟨r, hr, hphase, rfl⟩
  · cases h

theorem answer_ok {answer : Answer} (h : s.stepOption (.answer i answer) = some s') :
    ∃ r ownerCall, s.requests[i]? = some r ∧ r.phase = .asking ownerCall ∧
      s' = s.putRequest i (r.at (afterAnswer ownerCall (settle answer))) := by
  obtain ⟨r, hr, h⟩ := bind_eq_some_iff.mp h
  split at h
  · next ownerCall hphase =>
    cases h
    exact ⟨r, ownerCall, hr, hphase, rfl⟩
  · cases h

theorem report_ok (h : s.stepOption (.report i) = some s') : ∃ a s₁ a',
    s.reports[i]? = some a ∧ s.recordOutcomeForSingleActiveCall a = some (s₁, a') ∧
      s' = s₁.putReport i a' := by
  obtain ⟨a, ha, h⟩ := bind_eq_some_iff.mp h
  obtain ⟨⟨s₁, a'⟩, hrec, h⟩ := bind_eq_some_iff.mp h
  cases h
  exact ⟨a, s₁, a', ha, hrec, rfl⟩

theorem register_ok {mode : NetworkApprovalMode}
    (h : s.stepOption (.register registrationId mode) = some s') :
    s.registrations.lookup registrationId = none ∧ s' = { s with
      activeCalls := s.activeCalls ++ [registrationId]
      registrations := s.registrations.insert registrationId mode
      history := s.history ++ [.registered registrationId] } := by
  simp only [stepOption] at h
  split at h
  · cases h
  · next hfresh =>
    cases h
    exact ⟨AList.lookup_eq_none.mpr hfresh, rfl⟩

theorem finishImmediate_ok (h : s.stepOption (.finishImmediate registrationId) = some s') :
    s.registrations.lookup registrationId = some .immediate ∧
      (∀ f ∈ s.finishes, f.registrationId ≠ registrationId) ∧
      s' = { s with finishes := s.finishes ++ [⟨registrationId, .taking⟩] } := by
  simp only [stepOption] at h
  split at h
  · next hguard =>
    cases h
    exact ⟨hguard.1, hguard.2, rfl⟩
  · cases h

theorem unregister_ok (h : s.stepOption (.unregister registrationId) = some s') :
    s.registrations.lookup registrationId = some .deferred ∧
      s' = { s with finishes := s.finishes ++ [⟨registrationId, .deactivating none⟩] } := by
  simp only [stepOption] at h
  split at h
  · next hguard =>
    cases h
    exact ⟨hguard, rfl⟩
  · cases h

theorem finish_ok (h : s.stepOption (.finish i) = some s') : ∃ f s₁ f',
    s.finishes[i]? = some f ∧ s.finishNetworkApproval f = some (s₁, f') ∧
      s' = s₁.putFinish i f' := by
  obtain ⟨f, hf, h⟩ := bind_eq_some_iff.mp h
  obtain ⟨⟨s₁, f'⟩, hmove, h⟩ := bind_eq_some_iff.mp h
  cases h
  exact ⟨f, s₁, f', hf, hmove, rfl⟩

theorem finish_frame {f f' : Finish} (h : s.finishNetworkApproval f = some (s₁, f')) :
    s₁.requests = s.requests ∧ s₁.reports = s.reports ∧
      s₁.pendingHostApprovals = s.pendingHostApprovals ∧
      s₁.sessionApprovedHosts = s.sessionApprovedHosts ∧
      s₁.sessionDeniedHosts = s.sessionDeniedHosts ∧ s₁.answers = s.answers := by
  unfold finishNetworkApproval at h
  split at h <;> cases h <;> exact ⟨rfl, rfl, rfl, rfl, rfl, rfl⟩

theorem finish_outcomes {f f' : Finish} (h : s.finishNetworkApproval f = some (s₁, f')) :
    f'.registrationId = f.registrationId ∧
      (∀ id, s₁.callOutcomes.lookup id = none ∨
        s₁.callOutcomes.lookup id = s.callOutcomes.lookup id) ∧
      (s₁.registrations = s.registrations ∧ s₁.finishes = s.finishes) ∧
      ∀ report, f'.phase = .finished report → s₁.callOutcomes.lookup f.registrationId = none := by
  have herase : ∀ id, (s.callOutcomes.erase f.registrationId).lookup id = none ∨
      (s.callOutcomes.erase f.registrationId).lookup id = s.callOutcomes.lookup id := by
    intro id
    rw [lookup_erase_ite]
    split
    · exact .inl rfl
    · exact .inr rfl
  unfold finishNetworkApproval at h
  split at h <;> cases h
  · exact ⟨rfl, herase, ⟨rfl, rfl⟩, by simp⟩
  · exact ⟨rfl, fun id => .inr rfl, ⟨rfl, rfl⟩, by simp⟩
  · exact ⟨rfl, herase, ⟨rfl, rfl⟩, fun report _ => by simp⟩

theorem recordOutcome_ok {attribution attribution' : Attribution}
    (h : s.recordOutcomeForSingleActiveCall attribution = some (s₁, attribution')) :
    (∃ outcome, attribution = .resolving outcome ∧ s₁ = s ∧
      (attribution' = .done ∨ ∃ registrationId ∈ s.activeCalls,
        attribution' = .recording registrationId outcome)) ∨
    ∃ registrationId outcome, attribution = .recording registrationId outcome ∧
      s₁ = s.recordCallOutcome registrationId outcome ∧ attribution' = .done := by
  cases attribution with
  | resolving outcome =>
    left
    cases hone : s.resolveSingleActiveCall with
    | none =>
      simp only [recordOutcomeForSingleActiveCall, hone] at h
      cases h
      exact ⟨outcome, rfl, rfl, .inl rfl⟩
    | some registrationId =>
      simp only [recordOutcomeForSingleActiveCall, hone] at h
      cases h
      exact ⟨outcome, rfl, rfl, .inr ⟨registrationId, mem_of_resolveSingle hone, rfl⟩⟩
  | recording registrationId outcome =>
    cases h
    exact .inr ⟨registrationId, outcome, rfl, rfl, rfl⟩
  | done => cases h

end Service

end Codex.NetworkApproval
