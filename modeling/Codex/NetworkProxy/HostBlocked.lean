import Codex.Foundation.IpAddr
import Codex.NetworkProxy.DomainLists

/-!
# Which hosts are blocked

The lists are matched against the text of a host, the guard for local networks against the
address the text is read as. Two texts of one address get the same decision exactly if the
lists do not tell them apart where the decision asks them (`hostBlocked_spelling_iff`).
-/

namespace Codex.NetworkProxy

open Foundation

def ipv4InCidr (ip base : Ipv4Addr) (pre : UInt32) : Bool :=
  let mask : UInt32 := if pre = 0 then 0 else 0xffffffff <<< (32 - pre)
  ip.toU32 &&& mask = base.toU32 &&& mask

def isNonPublicIpv4 (ip : Ipv4Addr) : Bool :=
  ip.isLoopback || ip.isPrivate || ip.isLinkLocal || ip.isUnspecified || ip.isMulticast ||
    ip.isBroadcast || ipv4InCidr ip ⟨0, 0, 0, 0⟩ 8 || ipv4InCidr ip ⟨100, 64, 0, 0⟩ 10 ||
    ipv4InCidr ip ⟨192, 0, 0, 0⟩ 24 || ipv4InCidr ip ⟨192, 0, 2, 0⟩ 24 ||
    ipv4InCidr ip ⟨198, 18, 0, 0⟩ 15 || ipv4InCidr ip ⟨198, 51, 100, 0⟩ 24 ||
    ipv4InCidr ip ⟨203, 0, 113, 0⟩ 24 || ipv4InCidr ip ⟨240, 0, 0, 0⟩ 4

def isNonPublicIpv6 (ip : Ipv6Addr) : Bool :=
  match ip.toIpv4 with
  | some v4 => isNonPublicIpv4 v4 || ip.isLoopback
  | none => ip.isLoopback || ip.isUnspecified || ip.isMulticast || ip.isUniqueLocal ||
      ip.isUnicastLinkLocal

def isNonPublicIp : IpAddr → Bool
  | .v4 ip => isNonPublicIpv4 ip
  | .v6 ip => isNonPublicIpv6 ip

/-! ## The decision -/

inductive HostBlockReason where
  | denied
  | notAllowed
  | notAllowedLocal
deriving DecidableEq

inductive HostBlockDecision where
  | allowed
  | blocked (reason : HostBlockReason)
deriving DecidableEq

def hostNoScope (host : Text) : Text := ((splitOnce '%' host).map (·.1)).getD host

def isLoopbackHost (host : Text) : Bool :=
  if hostNoScope host = "localhost".toList then true
  else (parseIpAddr (hostNoScope host)).any IpAddr.isLoopback

def isExplicitLocalAllowlisted (allowedDomains : List Text) (host : Text) : Bool :=
  allowedDomains.any fun pattern =>
    let pattern := trim pattern
    if pattern = ['*'] ∨ "*.".toList <+: pattern ∨ "**.".toList <+: pattern then false
    else if '*' ∈ pattern ∨ '?' ∈ pattern then false
    else normalizeHost pattern = host

/-- The addresses of a host at a port, unless the lookup fails or takes too long. -/
abbrev LookupHost := Text → UInt16 → Option (List IpAddr)

def hostResolvesToNonPublicIp (lookupHost : LookupHost) (host : Text) (port : UInt16) : Bool :=
  match parseIpAddr host with
  | some ip => isNonPublicIp ip
  | none =>
    match lookupHost host port with
    | some addrs => addrs.any isNonPublicIp
    | none => true

def isLocalLiteral (host : Text) : Bool :=
  if isLoopbackHost host then true else (parseIpAddr (hostNoScope host)).any isNonPublicIp

def hostBlocked {ε : Type} (lookupHost : LookupHost) (s : ConfigState ε) (host : Text)
    (port : UInt16) : HostBlockDecision :=
  match Host.parse host with
  | none => .blocked .notAllowed
  | some host =>
    let allowedDomains := s.config.allowedDomains.getD []
    if s.denySet.isMatch host.text then .blocked .denied
    else if !s.config.allowLocalBinding && (if isLocalLiteral host.text then
        !isExplicitLocalAllowlisted allowedDomains host.text
      else hostResolvesToNonPublicIp lookupHost host.text port) then .blocked .notAllowedLocal
    else if s.config.allowedDomains.isNone || !s.allowSet.isMatch host.text then
      .blocked .notAllowed
    else .allowed

/-! ## Hosts that are addresses -/

theorem loopback_nonPublic {ip : IpAddr} (h : ip.isLoopback = true) : isNonPublicIp ip = true := by
  cases ip with
  | v4 addr =>
    have hloop : addr.isLoopback = true := h
    simp [isNonPublicIp, isNonPublicIpv4, hloop]
  | v6 addr =>
    have hloop : addr.isLoopback = true := h
    simp only [isNonPublicIp, isNonPublicIpv6, hloop]
    split
    · exact Bool.or_true _
    · rfl

section
variable {host : Text} {ip : IpAddr} (h : parseIpAddr host = some ip)
include h

theorem hostNoScope_address : hostNoScope host = host := by
  have hscope : '%' ∉ host := fun hmem =>
    absurd (List.all_eq_true.mp (parseIpAddr_chars h) '%' hmem) (by decide)
  rw [hostNoScope, splitOnce_eq_none.mpr hscope]
  rfl

theorem isLocalLiteral_address : isLocalLiteral host = isNonPublicIp ip := by
  have hname : host ≠ "localhost".toList := by
    rintro rfl
    exact absurd (parseIpAddr_chars h) (by decide)
  unfold isLocalLiteral isLoopbackHost
  rw [hostNoScope_address h, if_neg hname, h, Option.any_some, Option.any_some]
  split
  · rename_i hloop
    exact (loopback_nonPublic hloop).symm
  · rfl

theorem hostResolves_address (lookupHost : LookupHost) (port : UInt16) :
    hostResolvesToNonPublicIp lookupHost host port = isNonPublicIp ip := by
  unfold hostResolvesToNonPublicIp
  rw [h]

end

section
variable {ε : Type} (lookupHost : LookupHost) (s : ConfigState ε) (port : UInt16)

def localGuarded (ip : IpAddr) : Bool := !s.config.allowLocalBinding && isNonPublicIp ip

def isNamed (host : Text) : Bool :=
  isExplicitLocalAllowlisted (s.config.allowedDomains.getD []) host

def isAllowlisted (host : Text) : Bool :=
  s.config.allowedDomains.isSome && s.allowSet.isMatch host

/-- The decision for a host that is an address, from the answers of the lists. -/
def addressDecision (denied guarded named allowlisted : Bool) : HostBlockDecision :=
  if denied then .blocked .denied
  else if guarded && !named then .blocked .notAllowedLocal
  else if allowlisted then .allowed
  else .blocked .notAllowed

theorem hostBlocked_address {host : Text} {ip : IpAddr}
    (h : parseIpAddr (normalizeHost host) = some ip) : hostBlocked lookupHost s host port =
      addressDecision (s.denySet.isMatch (normalizeHost host)) (localGuarded s ip)
        (isNamed s (normalizeHost host)) (isAllowlisted s (normalizeHost host)) := by
  have hne : normalizeHost host ≠ [] := by
    intro hnil
    have hnone : parseIpAddr [] = none := by decide
    rw [hnil, hnone] at h
    cases h
  unfold hostBlocked Host.parse
  rw [dif_pos hne]
  simp only [isLocalLiteral_address h, hostResolves_address h]
  unfold addressDecision localGuarded isNamed isAllowlisted
  refine if_congr Iff.rfl rfl (if_congr ?_ rfl ?_)
  · cases isNonPublicIp ip <;> simp
  · cases s.config.allowedDomains <;> cases s.allowSet.isMatch (normalizeHost host) <;> rfl

/-- Where the decision asks them, the lists answer alike: both hosts are denied or none is;
then both or none have an entry of their own, if the address needs one; then both or none
are allowed. -/
def AnswersAlike (denied denied' guarded named named' allowlisted allowlisted' : Bool) : Prop :=
  denied = denied' ∧ (denied = false → (guarded = true → named = named') ∧
    (guarded = false ∨ named = true → allowlisted = allowlisted'))

theorem addressDecision_eq_iff :
    ∀ {denied denied' guarded named named' allowlisted allowlisted' : Bool},
      addressDecision denied guarded named allowlisted =
          addressDecision denied' guarded named' allowlisted' ↔
        AnswersAlike denied denied' guarded named named' allowlisted allowlisted' := by
  unfold AnswersAlike
  decide

/-- Two spellings of an address get the same decision exactly if the lists treat them alike.
Four bytes have one spelling only. -/
theorem hostBlocked_spelling_iff {a b : Text} {ip : IpAddr}
    (ha : parseIpAddr (normalizeHost a) = some ip) (hb : parseIpAddr (normalizeHost b) = some ip) :
    (hostBlocked lookupHost s a port = hostBlocked lookupHost s b port ↔
        AnswersAlike (s.denySet.isMatch (normalizeHost a)) (s.denySet.isMatch (normalizeHost b))
          (localGuarded s ip) (isNamed s (normalizeHost a)) (isNamed s (normalizeHost b))
          (isAllowlisted s (normalizeHost a)) (isAllowlisted s (normalizeHost b))) ∧
      ∀ addr, ip = .v4 addr → normalizeHost a = normalizeHost b ∧
        hostBlocked lookupHost s a port = hostBlocked lookupHost s b port := by
  constructor
  · rw [hostBlocked_address lookupHost s port ha, hostBlocked_address lookupHost s port hb]
    exact addressDecision_eq_iff
  · rintro addr rfl
    have hsame : normalizeHost a = normalizeHost b := by
      rw [parseIpAddr_v4 ha, parseIpAddr_v4 hb]
    rw [hostBlocked_address lookupHost s port ha, hostBlocked_address lookupHost s port hb, hsame]
    exact ⟨rfl, rfl⟩

end

def noLookup : LookupHost := fun _ _ => none

def allButOne : NetworkProxySettings :=
  { domains := some [⟨['*'], .allow⟩, ⟨"2001:db8::1".toList, .deny⟩] }

def shortSpelling : Text := "[2001:DB8::1]:443".toList

def longSpelling : Text := "2001:0db8:0:0::1".toList

theorem unlisted_spellings_agree :
    hostBlocked noLookup (denying ["example.com".toList]) shortSpelling 443 =
      hostBlocked noLookup (denying ["example.com".toList]) longSpelling 443 := by
  have haddr : parseIpAddr (normalizeHost shortSpelling) =
      some (.v6 (.concat [0x2001, 0xdb8] [1])) := by decide +kernel
  have haddr' : parseIpAddr (normalizeHost longSpelling) =
      some (.v6 (.concat [0x2001, 0xdb8] [1])) := by decide +kernel
  refine (hostBlocked_spelling_iff noLookup (denying ["example.com".toList]) 443 haddr haddr').1.mpr ?_
  unfold AnswersAlike
  decide +kernel

/-- The entry denies the address in the spelling of the entry only. -/
theorem denied_in_one_spelling :
    parseIpAddr (normalizeHost shortSpelling) = parseIpAddr (normalizeHost longSpelling) ∧
      (parseIpAddr (normalizeHost shortSpelling)).isSome = true ∧
      ∃ s : ConfigState Empty, buildConfigState plainEnv allButOne {} = .ok s ∧
        hostBlocked noLookup s shortSpelling 443 = .blocked .denied ∧
        hostBlocked noLookup s longSpelling 443 = .allowed := by
  refine ⟨by decide +kernel, by decide +kernel, _, rfl, ?_, ?_⟩
  · decide +kernel
  · decide +kernel

end Codex.NetworkProxy
