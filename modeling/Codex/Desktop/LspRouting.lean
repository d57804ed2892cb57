import Codex.Desktop.LspServers
import Codex.Foundation.Run
import Codex.Foundation.Slots

/-!
# Handshakes and routing

The ledger of the supervisor says which servers there are, what their handshakes heard,
which ids were given out, and what was put on which queue. Each step of the supervisor
leaves it alone or is one of nine moves (`step_moves`). What is promised of it is kept by a
move exactly when the frame taken as the reply is one, the parameters of diagnostics can
carry an id and the counter has not come round (`Move.routes`).
-/

namespace Codex.Desktop

open Foundation List

/-! ## The ledger -/

/-- The reply to `initialize`: its id, no method, and a result. -/
def isInitializeReply (value : Json) : Bool :=
  hasIdOne value && (value.get "method".toList).isNone && (value.get "result".toList).isSome

structure Peer where
  phase : Phase
  heard : List Json
  enqueued : List Json

structure Ledger where
  next : UInt64
  servers : Table Text ℕ
  peers : List Peer
  issued : List (Option ℕ × Text)
  accepted : List ForwardRequest
  forwarded : List (ℕ × Json)

def Peer.Answered (q : Peer) : Prop :=
  q.phase.passed = true → ∃ value ∈ q.heard, isInitializeReply value = true

def Peer.Waiting (q : Peer) : Prop :=
  q.phase = .starting → ∀ value ∈ q.heard, hasIdOne value = false

def LspServer.peer (srv : LspServer) : Peer := ⟨srv.phase, srv.heard, srv.enqueued⟩

def LspSupervisor.ledger (s : LspSupervisor) : Ledger :=
  ⟨s.nextServerId, s.servers, s.procs.map LspServer.peer, s.issued, s.accepted, s.forwarded⟩

def srvName (n : ℕ) : Text := "srv".toList ++ decimal (n % 2 ^ 64)

def ForwardRequest.notification (r : ForwardRequest) : Option Json :=
  (lspNotification r.method r.params).toOption

def carriedId (m : Json) : Option Text :=
  ((m.get "params".toList).bind (·.get "server_id".toList)).bind Json.asStr

def hasFields (value : Json) : Bool :=
  match value.get "params".toList with
  | none => true
  | some (.object _) => true
  | some _ => false

namespace Ledger

variable (l : Ledger)

def idAt (p : ℕ) : Option Text := (l.peers[p]?).bind (·.phase.id?)

def hub : Hub Text ForwardRequest (Option Json) :=
  ⟨l.issued, l.servers, l.accepted,
    fun p => ((l.peers[p]?).map fun q => q.enqueued.map some).getD []⟩

def setPeer (p : ℕ) (q : Peer) : Ledger := { l with peers := l.peers.set p q }

def issue (who : Option ℕ) : Ledger :=
  { l with next := l.next + 1
           issued := l.issued ++ [(who, "srv".toList ++ decimal l.next.toNat)] }

end Ledger

/-- The moves, each with the condition under which it does what is promised. -/
inductive Move : Prop → Ledger → Ledger → Prop
  | spawn {l : Ledger} : Move True l { l with peers := l.peers ++ [⟨.starting, [], []⟩] }
  | wait {l : Ledger} (p : ℕ) (heard enqueued : List Json) (value : Json) :
    l.peers[p]? = some ⟨.starting, heard, enqueued⟩ → hasIdOne value = false →
    Move True l (l.setPeer p ⟨.starting, heard ++ [value], enqueued⟩)
  | reply {l : Ledger} (p : ℕ) (heard enqueued : List Json) (value capabilities : Json) :
    l.peers[p]? = some ⟨.starting, heard, enqueued⟩ →
    Move (isInitializeReply value = true) l
      (l.setPeer p ⟨.initialized capabilities, heard ++ [value], enqueued⟩)
  | fail {l : Ledger} (p : ℕ) (heard enqueued : List Json) :
    l.peers[p]? = some ⟨.starting, heard, enqueued⟩ →
    Move True l (l.setPeer p ⟨.failed, heard, enqueued⟩)
  | placeholder {l : Ledger} : Move (l.issued.length < 2 ^ 64) l (l.issue none)
  | install {l : Ledger} (p : ℕ) (heard enqueued : List Json) (capabilities : Json) :
    l.peers[p]? = some ⟨.initialized capabilities, heard, enqueued⟩ →
    Move (l.issued.length < 2 ^ 64) l ((l.issue (some p)).setPeer p
      ⟨.numbered ("srv".toList ++ decimal l.next.toNat) capabilities, heard, enqueued⟩)
  | register {l : Ledger} (p : ℕ) (heard enqueued : List Json) (id : Text)
      (capabilities : Json) :
    l.peers[p]? = some ⟨.numbered id capabilities, heard, enqueued⟩ →
    Move True l ({ l with servers := l.servers.insert id p }.setPeer p
      ⟨.registered id, heard, enqueued⟩)
  | forward {l : Ledger} (p : ℕ) (q : Peer) (r : ForwardRequest) (notification : Json) :
    l.peers[p]? = some q → l.servers.lookup r.serverId = some p →
    r.notification = some notification →
    Move True l ({ l with accepted := l.accepted ++ [r] }.setPeer p
      { q with enqueued := q.enqueued ++ [notification] })
  | publish {l : Ledger} (p : ℕ) (id : Text) (value : Json) : l.idAt p = some id →
    Move (hasFields value = true) l
      { l with forwarded := l.forwarded ++ [(p, tagDiagnostics id value)] }

/-! ## What is promised -/

structure Routes (l : Ledger) : Prop where
  replied : ∀ (p : ℕ) (q : Peer), l.peers[p]? = some q → q.Answered
  distinct : (l.issued.map Prod.snd).Nodup
  named : ∀ r ∈ l.accepted, ∃ p, l.idAt p = some r.serverId
  queued : ∀ (p : ℕ) (q : Peer) (id : Text), l.peers[p]? = some q → l.idAt p = some id →
    q.enqueued.map some
      = (l.accepted.filter fun r => r.serverId = id).map ForwardRequest.notification
  tagged : ∀ p m, (p, m) ∈ l.forwarded → ∃ id, l.idAt p = some id ∧ carriedId m = some id

structure Kept (l : Ledger) : Prop where
  hub : l.hub.Kept srvName ForwardRequest.serverId
  counter : l.next.toNat = l.issued.length % 2 ^ 64
  waiting : ∀ (p : ℕ) (q : Peer), l.peers[p]? = some q → q.Waiting
  issued : ∀ p id, (some p, id) ∈ l.issued ↔ l.idAt p = some id

theorem carriedId_tag (id : Text) (value : Json) :
    carriedId (tagDiagnostics id value) = some id ↔ hasFields value = true := by
  have hparams : (tagDiagnostics id value).get "params".toList
      = some (((value.get "params".toList).getD (.object [])).insertField "server_id".toList
          (.string id)) := by
    rw [tagDiagnostics, Json.get_named]
    rfl
  rw [carriedId, hparams, hasFields]
  cases value.get "params".toList with
  | none => exact iff_of_true rfl rfl
  | some params =>
    cases params with
    | object fields =>
      refine iff_of_true ?_ rfl
      rfl
    | _ =>
      refine iff_of_false ?_ Bool.false_ne_true
      intro h
      cases h

section
variable {l l' : Ledger} {p : ℕ} {q q' : Peer} {c : Prop}

section
variable (hq : l.peers[p]? = some q)
include hq

theorem peer_setPeer {p' : ℕ} {x : Peer} :
    (l.setPeer p q').peers[p']? = some x ↔ p' = p ∧ x = q' ∨ p' ≠ p ∧ l.peers[p']? = some x :=
  getElem?_slot hq

theorem idAt_setPeer (p' : ℕ) :
    (l.setPeer p q').idAt p' = if p' = p then q'.phase.id? else l.idAt p' := by
  obtain ⟨hlt, -⟩ := List.getElem?_eq_some_iff.mp hq
  rw [Ledger.idAt, Ledger.setPeer, List.getElem?_set]
  by_cases hp : p = p'
  · subst hp
    simp [hlt]
  · simp [hp, Ne.symm hp, Ledger.idAt]

theorem idAt_eq : l.idAt p = q.phase.id? := by
  rw [Ledger.idAt, hq]
  rfl

theorem idAt_same (hid : q'.phase.id? = q.phase.id?) (p' : ℕ) :
    (l.setPeer p q').idAt p' = l.idAt p' := by
  rw [idAt_setPeer hq]
  split
  · next heq => rw [heq, idAt_eq hq, hid]
  · rfl

theorem boxes_at : l.hub.boxes p = q.enqueued.map some := by
  change ((l.peers[p]?).map fun q => q.enqueued.map some).getD [] = _
  rw [hq]
  rfl

end

theorem boxes_other {p' : ℕ} (hne : p' ≠ p) : (l.setPeer p q').hub.boxes p' = l.hub.boxes p' := by
  change (((l.peers.set p q')[p']?).map fun q => q.enqueued.map some).getD [] = _
  rw [List.getElem?_set_ne hne.symm]
  rfl

theorem hub_same (hq : l.peers[p]? = some q) (hqueue : q'.enqueued = q.enqueued) :
    (l.setPeer p q').hub = l.hub := by
  have hboxes : (l.setPeer p q').hub.boxes = l.hub.boxes := by
    funext p'
    rcases eq_or_ne p' p with rfl | hp
    · rw [boxes_at ((peer_setPeer hq).mpr (.inl ⟨rfl, rfl⟩)), boxes_at hq, hqueue]
    · exact boxes_other hp
  exact congrArg (fun boxes => (⟨l.issued, l.servers, l.accepted, boxes⟩ :
    Hub Text ForwardRequest (Option Json))) hboxes

theorem hub_spawn : ({ l with peers := l.peers ++ [⟨.starting, [], []⟩] } : Ledger).hub = l.hub := by
  have hboxes : ({ l with peers := l.peers ++ [⟨.starting, [], []⟩] } : Ledger).hub.boxes
      = l.hub.boxes := by
    funext p'
    simp only [Ledger.hub, List.getElem?_append]
    split
    · rfl
    · next hge =>
      rw [List.getElem?_eq_none (Nat.le_of_not_lt hge), List.getElem?_singleton]
      split <;> rfl
  exact congrArg (fun boxes => (⟨l.issued, l.servers, l.accepted, boxes⟩ :
    Hub Text ForwardRequest (Option Json))) hboxes

theorem idAt_spawn (p' : ℕ) :
    ({ l with peers := l.peers ++ [⟨.starting, [], []⟩] } : Ledger).idAt p' = l.idAt p' := by
  simp only [Ledger.idAt, List.getElem?_append]
  split
  · rfl
  · next hge =>
    rw [List.getElem?_eq_none (Nat.le_of_not_lt hge), List.getElem?_singleton]
    split <;> rfl

theorem hub_issue (hk : Kept l) (who : Option ℕ) : (l.issue who).hub = l.hub.issue srvName who := by
  have hname : "srv".toList ++ decimal l.next.toNat = srvName l.issued.length := by
    rw [hk.counter]
    rfl
  have hissued : (l.issue who).issued = l.issued ++ [(who, srvName l.issued.length)] := by
    rw [← hname]
    rfl
  exact congrArg (fun issued => (⟨issued, l.servers, l.accepted, l.hub.boxes⟩ :
    Hub Text ForwardRequest (Option Json))) hissued

theorem stranger_iff (hk : Kept l) : l.hub.Stranger p ↔ l.idAt p = none := by
  rw [Option.eq_none_iff_forall_not_mem]
  exact forall_congr' fun id => not_congr (hk.issued p id)

theorem hub_forward (hq : l.peers[p]? = some q) {r : ForwardRequest} {notification : Json}
    (hr : r.notification = some notification) : ({ l with accepted := l.accepted ++ [r] }.setPeer p
        { q with enqueued := q.enqueued ++ [notification] }).hub
      = l.hub.post ForwardRequest.notification p r := by
  have hboxes : (l.setPeer p { q with enqueued := q.enqueued ++ [notification] }).hub.boxes
      = (l.hub.post ForwardRequest.notification p r).boxes := by
    funext p'
    rcases eq_or_ne p' p with rfl | hp
    · rw [Hub.post_self, boxes_at ((peer_setPeer hq).mpr (.inl ⟨rfl, rfl⟩)), boxes_at hq, hr,
        map_append]
      rfl
    · rw [Hub.post_other hp, boxes_other hp]
  exact congrArg (fun boxes => (⟨l.issued, l.servers, l.accepted ++ [r], boxes⟩ :
    Hub Text ForwardRequest (Option Json))) hboxes

theorem Move.hub (hk : Kept l) (h : Move c l l') : l'.hub = l.hub ∨
    Hub.Step srvName ForwardRequest.serverId ForwardRequest.notification l.hub l'.hub := by
  cases h with
  | spawn => exact .inl hub_spawn
  | wait p heard enqueued value hq hid | reply p heard enqueued value capabilities hq
  | fail p heard enqueued hq => exact .inl (hub_same hq rfl)
  | placeholder =>
    rw [hub_issue hk]
    exact .inr (.issue _ _ fun p hp => by cases hp)
  | install p heard enqueued capabilities hq =>
    have hq' : (l.issue (some p)).peers[p]?
        = some ⟨.initialized capabilities, heard, enqueued⟩ := hq
    rw [hub_same hq', hub_issue hk]
    · refine .inr (.issue _ _ fun p' hp => ?_)
      cases hp
      exact (stranger_iff hk).mpr (idAt_eq hq)
    · rfl
  | register p heard enqueued id capabilities hq =>
    have hq' : ({ l with servers := l.servers.insert id p } : Ledger).peers[p]?
        = some ⟨.numbered id capabilities, heard, enqueued⟩ := hq
    rw [hub_same hq']
    · exact .inr (.enter _ p id ((hk.issued p id).mpr (idAt_eq hq)))
    · rfl
  | forward p q r notification hq hlookup hr =>
    rw [hub_forward hq hr]
    exact .inr (.post _ p r hlookup)
  | publish p id value hid => exact .inl rfl

/-! ## What is kept -/

theorem Move.idAt (h : Move c l l') {id : Text} (hid : l.idAt p = some id) :
    l'.idAt p = some id := by
  have hset : ∀ {l : Ledger} {p' : ℕ} {q q' : Peer}, l.peers[p']? = some q →
      (q.phase.id? = none ∨ q'.phase.id? = q.phase.id?) → l.idAt p = some id →
      (l.setPeer p' q').idAt p = some id := by
    intro l p' q q' hq hphase hid
    rw [idAt_setPeer hq]
    split
    · next heq =>
      rw [heq, idAt_eq hq] at hid
      rcases hphase with hnone | hsame
      · rw [hnone] at hid
        cases hid
      · rw [hsame, hid]
    · exact hid
  cases h with
  | spawn =>
    rw [idAt_spawn]
    exact hid
  | wait p heard enqueued value hq _ | reply p heard enqueued value capabilities hq
  | fail p heard enqueued hq => exact hset hq (.inl rfl) hid
  | placeholder => exact hid
  | install p' heard enqueued capabilities hq =>
    exact hset hq (.inl rfl) hid
  | register p' heard enqueued id capabilities hq =>
    exact hset hq (.inr rfl) hid
  | forward p' q r notification hq hlookup hr =>
    exact hset hq (.inr rfl) hid
  | publish p id value _ => exact hid

theorem counter_issue (hk : Kept l) (who : Option ℕ) :
    (l.issue who).next.toNat = (l.issue who).issued.length % 2 ^ 64 := by
  have hnext : (l.issue who).next.toNat = (l.next.toNat + 1) % 2 ^ 64 := by
    rfl
  have hlength : (l.issue who).issued.length = l.issued.length + 1 := by
    rw [Ledger.issue, length_append]
    rfl
  rw [hnext, hlength, hk.counter]
  omega

theorem each_setPeer {P : Peer → Prop} (h : ∀ (p : ℕ) (q : Peer), l.peers[p]? = some q → P q)
    (hq : l.peers[p]? = some q) (hnew : P q') :
    ∀ (p' : ℕ) (x : Peer), (l.setPeer p q').peers[p']? = some x → P x := by
  intro p' x hx
  rcases (peer_setPeer hq).mp hx with ⟨-, rfl⟩ | ⟨-, hx⟩
  · exact hnew
  · exact h p' x hx

theorem Move.waiting (hk : Kept l) (h : Move c l l') :
    ∀ (p : ℕ) (q : Peer), l'.peers[p]? = some q → q.Waiting := by
  cases h with
  | spawn =>
    intro p q hq
    rcases getElem?_snoc.mp hq with hq | ⟨-, rfl⟩
    · exact hk.waiting p q hq
    · intro _ value hvalue
      cases hvalue
  | wait p heard enqueued value hq hid =>
    refine each_setPeer hk.waiting hq fun hstart v hv => ?_
    rcases mem_append.mp hv with hv | hv
    · exact hk.waiting p _ hq rfl v hv
    · rw [mem_singleton.mp hv]
      exact hid
  | reply p heard enqueued value capabilities hq =>
    exact each_setPeer hk.waiting hq nofun
  | fail p heard enqueued hq => exact each_setPeer hk.waiting hq nofun
  | placeholder => exact hk.waiting
  | install p heard enqueued capabilities hq =>
    exact each_setPeer hk.waiting hq nofun
  | register p heard enqueued id capabilities hq =>
    exact each_setPeer hk.waiting hq nofun
  | forward p q r notification hq hlookup hr =>
    exact each_setPeer hk.waiting hq (hk.waiting p q hq)
  | publish p id value _ => exact hk.waiting

theorem mem_issue {who : Option ℕ} {e : Option ℕ × Text} : e ∈ (l.issue who).issued ↔
    e ∈ l.issued ∨ e = (who, "srv".toList ++ decimal l.next.toNat) := by
  rw [Ledger.issue, mem_append, mem_singleton]

theorem issued_same (hissued : ∀ p id, (some p, id) ∈ l.issued ↔ l.idAt p = some id)
    (hq : l.peers[p]? = some q) (hid : q'.phase.id? = q.phase.id?) (p' : ℕ) (id : Text) :
    (some p', id) ∈ (l.setPeer p q').issued ↔ (l.setPeer p q').idAt p' = some id := by
  rw [idAt_same hq hid]
  exact hissued p' id

theorem Move.issued (hk : Kept l) (h : Move c l l') :
    ∀ p id, (some p, id) ∈ l'.issued ↔ l'.idAt p = some id := by
  cases h with
  | spawn =>
    intro p id
    rw [idAt_spawn]
    exact hk.issued p id
  | wait p heard enqueued value hq _ | reply p heard enqueued value capabilities hq
  | fail p heard enqueued hq => exact issued_same hk.issued hq rfl
  | placeholder =>
    intro p id
    rw [mem_issue, or_iff_left (by simp)]
    exact hk.issued p id
  | install p heard enqueued capabilities hq =>
    intro p' id
    have hq' : (l.issue (some p)).peers[p]?
        = some ⟨.initialized capabilities, heard, enqueued⟩ := hq
    have hstranger : (some p, id) ∉ l.issued := by
      rw [hk.issued, idAt_eq hq]
      exact nofun
    rw [idAt_setPeer hq']
    refine mem_issue.trans ?_
    by_cases hp : p' = p
    · subst hp
      rw [if_pos rfl, or_iff_right hstranger]
      simp [Phase.id?, eq_comm]
    · rw [if_neg hp, or_iff_left (by simp [hp])]
      exact hk.issued p' id
  | register p heard enqueued id capabilities hq =>
    exact issued_same hk.issued hq rfl
  | forward p q r notification hq hlookup hr =>
    exact issued_same hk.issued hq rfl
  | publish p id value _ => exact hk.issued

theorem Move.counter (hk : Kept l) (h : Move c l l') :
    l'.next.toNat = l'.issued.length % 2 ^ 64 := by
  cases h with
  | placeholder => exact counter_issue hk none
  | install p heard enqueued capabilities hq => exact counter_issue hk (some p)
  | spawn | wait | reply | fail | register | forward | publish => exact hk.counter

theorem Kept.move (hk : Kept l) (h : Move c l l') : Kept l' := by
  refine ⟨?_, h.counter hk, h.waiting hk, h.issued hk⟩
  rcases h.hub hk with hsame | hstep
  · rw [hsame]
    exact hk.hub
  · exact hk.hub.step hstep

/-! ## When it does what is promised -/

theorem Move.answered (hans : ∀ (p : ℕ) (q : Peer), l.peers[p]? = some q → q.Answered)
    (h : Move c l l') (hc : c) : ∀ (p : ℕ) (q : Peer), l'.peers[p]? = some q → q.Answered := by
  cases h with
  | spawn =>
    intro p q hq
    rcases getElem?_snoc.mp hq with hq | ⟨-, rfl⟩
    · exact hans p q hq
    · exact nofun
  | wait p heard enqueued value hq _ => exact each_setPeer hans hq nofun
  | reply p heard enqueued value capabilities hq =>
    exact each_setPeer hans hq fun _ => ⟨value, by simp, hc⟩
  | fail p heard enqueued hq => exact each_setPeer hans hq nofun
  | placeholder => exact hans
  | install p heard enqueued capabilities hq =>
    have hold := hans p _ hq
    exact each_setPeer hans hq fun _ => hold rfl
  | register p heard enqueued id capabilities hq =>
    have hold := hans p _ hq
    exact each_setPeer hans hq fun _ => hold rfl
  | forward p q r notification hq hlookup hr =>
    exact each_setPeer hans hq (hans p q hq)
  | publish p id value _ => exact hans

theorem distinct_iff (hk : Kept l) : (l.issued.map Prod.snd).Nodup ↔ l.issued.length ≤ 2 ^ 64 := by
  have hnames : l.issued.map Prod.snd = (List.range l.issued.length).map srvName := hk.hub.names
  rw [hnames, nodup_map_iff_inj_on nodup_range]
  constructor
  · intro hinj
    by_contra hlong
    have heq := hinj 0 (mem_range.mpr (by omega)) (2 ^ 64) (mem_range.mpr (by omega))
      (by simp [srvName])
    omega
  · intro hshort n hn m hm heq
    rw [mem_range] at hn hm
    have hmod := decimal_injective (append_cancel_left heq)
    rw [Nat.mod_eq_of_lt (by omega), Nat.mod_eq_of_lt (by omega)] at hmod
    exact hmod

theorem length_issue (who : Option ℕ) : (l.issue who).issued.length = l.issued.length + 1 := by
  rw [Ledger.issue, length_append]
  rfl

theorem Move.distinct (hk : Kept l) (hd : (l.issued.map Prod.snd).Nodup) (h : Move c l l')
    (hc : c) : (l'.issued.map Prod.snd).Nodup := by
  have hk' := hk.move h
  rw [distinct_iff hk] at hd
  rw [distinct_iff hk']
  cases h with
  | placeholder =>
    rw [length_issue]
    exact hc
  | install p heard enqueued capabilities hq => exact (length_issue (some p)).trans_le hc
  | spawn | wait | reply | fail | register | forward | publish => exact hd

theorem Move.tagged (ht : ∀ p m, (p, m) ∈ l.forwarded →
      ∃ id, l.idAt p = some id ∧ carriedId m = some id) (h : Move c l l') (hc : c) :
    ∀ p m, (p, m) ∈ l'.forwarded → ∃ id, l'.idAt p = some id ∧ carriedId m = some id := by
  intro p m hm
  have hold : (p, m) ∈ l.forwarded → ∃ id, l'.idAt p = some id ∧ carriedId m = some id := by
    intro hm
    obtain ⟨id, hid, hcarried⟩ := ht p m hm
    exact ⟨id, h.idAt hid, hcarried⟩
  cases h with
  | publish p' id value hid =>
    rcases mem_append.mp hm with hm | hm
    · exact hold hm
    · obtain ⟨rfl, rfl⟩ := Prod.mk.inj (mem_singleton.mp hm)
      exact ⟨id, hid, (carriedId_tag id value).mpr hc⟩
  | spawn | wait | reply | fail | placeholder | install | register | forward => exact hold hm

theorem routed_of (hk : Kept l) (hr : Routes l) :
    l.hub.Routed ForwardRequest.serverId ForwardRequest.notification := by
  refine ⟨hr.distinct, fun p id hid => ?_⟩
  rw [show ((some p, id) ∈ l.hub.issued) = ((some p, id) ∈ l.issued) from rfl, hk.issued] at hid
  cases hq : l.peers[p]? with
  | none =>
    rw [Ledger.idAt, hq] at hid
    cases hid
  | some q =>
    rw [boxes_at hq]
    exact hr.queued p q id hq hid

theorem Move.condition (hk : Kept l) (h : Move c l l') (hr : Routes l') : c := by
  have hk' := hk.move h
  cases h with
  | reply p heard enqueued value capabilities hq =>
    obtain ⟨v, hv, hreply⟩ := hr.replied p _ ((peer_setPeer hq).mpr (.inl ⟨rfl, rfl⟩)) rfl
    rcases mem_append.mp hv with hv | hv
    · have hother := hk.waiting p _ hq rfl v hv
      rw [isInitializeReply, hother] at hreply
      cases hreply
    · rw [mem_singleton.mp hv] at hreply
      exact hreply
  | placeholder =>
    have hlength := (distinct_iff hk').mp hr.distinct
    rw [length_issue] at hlength
    exact hlength
  | install p heard enqueued capabilities hq =>
    exact (length_issue (some p)).symm.trans_le ((distinct_iff hk').mp hr.distinct)
  | publish p id value hid =>
    obtain ⟨id', hid', hcarried⟩ := hr.tagged p _ (mem_append_right _ mem_cons_self)
    obtain rfl : id = id' := Option.some.inj (hid.symm.trans hid')
    exact (carriedId_tag id value).mp hcarried
  | spawn | wait | fail | register | forward => trivial

theorem Routes.move (hk : Kept l) (hr : Routes l) (h : Move c l l') : Routes l' ↔ c := by
  have hk' := hk.move h
  constructor
  · exact h.condition hk
  · intro hc
    have hdistinct := h.distinct hk hr.distinct hc
    have hrouted : l'.hub.Routed ForwardRequest.serverId ForwardRequest.notification := by
      rcases h.hub hk with hsame | hstep
      · rw [hsame]
        exact routed_of hk hr
      · exact (routed_of hk hr).step hk.hub hstep hdistinct
    refine ⟨h.answered hr.replied hc, hdistinct, fun r hr => ?_, fun p q id hq hid => ?_,
      h.tagged hr.tagged hc⟩
    · obtain ⟨p, hp⟩ := hk'.hub.known r hr
      exact ⟨p, (hk'.issued p _).mp hp⟩
    · rw [← boxes_at hq]
      exact hrouted.inOrder p id ((hk'.issued p id).mpr hid)

end

/-! ## The steps are moves -/

def startsPlaceholder (env : LspdEnv) (req : LspdRequest) : Bool :=
  req.method = "lsp/start".toList &&
    match env.startParams req.params with
    | .ok (language, _) => (serverInvocation language).isSome && !env.realSpawn
    | .error _ => false

/-- The frame taken as the reply is one, diagnostics can carry an id, ids are left. -/
def Fair (env : LspdEnv) (s : LspSupervisor) : LspdAction → Prop
  | .request req _ => startsPlaceholder env req = true → s.issued.length < 2 ^ 64
  | .install _ _ => s.issued.length < 2 ^ 64
  | .read p (.json value) =>
    match (s.procs[p]?).map LspServer.phase with
    | some .starting => hasIdOne value = true → isInitializeReply value = true
    | some (.numbered _ _) | some (.registered _) =>
      isDiagnostics value = true → s.outOpen = true → hasFields value = true
    | _ => True
  | _ => True

section
variable {env : LspdEnv} {s t : LspSupervisor} {a : LspdAction} {p : ℕ} {srv : LspServer}

@[simp] theorem ledger_send (value : Json) : (s.send value).ledger = s.ledger := by
  rw [LspSupervisor.send]
  split <;> rfl

theorem ledger_setServer (s : LspSupervisor) (p : ℕ) (srv : LspServer) :
    (s.setServer p srv).ledger = s.ledger.setPeer p srv.peer := by
  rw [LspSupervisor.ledger, Ledger.setPeer]
  simp only [LspSupervisor.setServer, LspSupervisor.ledger, map_set]

theorem peers_ledger (hsrv : s.procs[p]? = some srv) : s.ledger.peers[p]? = some srv.peer := by
  rw [LspSupervisor.ledger, List.getElem?_map, hsrv]
  rfl

theorem setPeer_self {l : Ledger} {q : Peer} (hq : l.peers[p]? = some q) : l.setPeer p q = l := by
  obtain ⟨hlt, rfl⟩ := List.getElem?_eq_some_iff.mp hq
  rw [Ledger.setPeer, set_getElem_self]

def Moves (env : LspdEnv) (s : LspSupervisor) (a : LspdAction) (t : LspSupervisor) : Prop :=
  (t.ledger = s.ledger ∧ Fair env s a) ∨ ∃ c, Move c s.ledger t.ledger ∧ (Fair env s a ↔ c)

theorem ledger_nextId (who : Option ℕ) : (s.nextId who).2.ledger = s.ledger.issue who := rfl

theorem method_of_placeholder {req : LspdRequest} (h : startsPlaceholder env req = true) :
    req.method = "lsp/start".toList := of_decide_eq_true (Bool.and_eq_true_iff.mp h).1

theorem start_moves {req : LspdRequest} (spawned : Spawned)
    (hmethod : req.method = "lsp/start".toList) :
    Moves env s (.request req spawned) (handleLspStart env s req spawned) := by
  unfold handleLspStart
  cases hparams : env.startParams req.params with
  | error e =>
    refine .inl ⟨ledger_send _, ?_⟩
    simp [Fair, startsPlaceholder, hparams]
  | ok params =>
    obtain ⟨language, rootUri⟩ := params
    cases hinvoke : serverInvocation language with
    | none =>
      refine .inl ⟨by simp only [hinvoke]; exact ledger_send _, ?_⟩
      simp [Fair, startsPlaceholder, hparams, hinvoke]
    | some invocation =>
      simp only [hinvoke]
      cases hreal : env.realSpawn with
      | false =>
        refine .inr ⟨s.issued.length < 2 ^ 64, ?_, ?_⟩
        · rw [if_neg Bool.false_ne_true, ledger_send, ledger_nextId]
          exact (Move.placeholder : Move (s.ledger.issued.length < 2 ^ 64) s.ledger _)
        · simp [Fair, startsPlaceholder, hparams, hinvoke, hreal, hmethod]
      | true =>
        have hfair : Fair env s (.request req spawned) := by
          simp [Fair, startsPlaceholder, hparams, hinvoke, hreal]
        rw [if_pos rfl]
        cases spawned with
        | asked =>
          have hledger : ({ s with procs := s.procs ++ [newServer env req.id rootUri] } :
              LspSupervisor).ledger
                = { s.ledger with peers := s.ledger.peers ++ [⟨.starting, [], []⟩] } := by
            simp only [LspSupervisor.ledger, map_append]
            rfl
          refine .inr ⟨True, ?_, iff_true_intro hfair⟩
          rw [hledger]
          exact .spawn
        | notWritten e | notSpawned why => exact .inl ⟨ledger_send _, hfair⟩

theorem handleLspForward_cases (s : LspSupervisor) (method : Text) (params : Json) :
    (∃ e, handleLspForward s method params = (.error e, s)) ∨
      ∃ p srv r notification, s.procs[p]? = some srv ∧ s.servers.lookup r.serverId = some p ∧
        r.notification = some notification ∧
        handleLspForward s method params
          = (.ok (.named [("forwarded", .bool true), ("server_id", .string r.serverId)]),
            { s.setServer p { srv with queue := srv.queue ++ [notification]
                                       enqueued := srv.enqueued ++ [notification] } with
              accepted := s.accepted ++ [r] }) := by
  unfold handleLspForward
  split
  · exact .inl ⟨_, rfl⟩
  · next serverId hid =>
    cases hnotif : lspNotification method params with
    | error e => exact .inl ⟨e, rfl⟩
    | ok notification =>
      cases hlookup : s.servers.lookup serverId with
      | none => exact .inl ⟨_, rfl⟩
      | some p =>
        cases hsrv : s.procs[p]? with
        | none =>
          refine .inl ⟨.unknownServerId serverId, ?_⟩
          simp [hsrv]
        | some srv =>
          cases hwriting : srv.writing with
          | false =>
            refine .inl
              ⟨.other ("server ".toList ++ serverId ++ " writer task is gone".toList), ?_⟩
            simp [hsrv, hwriting]
          | true =>
            refine .inr ⟨p, srv, ⟨serverId, method, params⟩, notification, hsrv, hlookup, ?_, ?_⟩
            · rw [ForwardRequest.notification, hnotif]
              rfl
            · simp [hsrv, hwriting]

theorem request_moves (req : LspdRequest) (spawned : Spawned) :
    Moves env s (.request req spawned) (handleRequest env s req spawned) := by
  by_cases hstart : req.method = "lsp/start".toList
  · have hrequest : handleRequest env s req spawned = handleLspStart env s req spawned := by
      rw [handleRequest, if_neg (by rw [hstart]; decide), if_pos hstart]
    rw [hrequest]
    exact start_moves spawned hstart
  · have hfair : Fair env s (.request req spawned) :=
      fun hplace => absurd (method_of_placeholder hplace) hstart
    rw [handleRequest, if_neg hstart]
    by_cases hinit : req.method = "initialize".toList
    · rw [if_pos hinit]
      exact .inl ⟨ledger_send _, hfair⟩
    rw [if_neg hinit]
    by_cases hforward : req.method ∈ forwardMethods
    · rw [if_pos hforward]
      rcases handleLspForward_cases s req.method req.params with
        ⟨e, hsame⟩ | ⟨p, srv, r, notification, hsrv, hlookup, hr, hmove⟩
      · exact .inl ⟨by rw [ledger_send, hsame], hfair⟩
      · refine .inr ⟨True, ?_, iff_true_intro hfair⟩
        have hledger := ledger_setServer { s with accepted := s.accepted ++ [r] } p
          { srv with queue := srv.queue ++ [notification]
                     enqueued := srv.enqueued ++ [notification] }
        rw [ledger_send, hmove]
        exact hledger ▸ .forward p srv.peer r notification (peers_ledger hsrv) hlookup hr
    · rw [if_neg hforward]
      split <;> exact .inl ⟨ledger_send _, hfair⟩

theorem hear_json {value : Json} : hear (.json value) = if hasIdOne value = true then
    .replied value (((value.get "result".toList).bind (·.get "capabilities".toList)).getD
      (.object [])) else .wait value := by
  rw [hear, hasIdOne]
  cases value.get "id".toList with
  | none | some id => rfl

theorem fail_moves (hsrv : s.procs[p]? = some srv) (hphase : srv.phase = .starting)
    (hfair : Fair env s a) (e : LspdError) : Moves env s a (s.fail p srv e) := by
  have hpeer := peers_ledger hsrv
  rw [LspServer.peer, hphase] at hpeer
  refine .inr ⟨True, ?_, iff_true_intro hfair⟩
  rw [LspSupervisor.fail, ledger_send, ledger_setServer]
  exact .fail p srv.heard srv.enqueued hpeer

theorem handshake_moves (read : LspRead) (hsrv : s.procs[p]? = some srv)
    (hphase : srv.phase = .starting) : Moves env s (.read p read) (handshakeStep s p srv read) := by
  have hpeer := peers_ledger hsrv
  rw [LspServer.peer, hphase] at hpeer
  cases read with
  | json value =>
    have hfair : Fair env s (.read p (.json value)) ↔
        (hasIdOne value = true → isInitializeReply value = true) := by
      simp only [Fair, hsrv, Option.map_some, hphase]
    rw [handshakeStep, hear_json]
    by_cases hid : hasIdOne value = true
    · rw [if_pos hid]
      refine .inr ⟨isInitializeReply value = true, ?_, hfair.trans (imp_iff_right hid)⟩
      rw [ledger_setServer]
      exact .reply p srv.heard srv.enqueued value _ hpeer
    · rw [if_neg hid]
      refine .inr ⟨True, ?_, iff_true_intro (hfair.mpr fun h => absurd h hid)⟩
      rw [ledger_setServer, LspServer.peer, hphase]
      exact .wait p srv.heard srv.enqueued value hpeer (Bool.eq_false_iff.mpr hid)
  | notJson e =>
    have hfair : Fair env s (.read p (.notJson e)) := trivial
    exact fail_moves hsrv hphase hfair _
  | closed =>
    have hfair : Fair env s (.read p .closed) := trivial
    exact fail_moves hsrv hphase hfair _
  | failed e =>
    have hfair : Fair env s (.read p (.failed e)) := trivial
    exact fail_moves hsrv hphase hfair _

section
variable (hsrv : s.procs[p]? = some srv)
include hsrv

theorem pump_moves {read : LspRead} {id : Text}
    (hid : srv.phase.id? = some id) : Moves env s (.read p read) (pumpStep s p srv id read) := by
  have hpeer := peers_ledger hsrv
  have hstop : (s.setServer p { srv with pumping := false }).ledger = s.ledger := by
    rw [ledger_setServer]
    exact setPeer_self hpeer
  cases read with
  | json value =>
    have hfair : Fair env s (.read p (.json value)) ↔
        (isDiagnostics value = true → s.outOpen = true → hasFields value = true) := by
      cases hphase : srv.phase with
      | numbered id' capabilities
      | registered id' => simp only [Fair, hsrv, Option.map_some, hphase]
      | starting | initialized capabilities | failed =>
        rw [hphase] at hid
        cases hid
    rw [pumpStep, pump]
    by_cases hdiag : isDiagnostics value = true
    · rw [if_pos hdiag]
      by_cases hopen : s.outOpen = true
      · rw [if_pos hopen]
        refine .inr ⟨hasFields value = true, ?_,
          hfair.trans ((imp_iff_right hdiag).trans (imp_iff_right hopen))⟩
        exact (Move.publish p id value ((idAt_eq hpeer).trans hid) : Move _ s.ledger _)
      · rw [if_neg hopen]
        exact .inl ⟨hstop, hfair.mpr fun _ h => absurd h hopen⟩
    · rw [if_neg hdiag]
      exact .inl ⟨rfl, hfair.mpr fun h => absurd h hdiag⟩
  | notJson e => exact .inl ⟨rfl, trivial⟩
  | closed | failed e => exact .inl ⟨hstop, trivial⟩

theorem read_moves {read : LspRead}
    (hstep : readStep s p srv read = .ok t) : Moves env s (.read p read) t := by
  unfold readStep at hstep
  split at hstep
  · next hphase =>
    cases hstep
    exact handshake_moves read hsrv hphase
  · next id capabilities hphase =>
    split at hstep <;> cases hstep
    exact pump_moves hsrv (congrArg Phase.id? hphase)
  · next id hphase =>
    split at hstep <;> cases hstep
    exact pump_moves hsrv (congrArg Phase.id? hphase)
  · cases hstep

theorem install_moves {written : Bool}
    (hstep : installStep s p srv written = .ok t) : Moves env s (.install p written) t := by
  have hpeer := peers_ledger hsrv
  unfold installStep at hstep
  split at hstep
  · next capabilities hphase =>
    cases hstep
    rw [LspServer.peer, hphase] at hpeer
    refine .inr ⟨s.issued.length < 2 ^ 64, ?_, Iff.rfl⟩
    rw [ledger_setServer]
    exact (Move.install p srv.heard srv.enqueued capabilities hpeer :
      Move (s.ledger.issued.length < 2 ^ 64) s.ledger _)
  · cases hstep

theorem register_moves (hstep : registerStep s p srv = .ok t) : Moves env s (.register p) t := by
  have hpeer := peers_ledger hsrv
  unfold registerStep at hstep
  split at hstep
  · next id capabilities hphase =>
    cases hstep
    rw [LspServer.peer, hphase] at hpeer
    refine .inr ⟨True, ?_, iff_true_intro trivial⟩
    rw [ledger_send, ledger_setServer]
    exact (Move.register p srv.heard srv.enqueued id capabilities hpeer : Move _ s.ledger _)
  · cases hstep

theorem write_moves {written : Bool}
    (hstep : writeStep s p srv written = .ok t) : Moves env s (.write p written) t := by
  unfold writeStep at hstep
  split at hstep
  · next notification queue hwriting hqueue =>
    cases hstep
    refine .inl ⟨?_, trivial⟩
    have hpeer : (if written = true then { srv with stdin := srv.stdin ++ [notification], queue }
        else { srv with queue, writing := false }).peer = srv.peer := by
      cases written <;> rfl
    rw [ledger_setServer, hpeer]
    exact setPeer_self (peers_ledger hsrv)
  · cases hstep

theorem timeout_moves (hstep : timeoutStep s p srv = .ok t) : Moves env s (.timeout p) t := by
  unfold timeoutStep at hstep
  split at hstep
  · next hphase =>
    cases hstep
    have hfair : Fair env s (.timeout p) := trivial
    exact fail_moves hsrv hphase hfair _
  · cases hstep

end

theorem onServer_ok {f : LspServer → Except Unit LspSupervisor} (h : onServer s p f = .ok t) :
    ∃ srv, s.procs[p]? = some srv ∧ f srv = .ok t := by
  unfold onServer at h
  split at h
  · next srv hsrv => exact ⟨srv, hsrv, h⟩
  · cases h

theorem step_moves (hstep : lspdStep env s a = .ok t) : Moves env s a t := by
  cases a with
  | request req spawned =>
    cases hstep
    exact request_moves req spawned
  | read p read =>
    obtain ⟨srv, hsrv, hread⟩ := onServer_ok hstep
    exact read_moves hsrv hread
  | timeout p =>
    obtain ⟨srv, hsrv, htimeout⟩ := onServer_ok hstep
    exact timeout_moves hsrv htimeout
  | install p written =>
    obtain ⟨srv, hsrv, hinstall⟩ := onServer_ok hstep
    exact install_moves hsrv hinstall
  | register p =>
    obtain ⟨srv, hsrv, hregister⟩ := onServer_ok hstep
    exact register_moves hsrv hregister
  | write p written =>
    obtain ⟨srv, hsrv, hwrite⟩ := onServer_ok hstep
    exact write_moves hsrv hwrite
  | closeOut =>
    cases hstep
    exact .inl ⟨rfl, trivial⟩

/-! ## Runs -/

theorem kept_step (hk : Kept s.ledger) (hstep : lspdStep env s a = .ok t) : Kept t.ledger := by
  rcases step_moves hstep with ⟨hsame, -⟩ | ⟨c, hmove, -⟩
  · rw [hsame]
    exact hk
  · exact hk.move hmove

theorem routes_step (hk : Kept s.ledger) (hr : Routes s.ledger)
    (hstep : lspdStep env s a = .ok t) : Routes t.ledger ↔ Fair env s a := by
  rcases step_moves hstep with ⟨hsame, hfair⟩ | ⟨c, hmove, hfair⟩
  · rw [hsame]
    exact iff_of_true hr hfair
  · rw [hfair]
    exact hr.move hk hmove

theorem kept_new : Kept LspSupervisor.new.ledger where
  hub := {
    names := rfl
    once := nofun
    entered := nofun
    known := nofun
    empty := fun _ _ => rfl }
  counter := rfl
  waiting := nofun
  issued := fun _ _ => iff_of_false (nofun) (nofun)

theorem routes_new : Routes LspSupervisor.new.ledger where
  replied := nofun
  distinct := nodup_nil
  named := nofun
  queued := nofun
  tagged := nofun

/-- In all states of a run the promise is kept if and only if all its steps are fair. -/
theorem lspd_routes {actions : List LspdAction}
    (hrun : actions.foldlM (lspdStep env) LspSupervisor.new = .ok t) :
    (∀ pre u, pre <+: actions → pre.foldlM (lspdStep env) LspSupervisor.new = .ok u →
        Routes u.ledger) ↔
      ∀ pre a u, pre ++ [a] <+: actions →
        pre.foldlM (lspdStep env) LspSupervisor.new = .ok u → Fair env u a :=
  always_iff_given (fun _ _ _ => kept_step) (fun _ _ _ => routes_step) kept_new routes_new hrun

end

def rustEnv : LspdEnv := ⟨"0.0.0".toList, 1, fun _ => .ok ("rust".toList, none), true⟩

def startRequest : LspdRequest := ⟨number "7".toList, "lsp/start".toList, .null⟩

def emptyReply : Json :=
  .named [("id", number "1".toList), ("result", .named [("capabilities", .object [])])]

def progressRequest : Json :=
  .named [("id", number "1".toList), ("method", .string "window/workDoneProgress/create".toList)]

def oneServer : List LspdAction :=
  [.request startRequest .asked, .read 0 (.json emptyReply), .install 0 true, .register 0,
    .request ⟨number "8".toList, "lsp/textDocumentDidOpen".toList,
      .named [("server_id", .string "srv0".toList)]⟩ .asked,
    .read 0 (.json (.named [("method", .string publishDiagnostics), ("params", .object [])]))]

theorem one_server_routes : ∃ t, oneServer.foldlM (lspdStep rustEnv) LspSupervisor.new = .ok t ∧
    ((∀ pre u, pre <+: oneServer → pre.foldlM (lspdStep rustEnv) LspSupervisor.new = .ok u →
        Routes u.ledger) ↔
      ∀ pre a u, pre ++ [a] <+: oneServer →
        pre.foldlM (lspdStep rustEnv) LspSupervisor.new = .ok u → Fair rustEnv u a) :=
  ⟨_, rfl, lspd_routes rfl⟩

theorem server_request_taken : ∃ t, [.request startRequest .asked, .read 0 (.json progressRequest),
      .install 0 true, .register 0].foldlM (lspdStep rustEnv) LspSupervisor.new = .ok t ∧
    ¬ Routes t.ledger := by
  refine ⟨_, rfl, fun h => ?_⟩
  obtain ⟨value, hvalue, hreply⟩ := h.replied 0 _ rfl rfl
  rw [mem_singleton.mp hvalue] at hreply
  revert hreply
  decide

end Codex.Desktop
