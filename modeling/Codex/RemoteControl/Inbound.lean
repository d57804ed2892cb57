import Codex.RemoteControl.Lifecycle

/-!
# Messages from a client

A connection is sent the messages of its client in the order of their arrival, each number
once. The last number is that of a message the connection was sent (`Traced`), so what is
dropped for its number was sent before, or a later one was.
-/

namespace Codex.RemoteControl

open Foundation List

variable {β : Type}

/-! ## Forwarded messages -/

def TransportEvent.incoming : TransportEvent β → Option (ConnectionId × JSONRPCMessage β)
  | .incomingMessage c m => some (c, m)
  | _ => none

def ClientTracker.forwarded (s : ClientTracker β) : List (ConnectionId × JSONRPCMessage β) :=
  s.transportEvents.filterMap TransportEvent.incoming

def ClientTracker.forwardedSince (s t : ClientTracker β) :
    List (ConnectionId × JSONRPCMessage β) :=
  t.forwarded.drop s.forwarded.length

structure Delivery (β : Type) where
  connectionId : ConnectionId
  seqId : Option ℕ
  message : JSONRPCMessage β

def Delivery.starts (d : Delivery β) : Bool := remoteControlMessageStartsConnection d.message

/-- A step that did not find the receiver gone while it handled an envelope. -/
def handled (s : ClientTracker β) (a : Action β) : Except Disabled (ClientTracker β) :=
  match a with
  | .handleMessage newRandom e =>
    match handleMessage newRandom e s with
    | (.ok (), t) => .ok t
    | (.error _, _) => .error .disabled
  | a => step s a

def Action.deliveries (a : Action β) (s t : ClientTracker β) : List (Delivery β) :=
  match a with
  | .handleMessage _ e => (s.forwardedSince t).map fun f => ⟨f.1, e.seqId, f.2⟩
  | _ => []

/-- A step, and the record of what was forwarded with the numbers it came with. -/
def record (r : ClientTracker β × List (Delivery β)) (a : Action β) :
    Except Disabled (ClientTracker β × List (Delivery β)) :=
  match handled r.1 a with
  | .ok t => .ok (t, r.2 ++ a.deliveries r.1 t)
  | .error e => .error e

def arrivals (l : List (Action β)) : List (Option ℕ × JSONRPCMessage β) :=
  l.filterMap fun a => match a with
    | .handleMessage _ e => match e.event with
      | .clientMessage m => some (e.seqId, m)
      | _ => none
    | _ => none

/-- The numbers of the messages a connection was sent after its `initialize`. -/
def seqIdsOn (c : ConnectionId) (log : List (Delivery β)) : List ℕ :=
  (log.filter fun d => d.connectionId = c && !d.starts).filterMap Delivery.seqId

/-! ## Steps that forward nothing -/

structure Steady (s t : ClientTracker β) : Prop where
  forwarded : t.forwarded = s.forwarded
  clients : ∀ key client, t.clients.lookup key = some client → ∃ old,
    s.clients.lookup key = some old ∧ old.connectionId = client.connectionId ∧
      old.lastInboundSeqId = client.lastInboundSeqId
  next : s.nextConnectionId ≤ t.nextConnectionId

namespace Steady

variable {s t u : ClientTracker β}

theorem refl (s : ClientTracker β) : Steady s s :=
  ⟨rfl, fun _ client h => ⟨client, h, rfl, rfl⟩, Nat.le_refl _⟩

theorem trans (h : Steady s t) (h' : Steady t u) : Steady s u := by
  refine ⟨h'.forwarded.trans h.forwarded, fun key client hu => ?_, h.next.trans h'.next⟩
  obtain ⟨mid, ht, hid, hseq⟩ := h'.clients key client hu
  obtain ⟨old, hs, hid', hseq'⟩ := h.clients key mid ht
  exact ⟨old, hs, hid'.trans hid, hseq'.trans hseq⟩

theorem congr {t' : ClientTracker β} (h : Steady s t) (hclients : t'.clients = t.clients)
    (hevents : t'.transportEvents = t.transportEvents)
    (hnext : t.nextConnectionId ≤ t'.nextConnectionId) : Steady s t' := by
  refine ⟨?_, fun key client hlookup => ?_, h.next.trans hnext⟩
  · rw [← h.forwarded, ClientTracker.forwarded, hevents]
    rfl
  · rw [hclients] at hlookup
    exact h.clients key client hlookup

end Steady

theorem forwarded_deliver (s : ClientTracker β) (event : TransportEvent β) :
    (s.deliver event).forwarded = s.forwarded ++ event.incoming.toList := by
  unfold ClientTracker.forwarded ClientTracker.deliver
  rw [filterMap_append]
  cases event <;> rfl

theorem sendTransportEvent_ok {s t : ClientTracker β} {event : TransportEvent β}
    (h : sendTransportEvent event s = (.ok (), t)) : t = s.deliver event := by
  rw [sendTransportEvent_eq] at h
  split at h
  · cases h
  · cases h
    rfl

theorem sendTransportEvent_clients (event : TransportEvent β) (s : ClientTracker β) :
    (sendTransportEvent event s).2.clients = s.clients := by
  obtain ⟨hsent, -⟩ | ⟨hsent, -⟩ := sendTransportEvent_state event s
  · rw [hsent]
  · rw [hsent, ClientTracker.deliver_clients]

theorem closeClient_lookup (key key' : ClientKey) (s : ClientTracker β) :
    (closeClient key s).2.clients.lookup key' =
      if key' = key then none else s.clients.lookup key' := by
  unfold closeClient
  split
  · next hnone =>
    split
    · next h => rw [h, hnone]
    · rfl
  · next client hclient =>
    obtain ⟨hsent, -⟩ | ⟨hsent, -⟩ := sendTransportEvent_state
      (.connectionClosed client.connectionId) (s.removeClient key client)
    · rw [hsent]
      exact lookup_erase_ite key key' s.clients
    · rw [hsent]
      exact lookup_erase_ite key key' s.clients

theorem closeClient_next (key : ClientKey) (s : ClientTracker β) :
    (closeClient key s).2.nextConnectionId = s.nextConnectionId := by
  unfold closeClient
  split
  · rfl
  · next client _ =>
    obtain ⟨hsent, -⟩ | ⟨hsent, -⟩ := sendTransportEvent_state
      (.connectionClosed client.connectionId) (s.removeClient key client)
    · rw [hsent]
      rfl
    · rw [hsent]
      rfl

theorem closeClient_steady (key : ClientKey) (s : ClientTracker β) :
    Steady s (closeClient key s).2 := by
  refine ⟨?_, fun key' client h => ?_, ?_⟩
  · unfold closeClient
    split
    · rfl
    · next client _ =>
      obtain ⟨hsent, -⟩ | ⟨hsent, -⟩ := sendTransportEvent_state
        (.connectionClosed client.connectionId) (s.removeClient key client)
      · rw [hsent]
        rfl
      · rw [hsent, forwarded_deliver]
        exact append_nil _
  · rw [closeClient_lookup] at h
    split at h
    · cases h
    · exact ⟨client, h, rfl, rfl⟩
  · exact (closeClient_next key s).ge

theorem closeClients_steady (keys : List ClientKey) (s : ClientTracker β) :
    Steady s (closeClients keys s).2 := by
  induction keys generalizing s with
  | nil => exact .refl s
  | cons key keys ih =>
    obtain hstate | ⟨-, hstate⟩ := Eff.bind_state (closeClient (β := β) key)
      (fun _ => closeClients keys) s
    · rw [closeClients, hstate]
      exact closeClient_steady key s
    · rw [closeClients, hstate]
      exact (closeClient_steady key s).trans (ih _)

theorem closeEach_steady (keys : List ClientKey) (s : ClientTracker β) :
    Steady s (keys.foldl (fun s key => (closeClient key s).2) s) := by
  induction keys generalizing s with
  | nil => exact .refl s
  | cons key keys ih => exact (closeClient_steady key s).trans (ih _)

theorem ping_steady (key : ClientKey) (s : ClientTracker β) : Steady s (s.ping key) := by
  unfold ClientTracker.ping
  split
  · next client hclient =>
    refine ⟨rfl, fun key' client' h => ?_, Nat.le_refl _⟩
    rw [lookup_insert_ite] at h
    split at h
    · next hkey =>
      cases h
      exact ⟨client, hkey ▸ hclient, rfl, rfl⟩
    · exact ⟨client', h, rfl, rfl⟩
  · exact (Steady.refl s).congr rfl rfl (Nat.le_refl _)

theorem step_steady {s t : ClientTracker β} {a : Action β} (h : step s a = .ok t)
    (ha : ∀ newRandom e, a ≠ .handleMessage newRandom e) : Steady s t := by
  cases a with
  | handleMessage newRandom e => exact absurd rfl (ha newRandom e)
  | taskEnds c how =>
    cases h
    exact (Steady.refl s).congr rfl rfl (Nat.le_refl _)
  | bookkeep c =>
    rw [step] at h
    split at h
    · next task _ =>
      cases h
      unfold ClientTracker.collect
      have herase : Steady s { s with joinSet := s.joinSet.erase task } :=
        (Steady.refl s).congr rfl rfl (Nat.le_refl _)
      split
      · exact herase.trans (closeClient_steady _ _)
      · exact herase
    · cases h
  | closeExpired keys =>
    rw [step] at h
    split at h
    · cases h
      exact closeClients_steady _ s
    · cases h
  | shutdown keys =>
    rw [step] at h
    split at h
    · cases h
      have hcancelled : Steady s { s with
          isShutdown := true
          joinSet := s.joinSet.map fun task => { task with cancelled := true } } :=
        (Steady.refl s).congr rfl rfl (Nat.le_refl _)
      exact (hcancelled.trans (closeEach_steady keys _)).congr rfl rfl (Nat.le_refl _)
    · cases h
  | otherConnection =>
    cases h
    exact (Steady.refl s).congr rfl rfl (Nat.le_succ _)
  | tick elapsed =>
    cases h
    exact (Steady.refl s).congr rfl rfl (Nat.le_refl _)

/-! ## Messages handled -/

structure Forwards (s t : ClientTracker β) (key : ClientKey) (client : ClientState)
    (seqId : Option ℕ) (m : JSONRPCMessage β) : Prop where
  live : s.clients.lookup key = some client
  later : ∀ n k, seqId = some n → client.lastInboundSeqId = some k → k < n
  continues : remoteControlMessageStartsConnection m = false
  clients : ∀ key', t.clients.lookup key' =
    if key' = key then some { client with
      lastActivityAt := s.clock
      lastInboundSeqId := seqId.or client.lastInboundSeqId } else s.clients.lookup key'
  forwarded : t.forwarded = s.forwarded ++ [(client.connectionId, m)]
  next : t.nextConnectionId = s.nextConnectionId

structure Opens (s t : ClientTracker β) (key : ClientKey) (isLegacy : Bool)
    (seqId : Option ℕ) (m : JSONRPCMessage β) : Prop where
  starts : remoteControlMessageStartsConnection m = true
  client : ∃ client, t.clients.lookup key = some client ∧
    client.connectionId = s.nextConnectionId ∧
    client.lastInboundSeqId = if isLegacy then none else seqId
  others : ∀ key', key' ≠ key → t.clients.lookup key' = s.clients.lookup key'
  forwarded : t.forwarded = s.forwarded ++ [(s.nextConnectionId, m)]
  next : t.nextConnectionId = s.nextConnectionId + 1

variable {client : ClientState}

section
variable {s t : ClientTracker β} {key : ClientKey} {isLegacy : Bool} {seqId : Option ℕ}
  {m : JSONRPCMessage β}

theorem openConnection_opens (hstarts : remoteControlMessageStartsConnection m = true)
    (h : openConnection key isLegacy seqId m s = (.ok (), t)) : Opens s t key isLegacy seqId m := by
  have hreceiver : s.receiver ≠ some 0 := by
    intro hgone
    unfold openConnection at h
    simp [sendTransportEvent_eq, hgone] at h
  have hsend : sendTransportEvent (.incomingMessage s.nextConnectionId m)
      (s.openClient key isLegacy seqId) = (.ok (), t) := by
    unfold openConnection at h
    simp only [sendTransportEvent_eq (.connectionOpened s.nextConnectionId), hreceiver,
      if_false] at h
    exact h
  rw [sendTransportEvent_ok hsend]
  refine ⟨hstarts, ⟨_, AList.lookup_insert _, rfl, rfl⟩, fun key' hne => ?_, ?_, rfl⟩
  · exact AList.lookup_insert_ne hne
  · rw [forwarded_deliver]
    unfold ClientTracker.openClient ClientTracker.insertClient ClientTracker.forwarded
      ClientTracker.deliver
    simp [TransportEvent.incoming]

theorem routeMessage_cases (h : routeMessage key isLegacy seqId m s = (.ok (), t)) :
    (∃ client, s.clients.lookup key = some client ∧
        t = (s.touch key client seqId).deliver (.incomingMessage client.connectionId m)) ∨
      s.clients.lookup key = none ∧ Opens s t key isLegacy seqId m ∨
      s.clients.lookup key = none ∧ remoteControlMessageStartsConnection m = false ∧ t = s := by
  unfold routeMessage at h
  split at h
  · next client hclient => exact .inl ⟨client, hclient, sendTransportEvent_ok h⟩
  · next hnone =>
    split at h
    · next hstarts => exact .inr (.inl ⟨hnone, openConnection_opens hstarts h⟩)
    · next hcontinues =>
      cases h
      exact .inr (.inr ⟨hnone, Bool.eq_false_iff.mpr hcontinues, rfl⟩)

theorem forwards_of_route (hclient : s.clients.lookup key = some client)
    (hseen : s.alreadySeen key seqId = false)
    (hcontinues : remoteControlMessageStartsConnection m = false)
    (ht : t = (s.touch key client seqId).deliver (.incomingMessage client.connectionId m)) :
    Forwards s t key client seqId m := by
  rw [ht]
  refine ⟨hclient, fun n k hn hk => ?_, hcontinues, fun key' => ?_, ?_, rfl⟩
  · subst hn
    simpa [ClientTracker.alreadySeen, hclient, hk] using hseen
  · exact lookup_insert_ite key key' _ s.clients
  · rw [forwarded_deliver]
    rfl

theorem handleClientMessage_cases (h : handleClientMessage key isLegacy seqId m s = (.ok (), t)) :
    t = s ∧ remoteControlMessageStartsConnection m = false ∧
        (s.clients.lookup key = none ∨ s.alreadySeen key seqId = true) ∨
      (∃ client, Forwards s t key client seqId m) ∨ Opens s t key isLegacy seqId m := by
  unfold handleClientMessage at h
  split at h
  · next hseen =>
    cases h
    simp only [Bool.and_eq_true, Bool.not_eq_true'] at hseen
    exact .inl ⟨rfl, hseen.2, .inr hseen.1⟩
  · next hseen =>
    split at h
    · next hstarts =>
      obtain ⟨_, u, hclose, hroute⟩ := Eff.bind_eq_ok.mp h
      have hu : u = (closeClient key s).2 := by rw [hclose]
      have hsteady : Steady s u := hu ▸ closeClient_steady key s
      have hlookup : ∀ key', u.clients.lookup key' =
          if key' = key then none else s.clients.lookup key' :=
        fun key' => hu ▸ closeClient_lookup key key' s
      have hnext : u.nextConnectionId = s.nextConnectionId := hu ▸ closeClient_next key s
      obtain ⟨client, hclient, -⟩ | ⟨-, hopens⟩ | ⟨-, hcontinues, -⟩ := routeMessage_cases hroute
      · rw [hlookup, if_pos rfl] at hclient
        cases hclient
      · refine .inr (.inr ⟨hstarts, hnext ▸ hopens.client, fun key' hne => ?_, ?_, ?_⟩)
        · rw [hopens.others key' hne, hlookup, if_neg hne]
        · rw [hopens.forwarded, hsteady.forwarded, hnext]
        · rw [hopens.next, hnext]
      · rw [hstarts] at hcontinues
        cases hcontinues
    · next hcontinues =>
      have hcontinues := Bool.eq_false_iff.mpr hcontinues
      have hseen : s.alreadySeen key seqId = false := by simpa [hcontinues] using hseen
      obtain ⟨client, hclient, ht⟩ | ⟨-, hopens⟩ | ⟨hnone, -, ht⟩ := routeMessage_cases h
      · exact .inr (.inl ⟨client, forwards_of_route hclient hseen hcontinues ht⟩)
      · exact .inr (.inr hopens)
      · exact .inl ⟨ht, hcontinues, .inl hnone⟩

end

/-! ## Envelopes handled -/

variable {seqId : Option ℕ}

section
variable {key key' : ClientKey} (hne : key' ≠ key)
include hne

theorem ping_lookup (s : ClientTracker β) :
    (s.ping key).clients.lookup key' = s.clients.lookup key' := by
  unfold ClientTracker.ping
  split
  · exact AList.lookup_insert_ne hne
  · rfl

theorem routeMessage_lookup {isLegacy : Bool} {m : JSONRPCMessage β} (s : ClientTracker β) :
    (routeMessage key isLegacy seqId m s).2.clients.lookup key' = s.clients.lookup key' := by
  unfold routeMessage
  split
  · next client _ =>
    rw [sendTransportEvent_clients]
    exact AList.lookup_insert_ne hne
  · split
    · obtain ⟨hstate, -⟩ | ⟨-, hstate⟩ := openConnection_state key isLegacy seqId m s
      · rw [hstate]
      · rw [hstate, sendTransportEvent_clients]
        exact AList.lookup_insert_ne hne
    · rfl

theorem handleClientMessage_lookup {isLegacy : Bool} {m : JSONRPCMessage β} {s : ClientTracker β} :
    (handleClientMessage key isLegacy seqId m s).2.clients.lookup key' = s.clients.lookup key' := by
  unfold handleClientMessage
  split
  · rfl
  · split
    · have hclosed : (closeClient key s).2.clients.lookup key' = s.clients.lookup key' := by
        rw [closeClient_lookup, if_neg hne]
      obtain hstate | ⟨-, hstate⟩ := Eff.bind_state (closeClient (β := β) key)
        (fun _ => routeMessage key isLegacy seqId m) s
      · rw [hstate, hclosed]
      · rw [hstate, routeMessage_lookup hne, hclosed]
    · exact routeMessage_lookup hne s

end

section
variable {s t : ClientTracker β} {newRandom : StreamId} {e : ClientEnvelope β}

section
variable (s : ClientTracker β)

variable (e : ClientEnvelope β)

theorem takeLegacyStream_steady : Steady s (s.takeLegacyStream e) := by
  unfold ClientTracker.takeLegacyStream
  split
  · exact (Steady.refl s).congr rfl rfl (Nat.le_refl _)
  · exact .refl s

theorem takeLegacyStream_clients : (s.takeLegacyStream e).clients = s.clients := by
  unfold ClientTracker.takeLegacyStream
  split <;> rfl

theorem takeLegacyStream_next : (s.takeLegacyStream e).nextConnectionId = s.nextConnectionId := by
  unfold ClientTracker.takeLegacyStream
  split <;> rfl

theorem takeLegacyStream_clock : (s.takeLegacyStream e).clock = s.clock := by
  unfold ClientTracker.takeLegacyStream
  split <;> rfl

end

theorem handleMessage_cases (h : handleMessage newRandom e s = (.ok (), t)) : Steady s t ∨
      ∃ m, e.event = .clientMessage m ∧
        ((∃ client, Forwards s t (e.key newRandom s) client e.seqId m) ∨
          Opens s t (e.key newRandom s) e.streamId.isNone e.seqId m) := by
  have hsteady := takeLegacyStream_steady s e
  unfold handleMessage at h
  dsimp only at h
  split at h
  · cases h
    exact .inl hsteady
  · split at h
    · next m hevent =>
      obtain ⟨rfl, -⟩ | ⟨client, hf⟩ | ho := handleClientMessage_cases h
      · exact .inl hsteady
      · refine .inr ⟨m, hevent, .inl ⟨client, ?_⟩⟩
        exact {
          live := takeLegacyStream_clients s e ▸ hf.live
          later := hf.later
          continues := hf.continues
          clients := takeLegacyStream_clients s e ▸ takeLegacyStream_clock s e ▸ hf.clients
          forwarded := hsteady.forwarded ▸ hf.forwarded
          next := hf.next.trans (takeLegacyStream_next s e) }
      · refine .inr ⟨m, hevent, .inr ?_⟩
        exact {
          starts := ho.starts
          client := takeLegacyStream_next s e ▸ ho.client
          others := takeLegacyStream_clients s e ▸ ho.others
          forwarded := hsteady.forwarded ▸ takeLegacyStream_next s e ▸ ho.forwarded
          next := takeLegacyStream_next s e ▸ ho.next }
    · cases h
      exact .inl hsteady
    · cases h
      exact .inl (hsteady.trans (ping_steady _ _))
    · refine .inl (hsteady.trans ?_)
      have ht : t = (closeClient (e.key newRandom s) (s.takeLegacyStream e)).2 := by rw [h]
      rw [ht]
      exact closeClient_steady _ _

theorem handleMessage_lookup {key : ClientKey} (hkey : key ≠ e.key newRandom s) :
    (handleMessage newRandom e s).2.clients.lookup key = s.clients.lookup key := by
  rw [← congrArg (AList.lookup key) (takeLegacyStream_clients s e)]
  unfold handleMessage
  dsimp only
  split
  · rfl
  · split
    · exact handleClientMessage_lookup hkey
    · rfl
    · exact ping_lookup hkey _
    · rw [closeClient_lookup]
      exact if_neg hkey

end

/-! ## The record of a run -/

/-- The last number of a client is that of a message on its connection, and the largest. -/
structure Traced (s : ClientTracker β) (log : List (Delivery β)) : Prop where
  forwarded : s.forwarded = log.map fun d => (d.connectionId, d.message)
  drawn : ∀ d ∈ log, d.connectionId < s.nextConnectionId
  live : ∀ key client, s.clients.lookup key = some client → client.connectionId < s.nextConnectionId
  oneKey : ∀ key key' client client', s.clients.lookup key = some client →
    s.clients.lookup key' = some client' → client.connectionId = client'.connectionId → key = key'
  last : ∀ key client n, s.clients.lookup key = some client → client.lastInboundSeqId = some n →
    ∃ d ∈ log, d.connectionId = client.connectionId ∧ d.seqId = some n
  largest : ∀ key client n, s.clients.lookup key = some client →
    n ∈ seqIdsOn client.connectionId log → ∃ k, client.lastInboundSeqId = some k ∧ n ≤ k
  increasing : ∀ c, (seqIdsOn c log).Pairwise (· < ·)

theorem Traced.new (receiver : Option ℕ) (connectionId clock : ℕ) :
    Traced (ClientTracker.new (β := β) receiver connectionId clock) [] := by
  refine ⟨rfl, forall_mem_nil _, ?_, ?_, ?_, ?_, fun c => List.Pairwise.nil⟩
  · intro key client h
    cases h
  · intro key key' client client' h
    cases h
  · intro key client n h
    cases h
  · intro key client n h
    cases h

section
variable {s t : ClientTracker β} {log : List (Delivery β)} {key : ClientKey}
  {seqId : Option ℕ} {m : JSONRPCMessage β}

theorem Traced.steady (h : Traced s log) (hst : Steady s t) : Traced t log := by
  refine ⟨hst.forwarded.trans h.forwarded, fun d hd => ?_, fun key client hc => ?_, ?_, ?_, ?_,
    h.increasing⟩
  · exact Nat.lt_of_lt_of_le (h.drawn d hd) hst.next
  · obtain ⟨old, hold, hid, -⟩ := hst.clients key client hc
    exact hid ▸ Nat.lt_of_lt_of_le (h.live key old hold) hst.next
  · intro key key' client client' hc hc' heq
    obtain ⟨old, hold, hid, -⟩ := hst.clients key client hc
    obtain ⟨old', hold', hid', -⟩ := hst.clients key' client' hc'
    exact h.oneKey key key' old old' hold hold' (by rw [hid, hid', heq])
  · intro key client n hc hn
    obtain ⟨old, hold, hid, hseq⟩ := hst.clients key client hc
    exact hid ▸ h.last key old n hold (hseq.trans hn)
  · intro key client n hc hn
    obtain ⟨old, hold, hid, hseq⟩ := hst.clients key client hc
    obtain ⟨k, hk, hle⟩ := h.largest key old n hold (hid ▸ hn)
    exact ⟨k, hseq ▸ hk, hle⟩

theorem seqIdsOn_append (c : ConnectionId) (log log' : List (Delivery β)) :
    seqIdsOn c (log ++ log') = seqIdsOn c log ++ seqIdsOn c log' := by
  simp [seqIdsOn]

theorem seqIdsOn_other {c : ConnectionId} {d : Delivery β} (h : d.connectionId ≠ c) :
    seqIdsOn c [d] = [] := by
  simp [seqIdsOn, h]

theorem seqIdsOn_starts {c : ConnectionId} {d : Delivery β} (h : d.starts = true) :
    seqIdsOn c [d] = [] := by
  simp [seqIdsOn, h]

theorem seqIdsOn_continues {d : Delivery β} (h : d.starts = false) :
    seqIdsOn d.connectionId [d] = d.seqId.toList := by
  unfold seqIdsOn
  rw [filter_cons_of_pos (by simp [h]), filter_nil]
  cases hseq : d.seqId <;> simp [hseq]

theorem Traced.seqIdsOn_fresh (h : Traced s log) : seqIdsOn s.nextConnectionId log = [] := by
  unfold seqIdsOn
  rw [filter_eq_nil_iff.mpr, filterMap_nil]
  intro d hd
  simp [Nat.ne_of_lt (h.drawn d hd)]

theorem Traced.forwards (h : Traced s log) (hf : Forwards s t key client seqId m) :
    Traced t (log ++ [⟨client.connectionId, seqId, m⟩]) := by
  have hcontinues : (⟨client.connectionId, seqId, m⟩ : Delivery β).starts = false := hf.continues
  -- a client afterwards is one from before, and the one that was sent the message is at its key
  have hold : ∀ key' client', t.clients.lookup key' = some client' →
      ∃ old, s.clients.lookup key' = some old ∧ client'.connectionId = old.connectionId := by
    intro key' client' hc
    rw [hf.clients] at hc
    split at hc
    · next hkey =>
      cases hc
      exact ⟨client, hkey ▸ hf.live, rfl⟩
    · exact ⟨client', hc, rfl⟩
  have hother : ∀ key' client', t.clients.lookup key' = some client' → key' ≠ key →
      s.clients.lookup key' = some client' ∧ client.connectionId ≠ client'.connectionId := by
    intro key' client' hc hne
    rw [hf.clients, if_neg hne] at hc
    exact ⟨hc, fun heq => hne (h.oneKey key key' client client' hf.live hc heq).symm⟩
  refine ⟨?_, ?_, ?_, ?_, ?_, ?_, ?_⟩
  · rw [hf.forwarded, h.forwarded, map_append]
    rfl
  · intro d hd
    rw [hf.next]
    rcases mem_append.mp hd with hd | hd
    · exact h.drawn d hd
    · rw [mem_singleton.mp hd]
      exact h.live key client hf.live
  · intro key' client' hc
    obtain ⟨old, hlive, hid⟩ := hold key' client' hc
    rw [hf.next, hid]
    exact h.live key' old hlive
  · intro key₁ key₂ client₁ client₂ h₁ h₂ heq
    obtain ⟨old₁, hlive₁, hid₁⟩ := hold key₁ client₁ h₁
    obtain ⟨old₂, hlive₂, hid₂⟩ := hold key₂ client₂ h₂
    exact h.oneKey key₁ key₂ old₁ old₂ hlive₁ hlive₂ (by rw [← hid₁, ← hid₂, heq])
  · intro key' client' n hc hn
    by_cases hkey : key' = key
    · rw [hf.clients, if_pos hkey] at hc
      cases hc
      cases seqId with
      | none =>
        obtain ⟨d, hd, hid, hseq⟩ := h.last key client n hf.live hn
        exact ⟨d, mem_append_left _ hd, hid, hseq⟩
      | some k => exact ⟨_, mem_append_right _ (mem_singleton_self _), rfl, hn⟩
    · obtain ⟨d, hd, hid, hseq⟩ := h.last key' client' n (hother key' client' hc hkey).1 hn
      exact ⟨d, mem_append_left _ hd, hid, hseq⟩
  · intro key' client' n hc hn
    rw [seqIdsOn_append, mem_append] at hn
    by_cases hkey : key' = key
    · rw [hf.clients, if_pos hkey] at hc
      cases hc
      rw [seqIdsOn_continues hcontinues] at hn
      cases seqId with
      | none =>
        obtain ⟨k, hk, hle⟩ := h.largest key client n hf.live (by simpa using hn)
        exact ⟨k, hk, hle⟩
      | some k =>
        refine ⟨k, rfl, ?_⟩
        rcases hn with hn | hn
        · obtain ⟨last, hlast, hle⟩ := h.largest key client n hf.live hn
          exact hle.trans (Nat.le_of_lt (hf.later k last rfl hlast))
        · simp only [Option.toList_some, mem_singleton] at hn
          omega
    · obtain ⟨hlive, hne⟩ := hother key' client' hc hkey
      rw [seqIdsOn_other hne] at hn
      exact h.largest key' client' n hlive (by simpa using hn)
  · intro c
    rw [seqIdsOn_append]
    by_cases hc : client.connectionId = c
    · subst hc
      rw [seqIdsOn_continues hcontinues]
      refine pairwise_append.mpr ⟨h.increasing _, ?_, fun n hn k hk => ?_⟩
      · cases seqId <;> simp
      · obtain ⟨last, hlast, hle⟩ := h.largest key client n hf.live hn
        exact Nat.lt_of_le_of_lt hle (hf.later k last (by simpa using hk) hlast)
    · rw [seqIdsOn_other hc, append_nil]
      exact h.increasing c

theorem Traced.opens {isLegacy : Bool} (h : Traced s log) (ho : Opens s t key isLegacy seqId m) :
    Traced t (log ++ [⟨s.nextConnectionId, seqId, m⟩]) := by
  have hstarts : (⟨s.nextConnectionId, seqId, m⟩ : Delivery β).starts = true := ho.starts
  obtain ⟨client, hclient, hid, hseq⟩ := ho.client
  have hcases : ∀ key' client', t.clients.lookup key' = some client' →
      key' = key ∧ client' = client ∨ key' ≠ key ∧ s.clients.lookup key' = some client' := by
    intro key' client' hc
    by_cases hkey : key' = key
    · rw [hkey, hclient] at hc
      exact .inl ⟨hkey, (Option.some.inj hc).symm⟩
    · rw [ho.others key' hkey] at hc
      exact .inr ⟨hkey, hc⟩
  have hlog : ∀ c, seqIdsOn c (log ++ [⟨s.nextConnectionId, seqId, m⟩]) = seqIdsOn c log := by
    intro c
    rw [seqIdsOn_append, seqIdsOn_starts hstarts, append_nil]
  refine ⟨?_, ?_, ?_, ?_, ?_, ?_, ?_⟩
  · rw [ho.forwarded, h.forwarded, map_append]
    rfl
  · intro d hd
    rw [ho.next]
    rcases mem_append.mp hd with hd | hd
    · exact Nat.lt_succ_of_lt (h.drawn d hd)
    · rw [mem_singleton.mp hd]
      exact Nat.lt_succ_self _
  · intro key' client' hc
    rw [ho.next]
    obtain ⟨-, rfl⟩ | ⟨-, hlive⟩ := hcases key' client' hc
    · rw [hid]
      exact Nat.lt_succ_self _
    · exact Nat.lt_succ_of_lt (h.live key' client' hlive)
  · intro key₁ key₂ client₁ client₂ h₁ h₂ heq
    obtain ⟨hk₁, rfl⟩ | ⟨-, hlive₁⟩ := hcases key₁ client₁ h₁
    · obtain ⟨hk₂, -⟩ | ⟨-, hlive₂⟩ := hcases key₂ client₂ h₂
      · rw [hk₁, hk₂]
      · have hlt := h.live key₂ client₂ hlive₂
        rw [← heq, hid] at hlt
        exact absurd hlt (Nat.lt_irrefl _)
    · obtain ⟨-, rfl⟩ | ⟨-, hlive₂⟩ := hcases key₂ client₂ h₂
      · have hlt := h.live key₁ client₁ hlive₁
        rw [heq, hid] at hlt
        exact absurd hlt (Nat.lt_irrefl _)
      · exact h.oneKey key₁ key₂ client₁ client₂ hlive₁ hlive₂ heq
  · intro key' client' n hc hn
    obtain ⟨-, rfl⟩ | ⟨-, hlive⟩ := hcases key' client' hc
    · refine ⟨_, mem_append_right _ (mem_singleton_self _), hid.symm, ?_⟩
      rw [hseq] at hn
      cases isLegacy with
      | true => cases hn
      | false => exact hn
    · obtain ⟨d, hd, hconn, hseq⟩ := h.last key' client' n hlive hn
      exact ⟨d, mem_append_left _ hd, hconn, hseq⟩
  · intro key' client' n hc hn
    rw [hlog] at hn
    obtain ⟨-, rfl⟩ | ⟨-, hlive⟩ := hcases key' client' hc
    · rw [hid, h.seqIdsOn_fresh] at hn
      cases hn
    · exact h.largest key' client' n hlive hn
  · intro c
    rw [hlog]
    exact h.increasing c

end

/-! ## Whole runs -/

section
variable {s t : ClientTracker β} {log : List (Delivery β)}

theorem forwardedSince_append {l : List (ConnectionId × JSONRPCMessage β)}
    (h : t.forwarded = s.forwarded ++ l) : s.forwardedSince t = l := by
  rw [ClientTracker.forwardedSince, h, drop_left]

theorem forwardedSince_steady (h : Steady s t) : s.forwardedSince t = [] :=
  forwardedSince_append (by rw [h.forwarded, append_nil])

theorem arrivals_append (l : List (Action β)) (a : Action β) :
    arrivals (l ++ [a]) = arrivals l ++ arrivals [a] := filterMap_append

theorem record_eq_ok {a : Action β} {r : ClientTracker β × List (Delivery β)}
    (h : record (s, log) a = .ok r) : handled s a = .ok r.1 ∧ r.2 = log ++ a.deliveries s r.1 := by
  unfold record at h
  split at h
  · next t ht =>
    cases h
    exact ⟨ht, rfl⟩
  · cases h

theorem Traced.handled (h : Traced s log) {a : Action β} (ha : handled s a = .ok t) :
    Traced t (log ++ a.deliveries s t) ∧
      ((a.deliveries s t).map fun d => (d.seqId, d.message)).Sublist (arrivals [a]) := by
  by_cases henvelope : ∃ newRandom e, a = .handleMessage newRandom e
  · obtain ⟨newRandom, e, rfl⟩ := henvelope
    have hok : handleMessage newRandom e s = (.ok (), t) := by
      unfold RemoteControl.handled at ha
      dsimp only at ha
      split at ha
      · next heq =>
        cases ha
        exact heq
      · cases ha
    unfold Action.deliveries
    dsimp only
    obtain hsteady | ⟨m, hevent, ⟨client, hf⟩ | ho⟩ := handleMessage_cases hok
    · rw [forwardedSince_steady hsteady, map_nil, append_nil]
      exact ⟨h.steady hsteady, nil_sublist _⟩
    · rw [forwardedSince_append hf.forwarded]
      refine ⟨h.forwards hf, ?_⟩
      simp [arrivals, hevent]
    · rw [forwardedSince_append ho.forwarded]
      refine ⟨h.opens ho, ?_⟩
      simp [arrivals, hevent]
  · have hnot : ∀ newRandom e, a ≠ .handleMessage newRandom e := fun newRandom e heq =>
      henvelope ⟨newRandom, e, heq⟩
    have hstep : step s a = .ok t := by
      cases a with
      | handleMessage newRandom e => exact absurd rfl (hnot newRandom e)
      | _ => exact ha
    have hnone : a.deliveries s t = [] := by
      cases a with
      | handleMessage newRandom e => exact absurd rfl (hnot newRandom e)
      | _ => rfl
    rw [hnone, append_nil]
    exact ⟨h.steady (step_steady hstep hnot), nil_sublist _⟩

/-- The record of a run: what was forwarded, a part of what arrived, in that order, and each
number on a connection once and behind the smaller ones. -/
structure InOrder (l : List (Action β)) (t : ClientTracker β) (log : List (Delivery β)) :
    Prop where
  forwarded : t.forwarded = log.map fun d => (d.connectionId, d.message)
  arrival : (log.map fun d => (d.seqId, d.message)).Sublist (arrivals l)
  increasing : ∀ c, (seqIdsOn c log).Pairwise (· < ·)

/-- A message for a live connection is not forwarded only if the same number or a larger one
came with a message on that connection before. -/
def DropsDuplicates (s : ClientTracker β) (log : List (Delivery β)) : Prop :=
  ∀ newRandom e m client t, e.event = .clientMessage m →
    remoteControlMessageStartsConnection m = false → (e.stream newRandom s).text ≠ [] →
    s.clients.lookup (e.key newRandom s) = some client →
    handleMessage newRandom e s = (.ok (), t) → t.forwarded = s.forwarded →
    ∃ n, e.seqId = some n ∧
      ∃ d ∈ log, d.connectionId = client.connectionId ∧ ∃ k, d.seqId = some k ∧ n ≤ k

/-- The state of a client is changed by envelopes with its own key only, and decides alone
what is forwarded of them. -/
structure KeysApart (β : Type) : Prop where
  untouched : ∀ (s : ClientTracker β) newRandom e key, key ≠ e.key newRandom s →
    (handleMessage newRandom e s).2.clients.lookup key = s.clients.lookup key
  decided : ∀ (s s' t t' : ClientTracker β) newRandom e, e.isInitialize = false →
    e.key newRandom s = e.key newRandom s' →
    s.clients.lookup (e.key newRandom s) = s'.clients.lookup (e.key newRandom s') →
    handleMessage newRandom e s = (.ok (), t) → handleMessage newRandom e s' = (.ok (), t') →
    s.forwardedSince t = s'.forwardedSince t'

variable {newRandom : StreamId} {e : ClientEnvelope β} {key : ClientKey} {m : JSONRPCMessage β}

theorem alreadySeen_iff (hclient : s.clients.lookup key = some client) :
    s.alreadySeen key seqId = true ↔
      ∃ n k, seqId = some n ∧ client.lastInboundSeqId = some k ∧ n ≤ k := by
  unfold ClientTracker.alreadySeen
  rw [hclient]
  cases seqId with
  | none => simp
  | some n => cases hlast : client.lastInboundSeqId <;> simp [hlast]

theorem handleMessage_forwards (hevent : e.event = .clientMessage m)
    (hcontinues : remoteControlMessageStartsConnection m = false)
    (h : handleMessage newRandom e s = (.ok (), t)) : s.forwardedSince t =
      if (e.stream newRandom s).text = [] then []
      else match s.clients.lookup (e.key newRandom s) with
        | none => []
        | some client =>
          if s.alreadySeen (e.key newRandom s) e.seqId then [] else [(client.connectionId, m)] := by
  have htake : s.takeLegacyStream e = s := by
    unfold ClientTracker.takeLegacyStream ClientEnvelope.isInitialize
    simp [hevent, hcontinues]
  unfold handleMessage at h
  simp only [htake, hevent] at h
  split at h
  · next hstream =>
    have hstream : (e.stream newRandom s).text = [] := hstream
    cases h
    rw [if_pos hstream, forwardedSince_steady (.refl s)]
  · next hstream =>
    have hstream : (e.stream newRandom s).text ≠ [] := hstream
    rw [if_neg hstream]
    obtain ⟨rfl, -, hnone | hseen⟩ | ⟨client, hf⟩ | ho := handleClientMessage_cases h
    · rw [hnone, forwardedSince_steady (.refl t)]
    · rw [forwardedSince_steady (.refl t)]
      split
      · rfl
      · rw [if_pos hseen]
    · have hunseen : ¬ s.alreadySeen (e.key newRandom s) e.seqId = true := by
        rw [alreadySeen_iff hf.live]
        rintro ⟨n, k, hn, hk, hle⟩
        exact absurd (hf.later n k hn hk) (Nat.not_lt.mpr hle)
      rw [forwardedSince_append hf.forwarded, hf.live]
      exact (if_neg hunseen).symm
    · rw [ho.starts] at hcontinues
      cases hcontinues

theorem handleMessage_other (hevent : ∀ m, e.event ≠ .clientMessage m)
    (h : handleMessage newRandom e s = (.ok (), t)) : s.forwardedSince t = [] := by
  obtain hsteady | ⟨m, hm, -⟩ := handleMessage_cases h
  · exact forwardedSince_steady hsteady
  · exact absurd hm (hevent m)

theorem keysApart : KeysApart β := by
  refine ⟨fun s newRandom e key hkey => handleMessage_lookup hkey, ?_⟩
  intro s s' t t' newRandom e hinit hkey hlookup h h'
  by_cases hmessage : ∃ m, e.event = .clientMessage m
  · obtain ⟨m, hevent⟩ := hmessage
    have hcontinues : remoteControlMessageStartsConnection m = false := by
      simpa [ClientEnvelope.isInitialize, hevent] using hinit
    have hstream : e.stream newRandom s = e.stream newRandom s' := congrArg Prod.snd hkey
    rw [handleMessage_forwards hevent hcontinues h, handleMessage_forwards hevent hcontinues h',
      hstream, hlookup]
    unfold ClientTracker.alreadySeen
    rw [hlookup]
  · have hevent : ∀ m, e.event ≠ .clientMessage m := fun m hm => hmessage ⟨m, hm⟩
    rw [handleMessage_other hevent h, handleMessage_other hevent h']

theorem Traced.dropsDuplicates (h : Traced s log) : DropsDuplicates s log := by
  intro newRandom e m client t hevent hcontinues hstream hclient hok hnothing
  have hforwards := handleMessage_forwards hevent hcontinues hok
  rw [forwardedSince_append (l := []) (by rw [hnothing, append_nil]), if_neg hstream,
    hclient] at hforwards
  dsimp only at hforwards
  split at hforwards
  · next hseen =>
    obtain ⟨n, k, hn, hk, hle⟩ := (alreadySeen_iff hclient).mp hseen
    obtain ⟨d, hd, hid, hseq⟩ := h.last _ client k hclient hk
    exact ⟨n, hn, d, hd, hid, k, hseq, hle⟩
  · cases hforwards

/-- In every run messages are forwarded in order and only duplicates are dropped, each key
for itself. -/
theorem inbound_in_order (receiver : Option ℕ) (connectionId clock : ℕ) (l : List (Action β)) :
    (∀ t log, l.foldlM record (ClientTracker.new receiver connectionId clock, []) = .ok (t, log) →
      InOrder l t log ∧ DropsDuplicates t log) ∧ KeysApart β := by
  refine ⟨fun t log hrun => ?_, keysApart⟩
  have hinv : Traced t log ∧
      (log.map fun d => (d.seqId, d.message)).Sublist (arrivals l) := by
    induction l using List.reverseRecOn generalizing t log with
    | nil =>
      cases hrun
      exact ⟨.new receiver connectionId clock, nil_sublist _⟩
    | append_singleton l a ih =>
      obtain ⟨⟨u, log'⟩, hrun, hstep⟩ := run_snoc.mp hrun
      obtain ⟨htraced, harrival⟩ := ih u log' hrun
      obtain ⟨hhandled, hlog⟩ := record_eq_ok hstep
      obtain ⟨htraced', harrival'⟩ := htraced.handled hhandled
      dsimp only at hlog
      rw [hlog]
      refine ⟨htraced', ?_⟩
      rw [map_append, arrivals_append]
      exact harrival.append harrival'
  exact ⟨⟨hinv.1.forwarded, hinv.2, hinv.1.increasing⟩, hinv.1.dropsDuplicates⟩

end

def numbered (seqId : ℕ) (message : JSONRPCMessage Unit) : ClientEnvelope Unit :=
  ⟨.clientMessage message, ⟨['c']⟩, some ⟨['s']⟩, some seqId, none⟩

def liveRun : List (Action Unit) :=
  [.handleMessage ⟨[]⟩ (numbered 1 (.request "initialize".toList ())),
    .handleMessage ⟨[]⟩ (numbered 2 (.notification ())),
    .handleMessage ⟨[]⟩ (numbered 2 (.response ()))]

/-- On a live connection the second message with a number is dropped. -/
theorem repeated_number_dropped : ∃ t log,
    liveRun.foldlM record (ClientTracker.new none 0 0, []) = .ok (t, log) ∧ InOrder liveRun t log ∧
      t.forwarded = [(0, .request "initialize".toList ()), (0, .notification ())] ∧
      ∃ d ∈ log, d.connectionId = 0 ∧ ∃ k, d.seqId = some k ∧ 2 ≤ k := by
  obtain ⟨hordered, hdrops⟩ := (inbound_in_order none 0 0 liveRun).1 _ _ rfl
  obtain ⟨n, hn, hd⟩ := hdrops ⟨[]⟩ (numbered 2 (.response ())) (.response ()) ⟨0, 0, some 2, []⟩ _
    rfl rfl (by decide) rfl rfl rfl
  cases hn
  exact ⟨_, _, rfl, hordered, rfl, hd⟩

end Codex.RemoteControl
