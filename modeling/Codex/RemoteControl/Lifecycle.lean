import Codex.RemoteControl.ClientTracker

/-!
# The life of a connection

Each connection is opened once, closed at most once, and speaks only in between, in every
interleaving (`Inv`). An ended task reports the key of its connection and not the
connection: where a client has initialised again in the meantime, its new connection is
closed instead (`closed_for_cause_iff`).
-/

namespace Codex.RemoteControl

open Foundation

section
variable {β : Type}

/-! ## Events of one connection -/

def TransportEvent.connectionId : TransportEvent β → ConnectionId
  | .connectionOpened c => c
  | .incomingMessage c _ => c
  | .connectionClosed c => c

def lifetime (c : ConnectionId) (messages : List (JSONRPCMessage β)) (closed : Bool) :
    List (TransportEvent β) :=
  .connectionOpened c ::
    (messages.map (.incomingMessage c) ++ if closed then [.connectionClosed c] else [])

theorem lifetime_message (c : ConnectionId) (messages : List (JSONRPCMessage β))
    (m : JSONRPCMessage β) :
    lifetime c messages false ++ [.incomingMessage c m] = lifetime c (messages ++ [m]) false := by
  simp [lifetime]

theorem lifetime_closed (c : ConnectionId) (messages : List (JSONRPCMessage β)) :
    lifetime c messages false ++ [.connectionClosed c] = lifetime c messages true := by
  simp [lifetime]

theorem opened_mem_lifetime (c : ConnectionId) (messages : List (JSONRPCMessage β))
    (closed : Bool) : .connectionOpened c ∈ lifetime c messages closed := by
  simp [lifetime]

variable {c : ConnectionId}

theorem closed_mem_lifetime {messages : List (JSONRPCMessage β)} {closed : Bool} :
    .connectionClosed c ∈ lifetime c messages closed ↔ closed = true := by
  cases closed <;> simp [lifetime]

variable {s : ClientTracker β}

namespace ClientTracker

def connection (s : ClientTracker β) (key : ClientKey) : Option ConnectionId :=
  (s.clients.lookup key).map ClientState.connectionId

def eventsOf (s : ClientTracker β) (c : ConnectionId) : List (TransportEvent β) :=
  s.transportEvents.filter fun event => event.connectionId = c

/-- The connection was opened for the key, and its end was not reported. -/
def IsOpen (s : ClientTracker β) (key : ClientKey) (c : ConnectionId) : Prop :=
  (c, key) ∈ s.openedFor ∧ .connectionClosed c ∉ s.transportEvents

variable {event : TransportEvent β}

theorem mem_eventsOf : event ∈ s.eventsOf event.connectionId ↔ event ∈ s.transportEvents := by
  simp [eventsOf]

def deliver (s : ClientTracker β) (event : TransportEvent β) : ClientTracker β :=
  { s with
    receiver := s.receiver.map (· - 1)
    transportEvents := s.transportEvents ++ [event] }

section
variable (s : ClientTracker β)

section
variable (event : TransportEvent β)

@[simp] theorem deliver_clients : (s.deliver event).clients = s.clients := rfl

@[simp] theorem deliver_openedFor : (s.deliver event).openedFor = s.openedFor := rfl

@[simp] theorem connection_deliver : (s.deliver event).connection = s.connection := rfl

theorem eventsOf_deliver (c : ConnectionId)
    (h : event.connectionId = c) : (s.deliver event).eventsOf c = s.eventsOf c ++ [event] := by
  unfold eventsOf deliver
  simp [List.filter_append, h]

end

theorem eventsOf_deliver_ne (h : c ≠ event.connectionId) :
    (s.deliver event).eventsOf c = s.eventsOf c := by
  unfold eventsOf deliver
  simp [List.filter_append, Ne.symm h]

end

theorem closed_mem_deliver : .connectionClosed c ∈ (s.deliver event).transportEvents ↔
      .connectionClosed c ∈ s.transportEvents ∨ event = .connectionClosed c := by
  simp [deliver, eq_comm]

end ClientTracker

theorem sendTransportEvent_eq (event : TransportEvent β) (s : ClientTracker β) :
    sendTransportEvent event s =
      if s.receiver = some 0 then (.error .stopped, s) else (.ok (), s.deliver event) := by
  unfold sendTransportEvent
  split
  · rename_i h
    simp [h]
  · rename_i n h
    simp [h, ClientTracker.deliver]
  · rename_i h
    simp [h, ClientTracker.deliver]

theorem sendTransportEvent_state (event : TransportEvent β) (s : ClientTracker β) :
    (sendTransportEvent event s).2 = s ∧ s.receiver = some 0 ∨
      (sendTransportEvent event s).2 = s.deliver event ∧ s.receiver ≠ some 0 := by
  rw [sendTransportEvent_eq]
  by_cases h : s.receiver = some 0 <;> simp [h]

/-! ## The invariant -/

/-- A connection whose end was not reported is the one of its key, or the receiver of the
report is gone. -/
structure Inv (s : ClientTracker β) : Prop where
  drawn : ∀ c key, (c, key) ∈ s.openedFor → c < s.nextConnectionId
  oneKey : ∀ c key key', (c, key) ∈ s.openedFor → (c, key') ∈ s.openedFor → key = key'
  silent : ∀ c, (∀ key, (c, key) ∉ s.openedFor) → s.eventsOf c = []
  live : ∀ key c, s.connection key = some c →
    (c, key) ∈ s.openedFor ∧ ∃ messages, s.eventsOf c = lifetime c messages false
  gone : ∀ key c, (c, key) ∈ s.openedFor → s.connection key ≠ some c →
    ∃ messages closed, s.eventsOf c = lifetime c messages closed ∧
      (closed = false → s.receiver = some 0)
  oneOpen : ∀ key c c', s.IsOpen key c → s.IsOpen key c' → c = c'

theorem Inv.new (receiver : Option ℕ) (connectionId clock : ℕ) :
    Inv (ClientTracker.new (β := β) receiver connectionId clock) := by
  refine ⟨?_, ?_, ?_, ?_, ?_, ?_⟩
  · intro c key h
    cases h
  · intro c key key' h
    cases h
  · intro c _
    rfl
  · intro key c h
    cases h
  · intro key c h
    cases h
  · intro key c c' h
    cases h.1

variable {s : ClientTracker β} {c : ConnectionId} {key : ClientKey} {t : ClientTracker β}

theorem Inv.congr (h : Inv s) (hconn : t.connection = s.connection)
    (hopen : t.openedFor = s.openedFor) (hevents : t.transportEvents = s.transportEvents)
    (hreceiver : t.receiver = s.receiver) (hnext : s.nextConnectionId ≤ t.nextConnectionId) :
    Inv t := by
  have heventsOf : t.eventsOf = s.eventsOf := by
    funext c
    simp [ClientTracker.eventsOf, hevents]
  have hisOpen : t.IsOpen = s.IsOpen := by
    funext key c
    simp [ClientTracker.IsOpen, hevents, hopen]
  refine ⟨?_, ?_, ?_, ?_, ?_, ?_⟩
  · intro c key hc
    rw [hopen] at hc
    exact Nat.lt_of_lt_of_le (h.drawn c key hc) hnext
  · rw [hopen]
    exact h.oneKey
  · rw [hopen, heventsOf]
    exact h.silent
  · rw [hopen, heventsOf, hconn]
    exact h.live
  · rw [hopen, heventsOf, hconn, hreceiver]
    exact h.gone
  · rw [hisOpen]
    exact h.oneOpen

theorem Inv.eventsOf_opened (h : Inv s) (hc : (c, key) ∈ s.openedFor) :
    ∃ messages closed, s.eventsOf c = lifetime c messages closed := by
  by_cases hlive : s.connection key = some c
  · obtain ⟨-, messages, hevents⟩ := h.live key c hlive
    exact ⟨messages, false, hevents⟩
  · obtain ⟨messages, closed, hevents, -⟩ := h.gone key c hc hlive
    exact ⟨messages, closed, hevents⟩

variable {key' : ClientKey}

theorem Inv.connection_key (h : Inv s) (hc : s.connection key = some c)
    (hc' : s.connection key' = some c) : key = key' :=
  h.oneKey c key key' (h.live key c hc).1 (h.live key' c hc').1

theorem Inv.message (h : Inv s) (key : ClientKey) (hc : s.connection key = some c)
    (m : JSONRPCMessage β) : Inv (sendTransportEvent (.incomingMessage c m) s).2 := by
  obtain ⟨hsent, -⟩ | ⟨hsent, hreceiver⟩ := sendTransportEvent_state (.incomingMessage c m) s
  · rw [hsent]
    exact h
  obtain ⟨hopened, messages, hevents⟩ := h.live key c hc
  have hof : ∀ c', c' ≠ c →
      (s.deliver (.incomingMessage c m)).eventsOf c' = s.eventsOf c' := by
    intro c' hne
    exact s.eventsOf_deliver_ne hne
  have hofc : (s.deliver (.incomingMessage c m)).eventsOf c =
      lifetime c (messages ++ [m]) false := by
    rw [s.eventsOf_deliver (.incomingMessage c m) c rfl, hevents, lifetime_message]
  rw [hsent]
  refine ⟨h.drawn, h.oneKey, ?_, ?_, ?_, ?_⟩
  · intro c' hc'
    rw [hof c' fun e => hc' key (e ▸ hopened)]
    exact h.silent c' hc'
  · intro key' c' hc'
    refine ⟨(h.live key' c' hc').1, ?_⟩
    by_cases he : c' = c
    · subst he
      exact ⟨_, hofc⟩
    · rw [hof c' he]
      exact (h.live key' c' hc').2
  · intro key' c' hc' hlive
    have he : c' ≠ c := by
      intro he
      subst he
      rw [h.oneKey c' key' key hc' hopened] at hlive
      exact hlive hc
    obtain ⟨messages', closed, hevents', hclosed⟩ := h.gone key' c' hc' hlive
    rw [hof c' he]
    refine ⟨messages', closed, hevents', ?_⟩
    intro hfalse
    exact absurd (hclosed hfalse) hreceiver
  · intro key' c₁ c₂ h₁ h₂
    refine h.oneOpen key' c₁ c₂ ⟨h₁.1, ?_⟩ ⟨h₂.1, ?_⟩
    · exact fun hclosed => h₁.2 (ClientTracker.closed_mem_deliver.mpr (.inl hclosed))
    · exact fun hclosed => h₂.2 (ClientTracker.closed_mem_deliver.mpr (.inl hclosed))

/-! ## Closing -/

theorem connection_removeClient (s : ClientTracker β) (key key' : ClientKey)
    (client : ClientState) : (s.removeClient key client).connection key' =
      if key' = key then none else s.connection key' := by
  unfold ClientTracker.connection ClientTracker.removeClient
  simp only [lookup_erase_ite]
  split <;> rfl

theorem connection_eq_some : s.connection key = some c ↔
      ∃ client, s.clients.lookup key = some client ∧ client.connectionId = c := by
  unfold ClientTracker.connection
  simp

theorem closeClient_connection (key key' : ClientKey) (s : ClientTracker β) :
    (closeClient key s).2.connection key' = if key' = key then none else s.connection key' := by
  unfold closeClient
  cases hclient : s.clients.lookup key with
  | none =>
    by_cases h : key' = key
    · subst h
      simp [ClientTracker.connection, hclient]
    · simp [h]
  | some client =>
    obtain ⟨hsent, -⟩ | ⟨hsent, -⟩ := sendTransportEvent_state
      (.connectionClosed client.connectionId) (s.removeClient key client)
    · simp only [hsent]
      exact connection_removeClient s key key' client
    · simp only [hsent, ClientTracker.connection_deliver]
      exact connection_removeClient s key key' client

theorem Inv.close (h : Inv s) (key : ClientKey) : Inv (closeClient key s).2 := by
  unfold closeClient
  cases hclient : s.clients.lookup key with
  | none => exact h
  | some client =>
    have hlive : s.connection key = some client.connectionId :=
      connection_eq_some.mpr ⟨client, hclient, rfl⟩
    obtain ⟨hopened, messages, hevents⟩ := h.live key _ hlive
    have hother : ∀ key' c', (c', key') ∈ s.openedFor → c' ≠ client.connectionId →
        (if key' = key then none else s.connection key') ≠ some c' →
        s.connection key' ≠ some c' := by
      intro key' c' _ hne hconn' hsome
      by_cases hkey : key' = key
      · subst hkey
        exact hne (Option.some.inj (hsome.symm.trans hlive))
      · rw [if_neg hkey] at hconn'
        exact hconn' hsome
    obtain ⟨hsent, hreceiver⟩ | ⟨hsent, hreceiver⟩ := sendTransportEvent_state
      (.connectionClosed client.connectionId) (s.removeClient key client)
    · -- the receiver is gone: the connection stays open in the reports
      simp only [hsent]
      refine ⟨h.drawn, h.oneKey, h.silent, ?_, ?_, h.oneOpen⟩
      · intro key' c' hc'
        rw [connection_removeClient] at hc'
        split at hc'
        · cases hc'
        · exact h.live key' c' hc'
      · intro key' c' hc' hgone
        rw [connection_removeClient] at hgone
        by_cases he : c' = client.connectionId
        · subst he
          exact ⟨messages, false, hevents, fun _ => hreceiver⟩
        · exact h.gone key' c' hc' (hother key' c' hc' he hgone)
    · have hof : ∀ c', c' ≠ client.connectionId →
          ((s.removeClient key client).deliver
            (.connectionClosed client.connectionId)).eventsOf c' = s.eventsOf c' := by
        intro c' hne
        exact (s.removeClient key client).eventsOf_deliver_ne hne
      have hofc : ((s.removeClient key client).deliver
          (.connectionClosed client.connectionId)).eventsOf client.connectionId =
            lifetime client.connectionId messages true := by
        rw [ClientTracker.eventsOf_deliver _ _ client.connectionId rfl, ← lifetime_closed,
          ← hevents]
        rfl
      simp only [hsent]
      refine ⟨h.drawn, h.oneKey, ?_, ?_, ?_, ?_⟩
      · intro c' hc'
        rw [hof c' fun e => hc' key (e ▸ hopened)]
        exact h.silent c' hc'
      · intro key' c' hc'
        rw [ClientTracker.connection_deliver, connection_removeClient] at hc'
        split at hc'
        · cases hc'
        · rename_i hkey
          have hne : c' ≠ client.connectionId := by
            intro he
            subst he
            exact hkey (h.connection_key hc' hlive)
          rw [hof c' hne]
          exact h.live key' c' hc'
      · intro key' c' hc' hgone
        rw [ClientTracker.connection_deliver, connection_removeClient] at hgone
        by_cases he : c' = client.connectionId
        · subst he
          exact ⟨messages, true, hofc, nofun⟩
        · obtain ⟨messages', closed, hevents', hclosed⟩ :=
            h.gone key' c' hc' (hother key' c' hc' he hgone)
          rw [hof c' he]
          exact ⟨messages', closed, hevents', fun hfalse => absurd (hclosed hfalse) hreceiver⟩
      · intro key' c₁ c₂ h₁ h₂
        refine h.oneOpen key' c₁ c₂ ⟨h₁.1, ?_⟩ ⟨h₂.1, ?_⟩
        · exact fun hclosed => h₁.2 (ClientTracker.closed_mem_deliver.mpr (.inl hclosed))
        · exact fun hclosed => h₂.2 (ClientTracker.closed_mem_deliver.mpr (.inl hclosed))

/-! ## Opening -/

/-- A connection whose `ConnectionOpened` was delivered, before its first message. -/
def ClientTracker.openClient (s : ClientTracker β) (key : ClientKey) (isLegacy : Bool)
    (seqId : Option ℕ) : ClientTracker β :=
  ({ s with nextConnectionId := s.nextConnectionId + 1 }.deliver
    (.connectionOpened s.nextConnectionId)).insertClient key s.nextConnectionId isLegacy seqId

theorem connection_openClient (s : ClientTracker β) (key key' : ClientKey) (isLegacy : Bool)
    (seqId : Option ℕ) : (s.openClient key isLegacy seqId).connection key' =
      if key' = key then some s.nextConnectionId else s.connection key' := by
  unfold ClientTracker.connection ClientTracker.openClient ClientTracker.insertClient
  simp only [lookup_insert_ite, ClientTracker.deliver_clients]
  split <;> rfl

theorem Inv.open (h : Inv s) (hnone : s.connection key = none) (hreceiver : s.receiver ≠ some 0)
    (isLegacy : Bool) (seqId : Option ℕ) : Inv (s.openClient key isLegacy seqId) := by
  have hfresh : ∀ key', (s.nextConnectionId, key') ∉ s.openedFor := by
    intro key' hmem
    exact Nat.lt_irrefl _ (h.drawn _ _ hmem)
  have hmem : ∀ {c' key'}, (c', key') ∈ (s.openClient key isLegacy seqId).openedFor ↔
      (c', key') ∈ s.openedFor ∨ c' = s.nextConnectionId ∧ key' = key := by
    intro c' key'
    simp [ClientTracker.openClient, ClientTracker.insertClient]
  have hof : ∀ c', c' ≠ s.nextConnectionId →
      (s.openClient key isLegacy seqId).eventsOf c' = s.eventsOf c' := by
    intro c' hne
    exact ClientTracker.eventsOf_deliver_ne _ hne
  have hofc : (s.openClient key isLegacy seqId).eventsOf s.nextConnectionId =
      lifetime s.nextConnectionId [] false := by
    have hdeliver := ClientTracker.eventsOf_deliver
      { s with nextConnectionId := s.nextConnectionId + 1 }
      (.connectionOpened s.nextConnectionId) s.nextConnectionId rfl
    have hsilent := h.silent s.nextConnectionId hfresh
    exact hdeliver.trans (by rw [ClientTracker.eventsOf] at hsilent ⊢; rw [hsilent]; rfl)
  have hclosed : ∀ {c'}, .connectionClosed c' ∈
      (s.openClient key isLegacy seqId).transportEvents ↔
        .connectionClosed c' ∈ s.transportEvents := by
    intro c'
    exact ClientTracker.closed_mem_deliver.trans (by simp)
  refine ⟨?_, ?_, ?_, ?_, ?_, ?_⟩
  · intro c' key' hc'
    obtain hold | ⟨hnew, -⟩ := hmem.mp hc'
    · exact Nat.lt_succ_of_lt (h.drawn c' key' hold)
    · exact hnew ▸ Nat.lt_succ_self _
  · intro c' key₁ key₂ h₁ h₂
    obtain h₁ | ⟨hc₁, hk₁⟩ := hmem.mp h₁
    · obtain h₂ | ⟨hc₂, -⟩ := hmem.mp h₂
      · exact h.oneKey c' key₁ key₂ h₁ h₂
      · exact absurd (hc₂ ▸ h₁) (hfresh key₁)
    · obtain h₂ | ⟨-, hk₂⟩ := hmem.mp h₂
      · exact absurd (hc₁ ▸ h₂) (hfresh key₂)
      · rw [hk₁, hk₂]
  · intro c' hc'
    rw [hof c' fun e => hc' key (hmem.mpr (.inr ⟨e, rfl⟩))]
    exact h.silent c' fun key' hold => hc' key' (hmem.mpr (.inl hold))
  · intro key' c' hc'
    rw [connection_openClient] at hc'
    split at hc'
    · rename_i hkey
      cases hc'
      exact ⟨hmem.mpr (.inr ⟨rfl, hkey⟩), [], hofc⟩
    · obtain ⟨hopened, hlive⟩ := h.live key' c' hc'
      rw [hof c' fun e => hfresh key' (e ▸ hopened)]
      exact ⟨hmem.mpr (.inl hopened), hlive⟩
  · intro key' c' hc' hgone
    rw [connection_openClient] at hgone
    obtain hold | ⟨hc', hkey⟩ := hmem.mp hc'
    · have hgone' : s.connection key' ≠ some c' := by
        by_cases hkey : key' = key
        · subst hkey
          simp [hnone]
        · rwa [if_neg hkey] at hgone
      obtain ⟨messages, closed, hevents, hreported⟩ := h.gone key' c' hold hgone'
      rw [hof c' fun e => hfresh key' (e ▸ hold)]
      exact ⟨messages, closed, hevents, fun hfalse => absurd (hreported hfalse) hreceiver⟩
    · exact absurd (by rw [hc', if_pos hkey]) hgone
  · -- every earlier connection of the key is closed, since the receiver takes events
    have hlast : ∀ c', s.IsOpen key c' → False := by
      intro c' hc'
      obtain ⟨messages, closed, hevents, hreported⟩ := h.gone key c' hc'.1 (by simp [hnone])
      have hcl : closed = true := by
        cases closed with
        | true => rfl
        | false => exact absurd (hreported rfl) hreceiver
      apply hc'.2
      rw [← ClientTracker.mem_eventsOf]
      exact hevents ▸ closed_mem_lifetime.mpr hcl
    have hcases : ∀ key' c', (s.openClient key isLegacy seqId).IsOpen key' c' →
        s.IsOpen key' c' ∨ c' = s.nextConnectionId ∧ key' = key := by
      intro key' c' hc'
      refine (hmem.mp hc'.1).imp_left fun hold => ⟨hold, ?_⟩
      exact fun hreported => hc'.2 (hclosed.mpr hreported)
    intro key' c₁ c₂ h₁ h₂
    obtain h₁ | ⟨hc₁, hk₁⟩ := hcases key' c₁ h₁
    · obtain h₂ | ⟨-, hk₂⟩ := hcases key' c₂ h₂
      · exact h.oneOpen key' c₁ c₂ h₁ h₂
      · exact (hlast c₁ (hk₂ ▸ h₁)).elim
    · obtain h₂ | ⟨hc₂, -⟩ := hcases key' c₂ h₂
      · exact (hlast c₂ (hk₁ ▸ h₂)).elim
      · rw [hc₁, hc₂]

theorem openConnection_state (key : ClientKey) (isLegacy : Bool) (seqId : Option ℕ)
    (m : JSONRPCMessage β) (s : ClientTracker β) : (openConnection key isLegacy seqId m s).2 =
        { s with nextConnectionId := s.nextConnectionId + 1 } ∧ s.receiver = some 0 ∨
      s.receiver ≠ some 0 ∧ (openConnection key isLegacy seqId m s).2 =
        (sendTransportEvent (.incomingMessage s.nextConnectionId m)
          (s.openClient key isLegacy seqId)).2 := by
  unfold openConnection
  simp only [sendTransportEvent_eq (.connectionOpened s.nextConnectionId)]
  by_cases hreceiver : s.receiver = some 0
  · simp [hreceiver]
  · simp [hreceiver, ClientTracker.openClient]

/-! ## Operations -/

theorem sendTransportEvent_connection (event : TransportEvent β) (s : ClientTracker β) :
    (sendTransportEvent event s).2.connection = s.connection := by
  obtain ⟨hsent, -⟩ | ⟨hsent, -⟩ := sendTransportEvent_state event s
  · rw [hsent]
  · rw [hsent, ClientTracker.connection_deliver]

theorem connection_update {client : ClientState} (client' : ClientState)
    (hclient : s.clients.lookup key = some client)
    (hsame : client'.connectionId = client.connectionId)
    (ht : t.clients = s.clients.insert key client') : t.connection = s.connection := by
  funext key'
  unfold ClientTracker.connection
  rw [ht, lookup_insert_ite]
  split
  · rename_i h
    rw [h, hclient]
    simp [hsame]
  · rfl

theorem touch_connection {client : ClientState} (hclient : s.clients.lookup key = some client)
    (seqId : Option ℕ) : (s.touch key client seqId).connection = s.connection :=
  connection_update { client with
    lastActivityAt := s.clock
    lastInboundSeqId := seqId.or client.lastInboundSeqId } hclient rfl rfl

theorem ping_connection (s : ClientTracker β) (key : ClientKey) :
    (s.ping key).connection = s.connection := by
  unfold ClientTracker.ping
  split
  · rename_i client hclient
    exact connection_update
      { client with lastActivityAt := s.clock, statusTx := client.statusTx ++ [.active] }
      hclient rfl rfl
  · rfl

theorem Inv.ping (h : Inv s) (key : ClientKey) : Inv (s.ping key) := by
  have hconn := ping_connection s key
  unfold ClientTracker.ping at hconn ⊢
  split at hconn
  · exact h.congr hconn rfl rfl rfl (Nat.le_refl _)
  · exact h.congr hconn rfl rfl rfl (Nat.le_refl _)

theorem takeLegacyStream_connection (s : ClientTracker β) (e : ClientEnvelope β) :
    (s.takeLegacyStream e).connection = s.connection := by
  unfold ClientTracker.takeLegacyStream
  split <;> rfl

theorem Inv.takeLegacyStream (h : Inv s) (e : ClientEnvelope β) : Inv (s.takeLegacyStream e) := by
  unfold ClientTracker.takeLegacyStream
  split
  · exact h.congr rfl rfl rfl rfl (Nat.le_refl _)
  · exact h

section
variable (key : ClientKey) (isLegacy : Bool) (seqId : Option ℕ) (m : JSONRPCMessage β)

theorem Inv.routeMessage (h : Inv s) :
    Inv (RemoteControl.routeMessage key isLegacy seqId m s).2 := by
  unfold RemoteControl.routeMessage
  split
  · rename_i client hclient
    have hconn := touch_connection hclient seqId
    refine (h.congr hconn rfl rfl rfl (Nat.le_refl _)).message key ?_ m
    rw [hconn]
    exact connection_eq_some.mpr ⟨client, hclient, rfl⟩
  · rename_i hnone
    split
    · obtain ⟨hstate, -⟩ | ⟨hreceiver, hstate⟩ := openConnection_state key isLegacy seqId m s
      · rw [hstate]
        exact h.congr rfl rfl rfl rfl (Nat.le_succ _)
      · rw [hstate]
        refine (h.open ?_ hreceiver isLegacy seqId).message key ?_ m
        · simp [ClientTracker.connection, hnone]
        · rw [connection_openClient, if_pos rfl]
    · exact h

theorem routeMessage_connection (hc : s.connection key' = some c) :
    (routeMessage key isLegacy seqId m s).2.connection key' = some c := by
  unfold routeMessage
  split
  · rename_i client hclient
    rw [sendTransportEvent_connection, touch_connection hclient, hc]
  · rename_i hnone
    split
    · obtain ⟨hstate, -⟩ | ⟨-, hstate⟩ := openConnection_state key isLegacy seqId m s
      · rw [hstate]
        exact hc
      · have hne : key' ≠ key := by
          intro he
          subst he
          simp [ClientTracker.connection, hnone] at hc
        rw [hstate, sendTransportEvent_connection, connection_openClient, if_neg hne, hc]
    · exact hc

theorem Inv.handleClientMessage (h : Inv s) :
    Inv (RemoteControl.handleClientMessage key isLegacy seqId m s).2 := by
  unfold RemoteControl.handleClientMessage
  split
  · exact h
  · split
    · obtain hstate | ⟨-, hstate⟩ := Eff.bind_state (closeClient (β := β) key)
        (fun _ => RemoteControl.routeMessage key isLegacy seqId m) s
      · rw [hstate]
        exact h.close key
      · rw [hstate]
        exact (h.close key).routeMessage key isLegacy seqId m
    · exact h.routeMessage key isLegacy seqId m

theorem handleClientMessage_connection (hc : s.connection key' = some c)
    (hother : key' = key → remoteControlMessageStartsConnection m = false) :
    (handleClientMessage key isLegacy seqId m s).2.connection key' = some c := by
  unfold handleClientMessage
  split
  · exact hc
  · split
    · rename_i hstarts
      have hne : key' ≠ key := by
        intro he
        simp [hother he] at hstarts
      have hclosed : (closeClient key s).2.connection key' = some c := by
        rw [closeClient_connection, if_neg hne, hc]
      obtain hstate | ⟨-, hstate⟩ := Eff.bind_state (closeClient (β := β) key)
        (fun _ => routeMessage key isLegacy seqId m) s
      · rw [hstate]
        exact hclosed
      · rw [hstate]
        exact routeMessage_connection key isLegacy seqId m hclosed
    · exact routeMessage_connection key isLegacy seqId m hc

end

variable {s : ClientTracker β} {a : Action β}

theorem Inv.handleMessage (h : Inv s) (newRandom : StreamId) (e : ClientEnvelope β) :
    Inv (RemoteControl.handleMessage newRandom e s).2 := by
  unfold RemoteControl.handleMessage
  have h := h.takeLegacyStream e
  simp only
  split
  · exact h
  · split
    · exact h.handleClientMessage _ _ _ _
    · exact h
    · exact h.ping _
    · exact h.close _

theorem handleMessage_connection {newRandom : StreamId} {e : ClientEnvelope β} {key : ClientKey}
    (hc : s.connection key = some c)
    (hgone : (handleMessage newRandom e s).2.connection key ≠ some c) :
    key = e.key newRandom s ∧ (e.event = .clientClosed ∨ e.isInitialize = true) := by
  by_contra hnot
  apply hgone
  unfold handleMessage
  rw [← takeLegacyStream_connection s e] at hc
  simp only
  split
  · exact hc
  · split
    · rename_i m hevent
      refine handleClientMessage_connection _ _ _ _ hc ?_
      intro hkey
      have hinit : e.isInitialize = remoteControlMessageStartsConnection m := by
        simp [ClientEnvelope.isInitialize, hevent]
      rw [← hinit]
      exact Bool.eq_false_iff.mpr fun htrue => hnot ⟨hkey, .inr htrue⟩
    · exact hc
    · rw [ping_connection]
      exact hc
    · rename_i hevent
      rw [closeClient_connection, if_neg, hc]
      exact fun hkey => hnot ⟨hkey, .inl hevent⟩

theorem Inv.closeClients (h : Inv s) (keys : List ClientKey) :
    Inv (RemoteControl.closeClients keys s).2 := by
  induction keys generalizing s with
  | nil => exact h
  | cons key keys ih =>
    obtain hstate | ⟨-, hstate⟩ := Eff.bind_state (closeClient (β := β) key)
      (fun _ => RemoteControl.closeClients keys) s
    · exact hstate ▸ h.close key
    · exact hstate ▸ ih (h.close key)

theorem closeClients_connection {keys : List ClientKey} {key : ClientKey}
    (hc : s.connection key = some c) (hkey : key ∉ keys) :
    (closeClients keys s).2.connection key = some c := by
  induction keys generalizing s with
  | nil => exact hc
  | cons key' keys ih =>
    rw [List.mem_cons, not_or] at hkey
    have hclosed : (closeClient key' s).2.connection key = some c := by
      rw [closeClient_connection, if_neg hkey.1, hc]
    obtain hstate | ⟨-, hstate⟩ := Eff.bind_state (closeClient (β := β) key')
      (fun _ => closeClients keys) s
    · exact hstate ▸ hclosed
    · exact hstate ▸ ih hclosed hkey.2

theorem Inv.closeEach (h : Inv s) (keys : List ClientKey) :
    Inv (keys.foldl (fun s key => (closeClient key s).2) s) := by
  induction keys generalizing s with
  | nil => exact h
  | cons key keys ih => exact ih (h.close key)

/-! ## Steps -/

theorem collect_connection (s : ClientTracker β) (task : OutboundTask) (key : ClientKey) :
    (s.collect task).connection key =
      if key = task.key ∧ task.ended = some .returned then none else s.connection key := by
  unfold ClientTracker.collect
  split
  · rename_i hended
    rw [closeClient_connection]
    simp only [hended, and_true]
    rfl
  · rename_i hended
    rw [if_neg fun hnot => hended hnot.2]
    rfl

theorem Inv.collect (h : Inv s) (task : OutboundTask) : Inv (s.collect task) := by
  have herased : Inv { s with joinSet := s.joinSet.erase task } :=
    h.congr rfl rfl rfl rfl (Nat.le_refl _)
  unfold ClientTracker.collect
  split
  · exact herased.close _
  · exact herased

theorem Inv.step (h : Inv s) (hstep : RemoteControl.step s a = .ok t) : Inv t := by
  cases a with
  | handleMessage newRandom envelope =>
    cases hstep
    exact h.handleMessage newRandom envelope
  | taskEnds connectionId how =>
    cases hstep
    exact h.congr rfl rfl rfl rfl (Nat.le_refl _)
  | bookkeep connectionId =>
    simp only [RemoteControl.step] at hstep
    split at hstep <;> cases hstep
    exact h.collect _
  | closeExpired keys =>
    simp only [RemoteControl.step] at hstep
    split at hstep <;> cases hstep
    exact h.closeClients _
  | shutdown keys =>
    simp only [RemoteControl.step] at hstep
    split at hstep <;> cases hstep
    have hcancelled : Inv { s with
        isShutdown := true
        joinSet := s.joinSet.map fun task => { task with cancelled := true } } :=
      h.congr rfl rfl rfl rfl (Nat.le_refl _)
    exact (hcancelled.closeEach keys).congr rfl rfl rfl rfl (Nat.le_refl _)
  | otherConnection =>
    cases hstep
    exact h.congr rfl rfl rfl rfl (Nat.le_succ _)
  | tick elapsed =>
    cases hstep
    exact h.congr rfl rfl rfl rfl (Nat.le_refl _)

structure Orderly (s : ClientTracker β) : Prop where
  lifetimes : ∀ c, s.eventsOf c = [] ∨ ∃ messages closed, s.eventsOf c = lifetime c messages closed
  opened : ∀ c, .connectionOpened c ∈ s.transportEvents ↔ ∃ key, (c, key) ∈ s.openedFor
  oneKey : ∀ c key key', (c, key) ∈ s.openedFor → (c, key') ∈ s.openedFor → key = key'
  oneOpen : ∀ key c c', s.IsOpen key c → s.IsOpen key c' → c = c'

theorem Inv.orderly (h : Inv s) : Orderly s := by
  refine ⟨?_, ?_, h.oneKey, h.oneOpen⟩
  · intro c
    by_cases hc : ∃ key, (c, key) ∈ s.openedFor
    · obtain ⟨key, hmem⟩ := hc
      exact .inr (h.eventsOf_opened hmem)
    · exact .inl (h.silent c fun key hmem => hc ⟨key, hmem⟩)
  · intro c
    refine ⟨fun hopened => ?_, fun ⟨key, hmem⟩ => ?_⟩
    · by_contra hc
      have hsilent := h.silent c fun key hmem => hc ⟨key, hmem⟩
      have hevent := ClientTracker.mem_eventsOf.mpr hopened
      simp only [TransportEvent.connectionId, hsilent, List.not_mem_nil] at hevent
    · obtain ⟨messages, closed, hevents⟩ := h.eventsOf_opened hmem
      rw [← ClientTracker.mem_eventsOf, TransportEvent.connectionId, hevents]
      exact opened_mem_lifetime c messages closed

def Closes (s t : ClientTracker β) (c : ConnectionId) : Prop :=
  ∃ key, s.connection key = some c ∧ t.connection key ≠ some c

/-- The client of the connection closes or initialises again, the task of the connection
has ended, its client is idle, or the tracker shuts down. -/
def ForCause (s : ClientTracker β) (a : Action β) (c : ConnectionId) : Prop :=
  match a with
  | .handleMessage newRandom e =>
    s.connection (e.key newRandom s) = some c ∧ (e.event = .clientClosed ∨ e.isInitialize = true)
  | .bookkeep connectionId => connectionId = c
  | .closeExpired _ => ∃ key client, s.clients.lookup key = some client ∧
      client.connectionId = c ∧ remoteControlClientIsAlive client s.clock = false
  | .shutdown _ => True
  | _ => False

/-- A collected task served the connection that its key has now, if any. -/
def CollectsOwn (s : ClientTracker β) (a : Action β) : Prop :=
  match a with
  | .bookkeep connectionId => ∀ task, s.endedTask connectionId = some task →
      task.ended = some .returned → ∀ c, s.connection task.key = some c → c = connectionId
  | _ => True

theorem step_closes_iff (hstep : step s a = .ok t) :
    (∀ c, Closes s t c → ForCause s a c) ↔ CollectsOwn s a := by
  cases a with
  | handleMessage newRandom e =>
    cases hstep
    refine ⟨fun _ => trivial, fun _ c hcloses => ?_⟩
    obtain ⟨key, hc, hgone⟩ := hcloses
    obtain ⟨hkey, hcause⟩ := handleMessage_connection hc hgone
    exact ⟨hkey ▸ hc, hcause⟩
  | taskEnds connectionId how =>
    cases hstep
    exact ⟨fun _ => trivial, fun _ c ⟨key, hc, hgone⟩ => hgone hc⟩
  | bookkeep connectionId =>
    simp only [step] at hstep
    split at hstep <;> cases hstep
    rename_i task hended
    refine ⟨fun hall task' htask' hreturned c hc => ?_, fun hown c hcloses => ?_⟩
    · rw [hended] at htask'
      cases htask'
      refine (hall c ⟨task.key, hc, ?_⟩).symm
      rw [collect_connection, if_pos ⟨rfl, hreturned⟩]
      simp
    · obtain ⟨key, hc, hgone⟩ := hcloses
      rw [collect_connection] at hgone
      by_cases hkey : key = task.key ∧ task.ended = some .returned
      · exact (hown task hended hkey.2 c (hkey.1 ▸ hc)).symm
      · rw [if_neg hkey] at hgone
        exact absurd hc hgone
  | closeExpired keys =>
    simp only [step] at hstep
    split at hstep <;> cases hstep
    refine ⟨fun _ => trivial, fun _ c hcloses => ?_⟩
    obtain ⟨key, hc, hgone⟩ := hcloses
    obtain ⟨client, hclient, hid⟩ := connection_eq_some.mp hc
    refine ⟨key, client, hclient, hid, ?_⟩
    by_contra halive
    refine hgone (closeClients_connection hc ?_)
    simp [hclient, halive]
  | shutdown keys => exact ⟨fun _ => trivial, fun _ _ _ => trivial⟩
  | otherConnection | tick elapsed =>
    cases hstep
    exact ⟨fun _ => trivial, fun _ c ⟨key, hc, hgone⟩ => hgone hc⟩

theorem collectsOwn_of_error {e : Disabled} (hstep : step s a = .error e) : CollectsOwn s a := by
  cases a with
  | bookkeep connectionId =>
    simp only [step] at hstep
    split at hstep
    · cases hstep
    · rename_i hnone
      intro task htask
      rw [hnone] at htask
      cases htask
  | _ => trivial

def AlwaysOrderly (s : ClientTracker β) (l : List (Action β)) : Prop :=
  ∀ pre u, pre <+: l → pre.foldlM step s = .ok u → Orderly u

def ClosedForCause (s : ClientTracker β) (l : List (Action β)) : Prop :=
  ∀ pre a u v, pre ++ [a] <+: l → pre.foldlM step s = .ok u → step u a = .ok v →
    ∀ c, Closes u v c → ForCause u a c

/-- The reports are orderly in every interleaving, and connections are closed for cause
exactly if no task is collected whose key has a newer connection. -/
theorem closed_for_cause_iff (receiver : Option ℕ) (connectionId clock : ℕ) (l : List (Action β)) :
    (AlwaysOrderly (.new receiver connectionId clock) l ∧
      ClosedForCause (.new receiver connectionId clock) l) ↔
    ∀ pre a u, pre ++ [a] <+: l →
      pre.foldlM step (ClientTracker.new receiver connectionId clock) = .ok u →
        CollectsOwn u a := by
  have horderly : AlwaysOrderly (ClientTracker.new (β := β) receiver connectionId clock) l := by
    intro pre u _ hu
    exact (run_keeps (fun u a v hu hstep => hu.step hstep)
      (Inv.new receiver connectionId clock) hu).orderly
  refine ⟨fun hclaim pre a u hpre hu => ?_, fun hown => ⟨horderly, ?_⟩⟩
  · cases hstep : step u a with
    | error e => exact collectsOwn_of_error hstep
    | ok v => exact (step_closes_iff hstep).mp (hclaim.2 pre a u v hpre hu hstep)
  · intro pre a u v hpre hu hstep
    exact (step_closes_iff hstep).mpr (hown pre a u hpre hu)

end

def initializeEnvelope : ClientEnvelope Unit :=
  ⟨.clientMessage (.request "initialize".toList ()), ⟨"client-1".toList⟩,
    some ⟨"stream-1".toList⟩, some 0, none⟩

/-- The client initialises twice; the task of its first connection is collected last. -/
def reinitializeRun : List (Action Unit) :=
  [.handleMessage ⟨[]⟩ initializeEnvelope, .handleMessage ⟨[]⟩ initializeEnvelope,
    .taskEnds 0 .returned, .bookkeep 0]

/-- The end of the first task closes the second connection. -/
theorem reinitialized_connection_closed :
    (∃ t, reinitializeRun.foldlM step (ClientTracker.new none 0 0) = .ok t ∧
      t.transportEvents =
        lifetime 0 [.request "initialize".toList ()] true ++
          lifetime 1 [.request "initialize".toList ()] true) ∧
    ¬ (AlwaysOrderly (.new none 0 0) reinitializeRun ∧
      ClosedForCause (.new none 0 0) reinitializeRun) := by
  refine ⟨⟨_, rfl, rfl⟩, fun hclaim => ?_⟩
  have hcause := hclaim.2 (reinitializeRun.take 3) (.bookkeep 0) _ _ ⟨[], rfl⟩ rfl rfl 1
    ⟨(⟨"client-1".toList⟩, ⟨"stream-1".toList⟩), by decide +kernel, by decide +kernel⟩
  cases hcause

end Codex.RemoteControl
