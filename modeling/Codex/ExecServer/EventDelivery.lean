import Codex.ExecServer.Client
import Codex.ExecServer.ProcessEvents

/-!
# From the process to its session

A connection carries the notifications of a process to the session that is registered for
it, in any order and any number of times, among those of other processes. The session has
published what arrived without a gap (`Connection.Inv.published`), and its route is gone
once the close was published.
-/

namespace Codex.ExecServer

open Foundation List Function

structure Connection where
  server : Server
  client : ExecServerClient
  session : ℕ
  arrived : List ProcessNotification

inductive ConnectionAction where
  | server (action : ServerAction)
  | deliver (n : ProcessNotification)
  | foreign (n : ServerNotification)
  | client (action : ClientAction)

/-- What the client does while the transport is alive and the process keeps its session. -/
def ClientAction.keeps (processId : ProcessId) : ClientAction → Bool
  | .register processId' => processId' ≠ processId
  | .unregister processId' => processId' ≠ processId
  | .reader => true
  | .read _ => true
  | .start _ => true
  | .returns _ (.ok ()) => true
  | .returns _ (.error error) => !isTransportClosedError error.toExecServerError
  | _ => false

def ServerNotification.isForeign (processId : ProcessId) : ServerNotification → Bool
  | .process n => n.processId ≠ processId
  | .malformed _ => false
  | .other => true

namespace Connection

def start (processId : ProcessId) (tty : Bool) : Connection :=
  ⟨.start processId tty, ExecServerClient.new.registerSession processId, 0, []⟩

def state (k : Connection) : SessionState := k.client.states k.session

def step (processId : ProcessId) (k : Connection) :
    ConnectionAction → Except Disabled Connection
  | .server action =>
    match k.server.step action with
    | .ok server => .ok { k with server := server }
    | .error e => .error e
  | .deliver n =>
    if n ∈ k.server.notified then
      .ok { k with
        client := k.client.arrive (.notification (.process n))
        arrived := k.arrived ++ [n] }
    else .error .disabled
  | .foreign n =>
    if n.isForeign processId then
      .ok { k with client := k.client.arrive (.notification n) }
    else .error .disabled
  | .client action =>
    if action.keeps processId then
      match k.client.step action with
      | .ok client => .ok { k with client := client }
      | .error e => .error e
    else .error .disabled

end Connection

/-! ## The invariant -/

/-- The route of the process, which the reader task removes behind the close. -/
def Routed (processId : ProcessId) (session : ℕ) (sessions : Table ProcessId ℕ)
    (closed : Bool) : Reader → Prop
  | .receiving => sessions.lookup processId = if closed then none else some session
  | .publishing processId' session' _ publishedClosed =>
    if session' = session then
      processId' = processId ∧ sessions.lookup processId = some session ∧ publishedClosed = closed
    else
      processId' ≠ processId ∧ sessions.lookup processId = if closed then none else some session
  | _ => False

namespace Connection

structure Inv (processId : ProcessId) (k : Connection) : Prop where
  server : k.server.Inv
  announced : k.server.Announced processId
  arrived : ∀ n ∈ k.arrived, n ∈ k.server.notified
  known : k.session < k.client.registered
  fresh : ∀ processId' session, k.client.sessions.lookup processId' = some session →
    session < k.client.registered
  single : ∀ processId', k.client.sessions.lookup processId' = some k.session →
    processId' = processId
  routed : Routed processId k.session k.client.sessions k.state.publishedClosed k.client.reader
  queued : ∀ event ∈ k.client.queue, ∃ n, event = .notification n ∧
    (n.isForeign processId ∨ ∃ m ∈ k.arrived, n = .process m)
  follows : k.state.orderedEvents.Follows k.server.events
  drained : k.state.orderedEvents.Drained
  published : k.state.events ++ k.client.reader.taken k.session =
    k.server.events.take k.state.orderedEvents.last
  waiting : ∀ n ∈ k.arrived, .notification (.process n) ∈ k.client.queue ∨
    k.state.orderedEvents.Knows n.seq

theorem Inv.start (processId : ProcessId) (tty : Bool) : Inv processId (start processId tty) := by
  have hlookup (processId' : ProcessId) :
      (Connection.start processId tty).client.sessions.lookup processId' =
        if processId' = processId then some 0 else none := lookup_insert_ite _ _ _ _
  refine ⟨.start processId tty, .start processId tty, ?_, Nat.one_pos, ?_, ?_, ?_, ?_,
    Sequencer.Follows.new _, rfl, rfl, ?_⟩
  · intro n hn
    cases hn
  · intro processId' session h
    rw [hlookup] at h
    split at h
    · cases h
      exact Nat.one_pos
    · cases h
  · intro processId' h
    rw [hlookup] at h
    by_contra hne
    rw [if_neg hne] at h
    cases h
  · show (Connection.start processId tty).client.sessions.lookup processId = some 0
    rw [hlookup, if_pos rfl]
  · intro event h
    cases h
  · intro n hn
    cases hn

section
variable {processId : ProcessId} {k : Connection}

theorem Inv.item (h : Inv processId k) {n : ProcessNotification} (hn : n ∈ k.arrived) :
    n.processId = processId ∧ k.server.events[n.seq - 1]? = some n.event ∧ 0 < n.seq ∧
      n.seq ≤ k.server.events.length := by
  obtain ⟨hprocess, hevent⟩ := (h.announced.told n).mp (.inl (h.arrived n hn))
  exact ⟨hprocess, h.server.item hevent (Option.some_get n.numbered).symm⟩

theorem Inv.whole (h : Inv processId k) (hclosed : k.state.publishedClosed = true) :
    k.state.orderedEvents.last = k.server.events.length := by
  apply Nat.le_antisymm h.follows.bound
  unfold SessionState.publishedClosed at hclosed
  rw [any_eq_true] at hclosed
  obtain ⟨e, he, hisClosed⟩ := hclosed
  have htake : e ∈ k.server.events.take k.state.orderedEvents.last := by
    rw [← h.published]
    exact mem_append_left _ he
  obtain hnone | ⟨events, n, hevents, hnone⟩ := h.server.closed_last
  · exact absurd hisClosed (countP_eq_zero.mp hnone e (mem_of_mem_take htake))
  · by_contra hshort
    rw [hevents, length_append, length_singleton] at hshort
    rw [hevents, take_append_of_le_length (by omega)] at htake
    exact absurd hisClosed (countP_eq_zero.mp hnone e (mem_of_mem_take htake))

variable {c : ExecServerClient} {event : RpcClientEvent} {queue : List RpcClientEvent}
  {processId' : ProcessId} {session : ℕ}

theorem Inv.update (h : Inv processId k) {state : SessionState}
    (hstate : c.states k.session = state) (hregistered : c.registered = k.client.registered)
    (hlookup : ∀ processId' session, c.sessions.lookup processId' = some session →
      k.client.sessions.lookup processId' = some session)
    (hrouted : Routed processId k.session c.sessions state.publishedClosed c.reader)
    (hqueue : c.queue ⊆ k.client.queue) (hfollows : state.orderedEvents.Follows k.server.events)
    (hdrained : state.orderedEvents.Drained)
    (hpublished : state.events ++ c.reader.taken k.session =
      k.server.events.take state.orderedEvents.last)
    (hwaiting : ∀ n ∈ k.arrived, .notification (.process n) ∈ c.queue ∨
      state.orderedEvents.Knows n.seq) : Inv processId { k with client := c } := by
  subst hstate
  refine ⟨h.server, h.announced, h.arrived, hregistered ▸ h.known, ?_, ?_, hrouted, ?_, hfollows,
    hdrained, hpublished, hwaiting⟩
  · intro processId' session hlookup'
    rw [hregistered]
    exact h.fresh processId' session (hlookup processId' session hlookup')
  · intro processId' hlookup'
    exact h.single processId' (hlookup processId' k.session hlookup')
  · exact fun event hevent => h.queued event (hqueue hevent)

theorem Inv.reads (h : Inv processId k) (reads : List ReadCall) :
    Inv processId { k with client := { k.client with reads := reads } } :=
  h.update rfl rfl (fun _ _ hl => hl) h.routed (List.Subset.refl _) h.follows h.drained
    h.published h.waiting

/-! ## Steps -/

theorem Inv.serverStep (h : Inv processId k) {action : ServerAction} {server : Server}
    (hstep : k.server.step action = .ok server) : Inv processId { k with server := server } := by
  have hchange := Server.step_change hstep
  obtain ⟨hevents, hnotified⟩ := hchange.grows
  obtain ⟨more, hmore⟩ := hevents
  refine ⟨h.server.step hstep, h.announced.change hchange, fun n hn => ?_, h.known, h.fresh,
    h.single, h.routed, h.queued, ?_, h.drained, ?_, h.waiting⟩
  · exact hnotified.subset (h.arrived n hn)
  · rw [← hmore]
    exact h.follows.append more
  · rw [← hmore]
    exact h.published.trans (take_append_of_le_length h.follows.bound).symm

theorem Inv.arrive (h : Inv processId k) {n : ServerNotification}
    (arrived : List ProcessNotification)
    (harrived : ∀ m ∈ arrived, m ∈ k.server.notified ∧ n = .process m)
    (hn : n.isForeign processId ∨ ∃ m ∈ k.arrived ++ arrived, n = .process m) :
    Inv processId { k with
      client := k.client.arrive (.notification n)
      arrived := k.arrived ++ arrived } := by
  refine ⟨h.server, h.announced, fun m hm => ?_, h.known, h.fresh, h.single, h.routed,
    fun event hevent => ?_, h.follows, h.drained, h.published, fun m hm => ?_⟩
  · obtain hm | hm := mem_append.mp hm
    · exact h.arrived m hm
    · exact (harrived m hm).1
  · obtain hevent | hevent := mem_append.mp hevent
    · obtain ⟨n', he, hn'⟩ := h.queued event hevent
      exact ⟨n', he, hn'.imp_right fun ⟨m, hm, hnm⟩ => ⟨m, mem_append_left _ hm, hnm⟩⟩
    · exact ⟨n, mem_singleton.mp hevent, hn⟩
  · obtain hm | hm := mem_append.mp hm
    · exact (h.waiting m hm).imp_left fun hq => mem_append_left _ hq
    · left
      rw [← (harrived m hm).2]
      exact mem_append_right _ (mem_singleton.mpr rfl)

theorem Inv.registry (h : Inv processId k) {sessions : Table ProcessId ℕ} {registered : ℕ}
    (hle : k.client.registered ≤ registered)
    (hsame : sessions.lookup processId = k.client.sessions.lookup processId)
    (hnew : ∀ processId' session, sessions.lookup processId' = some session →
      k.client.sessions.lookup processId' = some session ∨
        k.client.registered ≤ session ∧ session < registered) : Inv processId { k with
      client := { k.client with sessions := sessions, registered := registered } } := by
  refine ⟨h.server, h.announced, h.arrived, Nat.lt_of_lt_of_le h.known hle,
    fun processId' session hlookup => ?_, fun processId' hlookup => ?_, ?_, h.queued, h.follows,
    h.drained, h.published, h.waiting⟩
  · obtain hold | ⟨-, hlt⟩ := hnew processId' session hlookup
    · exact Nat.lt_of_lt_of_le (h.fresh processId' session hold) hle
    · exact hlt
  · obtain hold | ⟨hge, -⟩ := hnew processId' k.session hlookup
    · exact h.single processId' hold
    · exact absurd h.known (Nat.not_lt_of_le hge)
  · have hrouted := h.routed
    unfold Routed at hrouted ⊢
    simp only [hsame]
    exact hrouted

/-! ## The reader task -/

variable (h : Inv processId k)
include h

theorem Inv.waiting_pop (hqueue : k.client.queue = event :: queue)
    {s : Sequencer ExecProcessEvent} (hknows : ∀ seq, k.state.orderedEvents.Knows seq → s.Knows seq)
    (hknown : ∀ n ∈ k.arrived, event = .notification (.process n) → s.Knows n.seq) :
    ∀ n ∈ k.arrived, .notification (.process n) ∈ queue ∨ s.Knows n.seq := by
  intro n hn
  obtain hq | hk := h.waiting n hn
  · rw [hqueue] at hq
    obtain he | hq := mem_cons.mp hq
    · exact .inr (hknown n hn he.symm)
    · exact .inl hq
  · exact .inr (hknows n.seq hk)

theorem Inv.pop (hqueue : k.client.queue = event :: queue)
    (hknown : ∀ n ∈ k.arrived, event = .notification (.process n) →
      k.state.orderedEvents.Knows n.seq) :
    Inv processId { k with client := { k.client with queue := queue } } :=
  h.update rfl rfl (fun _ _ hl => hl) h.routed (hqueue ▸ subset_cons_self _ _) h.follows
    h.drained h.published (h.waiting_pop hqueue (fun _ hk => hk) hknown)

theorem Inv.takesForeign (hreader : k.client.reader = .receiving)
    (hne : processId' ≠ processId) (hlookup : k.client.sessions.lookup processId' = some session)
    (state : SessionState) (ready : List ExecProcessEvent) : Inv processId { k with
      client := { k.client.setState session state with
        reader := .publishing processId' session ready false } } := by
  have hother : session ≠ k.session := by
    intro he
    rw [he] at hlookup
    exact hne (h.single processId' hlookup)
  have hrouted := h.routed
  have hpublished := h.published
  rw [hreader] at hrouted hpublished
  refine h.update (update_of_ne (Ne.symm hother) _ _) rfl (fun _ _ hl => hl) ?_
    (List.Subset.refl _) h.follows h.drained ?_ h.waiting
  · simp only [Routed, if_neg hother]
    exact ⟨hne, hrouted⟩
  · simp only [Reader.taken, if_neg hother]
    exact hpublished

theorem Inv.takes (hreader : k.client.reader = .receiving)
    {n : ProcessNotification} (hn : n ∈ k.arrived)
    (hqueue : k.client.queue = .notification (.process n) :: queue)
    (hlookup : k.client.sessions.lookup processId = some k.session) : Inv processId { k with
      client := { (ExecServerClient.setState { k.client with queue := queue } k.session
          ((k.state.noteChange n.seq).takeReady n.seq n.event).1) with
        reader := .publishing processId k.session
          ((k.state.noteChange n.seq).takeReady n.seq n.event).2 false } } := by
  obtain ⟨-, hitem, -, -⟩ := h.item hn
  obtain ⟨hfollows, htake, hknows⟩ := h.follows.accept hitem
  have hrouted := h.routed
  have hpublished := h.published
  rw [hreader] at hrouted hpublished
  simp only [Routed, hlookup] at hrouted
  simp only [Reader.taken, append_nil] at hpublished
  have hopen : k.state.publishedClosed = false := by
    by_contra hclosed
    rw [if_pos (eq_true_of_ne_false hclosed)] at hrouted
    cases hrouted
  refine h.update (update_self _ _ _) rfl (fun _ _ hl => hl) ?_
    (hqueue ▸ subset_cons_self _ _) hfollows
    (Sequencer.accept_drained h.drained n.seq n.event) ?_
    (h.waiting_pop hqueue (fun seq hk => (hknows seq).mpr (.inl hk)) fun m hm he => ?_)
  · simp only [Routed, if_true]
    exact ⟨trivial, hlookup, hopen.symm⟩
  · simp only [Reader.taken, if_true]
    show k.state.events ++ _ = _
    rw [hpublished]
    exact htake
  · cases he
    exact (hknows _).mpr (.inr rfl)

theorem Inv.publishes {event : ExecProcessEvent}
    {ready : List ExecProcessEvent} {publishedClosed : Bool}
    (hreader : k.client.reader = .publishing processId' session (event :: ready) publishedClosed) :
    Inv processId { k with
      client := { k.client.setState session ((k.client.states session).publish event) with
        reader := .publishing processId' session ready (publishedClosed || event.isClosed) } } := by
  have hrouted := h.routed
  have hpublished := h.published
  rw [hreader] at hrouted hpublished
  by_cases hsession : session = k.session
  · subst hsession
    simp only [Routed, if_true] at hrouted
    simp only [Reader.taken, if_true] at hpublished
    obtain ⟨hprocess, hlookup, hclosed⟩ := hrouted
    refine h.update (update_self _ _ _) rfl (fun _ _ hl => hl) ?_ (List.Subset.refl _)
      h.follows h.drained ?_ h.waiting
    · simp only [Routed, if_true]
      refine ⟨hprocess, hlookup, ?_⟩
      simp [SessionState.publishedClosed, SessionState.publish, hclosed, Connection.state]
    · simp only [Reader.taken, if_true]
      show k.state.events ++ [event] ++ ready = _
      rw [List.append_assoc]
      exact hpublished
  · simp only [Routed, if_neg hsession] at hrouted
    simp only [Reader.taken, if_neg hsession] at hpublished
    refine h.update (update_of_ne (Ne.symm hsession) _ _) rfl (fun _ _ hl => hl) ?_
      (List.Subset.refl _) h.follows h.drained ?_ h.waiting
    · simp only [Routed, if_neg hsession]
      exact hrouted
    · simp only [Reader.taken, if_neg hsession]
      exact hpublished

theorem Inv.published_all {publishedClosed : Bool}
    (hreader : k.client.reader = .publishing processId' session [] publishedClosed) :
    Inv processId { k with
      client := { (if publishedClosed then k.client.removeSession processId' else k.client) with
        reader := .receiving } } := by
  have hrouted := h.routed
  have hpublished := h.published
  rw [hreader] at hrouted hpublished
  have hnone : k.state.events ++ Reader.receiving.taken k.session =
      k.server.events.take k.state.orderedEvents.last := by
    rw [← hpublished]
    simp [Reader.taken]
  have hsame : ∀ c : ExecServerClient, c = (if publishedClosed then
      k.client.removeSession processId' else k.client) → c.states = k.client.states ∧
      c.registered = k.client.registered ∧ c.queue = k.client.queue ∧
      ∀ p, c.sessions.lookup p = if publishedClosed = true ∧ p = processId' then none
        else k.client.sessions.lookup p := by
    intro c hc
    cases publishedClosed with
    | true =>
      subst hc
      refine ⟨rfl, rfl, rfl, fun p => ?_⟩
      simp [ExecServerClient.removeSession, lookup_erase_ite]
    | false =>
      subst hc
      exact ⟨rfl, rfl, rfl, fun p => by simp⟩
  obtain ⟨hstates, hregistered, hqueue, hsessions⟩ := hsame _ rfl
  refine h.update (congrFun hstates k.session) hregistered (fun p session hl => ?_) ?_
    (hqueue ▸ List.Subset.refl _) h.follows h.drained hnone (fun n hn => hqueue ▸ h.waiting n hn)
  · simp only [hsessions] at hl
    split at hl
    · cases hl
    · exact hl
  · simp only [Routed, hsessions]
    by_cases hsession : session = k.session
    · simp only [Routed, if_pos hsession] at hrouted
      obtain ⟨hprocess, hlookup, hclosed⟩ := hrouted
      subst hprocess
      simp only [hclosed, and_true, hlookup]
      rfl
    · simp only [Routed, if_neg hsession] at hrouted
      simp only [Ne.symm hrouted.1, and_false, if_false]
      exact hrouted.2

theorem Inv.handles (hreader : k.client.reader = .receiving)
    (hqueue : k.client.queue = event :: queue) : Inv processId { k with
      client := ExecServerClient.handle { k.client with queue := queue } event } := by
  obtain ⟨n, he, hn⟩ := h.queued event (hqueue ▸ mem_cons_self)
  subst he
  cases n with
  | malformed error =>
    obtain hforeign | ⟨m, -, he⟩ := hn
    · cases hforeign
    · cases he
  | other =>
    refine h.pop hqueue fun m _ he => ?_
    cases he
  | process n =>
    show Inv processId { k with
      client := ExecServerClient.handleProcess { k.client with queue := queue } n }
    unfold ExecServerClient.handleProcess
    obtain hforeign | ⟨m, hm, he⟩ := hn
    · have hne : n.processId ≠ processId := of_decide_eq_true hforeign
      have hpop := h.pop hqueue fun m hm he => by
        cases he
        exact absurd (h.item hm).1 hne
      split
      · exact hpop
      · rename_i session hlookup
        exact hpop.takesForeign hreader hne hlookup _ _
    · cases he
      obtain ⟨hprocess, -, -, hle⟩ := h.item hm
      have hrouted := h.routed
      rw [hreader] at hrouted
      simp only [Routed] at hrouted
      rw [← hprocess] at hrouted
      split
      · rename_i hlookup
        refine h.pop hqueue fun m _ he => .inl ?_
        cases he
        by_cases hclosed : k.state.publishedClosed = true
        · rw [h.whole hclosed]
          exact hle
        · rw [if_neg hclosed] at hrouted
          exact absurd (hrouted.symm.trans hlookup) (by simp)
      · rename_i session hlookup
        rw [hrouted] at hlookup
        split at hlookup
        · cases hlookup
        · cases hlookup
          rename_i hclosed
          rw [if_neg hclosed] at hrouted
          rw [hprocess] at hrouted ⊢
          exact h.takes hreader hm hqueue hrouted

theorem Inv.readerStep (hstep : k.client.readerStep = some c) :
    Inv processId { k with client := c } := by
  unfold ExecServerClient.readerStep at hstep
  split at hstep
  · rename_i hreader
    split at hstep
    · cases hstep
    · rename_i event queue hqueue
      cases hstep
      exact h.handles hreader hqueue
  · rename_i hreader
    cases hstep
    exact h.publishes hreader
  · rename_i hreader
    cases hstep
    exact h.published_all hreader
  all_goals
    -- a reader that fails sessions has lost the route
    rename_i hreader
    have hrouted := h.routed
    rw [hreader] at hrouted
    exact absurd hrouted (by simp [Routed])

theorem Inv.clientStep {action : ClientAction}
    (hkeeps : action.keeps processId = true) (hstep : k.client.stepOption action = some c) :
    Inv processId { k with client := c } := by
  cases action with
  | register processId' =>
    simp only [ExecServerClient.stepOption, Option.some.injEq] at hstep
    subst hstep
    have hne : processId' ≠ processId := of_decide_eq_true hkeeps
    unfold ExecServerClient.registerSession
    split
    · exact h
    · apply h.registry (Nat.le_succ _)
      · rw [lookup_insert_ite, if_neg (Ne.symm hne)]
      · intro p session hlookup
        rw [lookup_insert_ite] at hlookup
        split at hlookup
        · cases hlookup
          exact .inr ⟨Nat.le_refl _, Nat.lt_succ_self _⟩
        · exact .inl hlookup
  | unregister processId' =>
    simp only [ExecServerClient.stepOption, Option.some.injEq] at hstep
    subst hstep
    have hne : processId' ≠ processId := of_decide_eq_true hkeeps
    apply h.registry (Nat.le_refl _)
    · rw [lookup_erase_ite, if_neg (Ne.symm hne)]
    · intro p session hlookup
      rw [lookup_erase_ite] at hlookup
      split at hlookup
      · cases hlookup
      · exact .inl hlookup
  | reader => exact h.readerStep hstep
  | read session =>
    simp only [ExecServerClient.stepOption, ExecServerClient.readStep] at hstep
    split at hstep
    · split at hstep
      · cases hstep
        exact h
      · cases hstep
        exact h.reads _
    · cases hstep
  | start call =>
    simp only [ExecServerClient.stepOption, ExecServerClient.readStep] at hstep
    split at hstep
    · split at hstep
      · cases hstep
        exact h.reads _
      · cases hstep
        exact h.reads _
    · cases hstep
  | returns call result =>
    simp only [ExecServerClient.stepOption, ExecServerClient.readStep] at hstep
    split at hstep
    · split at hstep
      · cases hstep
      · cases hstep
        cases result with
        | ok u => exact h.reads _
        | error e =>
          unfold ExecServerClient.callReturns
          have hopen : isTransportClosedError e.toExecServerError = false := by
            simpa [ClientAction.keeps] using hkeeps
          simp only [hopen, Bool.false_eq_true, if_false]
          exact h.reads _
    · cases hstep
  | _ => simp [ClientAction.keeps] at hkeeps

theorem Inv.step {action : ConnectionAction} {k' : Connection}
    (hstep : k.step processId action = .ok k') : Inv processId k' := by
  cases action with simp only [Connection.step] at hstep
  | server action =>
    split at hstep
    · rename_i server hserver
      cases hstep
      exact h.serverStep hserver
    · cases hstep
  | deliver n =>
    split at hstep
    · rename_i hn
      cases hstep
      apply h.arrive [n]
      · intro m hm
        obtain rfl := mem_singleton.mp hm
        exact ⟨hn, rfl⟩
      · exact .inr ⟨n, mem_append_right _ (mem_singleton.mpr rfl), rfl⟩
    · cases hstep
  | foreign n =>
    split at hstep
    · rename_i hn
      cases hstep
      have harrive := h.arrive [] (fun m hm => nomatch hm) (.inl hn)
      rw [append_nil] at harrive
      exact harrive
    · cases hstep
  | client action =>
    split at hstep
    · rename_i hkeeps
      unfold ExecServerClient.step at hstep
      split at hstep
      · rename_i c hc
        cases hstep
        split at hc
        · rename_i c' hc'
          cases hc
          exact h.clientStep hkeeps hc'
        · cases hc
      · cases hstep
    · cases hstep

end

def Idle (k : Connection) : Prop := k.client.reader = .receiving ∧ k.client.queue = []

def AllArrived (k : Connection) : Prop :=
  ∀ event ∈ k.server.events, ∃ n ∈ k.arrived, n.event = event

theorem Inv.delivered {processId : ProcessId} {k : Connection} (h : Inv processId k)
    (hidle : k.Idle) (hall : k.AllArrived) : k.state.events = k.server.events := by
  have hpublished := h.published
  rw [hidle.1] at hpublished
  simp only [Reader.taken, append_nil] at hpublished
  have hwhole : k.state.orderedEvents.last = k.server.events.length := by
    apply h.follows.whole h.drained
    intro seq hpos hle
    have hlt : seq - 1 < k.server.events.length := by omega
    obtain ⟨n, hn, hevent⟩ := hall k.server.events[seq - 1] (getElem_mem hlt)
    obtain ⟨-, hitem, hpos', hle'⟩ := h.item hn
    have hseq : n.seq - 1 = seq - 1 := by
      have hlt' : n.seq - 1 < k.server.events.length := by omega
      rw [List.getElem?_eq_getElem hlt', Option.some.injEq, hevent] at hitem
      exact (List.Nodup.getElem_inj_iff h.server.nodup).mp hitem
    have hsame : n.seq = seq := by omega
    obtain hq | hk := h.waiting n hn
    · rw [hidle.2] at hq
      cases hq
    · exact hsame ▸ hk
  rw [hpublished, hwhole, take_length]

/-- The server numbers the events of a process from one, the close last, and tells of each.
The session publishes a prefix of them, and all once all have arrived. -/
theorem session_publishes {processId : ProcessId} {tty : Bool} {actions : List ConnectionAction}
    {k : Connection} (hrun : actions.foldlM (step processId) (start processId tty) = .ok k) :
    (k.server.events.map ExecProcessEvent.seq = Server.numbers k.server.events.length ∧
      k.server.events.countP ExecProcessEvent.isExited ≤ 1 ∧
      (k.server.events.countP ExecProcessEvent.isClosed = 0 ∨
        ∃ events n, k.server.events = events ++ [.closed n] ∧
          events.countP ExecProcessEvent.isClosed = 0)) ∧
    (k.server.Complete → k.server.events.countP ExecProcessEvent.isExited = 1 ∧
      (∃ events n, k.server.events = events ++ [.closed n] ∧
        events.countP ExecProcessEvent.isClosed = 0) ∧
      ∀ n : ProcessNotification, n.processId = processId → n.event ∈ k.server.events →
        n ∈ k.server.notified) ∧
    k.state.events <+: k.server.events ∧ k.state.events.Nodup ∧
    (k.Idle → k.AllArrived → k.state.events = k.server.events) ∧
    (k.client.sessions.lookup processId = none → k.state.publishedClosed = true) ∧
    (k.client.reader = .receiving → k.state.publishedClosed = true →
      k.client.sessions.lookup processId = none) := by
  have h : Inv processId k :=
    run_keeps (fun u a v hu hv => hu.step hv) (Inv.start processId tty) hrun
  have hprefix : k.state.events <+: k.server.events := by
    have htake : k.state.events <+: k.server.events.take k.state.orderedEvents.last := by
      rw [← h.published]
      exact prefix_append _ _
    exact htake.trans <| take_prefix _ _
  refine ⟨⟨h.server.numbered, ?_, h.server.closed_last⟩, fun hdone => ?_, hprefix,
    h.server.nodup.sublist hprefix.sublist, h.delivered, fun hgone => ?_,
    fun hreader hclosed => ?_⟩
  · rw [h.server.exited]
    split <;> simp
  · obtain ⟨hexited, hclosed⟩ := h.server.complete hdone
    exact ⟨hexited, hclosed, fun n hn hevent => h.announced.complete hdone hn hevent⟩
  · have hrouted := h.routed
    by_contra hopen
    unfold Routed at hrouted
    simp only [hgone, if_neg hopen, reduceCtorEq, and_false, false_and] at hrouted
    split at hrouted
    · exact hrouted
    · split at hrouted
      · exact hrouted
      · exact hrouted
    · exact hrouted
  · have hrouted := h.routed
    rw [hreader] at hrouted
    simp only [Routed, if_pos hclosed] at hrouted
    exact hrouted

def overtakenOutput : ProcessNotification := ⟨['p'], .output ⟨1, .stdout, [104]⟩,
  ExecProcessEvent.numbered_output _⟩

def earlyExit : ProcessNotification := ⟨['p'], .exited 2 0,
  ExecProcessEvent.numbered_exited _ _⟩

def earlyClose : ProcessNotification := ⟨['p'], .closed 3,
  ExecProcessEvent.numbered_closed _⟩

def overtaking : List ConnectionAction :=
  [.server (.output .stdout [104]), .server (.exits 0), .server (.notify .exit),
    .server (.maybeClose .exit), .server (.streamEnds .stderr), .server (.finish .stderr),
    .server (.maybeClose .stderr), .server (.notify .stdout), .server (.streamEnds .stdout),
    .server (.finish .stdout), .server (.maybeClose .stdout), .server (.notify .stdout),
    .deliver earlyClose, .deliver earlyExit, .client .reader, .client .reader,
    .deliver earlyExit, .client .reader, .client .reader, .client .reader, .client .reader,
    .deliver overtakenOutput, .client .reader, .client .reader, .client .reader,
    .client .reader, .client .reader]

theorem session_publishes_overtaking : ∃ k, overtaking.foldlM (step ['p']) (start ['p'] false) = .ok k ∧
    k.server.events = [overtakenOutput.event, earlyExit.event, earlyClose.event] ∧
    k.state.events = k.server.events ∧ k.client.sessions.lookup ['p'] = none := by
  have hruns : ∃ k, overtaking.foldlM (step ['p']) (start ['p'] false) = .ok k ∧ k.Idle ∧
      k.server.events = [overtakenOutput.event, earlyExit.event, earlyClose.event] ∧
      k.arrived = [earlyClose, earlyExit, earlyExit, overtakenOutput] ∧
      k.state.publishedClosed = true := ⟨_, rfl, ⟨rfl, rfl⟩, rfl, rfl, rfl⟩
  obtain ⟨k, hrun, hidle, hevents, harrived, hclosed⟩ := hruns
  obtain ⟨-, -, -, -, hwhole, -, hroute⟩ := session_publishes hrun
  refine ⟨k, hrun, hevents, hwhole hidle ?_, hroute hidle.1 hclosed⟩
  unfold AllArrived
  rw [hevents, harrived]
  simp

end Connection

end Codex.ExecServer
