import Codex.ExecServer.Client
import Codex.Foundation.Run
import Codex.Foundation.Slots
import Mathlib.Data.List.Count

/-!
# What follows the failure of a session

The reader task fails a session when it will publish nothing more. A read that finds the
transport closed does not wait for the reader task, and what is still queued is published
behind the failure. It is terminal exactly as long as each read that fails its session
first finds it drained and not closed.
-/

namespace Codex.ExecServer

open Foundation List Function

def ExecProcessEvent.isFailed : ExecProcessEvent → Bool
  | .failed _ => true
  | _ => false

theorem ExecProcessEvent.isFailed_of_numbered {event : ExecProcessEvent}
    (h : event.seq.isSome = true) : event.isFailed = false := by
  cases event with
  | failed message => cases h
  | _ => rfl

def Terminal (events : List ExecProcessEvent) : Prop :=
  ∀ before message after, events = before ++ .failed message :: after →
    after = [] ∧ before.any ExecProcessEvent.isClosed = false

theorem terminal_of_none {events : List ExecProcessEvent}
    (h : events.countP ExecProcessEvent.isFailed = 0) : Terminal events := by
  intro before message after he
  have hfailed := countP_eq_zero.mp h (.failed message) (by simp [he])
  exact absurd rfl hfailed

theorem terminal_failed {events : List ExecProcessEvent} {message : Text}
    (h : events.countP ExecProcessEvent.isFailed = 0)
    (hopen : events.any ExecProcessEvent.isClosed = false) :
    Terminal (events ++ [.failed message]) := by
  intro before message' after he
  cases hafter : after.reverse with
  | nil =>
    rw [reverse_eq_nil_iff] at hafter
    subst hafter
    obtain ⟨rfl, -⟩ := append_inj' he rfl
    exact ⟨rfl, hopen⟩
  | cons e rest =>
    have hsplit : after = rest.reverse ++ [e] := by
      rw [← reverse_reverse after, hafter, reverse_cons]
    rw [hsplit, ← cons_append, ← List.append_assoc] at he
    obtain ⟨hevents, -⟩ := append_inj' he rfl
    have hfailed := countP_eq_zero.mp h (.failed message') (by simp [hevents])
    exact absurd rfl hfailed

def RpcClientEvent.ends : RpcClientEvent → Bool
  | .notification (.malformed _) => true
  | .notification _ => false
  | .disconnected _ => true

def Reader.stops : Reader → Bool
  | .receiving => false
  | .publishing _ _ _ _ => false
  | _ => true

namespace ExecServerClient

/-- The reader task has nothing of the session in hand, and what it will still take from
the queue publishes nothing. -/
def Drained (c : ExecServerClient) (session : ℕ) : Prop :=
  c.reader.taken session = [] ∧
    (c.reader.stops = true ∨ (∀ processId, c.sessions.lookup processId ≠ some session) ∨
      ∃ ahead last rest, c.queue = ahead ++ last :: rest ∧ last.ends = true ∧
        ∀ n, .notification (.process n) ∈ ahead →
          c.sessions.lookup n.processId = some session →
            n.seq ≠ (c.states session).orderedEvents.last + 1)

/-- A read that is the first to fail its session finds it drained and not closed. -/
def FailsDrained (c : ExecServerClient) : ClientAction → Prop
  | .setFailure call => ∀ session, c.reads[call]? = some (.failing session) →
      (c.states session).failure = none →
        c.Drained session ∧ (c.states session).publishedClosed = false
  | _ => True

end ExecServerClient

/-! ## The invariant -/

def ReadCall.publishes (session : ℕ) : ReadCall → Bool
  | .publishing session' _ => session' = session
  | _ => false

def ReadCall.session : ReadCall → Option ℕ
  | .returned => none
  | .starting session => some session
  | .awaiting session => some session
  | .failing session => some session
  | .publishing session _ => some session

def Reader.publishesFailed (session : ℕ) : Reader → Bool
  | .publishingFailed _ session' _ => session' = session
  | _ => false

/-- The sessions that the reader task has still to fail, or to tell of it. -/
def Reader.toFail : Reader → List ℕ
  | .failing _ sessions => sessions
  | .publishingFailed _ session sessions => session :: sessions
  | _ => []

namespace ExecServerClient

def publishers (c : ExecServerClient) (session : ℕ) : ℕ :=
  c.reads.countP (ReadCall.publishes session) + (c.reader.publishesFailed session).toNat

structure SessionInv (c : ExecServerClient) (session : ℕ) : Prop where
  ordered : (c.states session).orderedEvents.Drained
  numbered : ∀ seq event, (c.states session).orderedEvents.pending.lookup seq = some event →
    event.seq.isSome = true
  taken : ∀ event ∈ c.reader.taken session, event.seq.isSome = true
  terminal : Terminal (c.states session).events
  count : (c.states session).events.countP ExecProcessEvent.isFailed + c.publishers session =
    (c.states session).failure.isSome.toNat
  failed : (c.states session).failure.isSome = true →
    c.Drained session ∧ (c.states session).publishedClosed = false
  toFail : session ∈ c.reader.toFail → (c.states session).publishedClosed = false
  owner : ∀ processId ready closed, c.reader = .publishing processId session ready closed →
    ∀ processId', c.sessions.lookup processId' = some session → processId' = processId
  closed : ∀ processId, c.sessions.lookup processId = some session →
    (c.states session).publishedClosed = true →
      ∃ processId ready, c.reader = .publishing processId session ready true
  single : ∀ processId processId', c.sessions.lookup processId = some session →
    c.sessions.lookup processId' = some session → processId = processId'

def Mentions (c : ExecServerClient) (session : ℕ) : Prop :=
  (∃ processId, c.sessions.lookup processId = some session) ∨
    (∃ read ∈ c.reads, read.session = some session) ∨
      (∃ processId ready closed, c.reader = .publishing processId session ready closed) ∨
        session ∈ c.reader.toFail

structure Inv (c : ExecServerClient) : Prop where
  session : ∀ session, c.SessionInv session
  known : ∀ session, c.Mentions session → session < c.registered
  fresh : ∀ session, c.registered ≤ session →
    (c.states session).failure = none ∧ (c.states session).publishedClosed = false

theorem Inv.new : Inv new := by
  have hnone (processId : ProcessId) : (∅ : Table ProcessId ℕ).lookup processId = none := rfl
  refine ⟨fun session => ?_, fun session h => ?_, fun _ _ => ⟨rfl, rfl⟩⟩
  · refine ⟨rfl, ?_, ?_, terminal_of_none rfl, rfl, ?_, ?_, ?_, ?_, ?_⟩
    · intro seq event h
      cases h
    · intro event h
      cases h
    · intro h
      cases h
    · intro h
      cases h
    · intro processId ready closed h
      cases h
    · intro processId h
      cases h
    · intro processId processId' h
      cases h
  · obtain ⟨processId, h⟩ | ⟨read, h, -⟩ | ⟨processId, ready, closed, h⟩ | h := h
    · cases h
    · cases h
    · cases h
    · cases h

section
variable {c c' : ExecServerClient} {session : ℕ}

theorem Inv.keep (h : c.Inv) (hregistered : c'.registered = c.registered)
    (hmentions : ∀ session, c'.Mentions session → c.Mentions session)
    (hstates : ∀ session, c.registered ≤ session → c'.states session = c.states session)
    (hsession : ∀ session, c'.SessionInv session) : c'.Inv := by
  refine ⟨hsession, fun session hm => ?_, fun session hle => ?_⟩
  · rw [hregistered]
    exact h.known session (hmentions session hm)
  · rw [hregistered] at hle
    rw [hstates session hle]
    exact h.fresh session hle

/-! ## Drained sessions -/

theorem taken_of_stops {reader : Reader} (h : reader.stops = true) (session : ℕ) :
    reader.taken session = [] := by
  cases reader with
  | publishing => cases h
  | _ => rfl

theorem drained_of_stops (h : c.reader.stops = true) (session : ℕ) : c.Drained session :=
  ⟨taken_of_stops h session, .inl h⟩

variable {more : List RpcClientEvent} {event : RpcClientEvent} {queue : List RpcClientEvent}
  {state : SessionState} {processId : ProcessId} {ready : List ExecProcessEvent} {closed : Bool}
  {message : Text} {call : ℕ} {pc : ReadCall}

theorem Drained.mono (h : c.Drained session) (hreader : c'.reader = c.reader)
    (hstate : c'.states session = c.states session)
    (hlookup : ∀ processId, c'.sessions.lookup processId = some session →
      c.sessions.lookup processId = some session) (hqueue : c'.queue = c.queue ++ more) :
    c'.Drained session := by
  obtain ⟨htaken, hquiet⟩ := h
  refine ⟨by rw [hreader]; exact htaken, ?_⟩
  obtain hstops | hnone | ⟨ahead, last, rest, hsplit, hends, hahead⟩ := hquiet
  · exact .inl (by rw [hreader]; exact hstops)
  · exact .inr (.inl fun processId hl => hnone processId (hlookup processId hl))
  · refine .inr (.inr ⟨ahead, last, rest ++ more, ?_, hends, fun n hn hl => ?_⟩)
    · rw [hqueue, hsplit, List.append_assoc, cons_append]
    · rw [hstate]
      exact hahead n hn (hlookup n.processId hl)

theorem Drained.pop (h : c.Drained session) (hreader : c.reader = .receiving)
    (hqueue : c.queue = event :: queue) (hends : event.ends = false) :
    (∀ n, event = .notification (.process n) → c.sessions.lookup n.processId = some session →
      n.seq ≠ (c.states session).orderedEvents.last + 1) ∧
    ((∀ processId, c.sessions.lookup processId ≠ some session) ∨
      ∃ ahead last rest, queue = ahead ++ last :: rest ∧ last.ends = true ∧
        ∀ n, .notification (.process n) ∈ ahead →
          c.sessions.lookup n.processId = some session →
            n.seq ≠ (c.states session).orderedEvents.last + 1) := by
  obtain hstops | hnone | ⟨ahead, last, rest, hsplit, hlast, hahead⟩ := h.2
  · rw [hreader] at hstops
    cases hstops
  · exact ⟨fun n _ hl => absurd hl (hnone n.processId), .inl hnone⟩
  · rw [hqueue] at hsplit
    cases ahead with
    | nil =>
      cases hsplit
      rw [hlast] at hends
      cases hends
    | cons e ahead =>
      cases hsplit
      refine ⟨fun n he => ?_, .inr ⟨ahead, last, rest, rfl, hlast, fun n hn => ?_⟩⟩
      · exact hahead n (he ▸ mem_cons_self)
      · exact hahead n (mem_cons_of_mem _ hn)

theorem SessionInv.ofState (hstate : c.states session = state)
    (ordered : state.orderedEvents.Drained)
    (numbered : ∀ seq event, state.orderedEvents.pending.lookup seq = some event →
      event.seq.isSome = true) (taken : ∀ event ∈ c.reader.taken session, event.seq.isSome = true)
    (terminal : Terminal state.events)
    (count : state.events.countP ExecProcessEvent.isFailed + c.publishers session =
      state.failure.isSome.toNat)
    (failed : state.failure.isSome = true → c.Drained session ∧ state.publishedClosed = false)
    (toFail : session ∈ c.reader.toFail → state.publishedClosed = false)
    (owner : ∀ processId ready closed, c.reader = .publishing processId session ready closed →
      ∀ processId', c.sessions.lookup processId' = some session → processId' = processId)
    (closed : ∀ processId, c.sessions.lookup processId = some session →
      state.publishedClosed = true →
        ∃ processId ready, c.reader = .publishing processId session ready true)
    (single : ∀ processId processId', c.sessions.lookup processId = some session →
      c.sessions.lookup processId' = some session → processId = processId') :
    c.SessionInv session := by
  subst hstate
  exact ⟨ordered, numbered, taken, terminal, count, failed, toFail, owner, closed, single⟩

/-! ## Steps outside of the session -/

theorem SessionInv.frame (h : c.SessionInv session) (hstate : c'.states session = c.states session)
    (hreader : c'.reader = c.reader) (hpublishers : c'.publishers session = c.publishers session)
    (hlookup : ∀ processId, c'.sessions.lookup processId = some session →
      c.sessions.lookup processId = some session) (hqueue : c'.queue = c.queue ++ more) :
    c'.SessionInv session := by
  refine ⟨?_, ?_, ?_, ?_, ?_, fun hfailed => ?_, ?_, ?_, ?_, ?_⟩
  · rw [hstate]
    exact h.ordered
  · rw [hstate]
    exact h.numbered
  · rw [hreader]
    exact h.taken
  · rw [hstate]
    exact h.terminal
  · rw [hstate, hpublishers]
    exact h.count
  · rw [hstate] at hfailed ⊢
    exact ⟨(h.failed hfailed).1.mono hreader hstate hlookup hqueue, (h.failed hfailed).2⟩
  · rw [hstate, hreader]
    exact h.toFail
  · rw [hreader]
    exact fun processId ready closed hr processId' hl =>
      h.owner processId ready closed hr processId' (hlookup processId' hl)
  · rw [hstate, hreader]
    exact fun processId hl => h.closed processId (hlookup processId hl)
  · exact fun processId processId' hl hl' =>
      h.single processId processId' (hlookup processId hl) (hlookup processId' hl')

theorem SessionInv.other (h : c.SessionInv session) (hstate : c'.states session = c.states session)
    (hpublishers : c'.publishers session = c.publishers session)
    (hlookup : ∀ processId, c'.sessions.lookup processId = some session →
      c.sessions.lookup processId = some session) (htaken : c'.reader.taken session = [])
    (htoFail : session ∈ c'.reader.toFail → (c.states session).publishedClosed = false)
    (hdrained : c.Drained session → c'.Drained session)
    (howner : ∀ processId ready closed, c'.reader ≠ .publishing processId session ready closed)
    (hclosed : ∀ processId, c'.sessions.lookup processId = some session →
      (c.states session).publishedClosed = false) : c'.SessionInv session := by
  refine ⟨?_, ?_, ?_, ?_, ?_, fun hfailed => ?_, ?_, ?_, ?_, ?_⟩
  · rw [hstate]
    exact h.ordered
  · rw [hstate]
    exact h.numbered
  · rw [htaken]
    exact fun event he => absurd he not_mem_nil
  · rw [hstate]
    exact h.terminal
  · rw [hstate, hpublishers]
    exact h.count
  · rw [hstate] at hfailed ⊢
    exact ⟨hdrained (h.failed hfailed).1, (h.failed hfailed).2⟩
  · rw [hstate]
    exact htoFail
  · exact fun processId ready closed hr => absurd hr (howner processId ready closed)
  · rw [hstate]
    intro processId hl hc
    rw [hclosed processId hl] at hc
    cases hc
  · exact fun processId processId' hl hl' =>
      h.single processId processId' (hlookup processId hl) (hlookup processId' hl')

theorem Inv.registerSession (h : c.Inv) (processId : ProcessId) :
    (c.registerSession processId).Inv := by
  unfold ExecServerClient.registerSession
  split
  · exact h
  have hlookup (processId' : ProcessId) : (c.sessions.insert processId c.registered).lookup
      processId' = if processId' = processId then some c.registered
        else c.sessions.lookup processId' := lookup_insert_ite _ _ _ _
  refine ⟨fun session => ?_, fun session hm => ?_, fun session hle => ?_⟩
  · by_cases hnew : session = c.registered
    · subst hnew
      have hold := h.session c.registered
      obtain ⟨hfailure, hopen⟩ := h.fresh c.registered (Nat.le_refl _)
      have howner (processId' : ProcessId)
          (hl : (c.sessions.insert processId c.registered).lookup processId' =
            some c.registered) : processId' = processId := by
        by_contra hne
        rw [hlookup, if_neg hne] at hl
        exact absurd (h.known c.registered (.inl ⟨processId', hl⟩)) (Nat.lt_irrefl _)
      refine ⟨hold.ordered, hold.numbered, hold.taken, hold.terminal, hold.count, ?_, hold.toFail,
        ?_, ?_, ?_⟩
      · simp [hfailure]
      · intro processId' ready closed hr
        have hlt := h.known c.registered (.inr (.inr (.inl ⟨processId', ready, closed, hr⟩)))
        exact absurd hlt (Nat.lt_irrefl _)
      · intro processId' _ hc
        simp only [hopen] at hc
        cases hc
      · intro p p' hp hp'
        rw [howner p hp, howner p' hp']
    · refine (h.session session).frame rfl rfl rfl (fun processId' hl => ?_)
        (append_nil _).symm
      rw [hlookup] at hl
      split at hl
      · exact absurd (Option.some.inj hl).symm hnew
      · exact hl
  · obtain ⟨processId', hl⟩ | hm := hm
    · rw [hlookup] at hl
      split at hl
      · cases hl
        exact Nat.lt_succ_self _
      · exact Nat.lt_succ_of_lt (h.known session (.inl ⟨processId', hl⟩))
    · exact Nat.lt_succ_of_lt (h.known session (.inr hm))
  · exact h.fresh session (Nat.le_of_succ_le hle)

theorem Inv.removeSession (h : c.Inv) (processId : ProcessId) :
    (c.removeSession processId).Inv := by
  have hlookup (processId' : ProcessId) (session : ℕ)
      (hl : (c.sessions.erase processId).lookup processId' = some session) :
      c.sessions.lookup processId' = some session := by
    rw [lookup_erase_ite] at hl
    split at hl
    · cases hl
    · exact hl
  refine h.keep rfl (fun session hm => hm.imp_left ?_) (fun _ _ => rfl) fun session => ?_
  · intro ⟨processId', hl⟩
    exact ⟨processId', hlookup processId' session hl⟩
  · exact (h.session session).frame rfl rfl rfl (fun processId' hl => hlookup processId' session hl)
      (append_nil _).symm

theorem Inv.queued (h : c.Inv) (hregistered : c'.registered = c.registered)
    (hstates : c'.states = c.states) (hreader : c'.reader = c.reader) (hreads : c'.reads = c.reads)
    (hsessions : c'.sessions = c.sessions) (hqueue : c'.queue = c.queue ++ more) : c'.Inv := by
  refine h.keep hregistered (fun session hm => ?_) (fun session _ => by rw [hstates])
    fun session => ?_
  · unfold Mentions at hm ⊢
    rw [hsessions, hreads, hreader] at hm
    exact hm
  · refine (h.session session).frame (by rw [hstates]) hreader ?_ (fun processId hl => ?_) hqueue
    · unfold publishers
      rw [hreads, hreader]
    · rw [← hsessions]
      exact hl

/-! ## The reader task -/

theorem SessionInv.open_of_routed (h : c.SessionInv session)
    (hreader : ∀ processId ready, c.reader ≠ .publishing processId session ready true)
    (hl : c.sessions.lookup processId = some session) :
    (c.states session).publishedClosed = false := by
  by_contra hclosed
  obtain ⟨p, ready, hr⟩ := h.closed processId hl (eq_true_of_ne_false hclosed)
  exact hreader p ready hr

theorem Inv.pop (h : c.Inv) (hreader : c.reader = .receiving) (hqueue : c.queue = event :: queue)
    (hends : event.ends = false) : Inv { c with queue := queue } := by
  refine h.keep rfl (fun session hm => hm) (fun _ _ => rfl) fun session => ?_
  refine (h.session session).other rfl rfl (fun _ hl => hl) (by simp [hreader, Reader.taken])
    (h.session session).toFail (fun hd => ?_) (by simp [hreader])
    fun processId hl => (h.session session).open_of_routed (by simp [hreader]) hl
  obtain ⟨-, hquiet⟩ := hd.pop hreader hqueue hends
  exact ⟨hd.1, .inr hquiet⟩

theorem Inv.drains (h : c.Inv) (hreader : c.reader = .receiving) (disconnected : Option Text)
    (queue : List RpcClientEvent) (message : Text) :
    Inv { c with queue := queue, disconnected := disconnected, reader := .draining message } := by
  refine h.keep rfl (fun session hm => ?_) (fun _ _ => rfl) fun session => ?_
  · obtain hm | hm | ⟨processId, ready, closed, hr⟩ | hm := hm
    · exact .inl hm
    · exact .inr (.inl hm)
    · cases hr
    · cases hm
  · refine (h.session session).other rfl ?_ (fun _ hl => hl) rfl (nofun)
      (fun _ => drained_of_stops rfl session) (nofun)
      fun processId hl => (h.session session).open_of_routed (by simp [hreader]) hl
    simp [publishers, hreader, Reader.publishesFailed]

theorem SessionInv.takeReady (h : c.SessionInv session) (n : ProcessNotification)
    (htake : ((c.states session).noteChange n.seq).takeReady n.seq n.event = (state, ready)) :
    state.orderedEvents.Drained ∧
    (∀ seq event, state.orderedEvents.pending.lookup seq = some event → event.seq.isSome = true) ∧
    (∀ event ∈ ready, event.seq.isSome = true) ∧
    state.events = (c.states session).events ∧ state.failure = (c.states session).failure ∧
    (n.seq ≠ (c.states session).orderedEvents.last + 1 →
      ready = [] ∧ state.orderedEvents.last = (c.states session).orderedEvents.last) := by
  obtain ⟨hready, hpending⟩ := Sequencer.accept_all h.numbered n.seq n.numbered
  cases htake
  exact ⟨Sequencer.accept_drained h.ordered n.seq n.event, hpending, hready, rfl, rfl,
    Sequencer.accept_idle h.ordered n.event⟩

variable {session : ℕ}

theorem Inv.takes (h : c.Inv) (hreader : c.reader = .receiving) {n : ProcessNotification}
    (hqueue : c.queue = .notification (.process n) :: queue)
    (hlookup : c.sessions.lookup n.processId = some session)
    (htake : ((c.states session).noteChange n.seq).takeReady n.seq n.event = (state, ready)) :
    Inv { (ExecServerClient.setState { c with queue := queue } session state) with
      reader := .publishing n.processId session ready false } := by
  refine h.keep rfl (fun session' hm => ?_) (fun session' hle => ?_) fun session' => ?_
  · obtain hm | hm | ⟨processId, ready, closed, hr⟩ | hm := hm
    · exact .inl hm
    · exact .inr (.inl hm)
    · cases hr
      exact .inl ⟨n.processId, hlookup⟩
    · cases hm
  · have hlt := h.known session (.inl ⟨n.processId, hlookup⟩)
    exact update_of_ne (by omega) _ _
  have hopen : (c.states session).publishedClosed = false :=
    (h.session session).open_of_routed (by simp [hreader]) hlookup
  by_cases he : session' = session
  · subst he
    have hold := h.session session'
    have hstate : Function.update c.states session' state session' = state := update_self _ _ _
    obtain ⟨hordered, hpending, hready, hevents, hfailure, hidle⟩ := hold.takeReady n htake
    have hopen' : state.publishedClosed = false := by
      rw [← hopen]
      unfold SessionState.publishedClosed
      rw [hevents]
    refine .ofState hstate hordered hpending ?_ ?_ ?_ ?_ ?_ ?_ ?_ hold.single
    · simp only [Reader.taken, if_true]
      exact hready
    · rw [hevents]
      exact hold.terminal
    · have hcount := hold.count
      simp only [publishers, hreader, Reader.publishesFailed] at hcount
      simp only [setState, publishers, hevents, hfailure, Reader.publishesFailed]
      exact hcount
    · rw [hfailure]
      intro hfailed
      obtain ⟨hdrained, -⟩ := hold.failed hfailed
      obtain ⟨hnext, hquiet⟩ := hdrained.pop hreader hqueue rfl
      obtain ⟨hnone, hlast⟩ := hidle (hnext n rfl hlookup)
      refine ⟨⟨by simp [Reader.taken, hnone], .inr ?_⟩, hopen'⟩
      simp only [setState, hstate, hlast]
      exact hquiet
    · intro hm
      cases hm
    · intro processId ready closed hr processId' hl
      cases hr
      exact hold.single processId' n.processId hl hlookup
    · rw [hopen']
      intro processId _ hc
      cases hc
  · have hstate : Function.update c.states session state session' = c.states session' :=
      update_of_ne he _ _
    refine (h.session session').other hstate ?_ (fun _ hl => hl)
      (by simp [Reader.taken, Ne.symm he]) (nofun) (fun hd => ?_)
      (fun processId ready closed hr => ?_)
      fun processId hl => (h.session session').open_of_routed (by simp [hreader]) hl
    · simp [publishers, hreader, Reader.publishesFailed, setState]
    · obtain ⟨-, hquiet⟩ := hd.pop hreader hqueue rfl
      refine ⟨by simp [Reader.taken, Ne.symm he], .inr ?_⟩
      simp only [setState, hstate]
      exact hquiet
    · cases hr
      exact he rfl

theorem Inv.publishes (h : c.Inv) {event : ExecProcessEvent}
    (hreader : c.reader = .publishing processId session (event :: ready) closed) :
    Inv { c.setState session ((c.states session).publish event) with
      reader := .publishing processId session ready (closed || event.isClosed) } := by
  have hlt := h.known session (.inr (.inr (.inl ⟨processId, event :: ready, closed, hreader⟩)))
  refine h.keep rfl (fun session' hm => ?_) (fun session' hle => ?_) fun session' => ?_
  · obtain hm | hm | ⟨p, r, cl, hr⟩ | hm := hm
    · exact .inl hm
    · exact .inr (.inl hm)
    · cases hr
      exact .inr (.inr (.inl ⟨processId, event :: ready, closed, hreader⟩))
    · cases hm
  · exact update_of_ne (by omega) _ _
  by_cases he : session' = session
  · subst he
    have hold := h.session session'
    have htaken := hold.taken
    simp only [hreader, Reader.taken, if_true] at htaken
    have hfailure : (c.states session').failure = none := by
      by_contra hsome
      obtain ⟨⟨hnil, -⟩, -⟩ := hold.failed (Option.isSome_iff_ne_none.mpr hsome)
      simp [hreader, Reader.taken] at hnil
    have hcount := hold.count
    simp only [publishers, hreader, Reader.publishesFailed, hfailure] at hcount
    have hnone : (c.states session').events.countP ExecProcessEvent.isFailed = 0 :=
      Nat.eq_zero_of_add_eq_zero_right hcount
    have hcountP : ((c.states session').events ++ [event]).countP ExecProcessEvent.isFailed = 0 := by
      rw [countP_append, hnone]
      simp [ExecProcessEvent.isFailed_of_numbered (htaken event mem_cons_self)]
    refine .ofState (update_self _ _ _) hold.ordered hold.numbered ?_
      (terminal_of_none hcountP) ?_ ?_ ?_ ?_ ?_ hold.single
    · simp only [Reader.taken, if_true]
      exact fun e hmem => htaken e (mem_cons_of_mem _ hmem)
    · rw [hnone] at hcount
      simp only [setState, publishers, SessionState.publish, Reader.publishesFailed, hcountP,
        hfailure]
      exact hcount
    · simp [SessionState.publish, hfailure]
    · intro hm
      cases hm
    · intro p r cl hr p' hl
      cases hr
      exact hold.owner processId (event :: ready) closed hreader p' hl
    · intro p hl hc
      simp only [SessionState.publishedClosed, SessionState.publish, any_append,
        any_cons, any_nil, Bool.or_false] at hc
      refine ⟨processId, ready, ?_⟩
      cases hevent : event.isClosed with
      | true => rw [Bool.or_true]
      | false =>
        rw [hevent, Bool.or_false] at hc
        obtain ⟨p', r', hr⟩ := hold.closed p hl hc
        rw [hreader] at hr
        cases hr
        rfl
  · have hstate : Function.update c.states session ((c.states session).publish event) session' =
        c.states session' := update_of_ne he _ _
    refine (h.session session').other hstate ?_ (fun _ hl => hl)
      (by simp [Reader.taken, Ne.symm he]) (nofun) (fun hd => ?_)
      (fun p r cl hr => ?_) fun p hl => (h.session session').open_of_routed ?_ hl
    · simp [publishers, hreader, Reader.publishesFailed, setState]
    · refine ⟨by simp [Reader.taken, Ne.symm he], .inr ?_⟩
      simp only [setState, hstate]
      refine hd.2.resolve_left ?_
      simp [hreader, Reader.stops]
    · cases hr
      exact he rfl
    · intro p r hr
      rw [hreader] at hr
      cases hr
      exact he rfl

theorem Inv.receives (h : c.Inv) (hreader : c.reader = .publishing processId session [] closed)
    (hopen : ∀ processId session, c.sessions.lookup processId = some session →
      (c.states session).publishedClosed = false) : Inv { c with reader := .receiving } := by
  refine h.keep rfl (fun session' hm => ?_) (fun _ _ => rfl) fun session' => ?_
  · obtain hm | hm | ⟨p, r, cl, hr⟩ | hm := hm
    · exact .inl hm
    · exact .inr (.inl hm)
    · cases hr
    · cases hm
  · refine (h.session session').other rfl ?_ (fun _ hl => hl) rfl (nofun)
      (fun hd => ⟨rfl, .inr (hd.2.resolve_left ?_)⟩) (fun p r cl hr => by cases hr)
      fun p hl => hopen p session' hl
    · simp [publishers, hreader, Reader.publishesFailed]
    · simp [hreader, Reader.stops]

theorem Inv.publishedAll (h : c.Inv)
    (hreader : c.reader = .publishing processId session [] closed) :
    Inv { (if closed then c.removeSession processId else c) with reader := .receiving } := by
  cases closed with
  | true =>
    refine (h.removeSession processId).receives hreader fun p session' hl => ?_
    unfold ExecServerClient.removeSession at hl
    simp only [lookup_erase_ite] at hl
    split at hl
    · cases hl
    · rename_i hne
      refine (h.session session').open_of_routed (fun p' ready hr => ?_) hl
      have howner := (h.session session').owner p' ready true hr p hl
      rw [hreader] at hr
      cases hr
      exact hne howner
  | false =>
    refine h.receives hreader fun p session' hl => (h.session session').open_of_routed ?_ hl
    intro p' ready hr
    rw [hreader] at hr
    cases hr

/-! ## Failing sessions -/

theorem Inv.takesAll (h : c.Inv) (hreader : c.reader = .draining message) : Inv { c with
      sessions := ∅
      reader := .failing message (c.sessions.entries.map fun entry => entry.2) } := by
  have hrouted : ∀ session ∈ c.sessions.entries.map fun entry => entry.2,
      ∃ processId, c.sessions.lookup processId = some session := by
    intro session hm
    obtain ⟨⟨processId, session'⟩, hentry, he⟩ := mem_map.mp hm
    subst he
    exact ⟨processId, AList.mem_lookup_iff.mpr hentry⟩
  refine h.keep rfl (fun session hm => ?_) (fun _ _ => rfl) fun session => ?_
  · obtain ⟨processId, hl⟩ | hm | ⟨p, r, cl, hr⟩ | hm := hm
    · cases hl
    · exact .inr (.inl hm)
    · cases hr
    · exact .inl (hrouted session hm)
  · refine (h.session session).other rfl ?_ (fun processId hl => by cases hl) rfl (fun hm => ?_)
      (fun _ => drained_of_stops rfl session) (fun p r cl hr => by cases hr)
      fun processId hl => by cases hl
    · simp [publishers, hreader, Reader.publishesFailed]
    · obtain ⟨processId, hl⟩ := hrouted session hm
      exact (h.session session).open_of_routed (by simp [hreader]) hl

theorem Inv.stops (h : c.Inv) (hreader : c.reader = .failing message []) :
    Inv { c with reader := .stopped } := by
  refine h.keep rfl (fun session hm => ?_) (fun _ _ => rfl) fun session => ?_
  · obtain hm | hm | ⟨p, r, cl, hr⟩ | hm := hm
    · exact .inl hm
    · exact .inr (.inl hm)
    · cases hr
    · cases hm
  · refine (h.session session).other rfl ?_ (fun _ hl => hl) rfl (nofun)
      (fun _ => drained_of_stops rfl session) (fun p r cl hr => by cases hr)
      fun processId hl => (h.session session).open_of_routed (by simp [hreader]) hl
    simp [publishers, hreader, Reader.publishesFailed]

theorem SessionInv.records (h : c.SessionInv session) (message : Text)
    (hstate : c'.states session = (c.states session).recordFailure message)
    (hsessions : ∀ processId, c'.sessions.lookup processId = some session →
      c.sessions.lookup processId = some session) (hpublishers : c'.publishers session =
      c.publishers session + (c.states session).failure.isNone.toNat)
    (hdrained : c'.Drained session) (hopen : (c.states session).publishedClosed = false)
    (howner : ∀ processId ready closed,
      c'.reader = .publishing processId session ready closed →
        c.reader = .publishing processId session ready closed) : c'.SessionInv session := by
  have hcount := h.count
  refine .ofState hstate h.ordered h.numbered ?_ h.terminal ?_ (fun _ => ⟨hdrained, hopen⟩)
    (fun _ => hopen) ?_ ?_ ?_
  · rw [hdrained.1]
    exact fun event he => absurd he not_mem_nil
  · rw [hpublishers, ← Nat.add_assoc]
    cases hfailure : (c.states session).failure with
    | none | some m =>
      rw [hfailure] at hcount
      simp only [SessionState.recordFailure, hcount]
      rfl
  · intro p ready closed hr p' hl
    exact h.owner p ready closed (howner p ready closed hr) p' (hsessions p' hl)
  · intro p hl hc
    exact absurd (hopen.symm.trans hc) Bool.false_ne_true
  · exact fun p p' hl hl' => h.single p p' (hsessions p hl) (hsessions p' hl')

theorem SessionInv.tells (h : c.SessionInv session) (message : Text)
    (hstate : c'.states session = (c.states session).publish (.failed message))
    (hsessions : ∀ processId, c'.sessions.lookup processId = some session →
      c.sessions.lookup processId = some session)
    (hpublishers : c.publishers session = c'.publishers session + 1)
    (hdrained : c.Drained session → c'.Drained session) (howner : ∀ processId ready closed,
      c'.reader = .publishing processId session ready closed →
        c.reader = .publishing processId session ready closed) : c'.SessionInv session := by
  have hcount := h.count
  have hle := Bool.toNat_le (c.states session).failure.isSome
  have hnone : (c.states session).events.countP ExecProcessEvent.isFailed = 0 := by omega
  have hfailed : (c.states session).failure.isSome = true := by
    by_contra hnot
    rw [eq_false_of_ne_true hnot, Bool.toNat_false] at hcount
    omega
  obtain ⟨hdrained', hopen⟩ := h.failed hfailed
  have hclosed : ((c.states session).publish (.failed message)).publishedClosed = false := by
    simpa [SessionState.publishedClosed, SessionState.publish, ExecProcessEvent.isClosed]
      using hopen
  refine .ofState hstate h.ordered h.numbered ?_ (terminal_failed hnone hopen) ?_
    (fun _ => ⟨hdrained hdrained', hclosed⟩) (fun _ => hclosed) ?_ ?_ ?_
  · rw [(hdrained hdrained').1]
    exact fun event he => absurd he not_mem_nil
  · simp only [SessionState.publish, countP_append, hnone]
    simp only [countP_singleton, ExecProcessEvent.isFailed, if_true]
    omega
  · intro p ready closed hr p' hl
    exact h.owner p ready closed (howner p ready closed hr) p' (hsessions p' hl)
  · intro p hl hc
    rw [hclosed] at hc
    cases hc
  · exact fun p p' hl hl' => h.single p p' (hsessions p hl) (hsessions p' hl')

theorem Inv.readerTells (h : c.Inv) {sessions : List ℕ}
    (hreader : c.reader = .publishingFailed message session sessions) :
    Inv { c.setState session ((c.states session).publish (.failed message)) with
      reader := .failing message sessions } := by
  have hlt := h.known session (.inr (.inr (.inr (by simp [hreader, Reader.toFail]))))
  refine h.keep rfl (fun session' hm => ?_) (fun session' hle => ?_) fun session' => ?_
  · obtain hm | hm | ⟨p, r, cl, hr⟩ | hm := hm
    · exact .inl hm
    · exact .inr (.inl hm)
    · cases hr
    · refine .inr (.inr (.inr ?_))
      rw [hreader]
      exact mem_cons_of_mem _ hm
  · exact update_of_ne (by omega) _ _
  by_cases he : session' = session
  · subst he
    refine (h.session session').tells message (update_self _ _ _) (fun _ hl => hl) ?_
      (fun _ => drained_of_stops rfl session') fun p r cl hr => by cases hr
    simp [publishers, hreader, Reader.publishesFailed, setState]
  · refine (h.session session').other (update_of_ne he _ _) ?_ (fun _ hl => hl) rfl
      (fun hm => (h.session session').toFail ?_) (fun _ => drained_of_stops rfl session')
      (fun p r cl hr => by cases hr)
      fun p hl => (h.session session').open_of_routed (by simp [hreader]) hl
    · simp [publishers, hreader, Reader.publishesFailed, setState, Ne.symm he]
    · rw [hreader]
      exact mem_cons_of_mem _ hm

theorem Inv.readerFails (h : c.Inv) {sessions : List ℕ}
    (hreader : c.reader = .failing message sessions) (hmem : session ∈ sessions) :
    Inv { c.setState session ((c.states session).recordFailure message) with
      reader :=
        if (c.states session).failure.isNone then
          .publishingFailed message session (sessions.erase session)
        else .failing message (sessions.erase session) } := by
  have hlt := h.known session (.inr (.inr (.inr (by rw [hreader]; exact hmem))))
  have hopen := (h.session session).toFail (by rw [hreader]; exact hmem)
  have hnext : ∃ reader, reader = (if (c.states session).failure.isNone then
      Reader.publishingFailed message session (sessions.erase session)
      else .failing message (sessions.erase session)) ∧ reader.stops = true ∧
      (∀ p s r cl, reader ≠ .publishing p s r cl) ∧
      (∀ session' ∈ reader.toFail, session' ∈ sessions) ∧
      ∀ session', reader.publishesFailed session' =
        (decide (session = session') && (c.states session).failure.isNone) := by
    cases (c.states session).failure.isNone with
    | true =>
      refine ⟨_, rfl, rfl, fun p s r cl hr => (by cases hr), fun s hs => ?_, fun s => ?_⟩
      · obtain he | hs := mem_cons.mp hs
        · exact he ▸ hmem
        · exact mem_of_mem_erase hs
      · simp [Reader.publishesFailed]
    | false =>
      refine ⟨_, rfl, rfl, fun p s r cl hr => (by cases hr), fun s hs => ?_, fun s => ?_⟩
      · exact mem_of_mem_erase hs
      · simp [Reader.publishesFailed]
  obtain ⟨reader, he, hstops, hpublishing, htoFail, hpublishes⟩ := hnext
  rw [← he]
  have hnone (session' : ℕ) : c.reader.publishesFailed session' = false := by
    rw [hreader]
    rfl
  refine h.keep rfl (fun session' hm => ?_) (fun session' hle => ?_) fun session' => ?_
  · obtain hm | hm | ⟨p, r, cl, hr⟩ | hm := hm
    · exact .inl hm
    · exact .inr (.inl hm)
    · exact absurd hr (hpublishing p session' r cl)
    · refine .inr (.inr (.inr ?_))
      rw [hreader]
      exact htoFail session' hm
  · exact update_of_ne (by omega) _ _
  by_cases hs : session' = session
  · subst hs
    refine (h.session session').records message (update_self _ _ _) (fun _ hl => hl) ?_
      (drained_of_stops hstops session') hopen
      fun p r cl hr => absurd hr (hpublishing p session' r cl)
    simp [publishers, hpublishes, hnone, setState]
  · refine (h.session session').other (update_of_ne hs _ _) ?_ (fun _ hl => hl)
      (taken_of_stops hstops session') (fun hm => (h.session session').toFail ?_)
      (fun _ => drained_of_stops hstops session')
      (fun p r cl hr => hpublishing p session' r cl hr)
      fun p hl => (h.session session').open_of_routed (by simp [hreader]) hl
    · simp [publishers, hpublishes, hnone, setState, Ne.symm hs]
    · rw [hreader]
      exact htoFail session' hm

/-! ## Reads -/

theorem mem_setRead {reads : List ReadCall}
    (hpc : pc.session = some session → ∃ read ∈ reads, read.session = some session)
    (hm : ∃ read ∈ reads.set call pc, read.session = some session) :
    ∃ read ∈ reads, read.session = some session := by
  obtain ⟨read, hread, hsession⟩ := hm
  obtain hread | rfl := mem_or_eq_of_mem_set hread
  · exact ⟨read, hread, hsession⟩
  · exact hpc hsession

theorem Inv.readMoves (h : c.Inv) (hcall : c.reads[call]? = some pc) (pc' : ReadCall)
    (hpublishes : ∀ session, pc'.publishes session = pc.publishes session)
    (hsession : ∀ session, pc'.session = some session → pc.session = some session)
    (disconnected : Option Text) :
    Inv ({ c with disconnected := disconnected }.setRead call pc') := by
  refine h.keep rfl (fun session hm => hm.imp_right (Or.imp_left (mem_setRead fun hs => ?_)))
    (fun _ _ => rfl) fun session => ?_
  · exact ⟨pc, mem_of_getElem? hcall, hsession session hs⟩
  · refine (h.session session).frame rfl rfl ?_ (fun _ hl => hl) (append_nil _).symm
    have hcount := countP_slot (ReadCall.publishes session) hcall pc'
    rw [hpublishes] at hcount
    unfold publishers setRead
    rw [Nat.add_right_cancel hcount]

theorem Inv.reads (h : c.Inv) (hlt : session < c.registered) :
    Inv { c with reads := c.reads ++ [.starting session] } := by
  refine ⟨fun session' => ?_, fun session' hm => ?_, h.fresh⟩
  · refine (h.session session').frame rfl rfl ?_ (fun _ hl => hl) (append_nil _).symm
    simp [publishers, ReadCall.publishes]
  · obtain hm | ⟨read, hread, hs⟩ | hm := hm
    · exact h.known session' (.inl hm)
    · obtain hread | hread := mem_append.mp hread
      · exact h.known session' (.inr (.inl ⟨read, hread, hs⟩))
      · rw [mem_singleton.mp hread] at hs
        cases hs
        exact hlt
    · exact h.known session' (.inr (.inr hm))

theorem SessionInv.read (h : c.SessionInv session) {session' : ℕ} (hne : session ≠ session')
    {pc' : ReadCall} (hcall : c.reads[call]? = some pc)
    (hpublishes : pc'.publishes session = pc.publishes session) (state : SessionState) :
    SessionInv ((c.setState session' state).setRead call pc') session := by
  refine h.frame (update_of_ne hne _ _) rfl ?_ (fun _ hl => hl) (append_nil _).symm
  have hcount := countP_slot (ReadCall.publishes session) hcall pc'
  rw [hpublishes] at hcount
  unfold publishers setRead setState
  rw [Nat.add_right_cancel hcount]

theorem Inv.readFails (h : c.Inv) (hcall : c.reads[call]? = some (.failing session))
    (message : Text) (hdrained : (c.states session).failure = none →
      c.Drained session ∧ (c.states session).publishedClosed = false) :
    Inv ((c.setState session ((c.states session).recordFailure message)).setRead call
      (if (c.states session).failure.isNone then .publishing session message
        else .returned)) := by
  have hlt := h.known session (.inr (.inl ⟨_, mem_of_getElem? hcall, rfl⟩))
  have hquiet : c.Drained session ∧ (c.states session).publishedClosed = false := by
    by_cases hnone : (c.states session).failure = none
    · exact hdrained hnone
    · exact (h.session session).failed (Option.isSome_iff_ne_none.mpr hnone)
  refine h.keep rfl (fun session' hm => hm.imp_right (Or.imp_left (mem_setRead fun hs => ?_)))
    (fun session' hle => update_of_ne (by omega) _ _) fun session' => ?_
  · refine ⟨_, mem_of_getElem? hcall, ?_⟩
    split at hs
    · exact hs
    · cases hs
  by_cases he : session' = session
  · subst he
    refine (h.session session').records message (update_self _ _ _) (fun _ hl => hl) ?_
      ?_ hquiet.2 fun p r cl hr => hr
    · have hcount := countP_slot (ReadCall.publishes session') hcall
        (if (c.states session').failure.isNone then .publishing session' message else .returned)
      unfold publishers setRead setState
      cases hnone : (c.states session').failure.isNone with
      | true =>
        rw [hnone] at hcount
        simp only [ReadCall.publishes, if_true, decide_true, Bool.toNat_true, Bool.toNat_false,
          Nat.add_zero] at hcount ⊢
        omega
      | false =>
        rw [hnone] at hcount
        simp only [ReadCall.publishes, Bool.false_eq_true, if_false, Bool.toNat_false,
          Nat.add_zero] at hcount ⊢
        omega
    · obtain ⟨htaken, hrest⟩ := hquiet.1
      refine ⟨htaken, ?_⟩
      simp only [setState, setRead, update_self]
      exact hrest
  · refine (h.session session').read he hcall ?_ _
    split
    · simp [ReadCall.publishes, Ne.symm he]
    · rfl

theorem Inv.readTells (h : c.Inv) (hcall : c.reads[call]? = some (.publishing session message)) :
    Inv ((c.setState session ((c.states session).publish (.failed message))).setRead call
      .returned) := by
  have hlt := h.known session (.inr (.inl ⟨_, mem_of_getElem? hcall, rfl⟩))
  refine h.keep rfl (fun session' hm => hm.imp_right (Or.imp_left (mem_setRead fun hs => ?_)))
    (fun session' hle => update_of_ne (by omega) _ _) fun session' => ?_
  · cases hs
  by_cases he : session' = session
  · subst he
    refine (h.session session').tells message (update_self _ _ _) (fun _ hl => hl) ?_
      (fun hd => ?_) fun p r cl hr => hr
    · have hcount := countP_slot (ReadCall.publishes session') hcall .returned
      unfold publishers setRead setState
      simp only [ReadCall.publishes, decide_true, Bool.toNat_true, Bool.toNat_false,
        Nat.add_zero] at hcount ⊢
      omega
    · refine ⟨hd.1, ?_⟩
      simp only [setState, setRead, update_self]
      exact hd.2
  · refine (h.session session').read he hcall ?_ _
    simp [ReadCall.publishes, Ne.symm he]

/-! ## Runs -/

theorem Inv.handles (h : c.Inv) (hreader : c.reader = .receiving)
    (hqueue : c.queue = event :: queue) :
    Inv (ExecServerClient.handle { c with queue := queue } event) := by
  cases event with
  | disconnected reason => exact h.drains hreader _ queue _
  | notification n =>
    cases n with
    | malformed error => exact h.drains hreader _ queue _
    | other => exact h.pop hreader hqueue rfl
    | process n =>
      show Inv (ExecServerClient.handleProcess { c with queue := queue } n)
      unfold ExecServerClient.handleProcess
      split
      · exact h.pop hreader hqueue rfl
      · rename_i session hlookup
        exact h.takes hreader hqueue hlookup rfl

theorem Inv.readerStep (h : c.Inv) (hstep : c.readerStep = some c') : c'.Inv := by
  unfold ExecServerClient.readerStep at hstep
  split at hstep
  · rename_i hreader
    split at hstep
    · cases hstep
    · rename_i event queue hqueue
      cases hstep
      exact h.handles hreader hqueue
  · rename_i hreader
    cases hstep
    exact h.publishes hreader
  · rename_i hreader
    cases hstep
    exact h.publishedAll hreader
  · rename_i hreader
    cases hstep
    exact h.takesAll hreader
  · rename_i hreader
    cases hstep
    exact h.stops hreader
  · cases hstep
  · rename_i hreader
    cases hstep
    exact h.readerTells hreader
  · cases hstep

theorem Inv.callReturns (h : c.Inv) (hcall : c.reads[call]? = some (.awaiting session))
    (result : Except RpcCallError Unit) : Inv (c.callReturns call session result) := by
  have hback : Inv (c.setRead call .returned) :=
    h.readMoves hcall .returned (fun _ => rfl) (nofun) c.disconnected
  cases result with
  | ok u => exact hback
  | error error =>
    simp only [ExecServerClient.callReturns]
    split
    · exact h.readMoves hcall (.failing session) (fun _ => rfl) (fun _ hs => hs) _
    · exact hback

theorem Inv.readStep (h : c.Inv) {action : ClientAction} (hcondition : c.FailsDrained action)
    (hstep : c.readStep action = some c') : c'.Inv := by
  unfold ExecServerClient.readStep at hstep
  split at hstep
  · split at hstep
    · rename_i hlt
      split at hstep
      · cases hstep
        exact h
      · cases hstep
        exact h.reads hlt
    · cases hstep
  · split at hstep
    · rename_i hcall
      split at hstep
      · cases hstep
        exact h.readMoves hcall (.failing _) (fun _ => rfl) (fun _ hs => hs) c.disconnected
      · cases hstep
        exact h.readMoves hcall (.awaiting _) (fun _ => rfl) (fun _ hs => hs) c.disconnected
    · cases hstep
  · split at hstep
    · rename_i hcall
      split at hstep
      · cases hstep
      · cases hstep
        exact h.callReturns hcall _
    · cases hstep
  · split at hstep
    · rename_i hcall
      cases hstep
      exact h.readFails hcall _ (hcondition _ hcall)
    · cases hstep
  · split at hstep
    · rename_i hcall
      cases hstep
      exact h.readTells hcall
    · cases hstep
  · cases hstep

theorem Inv.step (h : c.Inv) {action : ClientAction} (hcondition : c.FailsDrained action)
    (hstep : c.step action = .ok c') : c'.Inv := by
  have hoption : c.stepOption action = some c' := by
    unfold ExecServerClient.step at hstep
    split at hstep
    · rename_i hc
      cases hstep
      exact hc
    · cases hstep
  unfold stepOption at hoption
  split at hoption
  · cases hoption
    exact h.registerSession _
  · cases hoption
    exact h.removeSession _
  · rename_i event
    split at hoption
    · cases hoption
    · cases hoption
      cases event with
      | notification n | disconnected reason => exact h.queued rfl rfl rfl rfl rfl rfl
  · cases hoption
    exact h.queued rfl rfl rfl rfl rfl (append_nil _).symm
  · exact h.readerStep hoption
  · rename_i session
    unfold ExecServerClient.failSession at hoption
    split at hoption
    · rename_i hreader
      split at hoption
      · rename_i hmem
        cases hoption
        exact h.readerFails hreader hmem
      · cases hoption
    · cases hoption
  · exact h.readStep hcondition hoption

end

/-- No session publishes anything behind its failure, nor a failure behind its close, as
long as each read that fails its session first finds it drained and not closed. -/
theorem failure_terminal {actions pre : List ClientAction} {c : ExecServerClient}
    (hdrained : Along step FailsDrained new actions) (hpre : pre <+: actions)
    (hrun : pre.foldlM step new = .ok c) (session : ℕ) : Terminal (c.states session).events := by
  have h : c.Inv :=
    run_keeps_along (fun u a v hu hcond hv => hu.step hcond hv) Inv.new hdrained hpre hrun
  exact (h.session session).terminal

/-! ## A read that does not wait -/

def firstOutput : ProcessNotification := ⟨['p'], .output ⟨1, .stdout, [111]⟩,
  ExecProcessEvent.numbered_output _⟩

def onlyClose : ProcessNotification := ⟨['p'], .closed 1,
  ExecProcessEvent.numbered_closed _⟩

def failingRead : List ClientAction :=
  [.read 0, .start 0, .returns 0 (.error .closed), .setFailure 0, .publishFailed 0]

def lateOutput : List ClientAction :=
  [.register ['p'], .arrive (.notification (.process firstOutput)), .closeTransport] ++
    failingRead ++ [.reader, .reader]

def readBehindClose : List ClientAction :=
  [.register ['p'], .arrive (.notification (.process onlyClose)), .reader, .reader, .reader,
    .closeTransport] ++ failingRead

theorem read_fails_early : (∃ c, lateOutput.foldlM step new = .ok c ∧
      (c.states 0).events = [.failed (disconnectedMessage none), firstOutput.event] ∧
      ¬ Terminal (c.states 0).events) ∧
    ∃ c, readBehindClose.foldlM step new = .ok c ∧
      (c.states 0).events = [onlyClose.event, .failed (disconnectedMessage none)] ∧
      ¬ Terminal (c.states 0).events := by
  refine ⟨⟨_, rfl, rfl, fun h => ?_⟩, ⟨_, rfl, rfl, fun h => ?_⟩⟩
  · obtain ⟨hafter, -⟩ := h [] (disconnectedMessage none) [firstOutput.event] rfl
    cases hafter
  · obtain ⟨-, hopen⟩ := h [onlyClose.event] (disconnectedMessage none) [] rfl
    cases hopen

def patientRead : List ClientAction :=
  [.register ['p'], .arrive (.notification (.process firstOutput)), .arrive (.disconnected none),
    .reader, .reader, .reader, .read 0, .start 0, .returns 0 (.error .closed)]

def restOfRead : List ClientAction :=
  [.setFailure 0, .publishFailed 0, .reader, .reader, .failSession 0, .reader]

theorem failure_terminal_patientRead : ∃ c, (patientRead ++ restOfRead).foldlM step new = .ok c ∧
      (c.states 0).events = [firstOutput.event, .failed (disconnectedMessage none)] ∧
      Terminal (c.states 0).events := by
  have hdrained : Along step FailsDrained new (patientRead ++ restOfRead) := by
    refine Along.append (Along.of_forall ?_ _) fun u hu => ?_
    · simp [patientRead, FailsDrained]
    · cases hu
      refine ⟨fun session hcall _ => ?_, fun t _ => Along.of_forall ?_ t⟩
      · cases hcall
        refine ⟨⟨rfl, .inr (.inr ⟨[], .disconnected none, [], rfl, rfl, fun n hn => ?_⟩)⟩, rfl⟩
        cases hn
      · simp [FailsDrained]
  exact ⟨_, rfl, rfl, failure_terminal hdrained prefix_rfl rfl 0⟩

end ExecServerClient

end Codex.ExecServer
