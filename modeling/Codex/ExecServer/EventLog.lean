import Codex.ExecServer.LocalProcess
import Codex.Foundation.Retention
import Codex.Foundation.Utf8

/-!
# The event log of a process

A new subscriber is given the history, and then what is published. Both are taken under the
lock that a publication holds, so what it is to receive is one part of what was published
(`Observer.Follows`).
-/

namespace Codex.ExecServer

open Foundation List

/-! ## The log -/

def ExecProcessEvent.retainedLen : ExecProcessEvent → ℕ
  | .output chunk => chunk.chunk.length
  | .failed message => (utf8 message).length
  | .exited _ _ => 0
  | .closed _ => 0

structure ExecProcessEventHistory where
  events : List ExecProcessEvent := []
  retainedBytes : ℕ := 0

structure ExecProcessEventLog where
  history : ExecProcessEventHistory
  liveTx : Broadcast ExecProcessEvent
  eventCapacity : ℕ
  byteCapacity : ℕ

structure ExecProcessEventReceiver where
  replay : List ExecProcessEvent
  /-- The place of `live_rx` in its channel. -/
  liveRx : ℕ

namespace ExecProcessEventLog

/-- A channel may hold more than it was asked for. -/
def new (eventCapacity byteCapacity liveCapacity : ℕ) : ExecProcessEventLog :=
  ⟨{}, ⟨[], liveCapacity⟩, eventCapacity, byteCapacity⟩

def limits (log : ExecProcessEventLog) : Limits := ⟨log.eventCapacity, log.byteCapacity⟩

def publish (log : ExecProcessEventLog) (event : ExecProcessEvent) : ExecProcessEventLog :=
  let retainedBytes := log.history.retainedBytes + event.retainedLen
  let (events, retainedBytes) := evict ExecProcessEvent.retainedLen log.limits
    (log.history.events ++ [event]) retainedBytes
  { log with history := ⟨events, retainedBytes⟩, liveTx := log.liveTx.send event }

def subscribe (log : ExecProcessEventLog) : ExecProcessEventReceiver :=
  ⟨log.history.events, log.liveTx.subscribe⟩

end ExecProcessEventLog

def ExecProcessEventReceiver.recv (rx : ExecProcessEventReceiver) (log : ExecProcessEventLog) :
    Received ExecProcessEvent × ExecProcessEventReceiver :=
  match rx.replay with
  | event :: replay => (.value event, { rx with replay := replay })
  | [] =>
    let (received, liveRx) := log.liveTx.recv rx.liveRx
    (received, { rx with liveRx := liveRx })

/-! ## Subscribers -/

/-- A subscriber: when it subscribed, where the history began then, and what it was given
since. -/
structure Observer where
  receiver : ExecProcessEventReceiver
  subscribedAt : ℕ
  start : ℕ
  returned : List ExecProcessEvent
  lagged : Bool

structure World where
  log : ExecProcessEventLog
  published : List ExecProcessEvent
  observers : List Observer

inductive Access
  | publish (event : ExecProcessEvent)
  | subscribe
  | recv (observer : ℕ)
deriving DecidableEq

def Observer.recv (o : Observer) (log : ExecProcessEventLog) : Observer :=
  let (received, receiver) := o.receiver.recv log
  match received with
  | .value event => { o with receiver := receiver, returned := o.returned ++ [event] }
  | .lagged _ => { o with receiver := receiver, lagged := true }
  | .pending => { o with receiver := receiver }

namespace World

def new (eventCapacity byteCapacity liveCapacity : ℕ) : World :=
  ⟨.new eventCapacity byteCapacity liveCapacity, [], []⟩

/-- Each access is under the lock of the history, or is that of one receiver. -/
def access (w : World) : Access → World
  | .publish event =>
    { w with log := w.log.publish event, published := w.published ++ [event] }
  | .subscribe =>
    { w with
      observers := w.observers ++ [{
        receiver := w.log.subscribe
        subscribedAt := w.published.length
        start := w.published.length - w.log.history.events.length
        returned := []
        lagged := false }] }
  | .recv i => { w with observers := w.observers.modify i fun o => o.recv w.log }

end World

/-! ## What is kept -/

/-- The history is what the limits retain of the events so far. -/
structure Retains (w : World) : Prop where
  history : LongestSuffix ExecProcessEvent.retainedLen w.log.limits w.published w.log.history.events
  bytes : w.log.history.retainedBytes = weightOf ExecProcessEvent.retainedLen w.log.history.events
  sent : w.log.liveTx.sent = w.published

/-- What an observer was given and is to be given are the events from the start of its
history, unless it has missed some. -/
structure Observer.Follows (o : Observer) (limits : Limits) (published : List ExecProcessEvent) :
    Prop where
  subscribed : o.subscribedAt ≤ published.length
  history : LongestSuffix ExecProcessEvent.retainedLen limits (published.take o.subscribedAt)
    ((published.take o.subscribedAt).drop o.start)
  place : o.receiver.liveRx ≤ published.length
  events : o.lagged = false →
    o.returned ++ o.receiver.replay ++ published.drop o.receiver.liveRx = published.drop o.start
  start : o.start ≤ o.subscribedAt

theorem Retains.publish {w : World} (h : Retains w) (event : ExecProcessEvent) :
    Retains (w.access (.publish event)) := by
  have hbytes : w.log.history.retainedBytes + event.retainedLen =
      weightOf ExecProcessEvent.retainedLen (w.log.history.events ++ [event]) := by
    rw [h.bytes]
    simp
  obtain ⟨hlongest, htotal⟩ := evict_longest ExecProcessEvent.retainedLen w.log.limits
    (w.log.history.events ++ [event])
  have hpublish : (w.log.publish event).history =
      ⟨(evict ExecProcessEvent.retainedLen w.log.limits (w.log.history.events ++ [event])
          (weightOf ExecProcessEvent.retainedLen (w.log.history.events ++ [event]))).1,
        (evict ExecProcessEvent.retainedLen w.log.limits (w.log.history.events ++ [event])
          (weightOf ExecProcessEvent.retainedLen (w.log.history.events ++ [event]))).2⟩ := by
    unfold ExecProcessEventLog.publish
    rw [hbytes]
  refine ⟨?_, ?_, ?_⟩
  · exact hpublish ▸ h.history.push event hlongest
  · exact hpublish ▸ htotal
  · exact congrArg (· ++ [event]) h.sent

namespace Observer.Follows

variable {o : Observer} {limits : Limits} {published : List ExecProcessEvent}

theorem publish (h : o.Follows limits published) (event : ExecProcessEvent) :
    o.Follows limits (published ++ [event]) := by
  have hlen : published.length ≤ (published ++ [event]).length := by simp
  refine ⟨h.subscribed.trans hlen, ?_, h.place.trans hlen, fun hlag => ?_, h.start⟩
  · rw [take_append_of_le_length h.subscribed]
    exact h.history
  · rw [drop_append_of_le_length h.place,
      drop_append_of_le_length (h.start.trans h.subscribed), ← h.events hlag]
    simp

theorem recv {log : ExecProcessEventLog} (h : o.Follows limits published)
    (hsent : log.liveTx.sent = published) : (o.recv log).Follows limits published := by
  obtain ⟨⟨replay, liveRx⟩, subscribedAt, start, returned, lagged⟩ := o
  obtain ⟨hsubscribed, hhistory, hplace, hevents, hstart⟩ := h
  unfold Observer.recv ExecProcessEventReceiver.recv
  cases replay with
  | cons event replay =>
    refine ⟨hsubscribed, hhistory, hplace, fun hlag => ?_, hstart⟩
    rw [← hevents hlag]
    simp
  | nil =>
    have hnext : (log.liveTx.recv liveRx).2 ≤ published.length :=
      hsent ▸ Broadcast.recv_place_le (hsent.symm ▸ hplace)
    dsimp only
    cases hrecv : (log.liveTx.recv liveRx).1 with
    | value event =>
      have hdrop := Broadcast.drop_of_value hrecv
      rw [hsent] at hdrop
      refine ⟨hsubscribed, hhistory, hnext, fun hlag => ?_, hstart⟩
      have hall := hevents hlag
      rw [hdrop] at hall
      rw [← hall]
      simp
    | lagged missed => exact ⟨hsubscribed, hhistory, hnext, fun hlag => absurd hlag (by simp), hstart⟩
    | pending =>
      refine ⟨hsubscribed, hhistory, hnext, fun hlag => ?_, hstart⟩
      rw [(Broadcast.drop_of_pending hrecv).2]
      exact hevents hlag

theorem of_subscribe {w : World} (h : Retains w) : Observer.Follows
      { receiver := w.log.subscribe
        subscribedAt := w.published.length
        start := w.published.length - w.log.history.events.length
        returned := []
        lagged := false } w.log.limits w.published := by
  have hdrop : w.published.drop (w.published.length - w.log.history.events.length) =
      w.log.history.events := (suffix_iff_eq_drop.mp h.history.suffix).symm
  refine ⟨le_refl _, ?_, ?_, fun _ => ?_, Nat.sub_le _ _⟩
  · rw [take_length, hdrop]
    exact h.history
  · exact (congrArg List.length h.sent).le
  · change [] ++ w.log.history.events ++ w.published.drop w.log.liveTx.sent.length = _
    rw [h.sent, drop_length, hdrop]
    simp

end Observer.Follows

/-! ## Whole runs -/

/-- The events an observer was given, until it missed some, are those from the oldest one
retained at its subscription on, and all of them when it is given no more. -/
structure Observer.Gapless (o : Observer) (w : World) : Prop where
  oldest : LongestSuffix ExecProcessEvent.retainedLen w.log.limits
    (w.published.take o.subscribedAt) ((w.published.take o.subscribedAt).drop o.start)
  contiguous : o.lagged = false → o.returned <+: w.published.drop o.start
  complete : o.lagged = false → (o.receiver.recv w.log).1 = .pending →
    o.returned = w.published.drop o.start

theorem Observer.Follows.gapless {o : Observer} {w : World} (h : Retains w)
    (ho : o.Follows w.log.limits w.published) : o.Gapless w := by
  refine ⟨ho.history, fun hlag => ?_, fun hlag hpending => ?_⟩
  · rw [← ho.events hlag, List.append_assoc]
    exact prefix_append _ _
  · rw [← ho.events hlag]
    unfold ExecProcessEventReceiver.recv at hpending
    split at hpending
    · cases hpending
    · next hreplay =>
      have hdrop := (Broadcast.drop_of_pending hpending).1
      rw [h.sent] at hdrop
      rw [hreplay, hdrop]
      simp

theorem access_keeps {w : World} (h : Retains w)
    (ho : ∀ o ∈ w.observers, o.Follows w.log.limits w.published) (a : Access) :
    Retains (w.access a) ∧ (w.access a).log.limits = w.log.limits ∧
      ∀ o ∈ (w.access a).observers, o.Follows w.log.limits (w.access a).published := by
  cases a with
  | publish event => exact ⟨h.publish event, rfl, fun o hmem => (ho o hmem).publish event⟩
  | subscribe =>
    refine ⟨⟨h.history, h.bytes, h.sent⟩, rfl, fun o hmem => ?_⟩
    rcases mem_append.mp hmem with hmem | hmem
    · exact ho o hmem
    · rw [mem_singleton.mp hmem]
      exact .of_subscribe h
  | recv i =>
    refine ⟨⟨h.history, h.bytes, h.sent⟩, rfl, fun o hmem => ?_⟩
    obtain ⟨j, hj⟩ := mem_iff_getElem?.mp hmem
    change (w.observers.modify i fun o => o.recv w.log)[j]? = some o at hj
    rw [List.getElem?_modify] at hj
    obtain ⟨old, hold, rfl⟩ := Option.map_eq_some_iff.mp hj
    have hfollows := ho old (mem_of_getElem? hold)
    split
    · exact hfollows.recv h.sent
    · exact hfollows

/-- In every interleaving the history is what the limits retain of the events, and no
subscriber sees a gap or an event twice. -/
theorem eventLog_gapless (eventCapacity byteCapacity liveCapacity : ℕ) (accesses : List Access) :
    let w := accesses.foldl World.access (.new eventCapacity byteCapacity liveCapacity)
    LongestSuffix ExecProcessEvent.retainedLen ⟨eventCapacity, byteCapacity⟩ w.published
        w.log.history.events ∧
      ∀ o ∈ w.observers, o.Gapless w := by
  have hkeeps : ∀ w : World, Retains w →
      (∀ o ∈ w.observers, o.Follows w.log.limits w.published) →
      let v := accesses.foldl World.access w
      Retains v ∧ v.log.limits = w.log.limits ∧
        ∀ o ∈ v.observers, o.Follows v.log.limits v.published := by
    induction accesses with
    | nil => exact fun w h ho => ⟨h, rfl, ho⟩
    | cons a accesses ih =>
      intro w h ho
      obtain ⟨h', hlimits, ho'⟩ := access_keeps h ho a
      obtain ⟨hv, hvlimits, hov⟩ := ih (w.access a) h' (hlimits.symm ▸ ho')
      exact ⟨hv, hvlimits.trans hlimits, hov⟩
  obtain ⟨hw, hlimits, hobservers⟩ := hkeeps (.new eventCapacity byteCapacity liveCapacity)
    ⟨longestSuffix_nil, rfl, rfl⟩ (forall_mem_nil _)
  have hhistory := hw.history
  rw [hlimits] at hhistory
  exact ⟨hhistory, fun o ho => (hobservers o ho).gapless hw⟩

end Codex.ExecServer
