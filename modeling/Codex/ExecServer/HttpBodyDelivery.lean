import Codex.ExecServer.HttpBody
import Codex.Foundation.Run

/-!
# No body is cut short in silence

A request looks at the client through its own stream, its place with the reader task, its
route, its deltas in the queue and its failure. While the stream goes on, what was sent is
what was read, what waits in the channel and a rest. The rest is still on its way, or the
channel ends with an error, or a failure is recorded before the channel can close.
-/

namespace Codex.ExecServer

open Foundation List Function Option

def chunks : List Received → List (List UInt8)
  | .ok (some chunk) :: rest => chunk :: chunks rest
  | _ => []

def outcome : List Received → Option Received
  | .ok (some _) :: rest => outcome rest
  | r :: _ => some r
  | [] => none

variable {returned : List Received}

theorem chunks_append_of_outcome {r : Received} (h : outcome returned = some r)
    (more : List Received) :
    chunks (returned ++ more) = chunks returned ∧ outcome (returned ++ more) = some r := by
  induction returned with
  | nil => cases h
  | cons x rest ih =>
    cases x with
    | error e => simpa [chunks, outcome] using h
    | ok o =>
      cases o with
      | none => simpa [chunks, outcome] using h
      | some chunk =>
        obtain ⟨hc, ho⟩ := ih h
        simp [chunks, outcome, hc, ho]

theorem chunks_append (h : outcome returned = none) (more : List Received) :
    chunks (returned ++ more) = chunks returned ++ chunks more ∧
      outcome (returned ++ more) = outcome more := by
  induction returned with
  | nil => simp [chunks]
  | cons x rest ih =>
    cases x with
    | error e => cases h
    | ok o =>
      cases o with
      | none => cases h
      | some chunk =>
        obtain ⟨hc, ho⟩ := ih h
        simp [chunks, outcome, hc, ho]

/-! ## What a body is -/

def Numbered (sent : List HttpRequestBodyDelta) : Prop :=
  ∀ before delta after, sent = before ++ delta :: after →
    delta.seq = before.length + 1 ∧ (delta.terminal = true → after = [])

theorem numbered_nil : Numbered [] := by
  intro before delta after h
  simp at h

variable {delta : HttpRequestBodyDelta}

theorem Numbered.snoc {sent : List HttpRequestBodyDelta} (h : Numbered sent)
    (hseq : delta.seq = sent.length + 1) (hlast : ∀ last ∈ sent.getLast?, last.terminal = false) :
    Numbered (sent ++ [delta]) := by
  intro before d after he
  rcases append_eq_append_iff.mp he with ⟨between, rfl, hd⟩ | ⟨between, hsent, hd⟩
  · cases between with
    | nil =>
      cases hd
      exact ⟨by simpa using hseq, fun _ => rfl⟩
    | cons e rest => simp at hd
  · cases between with
    | nil =>
      cases hd
      exact ⟨by simpa [hsent] using hseq, fun _ => rfl⟩
    | cons e rest =>
      obtain ⟨rfl, rfl⟩ : d = e ∧ after = rest ++ [delta] := by simpa using hd
      obtain ⟨hd', hterminal⟩ := h before d rest hsent
      refine ⟨hd', fun ht => ?_⟩
      have hnil := hterminal ht
      subst hnil
      have hopen := hlast d (by simp [hsent])
      rw [ht] at hopen
      cases hopen

def Ended (sent : List HttpRequestBodyDelta) : Prop :=
  ∃ body last, sent = body ++ [last] ∧ last.done = true ∧ last.error = none

theorem Ended.last {sent : List HttpRequestBodyDelta} (h : Ended sent) :
    ¬∀ last ∈ sent.getLast?, last.terminal = false := by
  obtain ⟨body, last, rfl, hdone, -⟩ := h
  intro hlast
  have := hlast last (by simp)
  simp [HttpRequestBodyDelta.terminal, hdone] at this

/-- All that was sent has been delivered. A last delta without contents is not returned. -/
def Delivered (sent : List HttpRequestBodyDelta) (got : List (List UInt8)) : Prop :=
  ∃ body last, sent = body ++ [last] ∧ last.done = true ∧ last.error = none ∧
    (got = sent.map (·.delta) ∨ last.delta = [] ∧ got = body.map (·.delta))

theorem Delivered.ended {sent : List HttpRequestBodyDelta} {got : List (List UInt8)}
    (h : Delivered sent got) : Ended sent := by
  obtain ⟨body, last, hsent, hdone, herror, -⟩ := h
  exact ⟨body, last, hsent, hdone, herror⟩

def Sound (sent : List HttpRequestBodyDelta) (returned : List Received) : Prop :=
  chunks returned <+: sent.map (·.delta) ∧
    (outcome returned = some (.ok none) → Delivered sent (chunks returned))

def Complete (sent : List HttpRequestBodyDelta) (returned : List Received) : Prop :=
  Ended sent ∧ outcome returned = none ∧ chunks returned = sent.map (·.delta)

theorem sound_nil : Sound [] [] := by
  simp [Sound, chunks, outcome]

theorem Sound.of_outcome {sent : List HttpRequestBodyDelta} (h : Sound sent returned)
    (houtcome : outcome returned ≠ none) (more : List Received) :
    Sound sent (returned ++ more) := by
  obtain ⟨r, hr⟩ := ne_none_iff_exists'.mp houtcome
  obtain ⟨hc, ho⟩ := chunks_append_of_outcome hr more
  unfold Sound
  rw [hc, ho, ← hr]
  exact h

theorem Sound.error {sent : List HttpRequestBodyDelta} (h : Sound sent returned) (message : Text) :
    Sound sent (returned ++ [.error message]) := by
  by_cases houtcome : outcome returned = none
  · obtain ⟨hc, ho⟩ := chunks_append houtcome [.error message]
    unfold Sound
    rw [hc, ho]
    simpa [chunks, outcome] using h.1
  · exact h.of_outcome houtcome _

theorem Sound.send {sent : List HttpRequestBodyDelta} (h : Sound sent returned)
    (hlast : ∀ last ∈ sent.getLast?, last.terminal = false) (delta : HttpRequestBodyDelta) :
    Sound (sent ++ [delta]) returned := by
  constructor
  · rw [map_append]
    exact h.1.trans (prefix_append _ _)
  · intro hnone
    exact absurd hlast (h.2 hnone).ended.last

theorem Complete.sound_end {sent : List HttpRequestBodyDelta} (h : Complete sent returned) :
    Sound sent (returned ++ [.ok none]) := by
  obtain ⟨⟨body, last, hsent, hdone, herror⟩, houtcome, hchunks⟩ := h
  obtain ⟨hc, -⟩ := chunks_append houtcome [.ok none]
  have hgot : chunks (returned ++ [.ok none]) = sent.map (·.delta) := by
    rw [hc, hchunks]
    simp [chunks]
  exact ⟨by rw [hgot], fun _ => ⟨body, last, hsent, hdone, herror, .inl hgot⟩⟩

/-! ## The view of a request -/

inductive Place where
  | away
  | sending (delta : HttpRequestBodyDelta)
  | recording
  | removing
  | failing

def BodyReader.place (request : ℕ) : BodyReader → Place
  | .sending delta => if delta.request = request then .sending delta else .away
  | .recording request' => if request' = request then .recording else .away
  | .removing request' => if request' = request then .removing else .away
  | .failing _ requests => if request ∈ requests then .failing else .away
  | .recordingFailed _ request' requests =>
    if request' = request ∨ request ∈ requests then .failing else .away
  | _ => .away

variable {request : ℕ}

theorem BodyReader.place_of_not_holds {reader : BodyReader} (h : reader.holds request = false) :
    reader.place request = .away := by
  cases reader <;> simp_all [BodyReader.holds, BodyReader.place]

@[ext]
structure StreamView where
  born : Bool
  stream : BodyStream
  place : Place
  routed : Bool
  queued : List HttpRequestBodyDelta
  failed : Bool

def HttpEvent.deltaOf (request : ℕ) : HttpEvent → Option HttpRequestBodyDelta
  | .delta sent => if sent.request = request then some sent else none
  | _ => none

def HttpClient.view (c : HttpClient) (request : ℕ) : StreamView where
  born := request < c.registered
  stream := c.streams request
  place := c.reader.place request
  routed := request ∈ c.routes
  queued := c.queue.filterMap (·.deltaOf request)
  failed := (c.failures.lookup request).isSome

inductive StreamView.Step (v : StreamView) : StreamView → Prop
  | stay : Step v v
  | started (capacity : ℕ) (hborn : v.born = false) :
    Step v { v with born := true, stream := .new capacity, routed := true, failed := false }
  | responded (hborn : v.born = true) : Step v { v with stream := { v.stream with opened := true } }
  | sent (delta : HttpRequestBodyDelta) (hborn : v.born = true)
    (hseq : delta.seq = v.stream.sent.length + 1)
    (hlast : ∀ last ∈ v.stream.sent.getLast?, last.terminal = false) :
    Step v { v with
      stream := { v.stream with sent := v.stream.sent ++ [delta] }
      queued := v.queued ++ [delta] }
  | dropped (routed : Bool)
    (h : v.born = true ∨ v.stream.opened = true ∨ v.stream.dropped = true) :
    Step v { v with stream := { v.stream with dropped := true }, routed := routed }
  | skipped (delta : HttpRequestBodyDelta) (queued : List HttpRequestBodyDelta)
    (hplace : v.place = .away) (hqueued : v.queued = delta :: queued) (hrouted : v.routed = false) :
    Step v { v with queued := queued }
  | taken (delta : HttpRequestBodyDelta) (queued : List HttpRequestBodyDelta)
    (hplace : v.place = .away) (hqueued : v.queued = delta :: queued) (hrouted : v.routed = true) :
    Step v { v with place := .sending delta, queued := queued }
  | pushed (delta : HttpRequestBodyDelta) (hplace : v.place = .sending delta) :
    Step v { v with
      stream := { v.stream with channel := v.stream.channel ++ [delta] }
      place := if delta.terminal then .removing else .away }
  | refused (delta : HttpRequestBodyDelta) (hplace : v.place = .sending delta)
    (hdropped : v.stream.dropped = true) : Step v { v with place := .removing }
  | filled (delta : HttpRequestBodyDelta) (hplace : v.place = .sending delta) :
    Step v { v with place := .recording }
  | recorded (hplace : v.place = .recording) :
    Step v { v with place := .removing, failed := true }
  | removed (hplace : v.place = .removing) : Step v { v with place := .away, routed := false }
  | drained (hplace : v.place = .away) :
    Step v { v with place := if v.routed then .failing else .away, routed := false }
  | failedDelta (delta : HttpRequestBodyDelta) (herror : delta.error.isSome = true)
    (hplace : v.place = .failing) :
    Step v { v with
      stream := { v.stream with channel := v.stream.channel ++ [delta] }
      place := .away }
  | recordedFailed (again : Bool) (hplace : v.place = .failing) :
    Step v { v with place := if again then .failing else .away, failed := true }
  | read (delta : HttpRequestBodyDelta) (channel : List HttpRequestBodyDelta)
    (hopened : v.stream.opened = true) (hdropped : v.stream.dropped = false)
    (hrecv : v.stream.recv = .idle) (hpending : v.stream.pendingEof = false)
    (hchannel : v.stream.channel = delta :: channel) :
    Step v { v with stream := { v.stream with channel := channel }.receive delta }
  | ended (hopened : v.stream.opened = true) (hdropped : v.stream.dropped = false)
    (hrecv : v.stream.recv = .idle) (hpending : v.stream.pendingEof = true) :
    Step v { v with
      stream := { v.stream with pendingEof := false }.finish (.ok none) false }
  | closed (closed : Bool) (recv : Recv) (hopened : v.stream.opened = true)
    (hdropped : v.stream.dropped = false) (hrecv : v.stream.recv = .idle)
    (hpending : v.stream.pendingEof = false) (hchannel : v.stream.channel = [])
    (hplace : v.place = .away) (hrouted : v.routed = false)
    (hnext : recv = .finishingClosed ∨ recv = .takingFailure) :
    Step v { v with stream := { v.stream with closed := closed, recv := recv } }
  | finished (result : Received) (pendingEof : Bool) (hopened : v.stream.opened = true)
    (hdropped : v.stream.dropped = false) (hrecv : v.stream.recv = .finishing result pendingEof) :
    Step v { v with
      stream := { v.stream with
        recv := .idle, returned := v.stream.returned ++ [result], pendingEof := pendingEof }
      routed := false }
  | finishedClosed (hopened : v.stream.opened = true) (hdropped : v.stream.dropped = false)
    (hrecv : v.stream.recv = .finishingClosed) :
    Step v { v with stream := { v.stream with recv := .takingFailure }, routed := false }
  | tookFailure (error : Text) (hopened : v.stream.opened = true)
    (hdropped : v.stream.dropped = false) (hrecv : v.stream.recv = .takingFailure) :
    Step v { v with
      stream := { v.stream with
        recv := .idle, returned := v.stream.returned ++ [.error error] }
      failed := false }
  | tookNothing (hopened : v.stream.opened = true) (hdropped : v.stream.dropped = false)
    (hrecv : v.stream.recv = .takingFailure) (hfailed : v.failed = false) :
    Step v { v with
      stream := { v.stream with recv := .idle, returned := v.stream.returned ++ [.ok none] } }

/-! ## The invariant -/

/-- What was sent is what was read, what waits in the channel and a rest. The reader task
has put synthetic deltas behind what waits. -/
structure BodyStream.Flow (s : BodyStream)
    (read waiting rest synthetic : List HttpRequestBodyDelta) : Prop where
  sent : s.sent = read ++ waiting ++ rest
  channel : s.channel = waiting ++ synthetic
  nextSeq : s.nextSeq = read.length + 1
  chunks : chunks s.returned = read.map (·.delta)
  errors : ∀ delta ∈ synthetic, delta.error.isSome = true

/-- When the channel closes, the consumer finds an error, a failure or the end. -/
def StreamView.Closes (v : StreamView) (waiting synthetic : List HttpRequestBodyDelta) : Prop :=
  synthetic ≠ [] ∨ v.failed = true ∨ ∃ delta ∈ waiting, delta.terminal = true

def StreamView.Owes (v : StreamView) (waiting rest synthetic : List HttpRequestBodyDelta) : Prop :=
  match v.place with
  | .away => if v.routed then rest = v.queued ∧ synthetic = [] else v.Closes waiting synthetic
  | .sending delta => v.routed = true ∧ rest = delta :: v.queued ∧ synthetic = []
  | .recording => True
  | .removing => v.Closes waiting synthetic
  | .failing => v.routed = false

def StreamView.Goes (v : StreamView) : Prop :=
  match v.stream.recv with
  | .idle =>
    if v.stream.pendingEof then Complete v.stream.sent v.stream.returned
    else ∃ read waiting rest synthetic,
      v.stream.Flow read waiting rest synthetic ∧ v.Owes waiting rest synthetic
  | .finishing result pendingEof =>
    Sound v.stream.sent (v.stream.returned ++ [result]) ∧
      (outcome (v.stream.returned ++ [result]) = none →
        pendingEof = true ∧ Complete v.stream.sent (v.stream.returned ++ [result]))
  | .finishingClosed => v.failed = true
  | .takingFailure => v.failed = true

structure StreamView.Good (v : StreamView) : Prop where
  numbered : Numbered v.stream.sent
  sound : Sound v.stream.sent v.stream.returned
  goes : v.born = true → v.stream.dropped = false → outcome v.stream.returned = none → v.Goes
  unborn : v.born = false →
    v.place = .away ∧ v.routed = false ∧ v.queued = [] ∧ v.stream.opened = false ∧
      v.stream.dropped = false

variable {s : BodyStream}

namespace StreamView

variable {v v' : StreamView}

theorem Good.born_of_place (h : v.Good) (hplace : v.place ≠ .away) : v.born = true := by
  by_contra hborn
  exact hplace (h.unborn (by simpa using hborn)).1

theorem Good.born_of_queued (h : v.Good) (hqueued : v.queued ≠ []) : v.born = true := by
  by_contra hborn
  exact hqueued (h.unborn (by simpa using hborn)).2.2.1

theorem Good.born_of_opened (h : v.Good) (hopened : v.stream.opened = true) : v.born = true := by
  by_contra hborn
  have := (h.unborn (by simpa using hborn)).2.2.2.1
  rw [hopened] at this
  cases this

theorem Good.of_born (hborn : v.born = true) (hnumbered : Numbered v.stream.sent)
    (hsound : Sound v.stream.sent v.stream.returned)
    (hgoes : v.stream.dropped = false → outcome v.stream.returned = none → v.Goes) : v.Good :=
  ⟨hnumbered, hsound, fun _ => hgoes, fun hunborn => nomatch hborn.symm.trans hunborn⟩

theorem Good.map (h : v.Good) (hborn : v.born = true) (hborn' : v'.born = true)
    (hsent : v'.stream.sent = v.stream.sent) (hreturned : v'.stream.returned = v.stream.returned)
    (hdropped : v'.stream.dropped = v.stream.dropped) (hrecv : v'.stream.recv = v.stream.recv)
    (hpending : v'.stream.pendingEof = v.stream.pendingEof)
    (hfailed : v.failed = true → v'.failed = true)
    (hflow : ∀ read waiting rest synthetic, v.stream.Flow read waiting rest synthetic →
      v.Owes waiting rest synthetic → ∃ waiting' rest' synthetic',
        v'.stream.Flow read waiting' rest' synthetic' ∧ v'.Owes waiting' rest' synthetic') :
    v'.Good := by
  refine .of_born hborn' (hsent ▸ h.numbered) (hsent ▸ hreturned ▸ h.sound) ?_
  intro hopen houtcome
  rw [hdropped] at hopen
  rw [hreturned] at houtcome
  have hgoes := h.goes hborn hopen houtcome
  unfold Goes at hgoes ⊢
  rw [hrecv, hpending, hsent, hreturned]
  cases hr : v.stream.recv <;> simp only [hr] at hgoes ⊢
  · by_cases hp : v.stream.pendingEof = true
    · simpa [hp] using hgoes
    · simp only [hp, Bool.false_eq_true, if_false] at hgoes ⊢
      obtain ⟨read, waiting, rest, synthetic, hf, ho⟩ := hgoes
      exact ⟨read, hflow read waiting rest synthetic hf ho⟩
  · exact hgoes
  · exact hfailed hgoes
  · exact hfailed hgoes

theorem Good.move (h : v.Good) (hborn : v.born = true) (hborn' : v'.born = true)
    (hstream : v'.stream = v.stream)
    (howes : ∀ waiting rest synthetic, v.Owes waiting rest synthetic →
      v'.Owes waiting rest synthetic) (hfailed : v.failed = true → v'.failed = true) : v'.Good := by
  apply h.map hborn hborn' (by rw [hstream]) (by rw [hstream]) (by rw [hstream]) (by rw [hstream])
    (by rw [hstream]) hfailed
  intro read waiting rest synthetic hf ho
  exact ⟨waiting, rest, synthetic, hstream ▸ hf, howes _ _ _ ho⟩

theorem Good.of_dropped (hnumbered : Numbered v.stream.sent)
    (hsound : Sound v.stream.sent v.stream.returned) (hborn : v.born = true)
    (hdropped : v.stream.dropped = true) : v.Good :=
  .of_born hborn hnumbered hsound fun hdropped' => nomatch hdropped.symm.trans hdropped'

/-! ## The consumer -/

theorem Good.of_outcome (h : v.Good) (hborn : v'.born = true)
    (houtcome : outcome v.stream.returned ≠ none) (hsent : v'.stream.sent = v.stream.sent)
    (hreturned : ∃ more, v'.stream.returned = v.stream.returned ++ more) : v'.Good := by
  obtain ⟨more, hmore⟩ := hreturned
  obtain ⟨r, hr⟩ := ne_none_iff_exists'.mp houtcome
  obtain ⟨-, ho⟩ := chunks_append_of_outcome hr more
  refine .of_born hborn (hsent ▸ h.numbered) ?_ ?_
  · rw [hsent, hmore]
    exact h.sound.of_outcome houtcome more
  · intro _ hnone
    rw [hmore, ho] at hnone
    cases hnone

theorem Good.finish (h : v.Good) (hborn : v.born = true) (hsent : s.sent = v.stream.sent)
    (hreturned : s.returned = v.stream.returned) (hrecv : s.recv = .idle) {result : Received}
    {pendingEof : Bool} (hsound : Sound v.stream.sent (v.stream.returned ++ [result]))
    (hend : outcome (v.stream.returned ++ [result]) = none →
      pendingEof = true ∧ Complete v.stream.sent (v.stream.returned ++ [result])) :
    { v with stream := s.finish result pendingEof }.Good := by
  unfold BodyStream.finish
  by_cases hclosed : s.closed = true
  · simp only [hclosed, if_true]
    refine .of_born hborn (by simpa [hsent] using h.numbered) ?_ ?_
    · simpa [hsent, hreturned] using hsound
    · intro _ houtcome
      simp only [hreturned] at houtcome
      obtain ⟨hpending, hcomplete⟩ := hend houtcome
      simpa [Goes, hrecv, hpending, hsent, hreturned] using hcomplete
  · simp only [hclosed, Bool.false_eq_true, if_false]
    refine .of_born hborn (by simpa [hsent] using h.numbered) ?_ ?_
    · simpa [hsent, hreturned] using h.sound
    · intro _ _
      simpa [Goes, hsent, hreturned] using And.intro hsound hend

theorem Good.finish_error (h : v.Good) (hborn : v.born = true) (hsent : s.sent = v.stream.sent)
    (hreturned : s.returned = v.stream.returned) (hrecv : s.recv = .idle) (message : Text)
    (pendingEof : Bool) : { v with stream := s.finish (.error message) pendingEof }.Good := by
  apply h.finish hborn hsent hreturned hrecv (h.sound.error message)
  intro hnone
  by_cases houtcome : outcome v.stream.returned = none
  · rw [(chunks_append houtcome _).2] at hnone
    cases hnone
  · obtain ⟨r, hr⟩ := ne_none_iff_exists'.mp houtcome
    rw [(chunks_append_of_outcome hr _).2] at hnone
    cases hnone

theorem finish_keeps (s : BodyStream) (result : Received) (pendingEof : Bool) :
    (s.finish result pendingEof).sent = s.sent ∧
      ∃ more, (s.finish result pendingEof).returned = s.returned ++ more := by
  unfold BodyStream.finish
  by_cases hclosed : s.closed = true
  · simp [hclosed]
  · simp [hclosed]

theorem receive_keeps (s : BodyStream) (delta : HttpRequestBodyDelta) :
    (s.receive delta).sent = s.sent ∧ ∃ more, (s.receive delta).returned = s.returned ++ more := by
  unfold BodyStream.receive
  by_cases hseq : delta.seq = s.nextSeq
  · simp only [hseq, ne_eq, not_true_eq_false, if_false]
    cases delta.error with
    | some error => apply finish_keeps
    | none =>
      by_cases hdone : delta.done = true
      · by_cases hempty : delta.delta.isEmpty = true
        · simp only [hdone, hempty, if_true]
          apply finish_keeps
        · simp only [hdone, hempty, if_true, Bool.false_eq_true, if_false]
          apply finish_keeps
      · simp [hdone]
  · simp only [hseq, ne_eq, not_false_eq_true, if_true]
    apply finish_keeps

theorem Good.receive_next (h : v.Good) (hborn : v.born = true) (hrecv : v.stream.recv = .idle)
    (hpending : v.stream.pendingEof = false) (houtcome : outcome v.stream.returned = none)
    {read waiting rest synthetic channel : List HttpRequestBodyDelta}
    (hflow : v.stream.Flow read (delta :: waiting) rest synthetic)
    (howes : v.Owes (delta :: waiting) rest synthetic) (hchannel : channel = waiting ++ synthetic) :
    { v with stream := { v.stream with channel := channel }.receive delta }.Good := by
  have hsent : v.stream.sent = read ++ delta :: (waiting ++ rest) := by
    rw [hflow.sent]
    simp
  obtain ⟨hseq, hterminal⟩ := h.numbered read delta (waiting ++ rest) hsent
  have hnext : delta.seq = v.stream.nextSeq := by rw [hseq, hflow.nextSeq]
  obtain ⟨hchunks, hout⟩ := chunks_append houtcome [.ok (some delta.delta)]
  unfold BodyStream.receive
  rw [if_neg (by simp [hnext])]
  cases herror : delta.error with
  | some error =>
    exact h.finish_error hborn (by rfl) (by rfl) (by exact hrecv) _ _
  | none =>
    simp only []
    by_cases hdone : delta.done = true
    · have hall : waiting ++ rest = [] := hterminal (by simp [HttpRequestBodyDelta.terminal, hdone])
      rw [hall] at hsent
      simp only [hdone, if_true]
      by_cases hempty : delta.delta = []
      · simp only [hempty, isEmpty_nil, if_true]
        obtain ⟨hc, ho⟩ := chunks_append houtcome [.ok none]
        refine h.finish hborn (by rfl) (by rfl) (by exact hrecv) ?_ ?_
        · have hgot : chunks (v.stream.returned ++ [.ok none]) = read.map (·.delta) := by
            rw [hc, hflow.chunks]
            simp [chunks]
          constructor
          · rw [hgot, hsent, map_append]
            exact prefix_append _ _
          · intro _
            exact ⟨read, delta, hsent, hdone, herror, .inr ⟨hempty, hgot⟩⟩
        · intro hnone
          rw [ho] at hnone
          cases hnone
      · simp only [List.isEmpty_iff, hempty, if_false]
        have hgot : chunks (v.stream.returned ++ [.ok (some delta.delta)]) =
            v.stream.sent.map (·.delta) := by
          rw [hchunks, hflow.chunks, hsent]
          simp [chunks]
        refine h.finish hborn (by rfl) (by rfl) (by exact hrecv) ?_ ?_
        · constructor
          · rw [hgot]
          · intro hnone
            rw [hout] at hnone
            cases hnone
        · intro hnone
          exact ⟨rfl, ⟨read, delta, hsent, hdone, herror⟩, hnone, hgot⟩
    · simp only [hdone, Bool.false_eq_true, if_false]
      have hgot : chunks (v.stream.returned ++ [.ok (some delta.delta)]) =
          (read ++ [delta]).map (·.delta) := by
        rw [hchunks, hflow.chunks]
        simp [chunks]
      refine .of_born hborn h.numbered ⟨?_, ?_⟩ ?_
      · simp only [hgot, hsent]
        simp
      · intro hnone
        simp only [hout] at hnone
        cases hnone
      · intro _ _
        simp only [Goes, hrecv, hpending, Bool.false_eq_true, if_false]
        refine ⟨read ++ [delta], waiting, rest, synthetic,
          ⟨by simp [hsent], hchannel, by simp [hflow.nextSeq], hgot, hflow.errors⟩, ?_⟩
        have hplain : delta.terminal = false := by
          simp [HttpRequestBodyDelta.terminal, hdone, herror]
        have hcloses : v.Closes (delta :: waiting) synthetic → v.Closes waiting synthetic := by
          simp [Closes, hplain]
        unfold Owes at howes ⊢
        cases hplace : v.place <;> simp only [hplace] at howes ⊢
        · by_cases hrouted : v.routed = true
          · simpa [hrouted] using howes
          · simp only [hrouted, Bool.false_eq_true, if_false] at howes ⊢
            exact hcloses howes
        · exact howes
        · exact hcloses howes
        · exact howes

theorem Good.read (h : v.Good) (hborn : v.born = true) (hdropped : v.stream.dropped = false)
    (hrecv : v.stream.recv = .idle) (hpending : v.stream.pendingEof = false)
    {channel : List HttpRequestBodyDelta} (hchannel : v.stream.channel = delta :: channel) :
    { v with stream := { v.stream with channel := channel }.receive delta }.Good := by
  obtain ⟨hsent, hreturned⟩ := receive_keeps { v.stream with channel := channel } delta
  by_cases houtcome : outcome v.stream.returned = none
  · have hgoes := h.goes hborn hdropped houtcome
    simp only [Goes, hrecv, hpending, Bool.false_eq_true, if_false] at hgoes
    obtain ⟨read, waiting, rest, synthetic, hflow, howes⟩ := hgoes
    have hsplit := hflow.channel
    rw [hchannel] at hsplit
    cases waiting with
    | nil =>
      -- the reader task has put this delta there, and it has an error
      have hmem : delta ∈ synthetic := by
        rw [← nil_append synthetic, ← hsplit]
        apply mem_cons_self
      have herror := hflow.errors delta hmem
      obtain ⟨error, herror⟩ := isSome_iff_exists.mp herror
      unfold BodyStream.receive
      by_cases hseq : delta.seq = v.stream.nextSeq
      · rw [if_neg (by simp [hseq])]
        simp only [herror]
        exact h.finish_error hborn (by rfl) (by rfl) (by exact hrecv) _ _
      · rw [if_pos hseq]
        exact h.finish_error hborn (by rfl) (by rfl) (by exact hrecv) _ _
    | cons d waiting =>
      obtain ⟨rfl, hrest⟩ : delta = d ∧ channel = waiting ++ synthetic := by simpa using hsplit
      exact h.receive_next hborn hrecv hpending houtcome hflow howes hrest
  · exact h.of_outcome hborn houtcome hsent hreturned

theorem Good.ended (h : v.Good) (hborn : v.born = true) (hdropped : v.stream.dropped = false)
    (hrecv : v.stream.recv = .idle) (hpending : v.stream.pendingEof = true) :
    { v with stream := { v.stream with pendingEof := false }.finish (.ok none) false }.Good := by
  obtain ⟨hsent, hreturned⟩ := finish_keeps { v.stream with pendingEof := false } (.ok none) false
  by_cases houtcome : outcome v.stream.returned = none
  · have hgoes := h.goes hborn hdropped houtcome
    simp only [Goes, hrecv, hpending, if_true] at hgoes
    refine h.finish hborn (by rfl) (by rfl) (by exact hrecv) hgoes.sound_end ?_
    intro hnone
    rw [(chunks_append houtcome _).2] at hnone
    cases hnone
  · exact h.of_outcome hborn houtcome hsent hreturned

theorem Good.closed (h : v.Good) (hborn : v.born = true) (hdropped : v.stream.dropped = false)
    (hrecv : v.stream.recv = .idle) (hpending : v.stream.pendingEof = false)
    (hchannel : v.stream.channel = []) (hplace : v.place = .away) (hrouted : v.routed = false)
    (closed : Bool) {recv : Recv} (hnext : recv = .finishingClosed ∨ recv = .takingFailure) :
    { v with stream := { v.stream with closed := closed, recv := recv } }.Good := by
  refine .of_born hborn h.numbered h.sound fun _ houtcome => ?_
  have hgoes := h.goes hborn hdropped houtcome
  simp only [Goes, hrecv, hpending, Bool.false_eq_true, if_false] at hgoes
  obtain ⟨read, waiting, rest, synthetic, hflow, howes⟩ := hgoes
  have hempty := hflow.channel
  rw [hchannel] at hempty
  obtain ⟨rfl, rfl⟩ : waiting = [] ∧ synthetic = [] := by simpa using hempty.symm
  have hfailed : v.failed = true := by simpa [Owes, hplace, hrouted, Closes] using howes
  rcases hnext with rfl | rfl
  · exact hfailed
  · exact hfailed

theorem Good.finished (h : v.Good) (hborn : v.born = true) (hdropped : v.stream.dropped = false)
    {result : Received} {pendingEof : Bool} (hrecv : v.stream.recv = .finishing result pendingEof) :
    { v with
      stream := { v.stream with
        recv := .idle, returned := v.stream.returned ++ [result], pendingEof := pendingEof }
      routed := false }.Good := by
  by_cases houtcome : outcome v.stream.returned = none
  · have hgoes := h.goes hborn hdropped houtcome
    simp only [Goes, hrecv] at hgoes
    obtain ⟨hsound, hend⟩ := hgoes
    refine .of_born hborn h.numbered hsound fun _ hnone => ?_
    obtain ⟨hpending, hcomplete⟩ := hend hnone
    simpa [Goes, hpending] using hcomplete
  · exact h.of_outcome hborn houtcome rfl ⟨_, rfl⟩

theorem Good.tookFailure (h : v.Good) (hborn : v.born = true) (error : Text) : { v with
      stream := { v.stream with
        recv := .idle, returned := v.stream.returned ++ [Except.error error] }
      failed := false }.Good := by
  by_cases houtcome : outcome v.stream.returned = none
  · refine .of_born hborn h.numbered (h.sound.error error) fun _ hnone => ?_
    simp only [(chunks_append houtcome _).2] at hnone
    cases hnone
  · exact h.of_outcome hborn houtcome rfl ⟨_, rfl⟩

theorem Good.tookNothing (h : v.Good) (hborn : v.born = true) (hdropped : v.stream.dropped = false)
    (hrecv : v.stream.recv = .takingFailure) (hfailed : v.failed = false) : { v with
      stream := { v.stream with
        recv := .idle, returned := v.stream.returned ++ [Except.ok none] } }.Good := by
  by_cases houtcome : outcome v.stream.returned = none
  · have hgoes := h.goes hborn hdropped houtcome
    simp only [Goes, hrecv, hfailed] at hgoes
    cases hgoes
  · exact h.of_outcome hborn houtcome rfl ⟨_, rfl⟩

/-! ## The reader task -/

theorem Good.pushed (h : v.Good) (hplace : v.place = .sending delta) : { v with
      stream := { v.stream with channel := v.stream.channel ++ [delta] }
      place := if delta.terminal then .removing else .away }.Good := by
  have hborn := h.born_of_place (by simp [hplace])
  refine h.map hborn hborn rfl rfl rfl rfl rfl id ?_
  intro read waiting rest synthetic hflow howes
  simp only [Owes, hplace] at howes
  obtain ⟨hrouted, rfl, rfl⟩ := howes
  refine ⟨waiting ++ [delta], v.queued, [],
    ⟨by simp [hflow.sent], by simp [hflow.channel], hflow.nextSeq, hflow.chunks, by simp⟩, ?_⟩
  by_cases hterminal : delta.terminal = true
  · simp [Owes, Closes, hterminal]
  · simp [Owes, hterminal, hrouted]

theorem Good.failedDelta (h : v.Good) (herror : delta.error.isSome = true)
    (hplace : v.place = .failing) : { v with
      stream := { v.stream with channel := v.stream.channel ++ [delta] }
      place := .away }.Good := by
  have hborn := h.born_of_place (by simp [hplace])
  refine h.map hborn hborn rfl rfl rfl rfl rfl id ?_
  intro read waiting rest synthetic hflow howes
  simp only [Owes, hplace] at howes
  refine ⟨waiting, rest, synthetic ++ [delta],
    ⟨hflow.sent, by simp [hflow.channel], hflow.nextSeq, hflow.chunks, ?_⟩, ?_⟩
  · intro d hd
    rcases mem_append.mp hd with hd | hd
    · exact hflow.errors d hd
    · rw [mem_singleton.mp hd]
      exact herror
  · simp [Owes, Closes, howes]

theorem Good.sent (h : v.Good) (hborn : v.born = true) (hseq : delta.seq = v.stream.sent.length + 1)
    (hlast : ∀ last ∈ v.stream.sent.getLast?, last.terminal = false) : { v with
      stream := { v.stream with sent := v.stream.sent ++ [delta] }
      queued := v.queued ++ [delta] }.Good := by
  refine .of_born hborn (h.numbered.snoc hseq hlast) (h.sound.send hlast delta)
    fun hdropped houtcome => ?_
  have hgoes := h.goes hborn hdropped houtcome
  unfold Goes at hgoes ⊢
  cases hrecv : v.stream.recv <;> simp only [hrecv] at hgoes ⊢
  · by_cases hpending : v.stream.pendingEof = true
    · simp only [hpending, if_true] at hgoes
      exact absurd hlast hgoes.1.last
    · simp only [hpending, Bool.false_eq_true, if_false] at hgoes ⊢
      obtain ⟨read, waiting, rest, synthetic, hflow, howes⟩ := hgoes
      refine ⟨read, waiting, rest ++ [delta], synthetic,
        ⟨by simp [hflow.sent], hflow.channel, hflow.nextSeq, hflow.chunks, hflow.errors⟩, ?_⟩
      unfold Owes at howes ⊢
      cases hplace : v.place <;> simp only [hplace] at howes ⊢
      · by_cases hrouted : v.routed = true
        · simpa [hrouted] using howes
        · simpa [hrouted, Closes] using howes
      · obtain ⟨hrouted, rfl, rfl⟩ := howes
        simp [hrouted]
      · exact howes
      · exact howes
  · obtain ⟨hsound, hend⟩ := hgoes
    refine ⟨hsound.send hlast delta, fun hnone => ?_⟩
    exact absurd hlast (hend hnone).2.1.last
  all_goals exact hgoes

theorem Good.started (h : v.Good) (hborn : v.born = false) (capacity : ℕ) : { v with
      born := true, stream := .new capacity, routed := true, failed := false }.Good := by
  obtain ⟨hplace, -, hqueued, -⟩ := h.unborn hborn
  refine .of_born rfl numbered_nil sound_nil fun _ _ => ?_
  refine ⟨[], [], [], [], ⟨rfl, rfl, rfl, rfl, by simp⟩, ?_⟩
  simp [Owes, hplace, hqueued]

theorem Good.step (h : v.Good) (hstep : v.Step v') : v'.Good := by
  cases hstep with
  | stay => exact h
  | started capacity hborn => exact h.started hborn capacity
  | responded hborn =>
    refine h.map hborn hborn rfl rfl rfl rfl rfl id ?_
    intro read waiting rest synthetic hflow howes
    exact ⟨waiting, rest, synthetic,
      ⟨hflow.sent, hflow.channel, hflow.nextSeq, hflow.chunks, hflow.errors⟩, howes⟩
  | sent delta hborn hseq hlast => exact h.sent hborn hseq hlast
  | dropped routed hdrop =>
    have hborn : v.born = true := by
      rcases hdrop with hborn | hopened | hdropped
      · exact hborn
      · exact h.born_of_opened hopened
      · by_contra hborn
        have := (h.unborn (by simpa using hborn)).2.2.2.2
        rw [hdropped] at this
        cases this
    exact Good.of_dropped h.numbered h.sound hborn rfl
  | skipped delta queued hplace hqueued hrouted =>
    have hborn := h.born_of_queued (by simp [hqueued])
    exact h.move hborn hborn rfl (by simp [Owes, hplace, hrouted, Closes]) id
  | taken delta queued hplace hqueued hrouted =>
    have hborn := h.born_of_queued (by simp [hqueued])
    exact h.move hborn hborn rfl (by simp [Owes, hplace, hrouted, hqueued]) id
  | pushed delta hplace => exact h.pushed hplace
  | refused delta hplace hdropped =>
    have hborn := h.born_of_place (by simp [hplace])
    exact Good.of_dropped h.numbered h.sound hborn hdropped
  | filled delta hplace =>
    have hborn := h.born_of_place (by simp [hplace])
    exact h.move hborn hborn rfl (by simp [Owes]) id
  | recorded hplace =>
    have hborn := h.born_of_place (by simp [hplace])
    exact h.move hborn hborn rfl (by simp [Owes, Closes]) (fun _ => rfl)
  | removed hplace =>
    have hborn := h.born_of_place (by simp [hplace])
    exact h.move hborn hborn rfl (by simp [Owes, Closes, hplace]) id
  | drained hplace =>
    by_cases hborn : v.born = true
    · refine h.move hborn hborn rfl ?_ id
      intro waiting rest synthetic howes
      by_cases hrouted : v.routed = true
      · simp [Owes, hrouted]
      · simpa [Owes, hplace, hrouted, Closes] using howes
    · have hunborn : v.born = false := by simpa using hborn
      have hrouted := (h.unborn hunborn).2.1
      exact ⟨h.numbered, h.sound, fun hborn' => absurd hborn' hborn,
        fun _ => ⟨by simp [hrouted], rfl, (h.unborn hunborn).2.2⟩⟩
  | failedDelta delta herror hplace => exact h.failedDelta herror hplace
  | recordedFailed again hplace =>
    have hborn := h.born_of_place (by simp [hplace])
    refine h.move hborn hborn rfl ?_ (fun _ => rfl)
    intro waiting rest synthetic howes
    simp only [Owes, hplace] at howes
    cases again <;> simp [Owes, Closes, howes]
  | read delta channel hopened hdropped hrecv hpending hchannel =>
    exact h.read (h.born_of_opened hopened) hdropped hrecv hpending hchannel
  | ended hopened hdropped hrecv hpending =>
    exact h.ended (h.born_of_opened hopened) hdropped hrecv hpending
  | closed closed recv hopened hdropped hrecv hpending hchannel hplace hrouted hnext =>
    exact h.closed (h.born_of_opened hopened) hdropped hrecv hpending hchannel hplace hrouted
      closed hnext
  | finished result pendingEof hopened hdropped hrecv =>
    exact h.finished (h.born_of_opened hopened) hdropped hrecv
  | finishedClosed hopened hdropped hrecv =>
    have hborn := h.born_of_opened hopened
    refine .of_born hborn h.numbered h.sound fun _ houtcome => ?_
    have hgoes := h.goes hborn hdropped houtcome
    simpa [Goes, hrecv] using hgoes
  | tookFailure error hopened hdropped hrecv => exact h.tookFailure (h.born_of_opened hopened) error
  | tookNothing hopened hdropped hrecv hfailed =>
    exact h.tookNothing (h.born_of_opened hopened) hdropped hrecv hfailed

end StreamView

/-! ## The view of a step -/

namespace HttpClient

open StreamView

variable {c c' : HttpClient}

section
variable (c : HttpClient)

theorem view_setStream_self (n : ℕ) (s : BodyStream) :
    (c.setStream n s).view n = { c.view n with stream := s } :=
  StreamView.ext rfl (update_self ..) rfl rfl rfl rfl

theorem view_setStream_of_ne {request n : ℕ} (hn : n ≠ request)
    (s : BodyStream) : (c.setStream request s).view n = c.view n :=
  StreamView.ext rfl (update_of_ne hn ..) rfl rfl rfl rfl

theorem view_removeRoute_self (n : ℕ) :
    (c.removeRoute n).view n = { c.view n with routed := false } :=
  StreamView.ext rfl rfl rfl (by simp [view, removeRoute]) rfl rfl

theorem view_removeRoute_of_ne {request n : ℕ} (hn : n ≠ request) :
    (c.removeRoute request).view n = c.view n :=
  StreamView.ext rfl rfl rfl (by simp [view, removeRoute, hn]) rfl rfl

theorem view_recordFailure_of_ne {request n : ℕ} (hn : n ≠ request)
    (message : Text) : (c.recordFailure request message).view n = c.view n :=
  StreamView.ext rfl rfl rfl rfl rfl (by simp [view, recordFailure, hn])

end

theorem step_congr {v v' w : StreamView} (h : v.Step w) (hw : v' = w) : v.Step v' := hw ▸ h

theorem step_of_request {w : StreamView} (request : ℕ) (hself : (c.view request).Step w)
    (hw : c'.view request = w) (hother : ∀ n, n ≠ request → c'.view n = c.view n) (n : ℕ) :
    (c.view n).Step (c'.view n) := by
  by_cases hn : n = request
  · rw [hn, hw]
    exact hself
  · rw [hother n hn]
    exact .stay

theorem step_stream (h : (c.view request).Step { c.view request with stream := s }) (n : ℕ) :
    (c.view n).Step ((c.setStream request s).view n) :=
  step_of_request request h (view_setStream_self c request s)
    (fun _ hn => view_setStream_of_ne c hn s) n

theorem step_removeRoute
    (h : (c.view request).Step { c.view request with stream := s, routed := false }) (n : ℕ) :
    (c.view n).Step (((c.removeRoute request).setStream request s).view n) := by
  apply step_of_request request h
  · rw [view_setStream_self, view_removeRoute_self]
  · intro m hm
    rw [view_setStream_of_ne _ hm, view_removeRoute_of_ne c hm]

theorem view_reader_of_place (c : HttpClient) {reader : BodyReader} {n : ℕ}
    (hplace : reader.place n = c.reader.place n) :
    ({ c with reader := reader } : HttpClient).view n = c.view n :=
  StreamView.ext rfl rfl hplace rfl rfl rfl

theorem step_register (c : HttpClient) (capacity n : ℕ) :
    (c.view n).Step ((c.register capacity).view n) := by
  apply step_of_request c.registered (.started capacity (by simp [view]))
  · exact StreamView.ext (by simp [view, register]) (update_self ..) rfl
      (by simp [view, register]) rfl (by simp [view, register])
  · intro m hm
    have hlt : m < c.registered + 1 ↔ m < c.registered := by omega
    exact StreamView.ext (by simp [view, register, hlt]) (update_of_ne hm ..) rfl
      (by simp [view, register, hm]) rfl (by simp [view, register, hm])

theorem step_send (hsends : c.Sends delta) (n : ℕ) : (c.view n).Step ((c.send delta).view n) := by
  obtain ⟨hregistered, hseq, hlast⟩ := hsends
  apply step_of_request delta.request (.sent delta (by simpa [view] using hregistered) hseq hlast)
  · exact StreamView.ext rfl (update_self ..) rfl rfl (by simp [view, send, HttpEvent.deltaOf]) rfl
  · intro m hm
    exact StreamView.ext rfl (update_of_ne hm ..) rfl rfl
      (by simp [view, send, HttpEvent.deltaOf, Ne.symm hm]) rfl

/-! ## The reader task -/

theorem view_queue_of_none {event : HttpEvent} {queue : List HttpEvent}
    (hqueue : c.queue = event :: queue) {n : ℕ} (h : event.deltaOf n = none) :
    ({ c with queue := queue } : HttpClient).view n = c.view n :=
  StreamView.ext rfl rfl rfl rfl (by simp [view, hqueue, h]) rfl

theorem step_handle {event : HttpEvent} {queue : List HttpEvent} (hreader : c.reader = .receiving)
    (hqueue : c.queue = event :: queue) (n : ℕ) :
    (c.view n).Step (({ c with queue := queue }.handle event).view n) := by
  unfold handle
  cases event with
  | delta delta =>
    have hplace : (c.view delta.request).place = .away := by
      simp [view, hreader, BodyReader.place]
    have hqueued : (c.view delta.request).queued =
        delta :: queue.filterMap (·.deltaOf delta.request) := by
      simp [view, hqueue, HttpEvent.deltaOf]
    have hother (m : ℕ) (hm : m ≠ delta.request) :
        ({ c with queue := queue } : HttpClient).view m = c.view m :=
      view_queue_of_none hqueue (by simp [HttpEvent.deltaOf, Ne.symm hm])
    by_cases hrouted : delta.request ∈ c.routes
    · simp only [hrouted, if_true]
      apply step_of_request delta.request (.taken delta _ hplace hqueued (by simpa [view] using hrouted))
      · exact StreamView.ext rfl rfl (by simp [view, BodyReader.place]) rfl rfl rfl
      · intro m hm
        rw [view_reader_of_place { c with queue := queue }
          (by simp [hreader, BodyReader.place, Ne.symm hm])]
        exact hother m hm
    · simp only [hrouted, if_false]
      exact step_of_request delta.request
        (.skipped delta _ hplace hqueued (by simpa [view] using hrouted)) rfl hother n
  | failed message =>
    apply step_congr .stay
    rw [view_reader_of_place { c with queue := queue } (by simp [hreader, BodyReader.place])]
    exact view_queue_of_none hqueue rfl
  | other => exact step_congr .stay (view_queue_of_none hqueue rfl)

theorem step_trySend (hreader : c.reader = .sending delta) (n : ℕ) :
    (c.view n).Step ((c.trySend delta).view n) := by
  have hplace : (c.view delta.request).place = .sending delta := by
    simp [view, hreader, BodyReader.place]
  by_cases hdropped : (c.streams delta.request).dropped = true
  · have htry : c.trySend delta = { c with reader := .removing delta.request } := if_pos hdropped
    rw [htry]
    apply step_of_request delta.request (.refused delta hplace hdropped)
    · exact StreamView.ext rfl rfl (by simp [view, BodyReader.place]) rfl rfl rfl
    · intro m hm
      exact view_reader_of_place c (by simp [hreader, BodyReader.place, Ne.symm hm])
  · by_cases hroom : (c.streams delta.request).channel.length < (c.streams delta.request).capacity
    · have htry : c.trySend delta =
          { c.setStream delta.request
              { c.streams delta.request with
                channel := (c.streams delta.request).channel ++ [delta] } with
            reader := if delta.terminal then .removing delta.request else .receiving } :=
        (if_neg hdropped).trans (if_pos hroom)
      rw [htry]
      apply step_of_request delta.request (.pushed delta hplace)
      · refine StreamView.ext rfl (update_self ..) ?_ rfl rfl rfl
        by_cases hterminal : delta.terminal = true
        · simp [view, hterminal, BodyReader.place]
        · simp [view, hterminal, BodyReader.place]
      · intro m hm
        refine StreamView.ext rfl (update_of_ne hm ..) ?_ rfl rfl rfl
        by_cases hterminal : delta.terminal = true
        · simp [view, hterminal, hreader, BodyReader.place, Ne.symm hm]
        · simp [view, hterminal, hreader, BodyReader.place, Ne.symm hm]
    · have htry : c.trySend delta = { c with reader := .recording delta.request } :=
        (if_neg hdropped).trans (if_neg hroom)
      rw [htry]
      apply step_of_request delta.request (.filled delta hplace)
      · exact StreamView.ext rfl rfl (by simp [view, BodyReader.place]) rfl rfl rfl
      · intro m hm
        exact view_reader_of_place c (by simp [hreader, BodyReader.place, Ne.symm hm])

theorem step_reader (h : c.readerStep = some c') (n : ℕ) : (c.view n).Step (c'.view n) := by
  unfold readerStep at h
  cases hreader : c.reader with simp only [hreader] at h
  | receiving =>
    cases hqueue : c.queue with
    | nil =>
      rw [hqueue] at h
      cases h
    | cons event queue =>
      rw [hqueue] at h
      cases h
      have hstep := step_handle hreader hqueue n
      rwa [hreader] at hstep
  | sending delta =>
    cases h
    exact step_trySend hreader n
  | recording request =>
    cases h
    apply step_of_request request (.recorded (by simp [view, hreader, BodyReader.place]))
    · exact StreamView.ext rfl rfl (by simp [view, BodyReader.place]) rfl rfl
        (by simp [view, recordFailure])
    · intro m hm
      rw [view_reader_of_place (c.recordFailure request channelFilled)
        (by simp [recordFailure, hreader, BodyReader.place, Ne.symm hm])]
      exact view_recordFailure_of_ne c hm channelFilled
  | removing request =>
    cases h
    apply step_of_request request (.removed (by simp [view, hreader, BodyReader.place]))
    · exact StreamView.ext rfl rfl (by simp [view, BodyReader.place])
        (by simp [view, removeRoute]) rfl rfl
    · intro m hm
      rw [view_reader_of_place (c.removeRoute request)
        (by simp [removeRoute, hreader, BodyReader.place, Ne.symm hm])]
      exact view_removeRoute_of_ne c hm
  | draining message =>
    cases h
    apply step_congr (.drained (by simp [view, hreader, BodyReader.place]))
    exact StreamView.ext rfl rfl (by simp [view, BodyReader.place]) (by simp [view]) rfl rfl
  | failing message requests =>
    by_cases hempty : requests = ∅
    · simp only [hempty, if_true] at h
      cases h
      apply step_congr .stay
      exact view_reader_of_place c (by simp [hreader, hempty, BodyReader.place])
    · simp only [hempty, if_false] at h
      cases h
  | recordingFailed message request requests =>
    cases h
    apply step_of_request request
      (.recordedFailed (request ∈ requests) (by simp [view, hreader, BodyReader.place]))
    · exact StreamView.ext rfl rfl (by simp [view, BodyReader.place]) rfl rfl
        (by simp [view, recordFailure])
    · intro m hm
      rw [view_reader_of_place (c.recordFailure request message)
        (by simp [recordFailure, hreader, BodyReader.place, Ne.symm hm])]
      exact view_recordFailure_of_ne c hm message
  | stopped =>
    cases h

theorem step_failStream (h : c.failStream request = some c') (n : ℕ) :
    (c.view n).Step (c'.view n) := by
  unfold failStream at h
  cases hreader : c.reader <;> simp only [hreader] at h <;> try cases h
  rename_i message requests
  by_cases hmem : request ∈ requests
  · have hplace : (c.view request).place = .failing := by
      simp [view, hreader, BodyReader.place, hmem]
    simp only [hmem, if_true] at h
    split at h
    · cases h
      apply step_congr .stay
      apply view_reader_of_place
      by_cases hn : request = n
      · simp [hreader, BodyReader.place, ← hn, hmem]
      · simp [hreader, BodyReader.place, hn, Ne.symm hn]
    · cases h
      apply step_of_request request (.failedDelta (failingDelta request message) rfl hplace)
      · exact StreamView.ext rfl (update_self ..) (by simp [view, BodyReader.place])
          rfl rfl rfl
      · intro m hm
        exact StreamView.ext rfl (update_of_ne hm ..)
          (by simp [view, hreader, BodyReader.place, hm]) rfl rfl rfl
  · simp only [hmem, if_false] at h
    cases h

/-! ## The consumer -/

theorem senderAlive_eq_false (h : c.senderAlive request = false) :
    (c.view request).place = .away ∧ (c.view request).routed = false := by
  obtain ⟨hrouted, hholds⟩ := Bool.or_eq_false_iff.mp h
  exact ⟨BodyReader.place_of_not_holds hholds, hrouted⟩

theorem step_recv (hopened : (c.streams request).opened = true)
    (hdropped : (c.streams request).dropped = false) (h : c.recvStep request = some c') (n : ℕ) :
    (c.view n).Step (c'.view n) := by
  unfold recvStep at h
  simp only [] at h
  split at h
  next hrecv =>
    by_cases hpending : (c.streams request).pendingEof = true
    · rw [if_pos hpending] at h
      cases h
      exact step_stream (.ended hopened hdropped hrecv hpending) n
    · rw [if_neg hpending] at h
      have hnotPending : (c.streams request).pendingEof = false := by simpa using hpending
      split at h
      next delta channel hchannel =>
        cases h
        exact step_stream (.read delta channel hopened hdropped hrecv hnotPending hchannel) n
      next hchannel =>
        by_cases halive : c.senderAlive request = true
        · rw [if_pos halive] at h
          cases h
        · rw [if_neg halive] at h
          obtain ⟨hplace, hrouted⟩ := senderAlive_eq_false (by simpa using halive)
          by_cases hclosed : (c.streams request).closed = true
          · rw [if_pos hclosed] at h
            cases h
            exact step_stream (.closed _ .takingFailure hopened hdropped hrecv hnotPending hchannel
              hplace hrouted (.inr rfl)) n
          · rw [if_neg hclosed] at h
            cases h
            exact step_stream (.closed true .finishingClosed hopened hdropped hrecv hnotPending
              hchannel hplace hrouted (.inl rfl)) n
  next result pendingEof hrecv =>
    by_cases hlocks : c.reader.locks = true
    · rw [if_pos hlocks] at h
      cases h
    · rw [if_neg hlocks] at h
      cases h
      exact step_removeRoute (.finished result pendingEof hopened hdropped hrecv) n
  next hrecv =>
    by_cases hlocks : c.reader.locks = true
    · rw [if_pos hlocks] at h
      cases h
    · rw [if_neg hlocks] at h
      cases h
      exact step_removeRoute (.finishedClosed hopened hdropped hrecv) n
  next hrecv =>
    by_cases hlocks : c.reader.locks = true
    · rw [if_pos hlocks] at h
      cases h
    · rw [if_neg hlocks] at h
      split at h
      next error hfailure =>
        cases h
        apply step_of_request request (.tookFailure (streamFailed request error) hopened hdropped hrecv)
        · exact StreamView.ext rfl (update_self ..) rfl rfl rfl (by simp [view, setStream])
        · intro m hm
          rw [view_setStream_of_ne _ hm]
          exact StreamView.ext rfl rfl rfl rfl rfl (by simp [view, hm])
      next hfailure =>
        cases h
        exact step_stream (.tookNothing hopened hdropped hrecv (by simp [view, hfailure])) n

/-! ## Runs -/

theorem stepOption_view {action : HttpAction} (h : c.stepOption action = some c') (n : ℕ) :
    (c.view n).Step (c'.view n) := by
  cases action with
  | register capacity =>
    simp only [stepOption, ite_none_right_eq_some, Option.some.injEq] at h
    obtain ⟨-, rfl⟩ := h
    exact step_register c capacity n
  | respond request =>
    simp only [stepOption, ite_none_right_eq_some, Option.some.injEq] at h
    obtain ⟨hregistered, rfl⟩ := h
    exact step_stream (.responded (by simpa [view] using hregistered)) n
  | reject request =>
    simp only [stepOption, ite_none_right_eq_some, Option.some.injEq] at h
    obtain ⟨⟨hregistered, -⟩, rfl⟩ := h
    exact step_removeRoute (.dropped false (.inl (by simpa [view] using hregistered))) n
  | send delta =>
    simp only [stepOption, ite_none_right_eq_some, Option.some.injEq] at h
    obtain ⟨⟨-, hsends⟩, rfl⟩ := h
    exact step_send hsends n
  | arrive | fail message =>
    simp only [stepOption, ite_none_left_eq_some, Option.some.injEq] at h
    obtain ⟨-, rfl⟩ := h
    apply step_congr .stay
    exact StreamView.ext rfl rfl rfl rfl (by simp [view, HttpEvent.deltaOf]) rfl
  | reader => exact step_reader h n
  | failStream request => exact step_failStream h n
  | recv request =>
    simp only [stepOption, ite_none_right_eq_some] at h
    obtain ⟨⟨hopened, hdropped⟩, h⟩ := h
    exact step_recv hopened hdropped h n
  | drop request =>
    simp only [stepOption, ite_none_right_eq_some, Option.some.injEq] at h
    obtain ⟨hopened, rfl⟩ := h
    apply step_stream
    exact .dropped (c.view request).routed (.inr (.inl hopened))
  | removeDropped request =>
    simp only [stepOption, ite_none_right_eq_some, Option.some.injEq] at h
    obtain ⟨⟨hdropped, -⟩, rfl⟩ := h
    apply step_of_request request (.dropped false (.inr (.inr hdropped)))
    · rw [view_removeRoute_self]
      exact StreamView.ext rfl (by simp [view, ← hdropped]) rfl rfl rfl rfl
    · exact fun m hm => view_removeRoute_of_ne c hm

theorem new_good (n : ℕ) : (new.view n).Good where
  numbered := numbered_nil
  sound := sound_nil
  goes := nofun
  unborn := fun _ => ⟨rfl, rfl, rfl, rfl, rfl⟩

theorem run_good {actions : List HttpAction} {c : HttpClient}
    (hrun : actions.foldlM step new = .ok c) (n : ℕ) : (c.view n).Good := by
  refine run_keeps (I := fun c : HttpClient => ∀ n, (c.view n).Good) ?_ new_good hrun n
  intro c action c' hgood hstep n
  unfold step at hstep
  split at hstep
  next h =>
    cases hstep
    exact (hgood n).step (stepOption_view h n)
  next => cases hstep

/-- What a consumer has got of a body up to the first end or error is a prefix of its
contents, and all of them where it has got the end. -/
theorem body_not_truncated {actions : List HttpAction} {c : HttpClient}
    (hrun : actions.foldlM step new = .ok c) (request : ℕ) :
    chunks (c.streams request).returned <+: (c.streams request).sent.map (·.delta) ∧
      (outcome (c.streams request).returned = some (.ok none) →
        Delivered (c.streams request).sent (chunks (c.streams request).returned)) :=
  (run_good hrun request).sound

def firstChunk (request : ℕ) : HttpRequestBodyDelta := ⟨request, 1, [104], false, none⟩

def lastChunk (request : ℕ) : HttpRequestBodyDelta := ⟨request, 2, [105], true, none⟩

/-- The first body fills its channel of one delta, the second gets through. -/
def cutAndWhole : List HttpAction :=
  [.register 1, .register 2, .respond 0, .respond 1, .send (firstChunk 0), .send (lastChunk 0),
    .send (firstChunk 1), .send (lastChunk 1), .reader, .reader, .reader, .reader, .reader,
    .recv 0, .reader, .recv 0, .recv 0, .recv 0, .reader, .reader, .reader, .reader, .reader,
    .recv 1, .recv 1, .recv 1, .recv 1]

theorem body_not_truncated_cutAndWhole : ∃ c, cutAndWhole.foldlM step new = .ok c ∧
      (c.streams 0).returned = [.ok (some [104]), .error (streamFailed 0 channelFilled)] ∧
      (c.streams 1).returned = [.ok (some [104]), .ok (some [105]), .ok none] ∧
      chunks (c.streams 0).returned <+: [[104], [105]] ∧
      Delivered (c.streams 1).sent (chunks (c.streams 1).returned) := by
  have hruns : ∃ c, cutAndWhole.foldlM step new = .ok c ∧
      (c.streams 0).returned = [.ok (some [104]), .error (streamFailed 0 channelFilled)] ∧
      (c.streams 1).returned = [.ok (some [104]), .ok (some [105]), .ok none] ∧
      (c.streams 0).sent = [firstChunk 0, lastChunk 0] := ⟨_, rfl, rfl, rfl, rfl⟩
  obtain ⟨c, hrun, hcut, hwhole, hsent⟩ := hruns
  have hfirst := (body_not_truncated hrun 0).1
  rw [hsent] at hfirst
  refine ⟨c, hrun, hcut, hwhole, hfirst, (body_not_truncated hrun 1).2 ?_⟩
  rw [hwhole]
  rfl

end HttpClient

end Codex.ExecServer
