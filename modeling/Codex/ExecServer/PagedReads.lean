import Codex.ExecServer.ProcessEvents
import Codex.Foundation.Paging

/-!
# Paged reads

A reader passes the number before the next one of each response as the cursor of the next
read. As long as nothing unread is evicted it has received what is up to its cursor
(`Paging.Inv.received`). A page that is cut says nothing of what it leaves out, so that
the process is closed does not mean that everything was read.
-/

namespace Codex.ExecServer

open Foundation List Option

def ExecProcessEvent.chunk? : ExecProcessEvent → Option ProcessOutputChunk
  | .output chunk => some chunk
  | _ => none

def Server.outputs (s : Server) : List ProcessOutputChunk :=
  s.events.filterMap ExecProcessEvent.chunk?

def byteCount (chunks : List ProcessOutputChunk) : ℕ :=
  chunks.foldr (fun chunk n => chunk.chunk.length + n) 0

def RunningProcess.evicted (p : RunningProcess) (stream : ExecOutputStream)
    (chunk : List UInt8) : List ProcessOutputChunk :=
  let output := p.output ++ [(p.pushChunk stream chunk).2]
  output.take (output.length - (p.pushChunk stream chunk).1.output.length)

structure Paging where
  server : Server
  afterSeq : Option ℕ
  received : List ProcessOutputChunk

inductive PagingAction where
  | server (action : ServerAction)
  | read (maxBytes : Option ℕ) (deadlineReached : Bool)

namespace Paging

def start (processId : ProcessId) (tty : Bool) : Paging := ⟨.start processId tty, none, []⟩

def cursor (s : Paging) : ℕ := s.afterSeq.getD 0

def read (s : Paging) (maxBytes : Option ℕ) (deadlineReached : Bool) : Option ReadResponse :=
  s.server.entry.bind fun p => execRead p s.afterSeq maxBytes deadlineReached

def receive (s : Paging) (response : ReadResponse) : Paging :=
  { s with
    afterSeq := some (response.nextSeq - 1)
    received := s.received ++ response.chunks }

def step (s : Paging) : PagingAction → Except Disabled Paging
  | .server action =>
    match s.server.step action with
    | .ok server => .ok { s with server := server }
    | .error e => .error e
  | .read maxBytes deadlineReached =>
    match s.read maxBytes deadlineReached with
    | some response => .ok (s.receive response)
    | none => .error .disabled

def KeepsUnread (s : Paging) : PagingAction → Prop
  | .server (.output task chunk) => ∀ p, s.server.entry = some p →
      ∀ c ∈ p.evicted (s.server.streamOf task) chunk, c.seq ≤ s.cursor
  | _ => True

def unreadBytes (s : Paging) : ℕ :=
  s.server.entry.elim 0 fun p => byteCount (unread p s.cursor)

end Paging

variable (l : List ProcessOutputChunk)

theorem takeChunks_isPrefix (maxBytes totalBytes : ℕ) (isEmpty : Bool) :
    takeChunks maxBytes totalBytes isEmpty l <+: l := by
  induction l generalizing totalBytes isEmpty with
  | nil => exact prefix_rfl
  | cons chunk l ih =>
    unfold takeChunks
    split
    · exact nil_prefix
    · split
      · exact prefix_append [chunk] l
      · exact prefix_cons_inj chunk |>.mpr (ih _ _)

theorem eq_nil_of_takeChunks {maxBytes totalBytes : ℕ} {l : List ProcessOutputChunk}
    (h : takeChunks maxBytes totalBytes true l = []) : l = [] := by
  cases l with
  | nil => rfl
  | cons chunk l =>
    unfold takeChunks at h
    simp only [Bool.not_true, Bool.false_and, Bool.false_eq_true, if_false] at h
    split at h <;> cases h

theorem takeChunks_eq_self {maxBytes totalBytes : ℕ} (isEmpty : Bool) {l : List ProcessOutputChunk}
    (h : totalBytes + byteCount l < maxBytes) : takeChunks maxBytes totalBytes isEmpty l = l := by
  induction l generalizing totalBytes isEmpty with
  | nil => rfl
  | cons chunk l ih =>
    have hcount : byteCount (chunk :: l) = chunk.chunk.length + byteCount l := rfl
    rw [hcount, ← Nat.add_assoc] at h
    unfold takeChunks
    rw [if_neg, if_neg (by omega), ih false h]
    simp only [Bool.and_eq_true, decide_eq_true_eq, not_and]
    omega

/-! ## Eviction -/

theorem evict_isSuffix (n : ℕ) : (RunningProcess.evict l n).1 <:+ l := by
  induction l generalizing n with
  | nil => exact suffix_rfl
  | cons chunk l ih =>
    unfold RunningProcess.evict
    split
    · exact (ih _).trans (suffix_cons chunk l)
    · exact suffix_rfl

theorem evict_bytes :
    byteCount (RunningProcess.evict l (byteCount l)).1 = (RunningProcess.evict l (byteCount l)).2 ∧
    (RunningProcess.evict l (byteCount l)).2 ≤ retainedOutputBytesPerProcess := by
  induction l with
  | nil => exact ⟨rfl, Nat.zero_le _⟩
  | cons chunk l ih =>
    have hcount : byteCount (chunk :: l) - chunk.chunk.length = byteCount l :=
      Nat.add_sub_cancel_left _ _
    unfold RunningProcess.evict
    split
    · rw [hcount]
      exact ih
    · rename_i hle
      exact ⟨rfl, Nat.le_of_not_gt hle⟩

theorem byteCount_append (l l' : List ProcessOutputChunk) :
    byteCount (l ++ l') = byteCount l + byteCount l' := by
  induction l with
  | nil => exact (Nat.zero_add _).symm
  | cons chunk l ih =>
    show chunk.chunk.length + byteCount (l ++ l') = chunk.chunk.length + byteCount l + byteCount l'
    rw [ih, Nat.add_assoc]

theorem byteCount_filter_le (f : ProcessOutputChunk → Bool) :
    byteCount (l.filter f) ≤ byteCount l := by
  induction l with
  | nil => exact Nat.le_refl _
  | cons chunk l ih =>
    rw [filter_cons]
    split
    · exact Nat.add_le_add_left ih _
    · exact Nat.le_trans ih (Nat.le_add_left _ _)

theorem evicted_append (p : RunningProcess) (stream : ExecOutputStream) (chunk : List UInt8) :
    p.evicted stream chunk ++ (p.pushChunk stream chunk).1.output =
      p.output ++ [(p.pushChunk stream chunk).2] :=
  suffix_iff_eq_append.mp (evict_isSuffix _ _)

/-! ## The chunks of a process -/

namespace Server

theorem outputs_append (s : Server) (t : Server) {event : ExecProcessEvent}
    (h : t.events = s.events ++ [event]) : t.outputs = s.outputs ++ event.chunk?.toList := by
  unfold outputs
  rw [h, filterMap_append]
  cases event <;> rfl

variable {s : Server}

theorem mem_outputs {chunk : ProcessOutputChunk} :
    chunk ∈ s.outputs ↔ .output chunk ∈ s.events := by
  unfold outputs
  rw [mem_filterMap]
  constructor
  · intro ⟨event, hevent, hchunk⟩
    cases event with
    | output c =>
      cases hchunk
      exact hevent
    | _ => cases hchunk
  · exact fun h => ⟨_, h, rfl⟩

theorem Inv.output_le (h : Inv s) {chunk : ProcessOutputChunk} (hchunk : chunk ∈ s.outputs) :
    chunk.seq ≤ s.events.length :=
  (h.item (mem_outputs.mp hchunk) rfl).2.2

theorem Inv.increasing (h : Inv s) : Increasing ProcessOutputChunk.seq s.outputs := by
  have hnumbers : (numbers s.events.length).Pairwise fun a b =>
      ∀ n m, a = some n → b = some m → n < m := by
    unfold numbers
    rw [pairwise_map]
    refine List.Pairwise.imp ?_ pairwise_lt_range'
    intro a b hlt n m hn hm
    cases hn
    cases hm
    exact hlt
  rw [← h.numbered, pairwise_map] at hnumbers
  unfold Increasing outputs
  rw [pairwise_filterMap]
  refine hnumbers.imp fun {e e'} hlt chunk hchunk chunk' hchunk' => ?_
  cases e with
  | output c =>
    cases e' with
    | output c' =>
      cases hchunk
      cases hchunk'
      exact hlt _ _ rfl rfl
    | _ => cases hchunk'
  | _ => cases hchunk

theorem step_keepsChunks {a : ServerAction} {t : Server} (hstep : s.step a = .ok t)
    (ha : ∀ task chunk, a ≠ .output task chunk) : t.outputs = s.outputs ∧
      ∀ q, t.entry = some q →
        ∃ p, s.entry = some p ∧ q.output = p.output ∧ q.retainedBytes = p.retainedBytes := by
  have hsame (q : RunningProcess) (hq : s.entry = some q) :
      ∃ p, s.entry = some p ∧ q.output = p.output ∧ q.retainedBytes = p.retainedBytes :=
    ⟨q, hq, rfl, rfl⟩
  cases a with
  | output task chunk => exact absurd rfl (ha task chunk)
  | streamEnds task =>
    obtain ⟨-, rfl⟩ := ok_ite_iff.mp hstep
    exact ⟨rfl, hsame⟩
  | exits exitCode =>
    obtain ⟨-, rfl⟩ := ok_ite_iff.mp hstep
    unfold Server.exits
    split
    · exact ⟨rfl, hsame⟩
    · rename_i p hp
      refine ⟨(outputs_append s _ rfl).trans (append_nil _), fun q hq => ?_⟩
      cases hq
      exact ⟨p, hp, rfl, rfl⟩
  | notify task =>
    simp only [Server.step, Server.notify] at hstep
    split at hstep
    · rename_i hnotify
      cases hstep
      split at hnotify
      · cases hnotify
        exact ⟨rfl, hsame⟩
      · cases hnotify
        exact ⟨rfl, hsame⟩
      · cases hnotify
    · cases hstep
  | finish task =>
    obtain ⟨-, rfl⟩ := ok_ite_iff.mp hstep
    unfold Server.finish
    split
    · exact ⟨rfl, hsame⟩
    · rename_i p hp
      refine ⟨rfl, fun q hq => ?_⟩
      cases hq
      exact ⟨p, hp, rfl, rfl⟩
  | maybeClose task =>
    obtain ⟨-, rfl⟩ := ok_ite_iff.mp hstep
    unfold Server.maybeClose
    split
    · exact ⟨rfl, hsame⟩
    · rename_i p hp
      split
      · refine ⟨(outputs_append s _ rfl).trans (append_nil _), fun q hq => ?_⟩
        cases hq
        exact ⟨p, hp, rfl, rfl⟩
      · exact ⟨rfl, hsame⟩
  | cleanup =>
    simp only [Server.step] at hstep
    split at hstep
    · split at hstep
      · cases hstep
        exact ⟨rfl, fun q hq => by cases hq⟩
      · cases hstep
    · cases hstep

theorem Inv.final {s t : Server} (h : Inv s) (hover : s.isOver = true) (ht : Inv t)
    (hgrows : s.events <+: t.events) : t.events = s.events := by
  obtain ⟨-, -, events, n, hevents, -⟩ := h.ended hover
  obtain ⟨more, hmore⟩ := hgrows
  cases hrev : more.reverse with
  | nil =>
    rw [reverse_eq_nil_iff] at hrev
    rw [← hmore, hrev, append_nil]
  | cons e rest =>
    have hlast : t.events = (s.events ++ rest.reverse) ++ [e] := by
      rw [← hmore, ← reverse_reverse more, hrev, reverse_cons, List.append_assoc]
    have hclosed : .closed n ∈ s.events := by simp [hevents]
    obtain hnone | ⟨events', m, hevents', hnone⟩ := ht.closed_last
    · have hnot := countP_eq_zero.mp hnone (.closed n) (by
        rw [← hmore]
        exact mem_append_left _ hclosed)
      exact absurd rfl hnot
    · rw [hevents'] at hlast
      obtain ⟨hinit, -⟩ := append_inj' hlast rfl
      have hnot := countP_eq_zero.mp hnone (.closed n) (by
        rw [hinit]
        exact mem_append_left _ hclosed)
      exact absurd rfl hnot

end Server

/-! ## The invariant -/

namespace Paging

structure Inv (s : Paging) : Prop where
  server : s.server.Inv
  cursor : s.cursor ≤ s.server.events.length
  received : s.received = upTo ProcessOutputChunk.seq s.cursor s.server.outputs
  unread : ∀ p, s.server.entry = some p →
    unread p s.cursor = beyond ProcessOutputChunk.seq s.cursor s.server.outputs
  bytes : ∀ p, s.server.entry = some p → p.retainedBytes = byteCount p.output ∧
    p.retainedBytes ≤ retainedOutputBytesPerProcess

theorem Inv.start (processId : ProcessId) (tty : Bool) : Inv (start processId tty) := by
  refine ⟨.start processId tty, Nat.zero_le _, rfl, fun p hp => ?_, fun p hp => ?_⟩
  · cases hp
    rfl
  · cases hp
    exact ⟨rfl, Nat.zero_le _⟩

variable {s : Paging} {maxBytes : Option ℕ} {deadlineReached : Bool} {response : ReadResponse}

theorem Inv.output (h : Inv s) {task : ProcessTask} {chunk : List UInt8} {t : Server}
    (hstep : s.server.step (.output task chunk) = .ok t)
    (hkeeps : s.KeepsUnread (.server (.output task chunk))) : Inv { s with server := t } := by
  have hinv := h.server.step hstep
  obtain ⟨hgrows, -⟩ := (Server.step_change hstep).grows
  obtain ⟨hready, rfl⟩ := ok_ite_iff.mp hstep
  have hisOpen : (s.server.tasks task).isOpen = true := by simp [hready.2, Pc.isOpen]
  obtain ⟨p, hp, -⟩ := h.server.present (.inl (Server.openCount_pos hready.1 hisOpen))
  obtain ⟨hnext, -, -⟩ := h.server.running p hp
  obtain ⟨hbytes, hle⟩ := h.bytes p hp
  have hentry : (s.server.output task chunk).entry =
      some (p.pushChunk (s.server.streamOf task) chunk).1 := by
    unfold Server.output
    simp only [hp]
    rfl
  have hevents : (s.server.output task chunk).events = s.server.events ++
      [.output (p.pushChunk (s.server.streamOf task) chunk).2] := by
    unfold Server.output
    simp only [hp]
    rfl
  have houtputs : (s.server.output task chunk).outputs =
      s.server.outputs ++ [(p.pushChunk (s.server.streamOf task) chunk).2] :=
    Server.outputs_append _ _ hevents
  have hnew : s.cursor < (p.pushChunk (s.server.streamOf task) chunk).2.seq := by
    show s.cursor < p.nextSeq
    have hcursor := h.cursor
    omega
  refine ⟨hinv, Nat.le_trans h.cursor hgrows.length_le, ?_, fun q hq => ?_, fun q hq => ?_⟩
  · show s.received = upTo _ s.cursor (s.server.output task chunk).outputs
    have hbehind : upTo ProcessOutputChunk.seq s.cursor
        [(p.pushChunk (s.server.streamOf task) chunk).2] = [] :=
      upTo_eq_nil fun c hc => mem_singleton.mp hc ▸ hnew
    rw [houtputs, upTo_append, hbehind, append_nil]
    exact h.received
  · simp only [hentry, Option.some.injEq] at hq
    subst hq
    show beyond ProcessOutputChunk.seq s.cursor _ =
      beyond _ s.cursor (s.server.output task chunk).outputs
    have hsplit := congrArg (beyond ProcessOutputChunk.seq s.cursor)
      (evicted_append p (s.server.streamOf task) chunk)
    rw [beyond_append, beyond_eq_nil (hkeeps p hp), nil_append, beyond_append] at hsplit
    rw [hsplit, houtputs, beyond_append, ← h.unread p hp]
    rfl
  · simp only [hentry, Option.some.injEq] at hq
    subst hq
    have hcount : p.retainedBytes + chunk.length =
        byteCount (p.output ++ [(p.pushChunk (s.server.streamOf task) chunk).2]) := by
      rw [byteCount_append, hbytes]
      rfl
    have hevict := evict_bytes (p.output ++ [(p.pushChunk (s.server.streamOf task) chunk).2])
    rw [← hcount] at hevict
    exact ⟨hevict.1.symm, hevict.2⟩

theorem Inv.serverStep (h : Inv s) {action : ServerAction} {t : Server}
    (hstep : s.server.step action = .ok t) (hkeeps : s.KeepsUnread (.server action)) :
    Inv { s with server := t } := by
  have hother (ha : ∀ task chunk, action ≠ .output task chunk) : Inv { s with server := t } := by
    obtain ⟨houtputs, hentry⟩ := Server.step_keepsChunks hstep ha
    obtain ⟨hgrows, -⟩ := (Server.step_change hstep).grows
    refine ⟨h.server.step hstep, Nat.le_trans h.cursor hgrows.length_le, ?_, fun q hq => ?_,
      fun q hq => ?_⟩
    · rw [houtputs]
      exact h.received
    · obtain ⟨p, hp, houtput, -⟩ := hentry q hq
      show beyond ProcessOutputChunk.seq s.cursor q.output = beyond _ s.cursor t.outputs
      rw [houtputs, houtput]
      exact h.unread p hp
    · obtain ⟨p, hp, houtput, hbytes⟩ := hentry q hq
      rw [houtput, hbytes]
      exact h.bytes p hp
  cases action with
  | output task chunk => exact h.output hstep hkeeps
  | _ => exact hother fun task chunk ha => by cases ha

theorem read_eq (h : s.read maxBytes deadlineReached = some response) :
    ∃ p, s.server.entry = some p ∧
      response.chunks = takeChunks (maxBytes.getD (UInt64.size - 1)) 0 true (unread p s.cursor) ∧
      response.closed = p.closed ∧ response.nextSeq =
        (response.chunks.getLast?.map fun chunk => chunk.seq + 1).getD p.nextSeq := by
  unfold read at h
  rw [bind_eq_some_iff] at h
  obtain ⟨p, hp, h⟩ := h
  unfold execRead at h
  simp only at h
  split at h
  · cases h
    exact ⟨p, hp, rfl, rfl, rfl⟩
  · cases h

theorem Inv.read (h : Inv s) (hread : s.read maxBytes deadlineReached = some response) :
    Inv (s.receive response) := by
  obtain ⟨p, hp, hchunks, -, hnextSeq⟩ := read_eq hread
  obtain ⟨hnext, -, -⟩ := h.server.running p hp
  have hincreasing := h.server.increasing
  have hpage : response.chunks <+:
      beyond ProcessOutputChunk.seq s.cursor s.server.outputs := by
    rw [hchunks, ← h.unread p hp]
    exact takeChunks_isPrefix _ _ _ _
  -- the cursor only moves forward, up to the last chunk of the page or to the last event
  have hmoves : s.cursor ≤ (s.receive response).cursor ∧
      (s.receive response).cursor ≤ s.server.events.length ∧
      upTo ProcessOutputChunk.seq (s.receive response).cursor s.server.outputs =
        upTo ProcessOutputChunk.seq s.cursor s.server.outputs ++ response.chunks := by
    have hcursor : (s.receive response).cursor = response.nextSeq - 1 := rfl
    rw [hcursor]
    cases hlast : response.chunks.getLast? with
    | none =>
      have hempty := List.getLast?_eq_none_iff.mp hlast
      rw [hlast] at hnextSeq
      simp only [map_none, getD_none] at hnextSeq
      have hunread := eq_nil_of_takeChunks (hchunks.symm.trans hempty)
      rw [h.unread p hp] at hunread
      rw [hnextSeq, hnext, Nat.add_sub_cancel, hempty, append_nil]
      refine ⟨h.cursor, Nat.le_refl _, ?_⟩
      have hsplit := upTo_append_beyond hincreasing s.cursor
      rw [hunread, append_nil] at hsplit
      rw [hsplit]
      exact upTo_eq_self fun c hc => h.server.output_le hc
    | some c =>
      rw [hlast] at hnextSeq
      simp only [map_some, getD_some] at hnextSeq
      obtain ⟨hmem, hlt⟩ := mem_beyond.mp (hpage.subset (mem_of_getLast? hlast))
      rw [hnextSeq, Nat.add_sub_cancel]
      exact ⟨Nat.le_of_lt hlt, h.server.output_le hmem, upTo_page hincreasing hpage hlast⟩
  obtain ⟨hforward, hle, hupTo⟩ := hmoves
  refine ⟨h.server, hle, ?_, fun q hq => ?_, h.bytes⟩
  · show s.received ++ response.chunks = _
    rw [h.received]
    exact hupTo.symm
  · have hunread := congrArg (beyond ProcessOutputChunk.seq (s.receive response).cursor)
      (h.unread q hq)
    rw [beyond_beyond hforward] at hunread
    exact (beyond_beyond hforward q.output).symm.trans hunread

theorem Inv.step {t : Paging} (h : Inv s) {action : PagingAction} (hkeeps : s.KeepsUnread action)
    (hstep : s.step action = .ok t) : Inv t := by
  cases action with
  | server action =>
    simp only [Paging.step] at hstep
    split at hstep
    · rename_i server hserver
      cases hstep
      exact h.serverStep hserver hkeeps
    · cases hstep
  | read maxBytes deadlineReached =>
    simp only [Paging.step] at hstep
    split at hstep
    · rename_i response hresponse
      cases hstep
      exact h.read hresponse
    · cases hstep

theorem Inv.read_whole (h : Inv s) (hread : s.read maxBytes deadlineReached = some response)
    (hwhole : response.chunks = [] ∨ s.unreadBytes < maxBytes.getD (UInt64.size - 1)) :
    (s.receive response).received = s.server.outputs := by
  obtain ⟨p, hp, hchunks, -, -⟩ := read_eq hread
  have hall : response.chunks = beyond ProcessOutputChunk.seq s.cursor s.server.outputs := by
    rw [← h.unread p hp]
    obtain hempty | hroom := hwhole
    · rw [hempty]
      exact (eq_nil_of_takeChunks (hchunks.symm.trans hempty)).symm
    · rw [hchunks]
      apply takeChunks_eq_self
      simpa [unreadBytes, hp] using hroom
  show s.received ++ response.chunks = s.server.outputs
  rw [h.received, hall]
  exact upTo_append_beyond h.server.increasing s.cursor

theorem Inv.unreadBytes_le (h : Inv s) : s.unreadBytes ≤ retainedOutputBytesPerProcess := by
  unfold unreadBytes
  cases hp : s.server.entry with
  | none => exact Nat.zero_le _
  | some p =>
    obtain ⟨hbytes, hle⟩ := h.bytes p hp
    exact Nat.le_trans (byteCount_filter_le _ _) (hbytes ▸ hle)

/-- What a reader has received is a prefix of the output. A response that reports the close
and leaves nothing out for lack of room completes it, and nothing more will be written. -/
theorem pages_complete {processId : ProcessId} {tty : Bool} {actions : List PagingAction}
    {s : Paging} (hkeeps : Along step KeepsUnread (start processId tty) actions)
    (hrun : actions.foldlM step (start processId tty) = .ok s) : s.received <+: s.server.outputs ∧
    Increasing ProcessOutputChunk.seq s.server.outputs ∧
    s.unreadBytes ≤ retainedOutputBytesPerProcess ∧
    ∀ maxBytes deadlineReached response, s.read maxBytes deadlineReached = some response →
      response.closed = true →
        (response.chunks = [] ∨ s.unreadBytes < maxBytes.getD (UInt64.size - 1)) →
          (s.receive response).received = s.server.outputs ∧
          ∀ (more : List ServerAction) t, more.foldlM Server.step s.server = .ok t →
            t.outputs = s.server.outputs := by
  have h : Inv s :=
    run_keeps_along (fun u a v hu hcond hv => hu.step hcond hv) (Inv.start processId tty) hkeeps
      prefix_rfl hrun
  refine ⟨?_, h.server.increasing, h.unreadBytes_le, fun maxBytes deadlineReached response hread
    hclosed hwhole => ⟨h.read_whole hread hwhole, fun more t ht => ?_⟩⟩
  · rw [h.received]
    exact upTo_isPrefix h.server.increasing s.cursor
  · obtain ⟨p, hp, -, hpclosed, -⟩ := read_eq hread
    have hover : s.server.isOver = true := by
      simp [Server.isOver, hp, ← hpclosed, hclosed]
    have hlater : t.Inv ∧ s.server.events <+: t.events := by
      refine run_keeps (I := fun u => u.Inv ∧ s.server.events <+: u.events) ?_
        ⟨h.server, prefix_rfl⟩ ht
      intro u a v hu hv
      exact ⟨hu.1.step hv, hu.2.trans (Server.step_change hv).grows.1⟩
    unfold Server.outputs
    rw [h.server.final hover hlater.1 hlater.2]

/-! ## A page that is cut -/

def twoChunks : List PagingAction :=
  [.server (.output .stdout [97]), .server (.notify .stdout), .server (.output .stdout [98]),
    .server (.notify .stdout), .server (.streamEnds .stdout), .server (.finish .stdout),
    .server (.maybeClose .stdout), .server (.streamEnds .stderr), .server (.finish .stderr),
    .server (.maybeClose .stderr), .server (.exits 0), .server (.notify .exit),
    .server (.maybeClose .exit)]

theorem twoChunks_keepsUnread : Along step KeepsUnread (start ['p'] false) twoChunks := by
  refine ⟨fun p hp c hc => ?_, fun t ht => ⟨trivial, fun u hu => ⟨fun p hp c hc => ?_,
    fun v _ => Along.of_forall (by simp [KeepsUnread]) v⟩⟩⟩
  · cases hp
    cases hc
  · cases ht
    cases hu
    cases hp
    cases hc

/-- The process is closed, and there is room for one of two chunks. -/
theorem closed_page_is_cut : ∃ s response, twoChunks.foldlM step (start ['p'] false) = .ok s ∧
    Along step KeepsUnread (start ['p'] false) twoChunks ∧
    s.read (some 1) false = some response ∧ response.closed = true ∧
    (s.receive response).received = [⟨1, .stdout, [97]⟩] ∧
    (s.receive response).received ≠ s.server.outputs :=
  ⟨_, _, rfl, twoChunks_keepsUnread, rfl, rfl, rfl, nofun⟩

/-- The next read brings the other chunk. -/
theorem pages_complete_twoChunks : ∃ s response,
    (twoChunks ++ [PagingAction.read (some 1) false]).foldlM step (start ['p'] false) = .ok s ∧
    s.read none false = some response ∧ response.closed = true ∧
    (s.receive response).received = s.server.outputs := by
  have hkeeps : Along step KeepsUnread (start ['p'] false)
      (twoChunks ++ [PagingAction.read (some 1) false]) := by
    refine twoChunks_keepsUnread.append fun u _ => Along.of_forall ?_ u
    simp [KeepsUnread]
  have hreads : ∃ s response,
      (twoChunks ++ [PagingAction.read (some 1) false]).foldlM step (start ['p'] false) = .ok s ∧
      s.read none false = some response ∧ response.closed = true := ⟨_, _, rfl, rfl, rfl⟩
  obtain ⟨s, response, hrun, hread, hclosed⟩ := hreads
  obtain ⟨-, -, hle, hlast⟩ := pages_complete hkeeps hrun
  have hroom : s.unreadBytes < UInt64.size - 1 := Nat.lt_of_le_of_lt hle (by decide)
  exact ⟨s, response, hrun, hread, hclosed,
    (hlast none false response hread hclosed (.inr hroom)).1⟩

end Paging

end Codex.ExecServer
