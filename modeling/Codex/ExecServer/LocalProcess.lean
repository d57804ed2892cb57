import Codex.Foundation.Text

/-!
# A process of the exec server

Three tasks serve a process: one for each output stream and one that waits for its exit.
Each numbers its events under the lock on the process, tells the client outside of it, and
the last of them closes the process. A reader pages through the retained output.
-/

namespace Codex.ExecServer

open Foundation

abbrev ProcessId := Text

inductive ExecOutputStream where
  | stdout
  | stderr
  | pty
deriving DecidableEq

structure ProcessOutputChunk where
  seq : ℕ
  stream : ExecOutputStream
  chunk : List UInt8
deriving DecidableEq

inductive ExecProcessEvent where
  | output (chunk : ProcessOutputChunk)
  | exited (seq : ℕ) (exitCode : Int)
  | closed (seq : ℕ)
  | failed (message : Text)
deriving DecidableEq

namespace ExecProcessEvent

def seq : ExecProcessEvent → Option ℕ
  | .output chunk => some chunk.seq
  | .exited seq _ => some seq
  | .closed seq => some seq
  | .failed _ => none

theorem numbered_output (chunk : ProcessOutputChunk) : (output chunk).seq.isSome = true := rfl

theorem numbered_exited (seq : ℕ) (exitCode : Int) : (exited seq exitCode).seq.isSome = true := rfl

theorem numbered_closed (seq : ℕ) : (closed seq).seq.isSome = true := rfl

def isExited : ExecProcessEvent → Bool
  | .exited _ _ => true
  | _ => false

def isClosed : ExecProcessEvent → Bool
  | .closed _ => true
  | _ => false

end ExecProcessEvent

/-- A notification carries the fields of one numbered event. -/
structure ProcessNotification where
  processId : ProcessId
  event : ExecProcessEvent
  numbered : event.seq.isSome = true
deriving DecidableEq

/-! ## The process behind the lock -/

def retainedOutputBytesPerProcess : ℕ := 1024 * 1024

structure RunningProcess where
  output : List ProcessOutputChunk
  retainedBytes : ℕ
  nextSeq : ℕ
  exitCode : Option Int
  wake : ℕ
  openStreams : ℕ
  closed : Bool
deriving DecidableEq

namespace RunningProcess

def new : RunningProcess := ⟨[], 0, 1, none, 0, 2, false⟩

/-- The oldest chunks leave while too many bytes are retained. -/
def evict : List ProcessOutputChunk → ℕ → List ProcessOutputChunk × ℕ
  | [], retainedBytes => ([], retainedBytes)
  | chunk :: output, retainedBytes =>
    if retainedBytes > retainedOutputBytesPerProcess then
      evict output (retainedBytes - chunk.chunk.length)
    else (chunk :: output, retainedBytes)

/-- The block of `stream_output` under the lock. -/
def pushChunk (p : RunningProcess) (stream : ExecOutputStream) (chunk : List UInt8) :
    RunningProcess × ProcessOutputChunk :=
  let retained : ProcessOutputChunk := ⟨p.nextSeq, stream, chunk⟩
  let (output, retainedBytes) := evict (p.output ++ [retained]) (p.retainedBytes + chunk.length)
  ({ p with
      output := output
      retainedBytes := retainedBytes
      nextSeq := p.nextSeq + 1
      wake := p.nextSeq },
    retained)

def setExited (p : RunningProcess) (exitCode : Int) : RunningProcess :=
  { p with nextSeq := p.nextSeq + 1, exitCode := some exitCode, wake := p.nextSeq }

def finishStream (p : RunningProcess) : RunningProcess :=
  { p with openStreams := p.openStreams - 1 }

def canClose (p : RunningProcess) : Bool :=
  !p.closed && p.openStreams = 0 && p.exitCode.isSome

def setClosed (p : RunningProcess) : RunningProcess :=
  { p with nextSeq := p.nextSeq + 1, wake := p.nextSeq, closed := true }

end RunningProcess

structure ReadResponse where
  chunks : List ProcessOutputChunk
  nextSeq : ℕ
  exited : Bool
  exitCode : Option Int
  closed : Bool
  failure : Option Text
deriving DecidableEq

def takeChunks (maxBytes totalBytes : ℕ) (isEmpty : Bool) :
    List ProcessOutputChunk → List ProcessOutputChunk
  | [] => []
  | chunk :: rest =>
    if !isEmpty && totalBytes + chunk.chunk.length > maxBytes then []
    else if totalBytes + chunk.chunk.length ≥ maxBytes then [chunk]
    else chunk :: takeChunks maxBytes (totalBytes + chunk.chunk.length) false rest

def unread (p : RunningProcess) (afterSeq : ℕ) : List ProcessOutputChunk :=
  p.output.filter fun chunk => afterSeq < chunk.seq

def snapshot (p : RunningProcess) (afterSeq : Option ℕ) (maxBytes : Option ℕ) : ReadResponse :=
  let chunks := takeChunks (maxBytes.getD (UInt64.size - 1)) 0 true (unread p (afterSeq.getD 0))
  { chunks := chunks
    nextSeq := (chunks.getLast?.map fun chunk => chunk.seq + 1).getD p.nextSeq
    exited := p.exitCode.isSome
    exitCode := p.exitCode
    closed := p.closed
    failure := none }

/-- One turn of the loop of `exec_read`: it answers, or waits for news until the deadline. -/
def execRead (p : RunningProcess) (afterSeq : Option ℕ) (maxBytes : Option ℕ)
    (deadlineReached : Bool) : Option ReadResponse :=
  let response := snapshot p afterSeq maxBytes
  let hasNewTerminalEvent := response.exited && afterSeq.getD 0 < response.nextSeq - 1
  if !response.chunks.isEmpty || response.closed || hasNewTerminalEvent || deadlineReached then
    some response
  else none

/-! ## The tasks -/

inductive ProcessTask where
  | stdout
  | stderr
  | exit
deriving DecidableEq

/-- Where a task is. The exit watcher receives the exit code, and closes behind its
notification. -/
inductive Pc where
  | receiving
  | notifying (notification : ProcessNotification)
  | finishing
  | closing
  | notifyingClosed (notification : ProcessNotification)
  | done
deriving DecidableEq

/-- The entry of a process is gone some time after it closed. -/
structure Server where
  processId : ProcessId
  tty : Bool
  entry : Option RunningProcess
  tasks : ProcessTask → Pc
  events : List ExecProcessEvent
  notified : List ProcessNotification

inductive ServerAction where
  | output (task : ProcessTask) (chunk : List UInt8)
  | streamEnds (task : ProcessTask)
  | exits (exitCode : Int)
  | notify (task : ProcessTask)
  | finish (task : ProcessTask)
  | maybeClose (task : ProcessTask)
  | cleanup

inductive Disabled where
  | disabled
deriving DecidableEq

namespace Server

open ExecProcessEvent

def start (processId : ProcessId) (tty : Bool) : Server :=
  ⟨processId, tty, some .new, fun _ => .receiving, [], []⟩

def setTask (s : Server) (task : ProcessTask) (pc : Pc) : Server :=
  { s with tasks := Function.update s.tasks task pc }

def streamOf (s : Server) (task : ProcessTask) : ExecOutputStream :=
  if s.tty then .pty
  else
    match task with
    | .stderr => .stderr
    | _ => .stdout

/-- The process with a new event, of which the task has still to tell. -/
def emit (s : Server) (p : RunningProcess) (event : ExecProcessEvent)
    (numbered : event.seq.isSome = true) (task : ProcessTask) (pc : ProcessNotification → Pc) :
    Server :=
  { s with
    entry := some p
    events := s.events ++ [event]
    tasks := Function.update s.tasks task (pc ⟨s.processId, event, numbered⟩) }

def output (s : Server) (task : ProcessTask) (chunk : List UInt8) : Server :=
  match s.entry with
  | none => s.setTask task .finishing
  | some p =>
    let (p, retained) := p.pushChunk (s.streamOf task) chunk
    s.emit p (.output retained) (numbered_output _) task .notifying

def exits (s : Server) (exitCode : Int) : Server :=
  match s.entry with
  | none => s.setTask .exit .closing
  | some p =>
    s.emit (p.setExited exitCode) (.exited p.nextSeq exitCode) (numbered_exited _ _) .exit
      .notifying

def finish (s : Server) (task : ProcessTask) : Server :=
  match s.entry with
  | none => s.setTask task .done
  | some p => { s with entry := some p.finishStream }.setTask task .closing

def maybeClose (s : Server) (task : ProcessTask) : Server :=
  match s.entry with
  | none => s.setTask task .done
  | some p =>
    if p.canClose then
      s.emit p.setClosed (.closed p.nextSeq) (numbered_closed _) task .notifyingClosed
    else s.setTask task .done

def afterNotice : ProcessTask → Pc
  | .exit => .closing
  | _ => .receiving

def notify (s : Server) (task : ProcessTask) : Option Server :=
  match s.tasks task with
  | .notifying notification =>
    some ({ s with notified := s.notified ++ [notification] }.setTask task (afterNotice task))
  | .notifyingClosed notification =>
    some ({ s with notified := s.notified ++ [notification] }.setTask task .done)
  | _ => none

def step (s : Server) : ServerAction → Except Disabled Server
  | .output task chunk =>
    if task ≠ .exit ∧ s.tasks task = .receiving then .ok (s.output task chunk)
    else .error .disabled
  | .streamEnds task =>
    if task ≠ .exit ∧ s.tasks task = .receiving then .ok (s.setTask task .finishing)
    else .error .disabled
  | .exits exitCode =>
    if s.tasks .exit = .receiving then .ok (s.exits exitCode) else .error .disabled
  | .notify task =>
    match s.notify task with
    | some t => .ok t
    | none => .error .disabled
  | .finish task =>
    if s.tasks task = .finishing then .ok (s.finish task) else .error .disabled
  | .maybeClose task =>
    if s.tasks task = .closing then .ok (s.maybeClose task) else .error .disabled
  | .cleanup =>
    match s.entry with
    | some p => if p.closed then .ok { s with entry := none } else .error .disabled
    | none => .error .disabled

end Server

end Codex.ExecServer
