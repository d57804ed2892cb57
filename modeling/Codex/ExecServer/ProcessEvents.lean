import Codex.ExecServer.LocalProcess
import Codex.Foundation.Run
import Mathlib.Data.List.Count
import Mathlib.Data.List.Nodup

/-!
# The events of a process

Whichever task comes last closes the process: while both streams have ended, the exit is
known and nothing is closed, some task has still to look (`Server.Inv.last`). So the
numbers have no gaps, and a process whose tasks are done has one exit and one close, the
close at the end.
-/

namespace Codex.ExecServer

open Foundation List

theorem ok_ite_iff {p : Prop} [Decidable p] {s t : Server} :
    (if p then .ok s else .error Disabled.disabled) = Except.ok t ↔ p ∧ s = t := by
  by_cases h : p <;> simp [h]

def Pc.isOpen : Pc → Bool
  | .receiving => true
  | .notifying _ => true
  | .finishing => true
  | _ => false

variable (s : Server) {event : ExecProcessEvent} {task : ProcessTask} {t : Server}

namespace Server

open ExecProcessEvent

def openCount (s : Server) : ℕ :=
  (s.tasks .stdout).isOpen.toNat + (s.tasks .stderr).isOpen.toNat

def isOver (s : Server) : Bool := s.entry.all RunningProcess.closed

def numbers (n : ℕ) : List (Option ℕ) := (List.range' 1 n).map some

theorem numbers_succ (n : ℕ) : numbers (n + 1) = numbers n ++ [some (n + 1)] := by
  unfold numbers
  rw [range'_1_concat, map_append, Nat.add_comm 1 n]
  rfl

def WillClose (s : Server) (task : ProcessTask) : Prop :=
  s.tasks task = .closing ∨ task = .exit ∧ ∃ n, s.tasks task = .notifying n

structure Inv (s : Server) : Prop where
  numbered : s.events.map ExecProcessEvent.seq = numbers s.events.length
  running : ∀ p, s.entry = some p → p.nextSeq = s.events.length + 1 ∧
    p.openStreams = s.openCount ∧ (p.exitCode.isSome = true ↔ s.tasks .exit ≠ .receiving)
  watcher : s.tasks .exit ≠ .finishing
  exited : s.events.countP ExecProcessEvent.isExited =
    if s.tasks .exit = .receiving then 0 else 1
  opened : s.isOver = false → s.events.countP ExecProcessEvent.isClosed = 0
  ended : s.isOver = true → s.openCount = 0 ∧ s.tasks .exit ≠ .receiving ∧
    ∃ events n, s.events = events ++ [.closed n] ∧ events.countP ExecProcessEvent.isClosed = 0
  last : s.isOver = false → s.openCount = 0 → s.tasks .exit ≠ .receiving → ∃ task, s.WillClose task

theorem Inv.start (processId : ProcessId) (tty : Bool) : Inv (start processId tty) := by
  refine ⟨rfl, ?_, ?_, rfl, fun _ => rfl, ?_, ?_⟩
  · intro p hp
    cases hp
    exact ⟨rfl, rfl, by simp [RunningProcess.new, Server.start]⟩
  · exact nofun
  · intro h
    cases h
  · intro _ h
    cases h

/-! ## Steps that number nothing -/

@[simp] theorem setTask_tasks (task task' : ProcessTask) (pc : Pc) :
    (s.setTask task pc).tasks task' = if task' = task then pc else s.tasks task' := by
  unfold setTask
  simp [Function.update_apply]

@[simp] theorem setTask_entry (task : ProcessTask) (pc : Pc) :
    (s.setTask task pc).entry = s.entry := rfl

@[simp] theorem setTask_events (task : ProcessTask) (pc : Pc) :
    (s.setTask task pc).events = s.events := rfl

theorem openCount_setTask (task : ProcessTask) (pc : Pc) (h : task ≠ .exit) :
    (s.setTask task pc).openCount + (s.tasks task).isOpen.toNat =
      s.openCount + pc.isOpen.toNat := by
  unfold openCount
  cases task with
  | stdout | stderr =>
    simp only [setTask_tasks, if_true, reduceCtorEq, if_false]
    omega
  | exit => exact absurd rfl h

theorem openCount_watcher (pc : Pc) : (s.setTask .exit pc).openCount = s.openCount := by
  simp [openCount]

variable {s : Server}

theorem Inv.notified (h : Inv s) (notified : List ProcessNotification) :
    Inv { s with notified := notified } :=
  ⟨h.numbered, h.running, h.watcher, h.exited, h.opened, h.ended, h.last⟩

theorem Inv.stream (h : Inv s) (htask : task ≠ .exit) {pc : Pc}
    (hopen : pc.isOpen = (s.tasks task).isOpen)
    (hlast : s.tasks task = .closing → s.isOver = false → s.openCount = 0 →
      s.tasks .exit ≠ .receiving → ∃ task', task' ≠ task ∧ s.WillClose task') :
    Inv (s.setTask task pc) := by
  have hexit : (s.setTask task pc).tasks .exit = s.tasks .exit := by
    simp [Ne.symm htask]
  have hcount : (s.setTask task pc).openCount = s.openCount := by
    have hsum := openCount_setTask s task pc htask
    rw [hopen] at hsum
    exact Nat.add_right_cancel hsum
  refine ⟨h.numbered, ?_, ?_, ?_, h.opened, ?_, ?_⟩
  · rw [hcount, hexit]
    exact h.running
  · rw [hexit]
    exact h.watcher
  · rw [hexit]
    exact h.exited
  · rw [hcount, hexit]
    exact h.ended
  · rw [hcount, hexit]
    intro hover hzero hcode
    have hother : ∃ task', task' ≠ task ∧ s.WillClose task' := by
      obtain ⟨task', hwill⟩ := h.last hover hzero hcode
      by_cases he : task' = task
      · subst he
        obtain hclosing | ⟨he, -⟩ := hwill
        · exact hlast hclosing hover hzero hcode
        · exact absurd he htask
      · exact ⟨task', he, hwill⟩
    obtain ⟨task', hne, hwill⟩ := hother
    refine ⟨task', ?_⟩
    unfold WillClose at hwill ⊢
    rw [setTask_tasks, if_neg hne]
    exact hwill

theorem Inv.watch (h : Inv s) {pc : Pc} (hcode : s.tasks .exit ≠ .receiving) (hpc : pc ≠ .receiving)
    (hfinish : pc ≠ .finishing) (hlast : s.isOver = false → s.openCount = 0 → pc = .closing ∨
      ∃ task, task ≠ .exit ∧ s.WillClose task) : Inv (s.setTask .exit pc) := by
  have hexit : (s.setTask .exit pc).tasks .exit = pc := by simp
  refine ⟨h.numbered, ?_, ?_, ?_, h.opened, ?_, ?_⟩
  · rw [openCount_watcher, hexit]
    intro p hp
    obtain ⟨hnext, hopen, hcode'⟩ := h.running p hp
    exact ⟨hnext, hopen, by simp [hpc, hcode'.mpr hcode]⟩
  · rw [hexit]
    exact hfinish
  · rw [hexit, if_neg hpc]
    exact h.exited.trans (if_neg hcode)
  · rw [openCount_watcher, hexit]
    exact fun hover => ⟨(h.ended hover).1, hpc, (h.ended hover).2.2⟩
  · rw [openCount_watcher]
    intro hover hzero _
    obtain hclosing | ⟨task, hne, hwill⟩ := hlast hover hzero
    · exact ⟨.exit, .inl (hexit.trans hclosing)⟩
    · refine ⟨task, ?_⟩
      unfold WillClose at hwill ⊢
      rw [setTask_tasks, if_neg hne]
      exact hwill

/-! ## Steps that number an event -/

theorem over_eq_false : s.isOver = false ↔ ∃ p, s.entry = some p ∧ p.closed = false := by
  unfold isOver
  cases s.entry <;> simp

theorem openCount_pos (htask : task ≠ .exit) (hopen : (s.tasks task).isOpen = true) :
    0 < s.openCount := by
  unfold openCount
  cases task with
  | stdout =>
    simp only [hopen, Bool.toNat_true]
    exact Nat.add_pos_left Nat.one_pos _
  | stderr =>
    simp only [hopen, Bool.toNat_true]
    exact Nat.succ_pos _
  | exit => exact absurd rfl htask

theorem Inv.present (h : Inv s) (hlive : 0 < s.openCount ∨ s.tasks .exit = .receiving) :
    ∃ p, s.entry = some p ∧ p.closed = false := by
  apply over_eq_false.mp
  by_contra hover
  obtain ⟨hzero, hcode, -⟩ := h.ended (eq_true_of_ne_false hover)
  obtain hpos | hreceiving := hlive
  · exact absurd hzero (Nat.pos_iff_ne_zero.mp hpos)
  · exact hcode hreceiving

theorem Inv.canClose_iff (h : Inv s) {p : RunningProcess} (hp : s.entry = some p) :
    p.canClose = true ↔ s.isOver = false ∧ s.openCount = 0 ∧ s.tasks .exit ≠ .receiving := by
  obtain ⟨-, hopen, hcode⟩ := h.running p hp
  rw [← hcode, ← hopen]
  simp [RunningProcess.canClose, isOver, hp, and_assoc]

theorem Inv.numbered_snoc (h : Inv s) {p : RunningProcess} (hp : s.entry = some p)
    (hseq : event.seq = some p.nextSeq) :
    (s.events ++ [event]).map ExecProcessEvent.seq = numbers (s.events ++ [event]).length := by
  rw [map_append, h.numbered, length_append, length_singleton, numbers_succ,
    map_singleton, hseq, (h.running p hp).1]

section
variable {s : Server} {p : RunningProcess} {event : ExecProcessEvent}
  {numbered : event.seq.isSome = true} {task : ProcessTask} {pc : ProcessNotification → Pc}

@[simp] theorem emit_tasks (task' : ProcessTask) : (s.emit p event numbered task pc).tasks task' =
    if task' = task then pc ⟨s.processId, event, numbered⟩ else s.tasks task' :=
  setTask_tasks s task task' _

@[simp] theorem emit_entry : (s.emit p event numbered task pc).entry = some p := rfl

@[simp] theorem emit_events : (s.emit p event numbered task pc).events = s.events ++ [event] :=
  rfl

theorem openCount_emit
    (hopen : (pc ⟨s.processId, event, numbered⟩).isOpen = (s.tasks task).isOpen ∨ task = .exit) :
    (s.emit p event numbered task pc).openCount = s.openCount := by
  by_cases htask : task = .exit
  · subst htask
    simp [openCount]
  · have hsum := openCount_setTask s task (pc ⟨s.processId, event, numbered⟩) htask
    rw [hopen.resolve_right htask] at hsum
    exact Nat.add_right_cancel hsum

end

variable {s : Server} {task : ProcessTask}

section
variable (h : Inv s)
include h

theorem Inv.output (htask : task ≠ .exit) (hreceiving : s.tasks task = .receiving)
    (chunk : List UInt8) : Inv (s.output task chunk) := by
  have hisOpen : (s.tasks task).isOpen = true := by simp [hreceiving, Pc.isOpen]
  have hpos := openCount_pos htask hisOpen
  obtain ⟨p, hp, hclosed⟩ := h.present (.inl hpos)
  obtain ⟨hnext, hopen, hcode⟩ := h.running p hp
  have hover := over_eq_false.mpr ⟨p, hp, hclosed⟩
  unfold Server.output
  simp only [hp]
  have hcount : (s.emit (p.pushChunk (s.streamOf task) chunk).1
      (.output (p.pushChunk (s.streamOf task) chunk).2) (numbered_output _) task
        .notifying).openCount = s.openCount :=
    openCount_emit (.inl hisOpen.symm)
  refine ⟨h.numbered_snoc hp rfl, ?_, ?_, ?_, fun _ => ?_, fun hended => ?_, fun _ hzero => ?_⟩
  · rw [hcount]
    intro p' hp'
    cases hp'
    refine ⟨?_, hopen, ?_⟩
    · simp [RunningProcess.pushChunk, hnext]
    · simpa [Ne.symm htask, RunningProcess.pushChunk] using hcode
  · simpa [Ne.symm htask] using h.watcher
  · simpa [Ne.symm htask, ExecProcessEvent.isExited] using h.exited
  · simpa [ExecProcessEvent.isClosed] using h.opened hover
  · exact absurd hended (by simp [isOver, RunningProcess.pushChunk, hclosed])
  · rw [hcount] at hzero
    exact absurd hzero (Nat.pos_iff_ne_zero.mp hpos)

theorem Inv.exits (hreceiving : s.tasks .exit = .receiving) (exitCode : Int) :
    Inv (s.exits exitCode) := by
  obtain ⟨p, hp, hclosed⟩ := h.present (.inr hreceiving)
  obtain ⟨hnext, hopen, -⟩ := h.running p hp
  have hover := over_eq_false.mpr ⟨p, hp, hclosed⟩
  unfold Server.exits
  simp only [hp]
  have hcount : (s.emit (p.setExited exitCode) (.exited p.nextSeq exitCode)
      (numbered_exited _ _) .exit .notifying).openCount = s.openCount := openCount_emit (.inr rfl)
  refine ⟨h.numbered_snoc hp rfl, ?_, by simp, ?_, fun _ => ?_, fun hended => ?_, fun _ _ _ => ?_⟩
  · rw [hcount]
    intro p' hp'
    cases hp'
    refine ⟨?_, hopen, ?_⟩
    · simp [RunningProcess.setExited, hnext]
    · simp [RunningProcess.setExited]
  · simpa [hreceiving, ExecProcessEvent.isExited] using h.exited
  · simpa [ExecProcessEvent.isClosed] using h.opened hover
  · exact absurd hended (by simp [isOver, RunningProcess.setExited, hclosed])
  · exact ⟨.exit, .inr ⟨rfl, _, emit_tasks .exit⟩⟩

theorem Inv.finish (hfinishing : s.tasks task = .finishing) : Inv (s.finish task) := by
  have htask : task ≠ .exit := by
    intro he
    subst he
    exact h.watcher hfinishing
  have hisOpen : (s.tasks task).isOpen = true := by simp [hfinishing, Pc.isOpen]
  obtain ⟨p, hp, hclosed⟩ := h.present (.inl (openCount_pos htask hisOpen))
  obtain ⟨hnext, hopen, hcode⟩ := h.running p hp
  have hover := over_eq_false.mpr ⟨p, hp, hclosed⟩
  unfold Server.finish
  simp only [hp]
  have hcount := openCount_setTask { s with entry := some p.finishStream } task .closing htask
  have hsame : openCount { s with entry := some p.finishStream } = s.openCount := rfl
  have hclosing : Pc.closing.isOpen = false := rfl
  simp only [hsame, hisOpen, hclosing, Bool.toNat_true, Bool.toNat_false, Nat.add_zero] at hcount
  refine ⟨h.numbered, ?_, ?_, ?_, fun _ => h.opened hover, fun hended => ?_, fun _ _ _ => ?_⟩
  · intro p' hp'
    cases hp'
    refine ⟨hnext, ?_, ?_⟩
    · show p.openStreams - 1 = _
      rw [hopen, ← hcount, Nat.add_sub_cancel]
    · simpa [Ne.symm htask, RunningProcess.finishStream] using hcode
  · simpa [Ne.symm htask] using h.watcher
  · simpa [Ne.symm htask] using h.exited
  · exact absurd hended (by simp [isOver, RunningProcess.finishStream, hclosed])
  · exact ⟨task, .inl (by simp)⟩

theorem Inv.maybeClose (hclosing : s.tasks task = .closing) : Inv (s.maybeClose task) := by
  have hdone (hcannot : ¬ (s.isOver = false ∧ s.openCount = 0 ∧ s.tasks .exit ≠ .receiving)) :
      Inv (s.setTask task .done) := by
    by_cases htask : task = .exit
    · subst htask
      have hcode : s.tasks .exit ≠ .receiving := by simp [hclosing]
      exact h.watch hcode (by simp) (by simp) fun hover hzero =>
        absurd ⟨hover, hzero, hcode⟩ hcannot
    · exact h.stream htask (by simp [hclosing, Pc.isOpen]) fun _ hover hzero hcode =>
        absurd ⟨hover, hzero, hcode⟩ hcannot
  unfold Server.maybeClose
  cases hp : s.entry with
  | none => exact hdone (by simp [isOver, hp])
  | some p =>
    simp only
    have hcan := h.canClose_iff hp
    by_cases hclose : p.canClose = true
    · rw [if_pos hclose]
      obtain ⟨hover, hzero, hcode⟩ := hcan.mp hclose
      obtain ⟨hnext, hopen, hcode'⟩ := h.running p hp
      have hcount : (s.emit p.setClosed (.closed p.nextSeq) (numbered_closed _) task
          .notifyingClosed).openCount = s.openCount :=
        openCount_emit (.inl (by simp [hclosing, Pc.isOpen]))
      have hexit : (s.emit p.setClosed (.closed p.nextSeq) (numbered_closed _) task
          .notifyingClosed).tasks .exit ≠ .receiving := by
        rw [emit_tasks]
        split
        · simp
        · exact hcode
      refine ⟨h.numbered_snoc hp rfl, ?_, ?_, ?_, fun hnot => ?_, fun _ => ?_, fun hnot => ?_⟩
      · rw [hcount]
        intro p' hp'
        cases hp'
        exact ⟨by simp [RunningProcess.setClosed, hnext], hopen,
          iff_of_true (hcode'.mpr hcode) hexit⟩
      · rw [emit_tasks]
        split
        · simp
        · exact h.watcher
      · rw [if_neg hexit, emit_events, countP_append, h.exited, if_neg hcode]
        rfl
      · simp [isOver, RunningProcess.setClosed] at hnot
      · rw [hcount]
        exact ⟨hzero, hexit, s.events, p.nextSeq, rfl, h.opened hover⟩
      · simp [isOver, RunningProcess.setClosed] at hnot
    · rw [if_neg hclose]
      exact hdone fun hready => hclose (hcan.mpr hready)

theorem Inv.notify (hnotify : s.notify task = some t) : Inv t := by
  unfold Server.notify at hnotify
  split at hnotify
  · rename_i n hpc
    cases hnotify
    have hs := h.notified (s.notified ++ [n])
    by_cases htask : task = .exit
    · subst htask
      exact hs.watch (by simp [hpc]) (by simp [afterNotice]) (by simp [afterNotice])
        fun _ _ => .inl rfl
    · refine hs.stream htask ?_ fun hclosing => by simp [hpc] at hclosing
      simp only [hpc]
      cases task with
      | stdout | stderr => rfl
      | exit => exact absurd rfl htask
  · rename_i n hpc
    cases hnotify
    have hs := h.notified (s.notified ++ [n])
    by_cases htask : task = .exit
    · subst htask
      refine hs.watch (by simp [hpc]) (by simp) (by simp) fun hover hzero => .inr ?_
      obtain ⟨task, hwill⟩ := hs.last hover hzero (by simp [hpc])
      refine ⟨task, ?_, hwill⟩
      intro he
      subst he
      simp [WillClose, hpc] at hwill
    · exact hs.stream htask (by simp [hpc, Pc.isOpen]) fun hclosing => by simp [hpc] at hclosing
  · cases hnotify

theorem Inv.cleanup (hover : s.isOver = true) : Inv { s with entry := none } := by
  refine ⟨h.numbered, ?_, h.watcher, h.exited, ?_, fun _ => h.ended hover, ?_⟩
  · intro p hp
    cases hp
  · intro hnot
    cases hnot
  · intro hnot
    cases hnot

theorem Inv.step {a : ServerAction} (hstep : s.step a = .ok t) : Inv t := by
  cases a with
  | output task chunk =>
    obtain ⟨hready, rfl⟩ := ok_ite_iff.mp hstep
    exact h.output hready.1 hready.2 chunk
  | streamEnds task =>
    obtain ⟨hready, rfl⟩ := ok_ite_iff.mp hstep
    refine h.stream hready.1 (by simp [hready.2, Pc.isOpen]) fun hclosing => ?_
    rw [hready.2] at hclosing
    cases hclosing
  | exits exitCode =>
    obtain ⟨hready, rfl⟩ := ok_ite_iff.mp hstep
    exact h.exits hready exitCode
  | notify task =>
    simp only [Server.step] at hstep
    split at hstep
    · rename_i t' hnotify
      cases hstep
      exact h.notify hnotify
    · cases hstep
  | finish task =>
    obtain ⟨hready, rfl⟩ := ok_ite_iff.mp hstep
    exact h.finish hready
  | maybeClose task =>
    obtain ⟨hready, rfl⟩ := ok_ite_iff.mp hstep
    exact h.maybeClose hready
  | cleanup =>
    simp only [Server.step] at hstep
    split at hstep
    · rename_i p hp
      split at hstep
      · rename_i hclosed
        cases hstep
        exact h.cleanup (by simp [isOver, hp, hclosed])
      · cases hstep
    · cases hstep

end

/-! ## What the client is told -/

end Server

def Pc.owed : Pc → Option ProcessNotification
  | .notifying notification => some notification
  | .notifyingClosed notification => some notification
  | _ => none

namespace Server

/-- What a step does to the events and to those who have still to tell of one. -/
inductive Change (s : Server) : Server → Prop
  | moves {task : ProcessTask} {pc : Pc} (entry : Option RunningProcess)
      (hnone : (s.tasks task).owed = none) (hpc : pc.owed = none) :
      Change s ({ s with entry := entry }.setTask task pc)
  | emits {event : ExecProcessEvent} {numbered : event.seq.isSome = true} {task : ProcessTask}
      {pc : ProcessNotification → Pc} (p : RunningProcess) (hnone : (s.tasks task).owed = none)
      (hpc : ∀ n, (pc n).owed = some n) : Change s (s.emit p event numbered task pc)
  | notifies {task : ProcessTask} {n : ProcessNotification} {pc : Pc}
      (howed : (s.tasks task).owed = some n) (hpc : pc.owed = none) :
      Change s ({ s with notified := s.notified ++ [n] }.setTask task pc)
  | forgets : Change s { s with entry := none }

variable {s : Server}

theorem step_change {a : ServerAction} (hstep : s.step a = .ok t) : Change s t := by
  cases a with
  | output task chunk =>
    obtain ⟨hready, rfl⟩ := ok_ite_iff.mp hstep
    have hnone : (s.tasks task).owed = none := by rw [hready.2]; rfl
    unfold Server.output
    split
    · exact .moves s.entry hnone rfl
    · exact .emits _ hnone fun _ => rfl
  | streamEnds task =>
    obtain ⟨hready, rfl⟩ := ok_ite_iff.mp hstep
    exact .moves s.entry (by rw [hready.2]; rfl) rfl
  | exits exitCode =>
    obtain ⟨hready, rfl⟩ := ok_ite_iff.mp hstep
    have hnone : (s.tasks .exit).owed = none := by rw [hready]; rfl
    unfold Server.exits
    split
    · exact .moves s.entry hnone rfl
    · exact .emits _ hnone fun _ => rfl
  | notify task =>
    simp only [Server.step, Server.notify] at hstep
    split at hstep
    · rename_i hnotify
      cases hstep
      split at hnotify
      · rename_i n hpc
        cases hnotify
        exact .notifies (by rw [hpc]; rfl) (by cases task <;> rfl)
      · rename_i n hpc
        cases hnotify
        exact .notifies (by rw [hpc]; rfl) rfl
      · cases hnotify
    · cases hstep
  | finish task =>
    obtain ⟨hready, rfl⟩ := ok_ite_iff.mp hstep
    have hnone : (s.tasks task).owed = none := by rw [hready]; rfl
    unfold Server.finish
    split
    · exact .moves s.entry hnone rfl
    · exact .moves _ hnone rfl
  | maybeClose task =>
    obtain ⟨hready, rfl⟩ := ok_ite_iff.mp hstep
    have hnone : (s.tasks task).owed = none := by rw [hready]; rfl
    unfold Server.maybeClose
    split
    · exact .moves s.entry hnone rfl
    · split
      · exact .emits _ hnone fun _ => rfl
      · exact .moves s.entry hnone rfl
  | cleanup =>
    simp only [Server.step] at hstep
    split at hstep
    · split at hstep
      · cases hstep
        exact .forgets
      · cases hstep
    · cases hstep

def Told (s : Server) (n : ProcessNotification) : Prop :=
  n ∈ s.notified ∨ ∃ task, (s.tasks task).owed = some n

structure Announced (processId : ProcessId) (s : Server) : Prop where
  same : s.processId = processId
  told : ∀ n, s.Told n ↔ n.processId = processId ∧ n.event ∈ s.events

theorem Announced.start (processId : ProcessId) (tty : Bool) :
    Announced processId (start processId tty) :=
  ⟨rfl, fun n => by simp [Told, Server.start, Pc.owed]⟩

section
variable {s : Server} {task : ProcessTask} {n : ProcessNotification}

theorem told_setTask (hnone : (s.tasks task).owed = none) (pc : Pc) :
    (s.setTask task pc).Told n ↔ s.Told n ∨ pc.owed = some n := by
  unfold Told
  simp only [setTask_tasks]
  rw [or_assoc]
  refine or_congr Iff.rfl ⟨?_, ?_⟩
  · intro ⟨task', howed⟩
    split at howed
    · exact .inr howed
    · exact .inl ⟨task', howed⟩
  · intro h
    obtain ⟨task', howed⟩ | howed := h
    · refine ⟨task', ?_⟩
      split
      · rename_i he
        rw [he, hnone] at howed
        cases howed
      · exact howed
    · exact ⟨task, by rw [if_pos rfl]; exact howed⟩

theorem told_notified {m : ProcessNotification} (howed : (s.tasks task).owed = some m) {pc : Pc}
    (hpc : pc.owed = none) :
    ({ s with notified := s.notified ++ [m] }.setTask task pc).Told n ↔ s.Told n := by
  unfold Told
  simp only [setTask, mem_append, mem_singleton, Function.update_apply]
  constructor
  · intro h
    obtain (hn | hn) | ⟨task', htask'⟩ := h
    · exact .inl hn
    · exact .inr ⟨task, hn ▸ howed⟩
    · split at htask'
      · rw [hpc] at htask'
        cases htask'
      · exact .inr ⟨task', htask'⟩
  · intro h
    obtain hn | ⟨task', htask'⟩ := h
    · exact .inl (.inl hn)
    · by_cases he : task' = task
      · rw [he, howed, Option.some.injEq] at htask'
        exact .inl (.inr htask'.symm)
      · exact .inr ⟨task', by rw [if_neg he]; exact htask'⟩

end

section
variable {processId : ProcessId} {s : Server} {task : ProcessTask}

theorem Announced.setTask (h : Announced processId s) (hnone : (s.tasks task).owed = none)
    {pc : Pc} (hpc : pc.owed = none) : Announced processId (s.setTask task pc) :=
  ⟨h.same, fun n => by simpa [told_setTask hnone, hpc] using h.told n⟩

theorem Announced.emit (h : Announced processId s) (hnone : (s.tasks task).owed = none)
    {numbered : event.seq.isSome = true} {pc : ProcessNotification → Pc}
    (hpc : ∀ n, (pc n).owed = some n) (p : RunningProcess) :
    Announced processId (s.emit p event numbered task pc) := by
  refine ⟨h.same, fun n => (told_setTask hnone _).trans ?_⟩
  rw [h.told n, hpc, emit_events, mem_append, mem_singleton, Option.some.injEq, h.same]
  obtain ⟨id, e, -⟩ := n
  simp only [ProcessNotification.mk.injEq]
  constructor
  · intro hn
    obtain ⟨hid, he⟩ | ⟨hid, he⟩ := hn
    · exact ⟨hid, .inl he⟩
    · exact ⟨hid.symm, .inr he.symm⟩
  · intro ⟨hid, he⟩
    exact he.imp (fun he => ⟨hid, he⟩) fun he => ⟨hid.symm, he.symm⟩

theorem Announced.change (h : Announced processId s) (hchange : Change s t) :
    Announced processId t := by
  cases hchange with
  | moves entry hnone hpc =>
    have hentry : Announced processId { s with entry := entry } := ⟨h.same, h.told⟩
    exact hentry.setTask hnone hpc
  | emits p hnone hpc => exact h.emit hnone hpc p
  | notifies howed hpc => exact ⟨h.same, fun n => (told_notified howed hpc).trans (h.told n)⟩
  | forgets => exact ⟨h.same, h.told⟩

end

/-! ## Whole runs -/

theorem Inv.closed_last (h : Inv s) : s.events.countP ExecProcessEvent.isClosed = 0 ∨
      ∃ events n, s.events = events ++ [.closed n] ∧
        events.countP ExecProcessEvent.isClosed = 0 := by
  cases hover : s.isOver with
  | false => exact .inl (h.opened hover)
  | true => exact .inr (h.ended hover).2.2

def Complete (s : Server) : Prop := ∀ task, s.tasks task = .done

theorem Inv.complete (h : Inv s) (hdone : s.Complete) :
    s.events.countP ExecProcessEvent.isExited = 1 ∧
      ∃ events n, s.events = events ++ [.closed n] ∧
        events.countP ExecProcessEvent.isClosed = 0 := by
  have hcode : s.tasks .exit ≠ .receiving := by simp [hdone .exit]
  refine ⟨h.exited.trans (if_neg hcode), ?_⟩
  cases hover : s.isOver with
  | true => exact (h.ended hover).2.2
  | false =>
    have hzero : s.openCount = 0 := by simp [openCount, hdone .stdout, hdone .stderr, Pc.isOpen]
    obtain ⟨task, hwill⟩ := h.last hover hzero hcode
    simp [WillClose, hdone task] at hwill

theorem Announced.complete {processId : ProcessId} (h : Announced processId s) (hdone : s.Complete)
    {n : ProcessNotification} (hprocess : n.processId = processId) (hevent : n.event ∈ s.events) :
    n ∈ s.notified := by
  obtain hn | ⟨task, howed⟩ := (h.told n).mpr ⟨hprocess, hevent⟩
  · exact hn
  · rw [hdone task] at howed
    cases howed

/-- What a task has still to do. Only the exit watcher receives before it tells. -/
def stepsLeft (task : ProcessTask) : Pc → ℕ
  | .receiving => if task = .exit then 6 else 4
  | .notifying _ => 5
  | .finishing => 3
  | .closing => 2
  | .notifyingClosed _ => 1
  | .done => 0

def rank (s : Server) : ℕ :=
  stepsLeft .stdout (s.tasks .stdout) + stepsLeft .stderr (s.tasks .stderr) +
    stepsLeft .exit (s.tasks .exit)

theorem rank_lt {pc : Pc} (ht : t.tasks = Function.update s.tasks task pc)
    (hpc : stepsLeft task pc < stepsLeft task (s.tasks task)) : t.rank < s.rank := by
  unfold rank
  rw [ht]
  cases task <;> simp <;> omega

theorem progress (hdone : s.tasks task ≠ .done) : ∃ a t, s.step a = .ok t ∧ t.rank < s.rank := by
  cases hpc : s.tasks task with
  | receiving =>
    by_cases htask : task = .exit
    · subst htask
      refine ⟨.exits 0, s.exits 0, by simp [Server.step, hpc], ?_⟩
      unfold Server.exits
      split <;> exact rank_lt rfl (by simp [hpc, stepsLeft])
    · exact ⟨.streamEnds task, s.setTask task .finishing, by simp [Server.step, htask, hpc],
        rank_lt rfl (by simp [hpc, stepsLeft, htask])⟩
  | notifying n =>
    refine ⟨.notify task,
      { s with notified := s.notified ++ [n] }.setTask task (afterNotice task),
      by simp only [Server.step, Server.notify, hpc], rank_lt rfl ?_⟩
    rw [hpc]
    cases task <;> simp [afterNotice, stepsLeft]
  | finishing =>
    refine ⟨.finish task, s.finish task, by simp [Server.step, hpc], ?_⟩
    unfold Server.finish
    split <;> exact rank_lt rfl (by simp [hpc, stepsLeft])
  | closing =>
    refine ⟨.maybeClose task, s.maybeClose task, by simp [Server.step, hpc], ?_⟩
    unfold Server.maybeClose
    split
    · exact rank_lt rfl (by simp [hpc, stepsLeft])
    · split <;> exact rank_lt rfl (by simp [hpc, stepsLeft])
  | notifyingClosed n =>
    exact ⟨.notify task, { s with notified := s.notified ++ [n] }.setTask task .done,
      by simp only [Server.step, Server.notify, hpc], rank_lt rfl (by simp [hpc, stepsLeft])⟩
  | done => exact absurd hpc hdone

/-- Every run can go on until its tasks are done. By then the client has been told of all
events, of which one is the exit and the last one is the close. -/
theorem run_completes (processId : ProcessId) (tty : Bool) {actions : List ServerAction}
    (hrun : actions.foldlM Server.step (start processId tty) = .ok s) :
    ∃ more t, (actions ++ more).foldlM Server.step (start processId tty) = .ok t ∧
      t.Complete ∧ t.events.countP ExecProcessEvent.isExited = 1 ∧
      (∃ events n, t.events = events ++ [.closed n] ∧
        events.countP ExecProcessEvent.isClosed = 0) ∧
      ∀ n : ProcessNotification,
        n ∈ t.notified ↔ n.processId = processId ∧ n.event ∈ t.events := by
  obtain ⟨more, t, hmore, hdone⟩ := run_reaches (P := Complete) (f := rank) (fun u hu => by
    obtain ⟨task, htask⟩ := not_forall.mp hu
    exact progress htask) s
  have hwhole := run_concat hrun hmore
  obtain ⟨hinv, hann⟩ : t.Inv ∧ t.Announced processId :=
    run_keeps (I := fun u => u.Inv ∧ u.Announced processId)
      (fun _ _ _ hu hstep => ⟨hu.1.step hstep, hu.2.change (step_change hstep)⟩)
      ⟨.start processId tty, .start processId tty⟩ hwhole
  refine ⟨more, t, hwhole, hdone, (hinv.complete hdone).1, (hinv.complete hdone).2, fun n => ?_⟩
  exact ⟨fun hn => (hann.told n).mp (.inl hn), fun hn => hann.complete hdone hn.1 hn.2⟩

theorem run_completes_output : ∃ more t,
    ([ServerAction.output .stdout [0], .exits 1] ++ more).foldlM Server.step (start [] true) =
      .ok t ∧ t.Complete := by
  have hrun : ∃ s, [ServerAction.output .stdout [0], .exits 1].foldlM Server.step
      (start [] true) = .ok s := ⟨_, rfl⟩
  obtain ⟨s, hs⟩ := hrun
  obtain ⟨more, t, ht, hdone, -⟩ := run_completes [] true hs
  exact ⟨more, t, ht, hdone⟩

theorem Inv.item (h : Inv s) (hevent : event ∈ s.events) {seq : ℕ} (hseq : event.seq = some seq) :
    s.events[seq - 1]? = some event ∧ 0 < seq ∧ seq ≤ s.events.length := by
  obtain ⟨i, hi, hget⟩ := getElem_of_mem hevent
  have hnumber : (s.events.map ExecProcessEvent.seq)[i]? = some (some seq) := by
    rw [List.getElem?_map, List.getElem?_eq_getElem hi, hget, Option.map_some, hseq]
  rw [h.numbered] at hnumber
  unfold numbers at hnumber
  rw [List.getElem?_map, List.getElem?_range' hi] at hnumber
  simp only [Option.map_some, Option.some.injEq, Nat.one_mul] at hnumber
  subst hnumber
  rw [Nat.add_sub_cancel_left, List.getElem?_eq_getElem hi, hget]
  exact ⟨rfl, by omega, by omega⟩

theorem Inv.nodup (h : Inv s) : s.events.Nodup := by
  have hnumbers : (s.events.map ExecProcessEvent.seq).Nodup := by
    rw [h.numbered]
    exact List.Nodup.map (fun _ _ h => Option.some.inj h) nodup_range'
  exact List.Nodup.of_map _ hnumbers

theorem Change.grows {s t : Server} (h : Change s t) :
    s.events <+: t.events ∧ s.notified <+: t.notified := by
  cases h with
  | moves => exact ⟨prefix_rfl, prefix_rfl⟩
  | emits => exact ⟨prefix_append _ _, prefix_rfl⟩
  | notifies => exact ⟨prefix_rfl, prefix_append _ _⟩
  | forgets => exact ⟨prefix_rfl, prefix_rfl⟩

end Server

end Codex.ExecServer
