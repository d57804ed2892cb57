import Codex.RolloutTrace.CodeCells
import Codex.RolloutTrace.GraphSteps
import Codex.RolloutTrace.SnapshotReuse

/-!
# Interrupted turns

A turn end that interrupts terminates the cells that are there; a start that still waits for
its item is not terminated. The two statuses of a cell are written together by an end, and
only one of them by an initial response. So late events can leave a cell running whose turn
was interrupted, and statuses that do not go together.
-/

namespace Codex.RolloutTrace

open Foundation Option

/-! ## The statuses of a cell -/

abbrev CellStatuses := ExecutionStatus × CodeCellRuntimeStatus

def CodeCell.statuses (cell : CodeCell) : CellStatuses :=
  (cell.execution.status, cell.runtimeStatus)

def PendingCodeCellLifecycleEventKind.applyTo (s : CellStatuses) :
    PendingCodeCellLifecycleEventKind → CellStatuses
  | .initialResponse _ status => (s.1, status)
  | .ended status => (executionStatusForCodeCell status, status)

/-- The statuses a cell starts with when these events have waited for it. -/
def queueStatuses (events : List PendingCodeCellLifecycleEvent) : CellStatuses :=
  events.foldl (fun s event => event.kind.applyTo s) (.running, .starting)

def Coherent (s : CellStatuses) : Prop := s.1 = executionStatusForCodeCell s.2

namespace CodeCells

def statusesOf (g : CodeCells) (codeCellId : Text) : CellStatuses :=
  match getEntry codeCellId g.codeCells with
  | some cell => cell.statuses
  | none => queueStatuses (g.queueOf codeCellId)

variable {g g' g'' : CodeCells} {codeCellId : Text} {cell : CodeCell}

theorem statusesOf_some (h : getEntry codeCellId g.codeCells = some cell) :
    g.statusesOf codeCellId = cell.statuses := by
  unfold statusesOf
  rw [h]

theorem statusesOf_none (h : getEntry codeCellId g.codeCells = none) :
    g.statusesOf codeCellId = queueStatuses (g.queueOf codeCellId) := by
  unfold statusesOf
  rw [h]

variable (g g') in
def Keeps : Prop := ∀ codeCellId cell, getEntry codeCellId g.codeCells = some cell →
  ∃ cell', getEntry codeCellId g'.codeCells = some cell' ∧ cell'.codexTurnId = cell.codexTurnId

variable (g g') in
/-- No cell changes its statuses, and a cell that starts has those of what waited for it. -/
structure Steady : Prop where
  statuses : ∀ codeCellId, g'.statusesOf codeCellId = g.statusesOf codeCellId
  keeps : g.Keeps g'

theorem Keeps.refl (g : CodeCells) : g.Keeps g := fun _ cell h => ⟨cell, h, rfl⟩

theorem Keeps.trans (h : g.Keeps g') (h' : g'.Keeps g'') : g.Keeps g'' := by
  intro codeCellId cell hcell
  obtain ⟨cell', hcell', hturn⟩ := h codeCellId cell hcell
  obtain ⟨cell'', hcell'', hturn'⟩ := h' codeCellId cell' hcell'
  exact ⟨cell'', hcell'', hturn'.trans hturn⟩

theorem Steady.refl (g : CodeCells) : Steady g g := ⟨fun _ => rfl, Keeps.refl g⟩

theorem Steady.trans (h : Steady g g') (h' : Steady g' g'') : Steady g g'' :=
  ⟨fun id => (h'.statuses id).trans (h.statuses id), h.keeps.trans h'.keeps⟩

theorem steady_same (hcells : g'.codeCells = g.codeCells)
    (hqueues : g'.pendingCodeCellLifecycleEvents = g.pendingCodeCellLifecycleEvents) :
    Steady g g' := by
  refine ⟨fun id => ?_, fun id cell h => ⟨cell, hcells ▸ h, rfl⟩⟩
  unfold statusesOf queueOf
  rw [hcells, hqueues]

/-! ## Setting a cell -/

variable (codeCellId) in
/-- One cell is set, and what waits for the others is left alone. -/
structure SetsCell (cell' : CodeCell) (g g' : CodeCells) : Prop where
  cells : ∀ id, getEntry id g'.codeCells =
    if id = codeCellId then some cell' else getEntry id g.codeCells
  queues : ∀ id, id ≠ codeCellId → g'.queueOf id = g.queueOf id

theorem SetsCell.statuses {cell' : CodeCell} (h : SetsCell codeCellId cell' g g') (id : Text) :
    g'.statusesOf id = if id = codeCellId then cell'.statuses else g.statusesOf id := by
  unfold statusesOf
  rw [h.cells]
  by_cases hid : id = codeCellId
  · simp [hid]
  · rw [if_neg hid, if_neg hid, h.queues id hid]

theorem SetsCell.keeps {cell' : CodeCell} (h : SetsCell codeCellId cell' g g')
    (hturn : ∀ cell, getEntry codeCellId g.codeCells = some cell →
      cell'.codexTurnId = cell.codexTurnId) : g.Keeps g' := by
  intro id cell hcell
  rw [h.cells]
  split
  · next hid => exact ⟨cell', rfl, hturn cell (hid ▸ hcell)⟩
  · exact ⟨cell, hcell, rfl⟩

theorem SetsCell.trans {cell' cell'' : CodeCell} (h : SetsCell codeCellId cell' g g')
    (h' : SetsCell codeCellId cell'' g' g'') : SetsCell codeCellId cell'' g g'' := by
  refine ⟨fun id => ?_, fun id hid => (h'.queues id hid).trans (h.queues id hid)⟩
  rw [h'.cells, h.cells]
  split
  · rfl
  · rfl

theorem setsCell_set (g : CodeCells) (codeCellId : Text) (cell' : CodeCell) :
    SetsCell codeCellId cell' g { g with codeCells := setEntry codeCellId cell' g.codeCells } :=
  ⟨fun id => getEntry_set codeCellId id cell' g.codeCells, fun _ _ => rfl⟩

theorem lifecycle_sets {event : PendingCodeCellLifecycleEvent}
    (h : g.applyLifecycleEvent codeCellId event = .ok g') :
    ∃ cell cell', getEntry codeCellId g.codeCells = some cell ∧
      SetsCell codeCellId cell' g g' ∧ cell'.statuses = event.kind.applyTo cell.statuses ∧
      cell'.codexTurnId = cell.codexTurnId := by
  unfold applyLifecycleEvent at h
  cases hkind : event.kind with
  | initialResponse runtimeCellId status =>
    rw [hkind] at h
    dsimp only [recordCodeCellInitialResponse] at h
    split at h
    · cases h
    · next cell hcell =>
      cases h
      exact ⟨cell, _, hcell, setsCell_set g codeCellId _, rfl, rfl⟩
  | ended status =>
    rw [hkind] at h
    dsimp only [endCodeCell] at h
    split at h
    · cases h
    · next cell hcell =>
      cases h
      exact ⟨cell, _, hcell, setsCell_set g codeCellId _, rfl, rfl⟩

theorem lifecycles_set {events : List PendingCodeCellLifecycleEvent}
    (hcell : getEntry codeCellId g.codeCells = some cell)
    (h : events.foldlM (applyLifecycleEvent codeCellId) g = .ok g') :
    ∃ cell', SetsCell codeCellId cell' g g' ∧
      cell'.statuses = events.foldl (fun s event => event.kind.applyTo s) cell.statuses ∧
      cell'.codexTurnId = cell.codexTurnId := by
  induction events generalizing g cell with
  | nil =>
    cases h
    refine ⟨cell, ⟨fun id => ?_, fun _ _ => rfl⟩, rfl, rfl⟩
    split
    · next hid => rw [hid, hcell]
    · rfl
  | cons event events ih =>
    obtain ⟨g₁, hone, h⟩ := bind_ok_iff.mp h
    obtain ⟨cell₀, cell₁, hcell₀, hsets, hstatuses, hturn⟩ := lifecycle_sets hone
    rw [hcell] at hcell₀
    cases hcell₀
    obtain ⟨cell', hsets', hstatuses', hturn'⟩ := ih (by rw [hsets.cells, if_pos rfl]) h
    exact ⟨cell', hsets.trans hsets', by rw [hstatuses', hstatuses]; rfl, hturn'.trans hturn⟩

theorem flushLifecycle_sets (hcell : getEntry codeCellId g.codeCells = some cell)
    (h : g.flushPendingCodeCellLifecycleEvents codeCellId = .ok g') :
    ∃ cell', SetsCell codeCellId cell' g g' ∧
      cell'.statuses = (g.queueOf codeCellId).foldl (fun s event => event.kind.applyTo s)
        cell.statuses ∧ cell'.codexTurnId = cell.codexTurnId := by
  unfold flushPendingCodeCellLifecycleEvents at h
  unfold queueOf
  split at h
  · next hnone =>
    cases h
    rw [hnone]
    refine ⟨cell, ⟨fun id => ?_, fun _ _ => rfl⟩, rfl, rfl⟩
    split
    · next hid => rw [hid, hcell]
    · rfl
  · next events hevents =>
    rw [hevents]
    have hcell' : getEntry codeCellId (CodeCells.codeCells { g with
        pendingCodeCellLifecycleEvents :=
          removeEntry codeCellId g.pendingCodeCellLifecycleEvents }) = some cell := hcell
    obtain ⟨cell', hsets, hstatuses, hturn⟩ := lifecycles_set hcell' h
    refine ⟨cell', ⟨hsets.cells, fun id hid => (hsets.queues id hid).trans ?_⟩, hstatuses, hturn⟩
    unfold queueOf
    rw [getEntry_remove, if_neg hid]

end CodeCells

/-! ## Starts -/

namespace Reducer
open CodeCells
variable {r r' : Reducer CodeCells} {links : CodeCells × List (Text × ProducerRef)}

theorem steady_startCodeCell {pending : PendingCodeCellStart}
    (h : r.startCodeCell pending = .ok links) : Steady r.graph links.1 := by
  unfold startCodeCell at h
  dsimp only at h
  split at h
  · cases h
  · next hnew =>
    have hnone : getEntry pending.started.codeCellId r.graph.codeCells = none := by
      simpa using hnew
    split at h
    · cases h
    · next codexTurnId _ =>
      obtain ⟨_, -, h⟩ := bind_ok_iff.mp h
      obtain ⟨sourceItemId, -, h⟩ := bind_ok_iff.mp h
      obtain ⟨g, hflush, h⟩ := bind_ok_iff.mp h
      cases h
      obtain ⟨cell', hsets, hstatuses, -⟩ := flushLifecycle_sets (getEntry_set_self _ _ _) hflush
      have hall := (setsCell_set r.graph pending.started.codeCellId _).trans hsets
      refine ⟨fun id => ?_, hall.keeps fun cell hcell => ?_⟩
      · rw [hall.statuses]
        split
        · next hid =>
          rw [hid, statusesOf_none hnone, hstatuses]
          rfl
        · rfl
      · rw [hnone] at hcell
        cases hcell

theorem steady_startOrQueue {pending : PendingCodeCellStart}
    (h : r.startOrQueueCodeCell pending = .ok links) : Steady r.graph links.1 := by
  unfold startOrQueueCodeCell at h
  dsimp only at h
  split at h
  · split at h
    · cases h
    · cases h
      exact steady_same rfl rfl
  · exact steady_startCodeCell h

theorem steady_flushStart {state state' : CodeCells × List (Text × ProducerRef)} {codeCellId : Text}
    (h : r.flushStart state codeCellId = .ok state') : Steady state.1 state'.1 := by
  unfold flushStart at h
  split at h
  · cases h
    exact Steady.refl state.1
  · obtain ⟨⟨g, links⟩, hstart, h⟩ := bind_ok_iff.mp h
    cases h
    have hremoved : Steady state.1 { state.1 with
        pendingCodeCellStarts := removeEntry codeCellId state.1.pendingCodeCellStarts } :=
      steady_same rfl rfl
    exact hremoved.trans (steady_startCodeCell hstart)

theorem steady_flush (h : r.flushPendingCodeCellStarts = .ok links) : Steady r.graph links.1 :=
  run_keeps (I := fun state : CodeCells × List (Text × ProducerRef) => Steady r.graph state.1)
    (fun _ _ _ hu hv => hu.trans (steady_flushStart hv)) (Steady.refl r.graph) h

theorem steady_attach (g : CodeCells) (itemId : Text) (callId : Option Text)
    (kind : ConversationItemKind) :
    Steady g (g.attachModelVisibleCodeCellItem itemId callId kind).1 := by
  unfold attachModelVisibleCodeCellItem
  cases callId with
  | none => exact Steady.refl g
  | some callId =>
    dsimp only
    split
    · exact Steady.refl g
    · split
      · exact Steady.refl g
      · next cell hcell =>
        have hsets := setsCell_set g (reducedCodeCellIdForModelVisibleCall callId) { cell with
          outputItemIds :=
            if itemId ∈ cell.outputItemIds then cell.outputItemIds
            else cell.outputItemIds ++ [itemId] }
        refine ⟨fun id => ?_, hsets.keeps fun cell' hcell' => ?_⟩
        · rw [hsets.statuses]
          split
          · next hid =>
            rw [hid, statusesOf_some hcell]
            rfl
          · rfl
        · rw [hcell] at hcell'
          cases hcell'
          rfl

theorem codeCellLinking_within (otherLinks : OtherLinks) :
    (codeCellLinking otherLinks).Within Steady where
  refl := Steady.refl
  trans := Steady.trans
  attach := by
    intro r itemId callId kind links h
    obtain ⟨producers, -, h⟩ := bind_ok_iff.mp h
    cases h
    exact steady_attach r.graph itemId callId kind
  flush := steady_flush

end Reducer

/-! ## Late events -/

namespace CodeCells
variable {g g' : CodeCells} {codeCellId : Text} {event : PendingCodeCellLifecycleEvent}

variable (g codeCellId event) in
/-- The event leaves statuses that do not go together, or lets a cell that has ended run. -/
def Disturbs : Prop :=
  match getEntry codeCellId g.codeCells, event.kind with
  | some cell, .initialResponse _ status =>
    executionStatusForCodeCell status ≠ cell.execution.status
  | some cell, .ended status =>
    cell.execution.status ≠ .running ∧ executionStatusForCodeCell status = .running
  | none, _ =>
    let queued :=
      queueStatuses ((g.queueCodeCellLifecycleEvent codeCellId event).queueOf codeCellId)
    ¬ Coherent queued ∨ (queueStatuses (g.queueOf codeCellId)).1 ≠ .running ∧ queued.1 = .running

variable (g g') in
/-- Statuses go on going together, and no cell that has ended runs. -/
structure Proceeds : Prop where
  coherent : (∀ id, Coherent (g.statusesOf id)) → ∀ id, Coherent (g'.statusesOf id)
  ended : ∀ id, (g.statusesOf id).1 ≠ .running → (g'.statusesOf id).1 ≠ .running
  keeps : g.Keeps g'

theorem Steady.proceeds (h : Steady g g') : Proceeds g g' := by
  refine ⟨fun hall id => ?_, fun id hended => ?_, h.keeps⟩
  · rw [h.statuses]
    exact hall id
  · rw [h.statuses]
    exact hended

variable (g g' codeCellId event) in
def Happens : Prop :=
  getEntry codeCellId g.codeCells = none ∧ g' = g.queueCodeCellLifecycleEvent codeCellId event ∨
    g.applyLifecycleEvent codeCellId event = .ok g'

theorem response_happens {seq : ℕ} {wallTimeUnixMs : ℤ} {runtimeCellId : Text}
    {status : CodeCellRuntimeStatus}
    (h : g.recordOrQueueCodeCellInitialResponse seq wallTimeUnixMs codeCellId runtimeCellId status =
      .ok g') :
    Happens g g' codeCellId ⟨seq, wallTimeUnixMs, .initialResponse runtimeCellId status⟩ := by
  unfold recordOrQueueCodeCellInitialResponse at h
  split at h
  · next hnone =>
    split at h
    · cases h
      exact .inl ⟨by simpa using hnone, rfl⟩
    · cases h
  · exact .inr h

theorem end_happens {seq : ℕ} {wallTimeUnixMs : ℤ} {status : CodeCellRuntimeStatus}
    (h : g.endOrQueueCodeCell seq wallTimeUnixMs codeCellId status = .ok g') :
    Happens g g' codeCellId ⟨seq, wallTimeUnixMs, .ended status⟩ := by
  unfold endOrQueueCodeCell at h
  split at h
  · next hnone =>
    split at h
    · cases h
      exact .inl ⟨by simpa using hnone, rfl⟩
    · cases h
  · exact .inr h

theorem queueOf_queue (g : CodeCells) (codeCellId id : Text) (hid : id ≠ codeCellId)
    (event : PendingCodeCellLifecycleEvent) :
    (g.queueCodeCellLifecycleEvent codeCellId event).queueOf id = g.queueOf id := by
  unfold queueCodeCellLifecycleEvent
  conv_lhs => unfold queueOf
  rw [getEntry_set, if_neg hid]
  rfl

theorem applyTo_keeps {s : CellStatuses} {cell : CodeCell} (hs : s = cell.statuses)
    (hcell : getEntry codeCellId g.codeCells = some cell) (h : ¬ g.Disturbs codeCellId event) :
    (Coherent s → Coherent (event.kind.applyTo s)) ∧
      (s.1 ≠ .running → (event.kind.applyTo s).1 ≠ .running) := by
  subst hs
  unfold Disturbs at h
  rw [hcell] at h
  cases hkind : event.kind with
  | initialResponse runtimeCellId status =>
    rw [hkind] at h
    exact ⟨fun _ => (not_not.mp h).symm, id⟩
  | ended status =>
    rw [hkind] at h
    exact ⟨fun _ => rfl, fun hended hruns => h ⟨hended, hruns⟩⟩

theorem Happens.proceeds (hh : Happens g g' codeCellId event) (h : ¬ g.Disturbs codeCellId event) :
    Proceeds g g' := by
  obtain ⟨hnone, rfl⟩ | happly := hh
  · have hstatuses : ∀ id, id ≠ codeCellId →
        (g.queueCodeCellLifecycleEvent codeCellId event).statusesOf id = g.statusesOf id := by
      intro id hid
      unfold statusesOf
      rw [queueOf_queue g codeCellId id hid]
      rfl
    have hself : (g.queueCodeCellLifecycleEvent codeCellId event).statusesOf codeCellId =
        queueStatuses ((g.queueCodeCellLifecycleEvent codeCellId event).queueOf codeCellId) :=
      statusesOf_none hnone
    unfold Disturbs at h
    rw [hnone] at h
    obtain ⟨hcoherent, hended⟩ := not_or.mp h
    refine ⟨fun hall id => ?_, fun id hid => ?_, fun id cell hcell => ⟨cell, hcell, rfl⟩⟩
    · by_cases heq : id = codeCellId
      · rw [heq, hself]
        exact not_not.mp hcoherent
      · rw [hstatuses id heq]
        exact hall id
    · by_cases heq : id = codeCellId
      · rw [heq, statusesOf_none hnone] at hid
        rw [heq, hself]
        exact fun hruns => hended ⟨hid, hruns⟩
      · rw [hstatuses id heq]
        exact hid
  · obtain ⟨cell, cell', hcell, hsets, hstatuses, hturn⟩ := lifecycle_sets happly
    obtain ⟨hcoherent, hended⟩ := applyTo_keeps rfl hcell h
    refine ⟨fun hall id => ?_, fun id hid => ?_, hsets.keeps fun cell₁ hcell₁ => ?_⟩
    · rw [hsets.statuses]
      split
      · rw [hstatuses]
        have hbefore := hall codeCellId
        rw [statusesOf_some hcell] at hbefore
        exact hcoherent hbefore
      · exact hall id
    · rw [hsets.statuses]
      split
      · next heq =>
        rw [heq, statusesOf_some hcell] at hid
        rw [hstatuses]
        exact hended hid
      · exact hid
    · rw [hcell] at hcell₁
      cases hcell₁
      exact hturn

/-! ## Turn ends -/

theorem interrupted_ended {status : ExecutionStatus} {runtimeStatus : CodeCellRuntimeStatus}
    (h : interruptedStatus status = some runtimeStatus) :
    executionStatusForCodeCell runtimeStatus ≠ .running := by
  cases status <;> cases h <;> decide

theorem terminate_proceeds (g : CodeCells) (seq : ℕ) (wallTimeUnixMs : ℤ) (codexTurnId : Text)
    (status : ExecutionStatus) :
    Proceeds g (g.terminateRunningCodeCellsForTurnEnd seq wallTimeUnixMs codexTurnId status) ∧
      ((interruptedStatus status).isSome = true →
        ∀ id cell, getEntry id g.codeCells = some cell → cell.codexTurnId = codexTurnId →
          ((g.terminateRunningCodeCellsForTurnEnd seq wallTimeUnixMs codexTurnId
            status).statusesOf id).1 ≠ .running) := by
  unfold terminateRunningCodeCellsForTurnEnd
  cases hstatus : interruptedStatus status with
  | none => exact ⟨(Steady.refl g).proceeds, by simp⟩
  | some runtimeStatus =>
    let close := fun cell : CodeCell =>
      if cell.codexTurnId = codexTurnId ∧ cell.execution.status = .running then
        cell.finish seq wallTimeUnixMs runtimeStatus
      else cell
    have hcells : ∀ id, getEntry id (mapEntries close g.codeCells) =
        (getEntry id g.codeCells).map close := fun id => getEntry_map close id g.codeCells
    have hclosed : ∀ cell, close cell = cell ∨
        (close cell).statuses = (executionStatusForCodeCell runtimeStatus, runtimeStatus) := by
      intro cell
      simp only [close]
      split
      · exact .inr rfl
      · exact .inl rfl
    have hturn : ∀ cell, (close cell).codexTurnId = cell.codexTurnId := by
      intro cell
      simp only [close]
      split <;> rfl
    have hstatuses : ∀ id, CodeCells.statusesOf { g with codeCells := mapEntries close g.codeCells }
        id = ((getEntry id g.codeCells).map fun cell => (close cell).statuses).getD
          (g.statusesOf id) := by
      intro id
      unfold statusesOf
      rw [hcells]
      cases getEntry id g.codeCells with
      | none | some cell => rfl
    refine ⟨⟨fun hall id => ?_, fun id hid => ?_, fun id cell hcell => ?_⟩,
      fun _ id cell hcell heq => ?_⟩
    · rw [hstatuses]
      cases hcell : getEntry id g.codeCells with
      | none => exact hall id
      | some cell =>
        have hbefore := hall id
        rw [statusesOf_some hcell] at hbefore
        rcases hclosed cell with hsame | hended
        · simpa [hsame] using hbefore
        · simp [hended, Coherent]
    · rw [hstatuses]
      cases hcell : getEntry id g.codeCells with
      | none => exact hid
      | some cell =>
        rw [statusesOf_some hcell] at hid
        rcases hclosed cell with hsame | hended
        · simpa [hsame] using hid
        · simpa [hended] using interrupted_ended hstatus
    · exact ⟨close cell, by rw [hcells, hcell]; rfl, hturn cell⟩
    · rw [hstatuses, hcell]
      simp only [map_some, getD_some, close]
      split
      · exact interrupted_ended hstatus
      · next hnot => exact fun hruns => hnot ⟨heq, hruns⟩

end CodeCells

namespace TurnHistory
open CodeCells
variable {s v : TurnHistory} {event : RolloutEvent} {jsonText : JsonText} {otherLinks : OtherLinks}

variable (s) in
structure Settled : Prop where
  coherent : ∀ id cell, getEntry id s.reducer.graph.codeCells = some cell →
    cell.execution.status = executionStatusForCodeCell cell.runtimeStatus
  cells : ∀ codexTurnId id, (codexTurnId, id) ∈ s.abandonedCells →
    ∀ cell, getEntry id s.reducer.graph.codeCells = some cell → cell.codexTurnId = codexTurnId →
      cell.execution.status ≠ .running
  calls : ∀ id ∈ s.abandonedCalls, ∀ call, getEntry id s.reducer.inferenceCalls = some call →
    call.status ≠ .running

variable (s v) in
def StaysEnded : Prop := ∀ id cell, getEntry id s.reducer.graph.codeCells = some cell →
  cell.execution.status ≠ .running →
    ∃ cell', getEntry id v.reducer.graph.codeCells = some cell' ∧ cell'.execution.status ≠ .running

variable (s) in
/-- A late initial response or end disturbs its cell, or a turn is interrupted while the start of
one of its cells waits and has not ended yet. -/
def Disturbs : RolloutEvent → Prop
  | .codexTurnEnded _ _ _ codexTurnId status =>
    (interruptedStatus status).isSome = true ∧
      ∃ id pending, getEntry id s.reducer.graph.pendingCodeCellStarts = some pending ∧
        pending.codexTurnId = some codexTurnId ∧
        getEntry id s.reducer.graph.codeCells = none ∧
        (queueStatuses (s.reducer.graph.queueOf id)).1 = .running
  | .codeCellInitialResponse seq wallTimeUnixMs threadId codexTurnId runtimeCellId status =>
    ∃ id, s.reducer.codeCellOfEvent threadId codexTurnId runtimeCellId
        "code cell initial response".toList = .ok id ∧
      s.reducer.graph.Disturbs id ⟨seq, wallTimeUnixMs, .initialResponse runtimeCellId status⟩
  | .codeCellEnded seq wallTimeUnixMs threadId codexTurnId runtimeCellId status =>
    ∃ id, s.reducer.codeCellOfEvent threadId codexTurnId runtimeCellId "code cell end".toList =
        .ok id ∧
      s.reducer.graph.Disturbs id ⟨seq, wallTimeUnixMs, .ended status⟩
  | _ => False

/-! ## One event -/

variable (s) in
structure Sound : Prop where
  coherent : ∀ id, Coherent (s.reducer.graph.statusesOf id)
  cells : ∀ codexTurnId id, (codexTurnId, id) ∈ s.abandonedCells →
    (∀ cell, getEntry id s.reducer.graph.codeCells = some cell → cell.codexTurnId = codexTurnId) →
      (s.reducer.graph.statusesOf id).1 ≠ .running
  calls : ∀ id ∈ s.abandonedCalls, ∃ call, getEntry id s.reducer.inferenceCalls = some call ∧
    call.status ≠ .running

theorem Sound.settled (h : Sound s) : Settled s := by
  refine ⟨fun id cell hcell => ?_, fun codexTurnId id hmem cell hcell hturn => ?_,
    fun id hmem call hcall => ?_⟩
  · have hcoherent := h.coherent id
    rw [statusesOf_some hcell] at hcoherent
    exact hcoherent
  · have hended := h.cells codexTurnId id hmem fun cell' hcell' => by
      rw [hcell] at hcell'
      cases hcell'
      exact hturn
    rw [statusesOf_some hcell] at hended
    exact hended
  · obtain ⟨call', hcall', hended⟩ := h.calls id hmem
    rw [hcall] at hcall'
    cases hcall'
    exact hended

theorem staysEnded (h : Proceeds s.reducer.graph v.reducer.graph) : StaysEnded s v := by
  intro id cell hcell hended
  obtain ⟨cell', hcell', -⟩ := h.keeps id cell hcell
  have hafter := h.ended id
  rw [statusesOf_some hcell, statusesOf_some hcell'] at hafter
  exact ⟨cell', hcell', hafter hended⟩

def CallsKept (calls calls' : Entries InferenceCall) : Prop :=
  ∀ id call, getEntry id calls = some call → call.status ≠ .running →
    ∃ call', getEntry id calls' = some call' ∧ call'.status ≠ .running

theorem CallsKept.refl (calls : Entries InferenceCall) : CallsKept calls calls :=
  fun _ call hcall hended => ⟨call, hcall, hended⟩

variable {id : Text} {r' : Reducer CodeCells} {seq : ℕ} {wallTimeUnixMs : ℤ}
  {threadId : Option Text} {codexTurnId : Text} {status : ExecutionStatus}

theorem callsKept_new {calls : Entries InferenceCall} {call : InferenceCall}
    (hnew : getEntry id calls = none) : CallsKept calls (setEntry id call calls) := by
  intro id' call' hcall' hended
  rw [getEntry_set]
  split
  · next heq =>
    rw [heq, hnew] at hcall'
    cases hcall'
  · exact ⟨call', hcall', hended⟩

theorem callsKept_completed {calls : Entries InferenceCall} {call : InferenceCall}
    (hcall : getEntry id calls = some call) (status : ExecutionStatus) (responseId : Option Text)
    (ids : Option (List Text)) :
    CallsKept calls (setEntry id (Reducer.InferenceCall.completed call status responseId ids)
      calls) := by
  intro id' call' hcall' hended
  rw [getEntry_set]
  split
  · next heq =>
    rw [heq, hcall] at hcall'
    cases hcall'
    refine ⟨_, rfl, ?_⟩
    simp [Reducer.InferenceCall.completed, hended]
  · exact ⟨call', hcall', hended⟩

theorem Sound.proceeds (h : Sound s) (hgraph : Proceeds s.reducer.graph v.reducer.graph)
    (hcalls : CallsKept s.reducer.inferenceCalls v.reducer.inferenceCalls)
    (hcells' : ∀ codexTurnId id, (codexTurnId, id) ∈ v.abandonedCells →
      (codexTurnId, id) ∈ s.abandonedCells ∨
        ((∀ cell, getEntry id s.reducer.graph.codeCells = some cell →
          cell.codexTurnId = codexTurnId) → (v.reducer.graph.statusesOf id).1 ≠ .running))
    (hcalls' : ∀ id ∈ v.abandonedCalls, id ∈ s.abandonedCalls ∨
      ∃ call, getEntry id v.reducer.inferenceCalls = some call ∧ call.status ≠ .running) :
    Sound v := by
  refine ⟨hgraph.coherent h.coherent, fun codexTurnId id hmem hturn => ?_, fun id hmem => ?_⟩
  · have hturn' : ∀ cell, getEntry id s.reducer.graph.codeCells = some cell →
        cell.codexTurnId = codexTurnId := by
      intro cell hcell
      obtain ⟨cell', hcell', heq⟩ := hgraph.keeps id cell hcell
      exact heq.symm.trans (hturn cell' hcell')
    rcases hcells' codexTurnId id hmem with hold | hnew
    · exact hgraph.ended id (h.cells codexTurnId id hold hturn')
    · exact hnew hturn'
  · rcases hcalls' id hmem with hold | hnew
    · obtain ⟨call, hcall, hended⟩ := h.calls id hold
      exact hcalls id call hcall hended
    · exact hnew

theorem endCodexTurn_ok {r : Reducer CodeCells}
    (h : r.endCodexTurnWithCells seq wallTimeUnixMs threadId codexTurnId status = .ok r') :
    r'.graph = r.graph.terminateRunningCodeCellsForTurnEnd seq wallTimeUnixMs codexTurnId status ∧
      r'.inferenceCalls =
        (r.closeRunningInferenceCallsForTurnEnd codexTurnId status).inferenceCalls := by
  have hclose : Reducer.endCodexTurnWithCells.close r seq wallTimeUnixMs codexTurnId status =
      .ok r' := by
    unfold Reducer.endCodexTurnWithCells at h
    split at h
    · split at h
      · cases h
      · exact h
    · exact h
  obtain ⟨u, hu, hclose⟩ := bind_ok_iff.mp hclose
  cases hclose
  have hclosed : u = r.closeRunningInferenceCallsForTurnEnd codexTurnId status := by
    unfold Reducer.endCodexTurn at hu
    split at hu
    · cases hu
    · exact (Except.ok.inj hu).symm
  subst hclosed
  refine ⟨?_, rfl⟩
  unfold Reducer.closeRunningInferenceCallsForTurnEnd
  split <;> rfl

theorem closedStatus_ended {closed : ExecutionStatus} (h : closedStatus status = some closed) :
    closed ≠ .running := by
  cases status <;> cases h <;> decide

theorem close_callsKept (r : Reducer CodeCells) (codexTurnId : Text) (status : ExecutionStatus) :
    CallsKept r.inferenceCalls
        (r.closeRunningInferenceCallsForTurnEnd codexTurnId status).inferenceCalls ∧
      ((interruptedStatus status).isSome = true →
        ∀ id call, getEntry id r.inferenceCalls = some call → call.codexTurnId = codexTurnId →
          ∃ call', getEntry id
              (r.closeRunningInferenceCallsForTurnEnd codexTurnId status).inferenceCalls =
                some call' ∧ call'.status ≠ .running) := by
  unfold Reducer.closeRunningInferenceCallsForTurnEnd
  cases hclosed : closedStatus status with
  | none =>
    refine ⟨CallsKept.refl _, fun hinterrupted => ?_⟩
    cases status <;> cases hclosed
    simp [interruptedStatus] at hinterrupted
  | some closed =>
    refine ⟨fun id call hcall hended => ?_, fun _ id call hcall hturn => ?_⟩
    · refine ⟨call, ?_, hended⟩
      rw [getEntry_map, hcall]
      simp [hended]
    · rw [getEntry_map, hcall]
      refine ⟨_, rfl, ?_⟩
      dsimp only
      split
      · exact closedStatus_ended hclosed
      · next hnot => exact fun hruns => hnot ⟨hturn, hruns⟩

theorem steady_startEvent {r : Reducer CodeCells} {codexTurnId : Option Text}
    {runtimeCellId modelVisibleCallId sourceJs : Text}
    (h : r.startCodeCellEvent seq wallTimeUnixMs threadId codexTurnId runtimeCellId
      modelVisibleCallId sourceJs = .ok r') :
    Steady r.graph r'.graph ∧ r'.inferenceCalls = r.inferenceCalls := by
  obtain ⟨t, -, h⟩ := bind_ok_iff.mp h
  obtain ⟨g, hg, h⟩ := bind_ok_iff.mp h
  obtain ⟨links, hlinks, h⟩ := bind_ok_iff.mp h
  cases h
  obtain ⟨hgraph, hcalls⟩ := Reducer.linked_same r links
  have hrecorded : Steady r.graph g := by
    unfold recordRuntimeCodeCellId at hg
    split at hg
    · split at hg
      · cases hg
        exact Steady.refl r.graph
      · cases hg
    · cases hg
      exact steady_same rfl rfl
  refine ⟨?_, hcalls⟩
  rw [hgraph]
  exact hrecorded.trans (Reducer.steady_startOrQueue hlinks)

theorem apply_proceeds (hkeep : ¬ s.Disturbs event)
    (h : s.reducer.applyRolloutEvent jsonText otherLinks event = .ok r') :
    Proceeds s.reducer.graph r'.graph ∧ CallsKept s.reducer.inferenceCalls r'.inferenceCalls := by
  have hw := Reducer.codeCellLinking_within otherLinks
  have hcomplete : ∀ {wallTimeUnixMs id status responseId payload},
      s.reducer.completeInferenceCall jsonText (codeCellLinking otherLinks) wallTimeUnixMs id status
        responseId payload = .ok r' →
      Proceeds s.reducer.graph r'.graph ∧ CallsKept s.reducer.inferenceCalls r'.inferenceCalls := by
    intro wallTimeUnixMs id status responseId payload h
    obtain ⟨hsteady, call, ids, hcall, hcalls⟩ := Reducer.moves_completeCall hw h
    rw [hcalls]
    exact ⟨hsteady.proceeds, callsKept_completed hcall status responseId ids⟩
  cases event with
  | threadStarted threadId =>
    dsimp only [Reducer.applyRolloutEvent, Reducer.startThread] at h
    split at h
    · cases h
    · cases h
      exact ⟨(Steady.refl _).proceeds, CallsKept.refl _⟩
  | codexTurnStarted codexTurnId threadId =>
    dsimp only [Reducer.applyRolloutEvent, Reducer.startCodexTurn] at h
    split at h
    · cases h
    · obtain ⟨_, -, h⟩ := bind_ok_iff.mp h
      cases h
      exact ⟨(Steady.refl _).proceeds, CallsKept.refl _⟩
  | codexTurnEnded seq wallTimeUnixMs threadId codexTurnId status =>
    obtain ⟨hgraph, hcalls⟩ := endCodexTurn_ok h
    rw [hgraph, hcalls]
    exact ⟨(terminate_proceeds _ _ _ _ _).1, (close_callsKept _ _ _).1⟩
  | inferenceStarted wallTimeUnixMs started =>
    obtain ⟨hsteady, hnew, call, hcalls⟩ := Reducer.moves_startCall hw h
    rw [hcalls]
    exact ⟨hsteady.proceeds, callsKept_new hnew⟩
  | inferenceCompleted wallTimeUnixMs id responseId payload
  | inferenceFailed wallTimeUnixMs id payload
  | inferenceCancelled wallTimeUnixMs id payload => exact hcomplete h
  | compactionInstalled wallTimeUnixMs threadId codexTurnId compactionId payload =>
    have hmoves := Reducer.moves_compaction hw h
    rw [hmoves.calls]
    exact ⟨hmoves.graph.proceeds, CallsKept.refl _⟩
  | codeCellStarted seq wallTimeUnixMs threadId codexTurnId runtimeCellId modelVisibleCallId
      sourceJs =>
    obtain ⟨hsteady, hcalls⟩ := steady_startEvent h
    rw [hcalls]
    exact ⟨hsteady.proceeds, CallsKept.refl _⟩
  | codeCellInitialResponse seq wallTimeUnixMs threadId codexTurnId runtimeCellId status =>
    obtain ⟨id, hid, h⟩ := bind_ok_iff.mp h
    obtain ⟨g, hg, h⟩ := bind_ok_iff.mp h
    cases h
    exact ⟨(response_happens hg).proceeds fun hd => hkeep ⟨id, hid, hd⟩, CallsKept.refl _⟩
  | codeCellEnded seq wallTimeUnixMs threadId codexTurnId runtimeCellId status =>
    obtain ⟨id, hid, h⟩ := bind_ok_iff.mp h
    obtain ⟨g, hg, h⟩ := bind_ok_iff.mp h
    cases h
    exact ⟨(end_happens hg).proceeds fun hd => hkeep ⟨id, hid, hd⟩, CallsKept.refl _⟩
  | other act =>
    obtain ⟨links, -, h⟩ := bind_ok_iff.mp h
    cases h
    obtain ⟨hgraph, hcalls⟩ := Reducer.linked_same s.reducer (s.reducer.graph, links)
    rw [hgraph, hcalls]
    exact ⟨(Steady.refl _).proceeds, CallsKept.refl _⟩

theorem mem_keysWhere {α : Type} {p : α → Bool} {l : Entries α} {k : Text}
    (h : k ∈ keysWhere p l) : ∃ v, getEntry k l = some v ∧ p v = true :=
  (any_eq_true _ _).mp (List.mem_filter.mp h).2

theorem abandoned_ended
    (hkeep : ¬ s.Disturbs (.codexTurnEnded seq wallTimeUnixMs threadId codexTurnId status))
    (hinterrupted : (interruptedStatus status).isSome = true)
    (h : s.reducer.endCodexTurnWithCells seq wallTimeUnixMs threadId codexTurnId status = .ok r')
    (hmem : id ∈ cellsOf s.reducer codexTurnId)
    (hturn : ∀ cell, getEntry id s.reducer.graph.codeCells = some cell →
      cell.codexTurnId = codexTurnId) : (r'.graph.statusesOf id).1 ≠ .running := by
  obtain ⟨hgraph, -⟩ := endCodexTurn_ok h
  obtain ⟨hproceeds, hended⟩ := terminate_proceeds s.reducer.graph seq wallTimeUnixMs codexTurnId
    status
  rw [hgraph]
  cases hcell : getEntry id s.reducer.graph.codeCells with
  | some cell => exact hended hinterrupted id cell hcell (hturn cell hcell)
  | none =>
    apply hproceeds.ended
    rw [statusesOf_none hcell]
    intro hruns
    rcases List.mem_append.mp hmem with hmem | hmem
    · obtain ⟨cell, hcell', -⟩ := mem_keysWhere hmem
      rw [hcell] at hcell'
      cases hcell'
    · obtain ⟨pending, hpending, hthis⟩ := mem_keysWhere hmem
      exact hkeep ⟨hinterrupted, id, pending, hpending, by simpa using hthis, hcell, hruns⟩

theorem abandonedCall_ended (hinterrupted : (interruptedStatus status).isSome = true)
    (h : s.reducer.endCodexTurnWithCells seq wallTimeUnixMs threadId codexTurnId status = .ok r')
    (hmem : id ∈ callsOf s.reducer codexTurnId) :
    ∃ call, getEntry id r'.inferenceCalls = some call ∧ call.status ≠ .running := by
  obtain ⟨-, hcalls⟩ := endCodexTurn_ok h
  obtain ⟨call, hcall, hturn⟩ := mem_keysWhere hmem
  rw [hcalls]
  exact (close_callsKept s.reducer codexTurnId status).2 hinterrupted id call hcall
    (by simpa using hturn)

theorem step_sound (hs : Sound s) (hkeep : ¬ s.Disturbs event)
    (h : step jsonText otherLinks s event = .ok v) : Sound v ∧ StaysEnded s v := by
  obtain ⟨r', hr', h⟩ := bind_ok_iff.mp h
  obtain ⟨hgraph, hcalls⟩ := apply_proceeds hkeep hr'
  cases hinterrupts : interrupts event with
  | none =>
    rw [hinterrupts] at h
    cases h
    exact ⟨hs.proceeds hgraph hcalls (fun _ _ => .inl) fun _ => .inl, staysEnded hgraph⟩
  | some codexTurnId =>
    rw [hinterrupts] at h
    cases h
    refine ⟨hs.proceeds hgraph hcalls (fun turn id hmem => ?_) fun id hmem => ?_, staysEnded hgraph⟩
    · rcases List.mem_append.mp hmem with hmem | hmem
      · right
        obtain ⟨id', hid', heq⟩ := List.mem_map.mp hmem
        obtain ⟨rfl, rfl⟩ := Prod.mk.inj heq
        intro hturn
        cases event with
        | codexTurnEnded seq wallTimeUnixMs threadId ended status =>
          obtain ⟨hinterrupted, heq⟩ := ite_none_right_eq_some.mp hinterrupts
          cases heq
          exact abandoned_ended hkeep hinterrupted hr' hid' hturn
        | _ => cases hinterrupts
      · exact .inl hmem
    · rcases List.mem_append.mp hmem with hmem | hmem
      · right
        cases event with
        | codexTurnEnded seq wallTimeUnixMs threadId ended status =>
          obtain ⟨hinterrupted, heq⟩ := ite_none_right_eq_some.mp hinterrupts
          cases heq
          exact abandonedCall_ended hinterrupted hr' hmem
        | _ => cases hinterrupts
      · exact .inl hmem

theorem new_sound : Sound new := by
  refine ⟨fun _ => rfl, ?_, ?_⟩
  · intro codexTurnId id h
    cases h
  · intro id h
    cases h

/-- In every trace that is replayed without an event that disturbs, the statuses of cells go
together, cells that have ended stay so, and interrupted turns leave nothing running. -/
theorem interrupted_turns_settled {events : List RolloutEvent}
    (h : Along (step jsonText otherLinks) (fun s event => ¬ s.Disturbs event) new events) :
    (∀ pre u, pre <+: events → pre.foldlM (step jsonText otherLinks) new = .ok u → Settled u) ∧
      ∀ pre event u v, pre ++ [event] <+: events →
        pre.foldlM (step jsonText otherLinks) new = .ok u →
        step jsonText otherLinks u event = .ok v → StaysEnded u v := by
  have hsound : ∀ pre u, pre <+: events → pre.foldlM (step jsonText otherLinks) new = .ok u →
      Sound u := fun pre u hpre hu =>
    run_keeps_along (fun u event v hu hkeep hstep => (step_sound hu hkeep hstep).1) new_sound h hpre
      hu
  refine ⟨fun pre u hpre hu => (hsound pre u hpre hu).settled,
    fun pre event u v hpre hu hstep => ?_⟩
  exact (step_sound (hsound pre u ((List.prefix_append pre [event]).trans hpre) hu)
    (h.at hpre hu) hstep).2

def noLinks : OtherLinks := fun _ _ _ _ => .ok []

def beforeExec : List RolloutEvent :=
  [.threadStarted "t".toList, .codexTurnStarted "u".toList "t".toList,
    .inferenceStarted 0 ⟨"i".toList, "t".toList, "u".toList, fullRequest "p" []⟩]

def execResponse : RawPayload :=
  ⟨"q".toList, .ok (.object [("output_items".toList, .array [.object
    [("type".toList, .string "custom_tool_call".toList), ("call_id".toList, .string "c".toList),
      ("name".toList, .string "exec".toList), ("input".toList, .string "x".toList)]])])⟩

def startExec : RolloutEvent :=
  .codeCellStarted 4 0 (some "t".toList) (some "u".toList) "1".toList "c".toList "x".toList

def cancelTurn : RolloutEvent := .codexTurnEnded 5 0 (some "t".toList) "u".toList .cancelled

theorem started_exec_settled :
    (∀ pre u, pre <+: beforeExec ++ [.inferenceCompleted 0 "i".toList none execResponse, startExec,
        cancelTurn] →
      pre.foldlM (step plainJsonText noLinks) new = .ok u → Settled u) ∧
    ∀ pre event u v, pre ++ [event] <+: beforeExec ++
        [.inferenceCompleted 0 "i".toList none execResponse, startExec, cancelTurn] →
      pre.foldlM (step plainJsonText noLinks) new = .ok u →
      step plainJsonText noLinks u event = .ok v → StaysEnded u v := by
  apply interrupted_turns_settled
  refine Along.cons_ok rfl id (Along.cons_ok rfl id (Along.cons_ok rfl id ?_))
  refine Along.cons_ok rfl id (Along.cons_ok rfl id (Along.cons_ok rfl ?_ trivial))
  rintro ⟨-, id, pending, hpending, -⟩
  cases hpending

/-- The partial response brings the item of a start that waited when the turn was cancelled. -/
theorem late_start_runs : ∃ s,
    (beforeExec ++ [startExec, cancelTurn,
      .inferenceCancelled 0 "i".toList (some execResponse)]).foldlM (step plainJsonText noLinks)
        new = .ok s ∧ ¬ Settled s :=
  ⟨_, rfl, fun h => h.cells "u".toList "code_cell:c".toList List.mem_cons_self _ rfl rfl rfl⟩

end TurnHistory

end Codex.RolloutTrace
