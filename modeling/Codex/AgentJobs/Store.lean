import Codex.Foundation.Rows
import Codex.Foundation.Text
import Mathlib.Data.List.Sort

/-!
# Agent jobs in the state store

One job and its items. Every call is one statement of the store: an update whose guard is in
its `WHERE` clause, and the answer says whether a row was affected. The time of a call is its
argument.
-/

namespace Codex.AgentJobs

open Foundation

/-! ## The tables -/

abbrev ThreadId := Text

inductive AgentJobStatus where
  | pending
  | running
  | completed
  | failed
  | cancelled
deriving DecidableEq

inductive AgentJobItemStatus where
  | pending
  | running
  | completed
  | failed
deriving DecidableEq

structure AgentJob where
  status : AgentJobStatus
  updatedAt : ℤ
  startedAt : Option ℤ
  completedAt : Option ℤ
  lastError : Option Text
deriving DecidableEq

section
variable (ρ : Type)

structure AgentJobItem where
  itemId : Text
  rowIndex : ℤ
  status : AgentJobItemStatus
  assignedThreadId : Option ThreadId
  attemptCount : ℕ
  resultJson : Option ρ
  lastError : Option Text
  updatedAt : ℤ
  completedAt : Option ℤ
  reportedAt : Option ℤ
deriving DecidableEq

structure StateRuntime where
  job : AgentJob
  items : List (AgentJobItem ρ)
  distinct : (items.map AgentJobItem.itemId).Nodup

end

structure AgentJobItemCreateParams where
  itemId : Text
  rowIndex : ℤ

structure AgentJobProgress where
  totalItems : ℕ
  pendingItems : ℕ
  runningItems : ℕ
  completedItems : ℕ
  failedItems : ℕ
deriving DecidableEq

namespace StateRuntime

variable {ρ : Type}

def createAgentJob (now : ℤ) (params : List AgentJobItemCreateParams)
    (h : (params.map AgentJobItemCreateParams.itemId).Nodup) : StateRuntime ρ where
  job := ⟨.pending, now, none, none, none⟩
  items := params.map fun item =>
    ⟨item.itemId, item.rowIndex, .pending, none, 0, none, none, now, none, none⟩
  distinct := by rwa [List.map_map]

def markAgentJobRunning (now : ℤ) (s : StateRuntime ρ) : StateRuntime ρ :=
  { s with job := { s.job with
      status := .running
      updatedAt := now
      startedAt := s.job.startedAt <|> some now
      completedAt := none
      lastError := none } }

def markAgentJobCompleted (now : ℤ) (s : StateRuntime ρ) : StateRuntime ρ :=
  { s with job := { s.job with
      status := .completed, updatedAt := now, completedAt := some now, lastError := none } }

def markAgentJobFailed (now : ℤ) (errorMessage : Text) (s : StateRuntime ρ) : StateRuntime ρ :=
  { s with job := { s.job with
      status := .failed, updatedAt := now, completedAt := some now
      lastError := some errorMessage } }

def markAgentJobCancelled (now : ℤ) (reason : Text) (s : StateRuntime ρ) :
    StateRuntime ρ × Bool :=
  if s.job.status = .pending ∨ s.job.status = .running then
    ({ s with job := { s.job with
        status := .cancelled, updatedAt := now, completedAt := some now
        lastError := some reason } }, true)
  else (s, false)

def isAgentJobCancelled (s : StateRuntime ρ) : Bool := s.job.status = .cancelled

/-! ## Statements on an item -/

def updateItem (itemId : Text) (guard : AgentJobItem ρ → Bool)
    (set : AgentJobItem ρ → AgentJobItem ρ) (hset : ∀ row, (set row).itemId = row.itemId)
    (s : StateRuntime ρ) : StateRuntime ρ × Bool :=
  ({ s with
    items := (updateRowAt AgentJobItem.itemId itemId guard set s.items).1
    distinct := by rw [keys_updateRowAt hset]; exact s.distinct },
    (updateRowAt AgentJobItem.itemId itemId guard set s.items).2)

def getAgentJobItem (itemId : Text) (s : StateRuntime ρ) : Option (AgentJobItem ρ) :=
  rowAt AgentJobItem.itemId itemId s.items

def listAgentJobItems (status : AgentJobItemStatus) (s : StateRuntime ρ) :
    List (AgentJobItem ρ) :=
  (s.items.filter fun row => row.status = status).insertionSort fun a b =>
    a.rowIndex ≤ b.rowIndex

def markAgentJobItemRunningWithThread (now : ℤ) (itemId : Text) (threadId : ThreadId) :
    StateRuntime ρ → StateRuntime ρ × Bool :=
  updateItem itemId (fun row => row.status = .pending)
    (fun row => { row with
      status := .running
      assignedThreadId := some threadId
      attemptCount := row.attemptCount + 1
      updatedAt := now
      lastError := none })
    fun _ => rfl

def markAgentJobItemPending (now : ℤ) (itemId : Text) (errorMessage : Option Text) :
    StateRuntime ρ → StateRuntime ρ × Bool :=
  updateItem itemId (fun row => row.status = .running)
    (fun row => { row with
      status := .pending
      assignedThreadId := none
      updatedAt := now
      lastError := errorMessage })
    fun _ => rfl

def reportAgentJobItemResult (now : ℤ) (itemId : Text) (reportingThreadId : ThreadId)
    (resultJson : ρ) : StateRuntime ρ → StateRuntime ρ × Bool :=
  updateItem itemId
    (fun row => row.status = .running && row.assignedThreadId = some reportingThreadId)
    (fun row => { row with
      status := .completed
      resultJson := some resultJson
      reportedAt := some now
      completedAt := some now
      updatedAt := now
      lastError := none
      assignedThreadId := none })
    fun _ => rfl

def markAgentJobItemCompleted (now : ℤ) (itemId : Text) :
    StateRuntime ρ → StateRuntime ρ × Bool :=
  updateItem itemId (fun row => row.status = .running && row.resultJson.isSome)
    (fun row => { row with
      status := .completed, completedAt := some now, updatedAt := now
      assignedThreadId := none })
    fun _ => rfl

def markAgentJobItemFailed (now : ℤ) (itemId : Text) (errorMessage : Text) :
    StateRuntime ρ → StateRuntime ρ × Bool :=
  updateItem itemId (fun row => row.status = .running)
    (fun row => { row with
      status := .failed
      completedAt := some now
      updatedAt := now
      lastError := some errorMessage
      assignedThreadId := none })
    fun _ => rfl

def getAgentJobProgress (s : StateRuntime ρ) : AgentJobProgress where
  totalItems := s.items.length
  pendingItems := s.items.countP fun row => row.status = .pending
  runningItems := s.items.countP fun row => row.status = .running
  completedItems := s.items.countP fun row => row.status = .completed
  failedItems := s.items.countP fun row => row.status = .failed

/-! ## What the statements do -/

variable {s : StateRuntime ρ} {itemId itemId' : Text} {guard : AgentJobItem ρ → Bool}
  {set : AgentJobItem ρ → AgentJobItem ρ} {hset : ∀ row, (set row).itemId = row.itemId}
  {row : AgentJobItem ρ}

theorem getItem_update : getAgentJobItem itemId' (updateItem itemId guard set hset s).1 =
    if itemId' = itemId then
      (getAgentJobItem itemId s).map fun row => if guard row then set row else row
    else getAgentJobItem itemId' s := rowAt_updateRowAt hset

theorem updateItem_affects : (updateItem itemId guard set hset s).2 = true ↔
    ∃ row, getAgentJobItem itemId s = some row ∧ guard row = true := by
  unfold updateItem
  dsimp only
  exact updateRowAt_affects s.distinct

theorem getItem_update_of_not (hrow : getAgentJobItem itemId s = some row)
    (hguard : guard row = false) (itemId' : Text) :
    getAgentJobItem itemId' (updateItem itemId guard set hset s).1 = getAgentJobItem itemId' s := by
  rw [getItem_update]
  split
  · next h =>
    rw [h, hrow]
    simp [hguard]
  · rfl

theorem count_update (p : AgentJobItem ρ → Bool) (hrow : getAgentJobItem itemId s = some row)
    (hguard : guard row = true) :
    (updateItem itemId guard set hset s).1.items.countP p + (p row).toNat =
      s.items.countP p + (p (set row)).toNat :=
  countP_updateRowAt p s.distinct hrow hguard

theorem items_update_of_not (hrow : getAgentJobItem itemId s = some row)
    (hguard : guard row = false) : (updateItem itemId guard set hset s).1.items = s.items :=
  updateRowAt_of_not s.distinct hrow hguard

theorem count_le_update {p : AgentJobItem ρ → Bool} (h : ∀ row, p (set row) = true) :
    s.items.countP p ≤ (updateItem itemId guard set hset s).1.items.countP p :=
  countP_le_updateRowAt h

theorem length_update : (updateItem itemId guard set hset s).1.items.length = s.items.length :=
  List.length_map _

theorem mem_list {status : AgentJobItemStatus} :
    row ∈ listAgentJobItems status s ↔ row ∈ s.items ∧ row.status = status := by
  unfold listAgentJobItems
  simp

theorem getItem_of_mem_list {status : AgentJobItemStatus} (h : row ∈ listAgentJobItems status s) :
    getAgentJobItem row.itemId s = some row ∧ row.status = status :=
  ⟨rowAt_of_mem s.distinct (mem_list.mp h).1, (mem_list.mp h).2⟩

theorem list_distinct (status : AgentJobItemStatus) (s : StateRuntime ρ) :
    ((listAgentJobItems status s).map AgentJobItem.itemId).Nodup := by
  refine ((List.perm_insertionSort _ _).map _).nodup_iff.mpr ?_
  exact s.distinct.sublist (List.Sublist.map _ List.filter_sublist)

end StateRuntime

end Codex.AgentJobs
