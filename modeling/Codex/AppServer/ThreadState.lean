import Codex.Foundation.Table
import Codex.Foundation.Text
import Mathlib.Data.Finset.Basic

/-!
# Subscriptions to threads

A thread has the set of its connections, and a connection the set of its threads. Both are
changed by hand, with the live connections and the watcher of each thread (`Mirrored`).
-/

namespace Codex.AppServer

open Foundation Option

abbrev ThreadId := Text

abbrev ConnectionId := ℕ

structure ThreadState where
  experimentalRawEvents : Bool := false
  listening : Bool := false
deriving DecidableEq

/-- `state` is the place of the thread's state among those the manager has made. -/
structure ThreadEntry where
  state : ℕ
  connectionIds : Finset ConnectionId := ∅
  hasConnections : Bool := false
deriving DecidableEq

def ThreadEntry.updateHasConnections (entry : ThreadEntry) : ThreadEntry :=
  { entry with hasConnections := decide (entry.connectionIds ≠ ∅) }

structure ThreadStateManager where
  liveConnections : Finset ConnectionId := ∅
  threads : Table ThreadId ThreadEntry := ∅
  threadIdsByConnection : Table ConnectionId (Finset ThreadId) := ∅
  threadStates : List ThreadState := []

namespace ThreadStateManager

def new : ThreadStateManager := {}

section
variable (m : ThreadStateManager) (threadId : ThreadId) (connectionId : ConnectionId)

def connectionIds : Finset ConnectionId :=
  ((m.threads.lookup threadId).map ThreadEntry.connectionIds).getD ∅

def threadIds : Finset ThreadId := (m.threadIdsByConnection.lookup connectionId).getD ∅

/-! ## Operations -/

def connectionInitialized : ThreadStateManager :=
  { m with liveConnections := insert connectionId m.liveConnections }

/-- `entry(thread_id).or_default()` : a new entry has a new state. -/
def entryOrDefault : ThreadEntry × ThreadStateManager :=
  match m.threads.lookup threadId with
  | some entry => (entry, m)
  | none =>
    let entry : ThreadEntry := { state := m.threadStates.length }
    (entry, { m with
      threads := m.threads.insert threadId entry
      threadStates := m.threadStates ++ [{}] })

def threadState : ThreadStateManager × ℕ :=
  let (entry, m) := m.entryOrDefault threadId
  (m, entry.state)

def removeThreadState : ThreadStateManager :=
  let state := (m.threads.lookup threadId).map ThreadEntry.state
  { m with
    threads := m.threads.erase threadId
    threadIdsByConnection := retainValues (fun _ threadIds =>
      let threadIds := threadIds.erase threadId
      if threadIds = ∅ then none else some threadIds) m.threadIdsByConnection
    threadStates := match state with
      | some state => m.threadStates.modify state fun s => { s with listening := false }
      | none => m.threadStates }

def unsubscribeConnectionFromThread : ThreadStateManager × Bool :=
  if (m.threads.lookup threadId).isNone then (m, false)
  else if threadId ∉ m.threadIds connectionId then (m, false)
  else
    let threadIds := (m.threadIds connectionId).erase threadId
    ({ m with
        threadIdsByConnection :=
          if threadIds = ∅ then m.threadIdsByConnection.erase connectionId
          else m.threadIdsByConnection.insert connectionId threadIds
        threads := mapValues (fun id entry =>
          if id = threadId then
            ThreadEntry.updateHasConnections
              { entry with connectionIds := entry.connectionIds.erase connectionId }
          else entry) m.threads }, true)

def subscribe : ThreadStateManager × ℕ :=
  let m := { m with
    threadIdsByConnection :=
      m.threadIdsByConnection.insert connectionId (insert threadId (m.threadIds connectionId)) }
  let (entry, m) := m.entryOrDefault threadId
  let entry := ThreadEntry.updateHasConnections
    { entry with connectionIds := insert connectionId entry.connectionIds }
  ({ m with threads := m.threads.insert threadId entry }, entry.state)

def tryEnsureConnectionSubscribed (experimentalRawEvents : Bool) :
    ThreadStateManager × Option ℕ :=
  if connectionId ∉ m.liveConnections then (m, none)
  else
    let (m, state) := m.subscribe threadId connectionId
    (if experimentalRawEvents then
        { m with threadStates := m.threadStates.modify state fun s =>
          { s with experimentalRawEvents := true } }
      else m, some state)

def tryAddConnectionToThread : ThreadStateManager × Bool :=
  if connectionId ∉ m.liveConnections then (m, false)
  else ((m.subscribe threadId connectionId).1, true)

/-- The threads of the connection are visited in any order, each once. -/
def removeConnection : ThreadStateManager × Finset ThreadId :=
  let threadIds := m.threadIds connectionId
  let m := { m with
    liveConnections := m.liveConnections.erase connectionId
    threadIdsByConnection := m.threadIdsByConnection.erase connectionId
    threads := mapValues (fun id entry =>
      if id ∈ threadIds then
        ThreadEntry.updateHasConnections
          { entry with connectionIds := entry.connectionIds.erase connectionId }
      else entry) m.threads }
  (m, threadIds.filter fun id =>
    (m.threads.lookup id).any fun entry => decide (entry.connectionIds = ∅))

end

inductive Operation
  | connectionInitialized (connectionId : ConnectionId)
  | threadState (threadId : ThreadId)
  | tryEnsureConnectionSubscribed (threadId : ThreadId) (connectionId : ConnectionId)
      (experimentalRawEvents : Bool)
  | tryAddConnectionToThread (threadId : ThreadId) (connectionId : ConnectionId)
  | unsubscribeConnectionFromThread (threadId : ThreadId) (connectionId : ConnectionId)
  | removeConnection (connectionId : ConnectionId)
  | removeThreadState (threadId : ThreadId)
deriving DecidableEq

def apply (m : ThreadStateManager) : Operation → ThreadStateManager
  | .connectionInitialized connectionId => m.connectionInitialized connectionId
  | .threadState threadId => (m.threadState threadId).1
  | .tryEnsureConnectionSubscribed threadId connectionId raw =>
    (m.tryEnsureConnectionSubscribed threadId connectionId raw).1
  | .tryAddConnectionToThread threadId connectionId =>
    (m.tryAddConnectionToThread threadId connectionId).1
  | .unsubscribeConnectionFromThread threadId connectionId =>
    (m.unsubscribeConnectionFromThread threadId connectionId).1
  | .removeConnection connectionId => (m.removeConnection connectionId).1
  | .removeThreadState threadId => m.removeThreadState threadId

/-! ## What an operation does to the sets -/

section
variable {m : ThreadStateManager} {threadId : ThreadId} {connectionId : ConnectionId}

theorem entryOrDefault_connectionIds :
    (m.entryOrDefault threadId).1.connectionIds = m.connectionIds threadId := by
  unfold entryOrDefault connectionIds
  cases h : m.threads.lookup threadId <;> rfl

theorem connectionIds_entryOrDefault (threadId' : ThreadId) :
    (m.entryOrDefault threadId).2.connectionIds threadId' = m.connectionIds threadId' := by
  unfold entryOrDefault connectionIds
  cases h : m.threads.lookup threadId with
  | some entry => rfl
  | none =>
    rw [lookup_insert_ite]
    by_cases hid : threadId' = threadId
    · rw [if_pos hid, hid, h]
      rfl
    · rw [if_neg hid]

@[simp] theorem threadIds_entryOrDefault :
    (m.entryOrDefault threadId).2.threadIds = m.threadIds := by
  unfold entryOrDefault threadIds
  cases m.threads.lookup threadId <;> rfl

@[simp] theorem liveConnections_entryOrDefault :
    (m.entryOrDefault threadId).2.liveConnections = m.liveConnections := by
  unfold entryOrDefault
  cases m.threads.lookup threadId <;> rfl

theorem connectionIds_subscribe (threadId' : ThreadId) :
    (m.subscribe threadId connectionId).1.connectionIds threadId' =
      if threadId' = threadId then insert connectionId (m.connectionIds threadId)
      else m.connectionIds threadId' := by
  unfold subscribe
  rw [connectionIds, lookup_insert_ite]
  by_cases hid : threadId' = threadId
  · rw [if_pos hid, if_pos hid, map_some, getD_some]
    exact congrArg (insert connectionId) entryOrDefault_connectionIds
  · rw [if_neg hid, if_neg hid]
    exact connectionIds_entryOrDefault threadId'

theorem threadIds_subscribe (connectionId' : ConnectionId) :
    (m.subscribe threadId connectionId).1.threadIds connectionId' =
      if connectionId' = connectionId then insert threadId (m.threadIds connectionId)
      else m.threadIds connectionId' := by
  refine (congrFun (@threadIds_entryOrDefault _ threadId) connectionId').trans ?_
  rw [threadIds, lookup_insert_ite]
  split <;> rfl

section
variable (hmem : threadId ∈ m.threadIds connectionId)
include hmem

variable (hthread : (m.threads.lookup threadId).isSome)
include hthread

theorem unsubscribe_subscribed : m.unsubscribeConnectionFromThread threadId connectionId =
      ({ m with
        threadIdsByConnection :=
          if (m.threadIds connectionId).erase threadId = ∅ then
            m.threadIdsByConnection.erase connectionId
          else
            m.threadIdsByConnection.insert connectionId ((m.threadIds connectionId).erase threadId)
        threads := mapValues (fun id entry =>
          if id = threadId then
            ThreadEntry.updateHasConnections
              { entry with connectionIds := entry.connectionIds.erase connectionId }
          else entry) m.threads }, true) := by
  have hsome : ¬ (m.threads.lookup threadId).isNone = true := by
    rw [isNone_iff_eq_none]
    exact isSome_iff_ne_none.mp hthread
  unfold unsubscribeConnectionFromThread
  rw [if_neg hsome, if_neg (not_not.mpr hmem)]

theorem connectionIds_unsubscribe (threadId' : ThreadId) :
    (m.unsubscribeConnectionFromThread threadId connectionId).1.connectionIds threadId' =
      if threadId' = threadId then (m.connectionIds threadId).erase connectionId
      else m.connectionIds threadId' := by
  rw [unsubscribe_subscribed hmem hthread]
  unfold connectionIds
  rw [lookup_mapValues, map_map]
  by_cases hid : threadId' = threadId
  · rw [if_pos hid, hid]
    cases m.threads.lookup threadId with
    | none => rfl
    | some entry => simp [ThreadEntry.updateHasConnections]
  · rw [if_neg hid]
    cases m.threads.lookup threadId' with
    | none => rfl
    | some entry => simp [hid]

theorem threadIds_unsubscribe (connectionId' : ConnectionId) :
    (m.unsubscribeConnectionFromThread threadId connectionId).1.threadIds connectionId' =
      if connectionId' = connectionId then (m.threadIds connectionId).erase threadId
      else m.threadIds connectionId' := by
  rw [unsubscribe_subscribed hmem hthread]
  unfold threadIds
  split
  · next hempty =>
    rw [lookup_erase_ite]
    split
    · exact hempty.symm
    · rfl
  · rw [lookup_insert_ite]
    split <;> rfl

end

theorem connectionIds_removeThreadState (threadId' : ThreadId) :
    (m.removeThreadState threadId).connectionIds threadId' =
      if threadId' = threadId then ∅ else m.connectionIds threadId' := by
  unfold removeThreadState connectionIds
  rw [lookup_erase_ite]
  split <;> rfl

theorem threadIds_removeThreadState (connectionId : ConnectionId) :
    (m.removeThreadState threadId).threadIds connectionId =
      (m.threadIds connectionId).erase threadId := by
  unfold removeThreadState threadIds
  rw [lookup_retainValues]
  cases m.threadIdsByConnection.lookup connectionId with
  | none => simp
  | some threadIds =>
    rw [bind_some, getD_some]
    dsimp only
    split
    · next hempty => rw [hempty, getD_none]
    · rw [getD_some]

theorem connectionIds_removeConnection (threadId : ThreadId) :
    (m.removeConnection connectionId).1.connectionIds threadId =
      if threadId ∈ m.threadIds connectionId then (m.connectionIds threadId).erase connectionId
      else m.connectionIds threadId := by
  unfold removeConnection connectionIds
  rw [lookup_mapValues, map_map]
  cases m.threads.lookup threadId with
  | none => split <;> rfl
  | some entry =>
    by_cases hmem : threadId ∈ m.threadIds connectionId
    · simp [hmem, ThreadEntry.updateHasConnections]
    · simp [hmem]

theorem threadIds_removeConnection (connectionId' : ConnectionId) :
    (m.removeConnection connectionId).1.threadIds connectionId' =
      if connectionId' = connectionId then ∅ else m.threadIds connectionId' := by
  unfold removeConnection threadIds
  rw [lookup_erase_ite]
  split <;> rfl

end

/-! ## The two sides -/

/-- The sets of the threads and those of the connections are each other's, their
connections are live, and each watcher tells whether a set is empty. -/
structure Mirrored (m : ThreadStateManager) : Prop where
  mirror : ∀ threadId connectionId,
    connectionId ∈ m.connectionIds threadId ↔ threadId ∈ m.threadIds connectionId
  live : ∀ threadId connectionId, connectionId ∈ m.connectionIds threadId →
    connectionId ∈ m.liveConnections
  watcher : ∀ threadId entry, m.threads.lookup threadId = some entry →
    (entry.hasConnections = true ↔ entry.connectionIds ≠ ∅)

theorem updateHasConnections_watcher (entry : ThreadEntry) :
    entry.updateHasConnections.hasConnections = true ↔
      entry.updateHasConnections.connectionIds ≠ ∅ := by
  simp [ThreadEntry.updateHasConnections]

namespace Mirrored

variable {m : ThreadStateManager} (h : m.Mirrored) (threadId : ThreadId)
  (connectionId : ConnectionId)
include h

theorem isSome_of_mem (hmem : threadId ∈ m.threadIds connectionId) :
    (m.threads.lookup threadId).isSome := by
  have hconn := (h.mirror threadId connectionId).mpr hmem
  unfold connectionIds at hconn
  cases hlookup : m.threads.lookup threadId with
  | none =>
    rw [hlookup] at hconn
    simp at hconn
  | some entry => rfl

theorem entryOrDefault : (m.entryOrDefault threadId).2.Mirrored := by
  refine ⟨fun threadId' connectionId => ?_, fun threadId' connectionId hmem => ?_,
    fun threadId' entry hentry => ?_⟩
  · rw [connectionIds_entryOrDefault, threadIds_entryOrDefault]
    exact h.mirror threadId' connectionId
  · rw [connectionIds_entryOrDefault] at hmem
    rw [liveConnections_entryOrDefault]
    exact h.live threadId' connectionId hmem
  · unfold ThreadStateManager.entryOrDefault at hentry
    split at hentry
    · exact h.watcher threadId' entry hentry
    · rw [lookup_insert_ite] at hentry
      split at hentry
      · cases hentry
        simp
      · exact h.watcher threadId' entry hentry

theorem subscribe (hlive : connectionId ∈ m.liveConnections) :
    (m.subscribe threadId connectionId).1.Mirrored := by
  refine ⟨fun threadId' connectionId' => ?_, fun threadId' connectionId' hmem => ?_,
    fun threadId' entry hentry => ?_⟩
  · rw [connectionIds_subscribe, threadIds_subscribe]
    have hmirror := h.mirror threadId' connectionId'
    by_cases hid : threadId' = threadId <;> by_cases hconn : connectionId' = connectionId <;>
      simp_all
  · have hsame : (m.subscribe threadId connectionId).1.liveConnections = m.liveConnections :=
      liveConnections_entryOrDefault
    rw [connectionIds_subscribe] at hmem
    rw [hsame]
    split at hmem
    · rcases Finset.mem_insert.mp hmem with rfl | hmem
      · exact hlive
      · exact h.live threadId connectionId' hmem
    · exact h.live threadId' connectionId' hmem
  · unfold ThreadStateManager.subscribe at hentry
    rw [lookup_insert_ite] at hentry
    split at hentry
    · cases hentry
      exact updateHasConnections_watcher _
    · next hid =>
      refine h.watcher threadId' entry ?_
      unfold ThreadStateManager.entryOrDefault at hentry
      split at hentry
      · exact hentry
      · rwa [lookup_insert_ite, if_neg hid] at hentry

theorem watcher_mapped {f : ThreadId → ThreadEntry → ThreadEntry}
    (hf : ∀ threadId entry, f threadId entry = entry ∨
      ∃ entry', f threadId entry = ThreadEntry.updateHasConnections entry')
    {threadId : ThreadId} {entry : ThreadEntry}
    (hentry : (mapValues f m.threads).lookup threadId = some entry) :
    entry.hasConnections = true ↔ entry.connectionIds ≠ ∅ := by
  rw [lookup_mapValues] at hentry
  obtain ⟨old, hold, rfl⟩ := map_eq_some_iff.mp hentry
  obtain heq | ⟨entry', heq⟩ := hf threadId old
  · rw [heq]
    exact h.watcher threadId old hold
  · rw [heq]
    exact updateHasConnections_watcher entry'

theorem unsubscribe :
    (m.unsubscribeConnectionFromThread threadId connectionId).1.Mirrored := by
  by_cases hmem : threadId ∈ m.threadIds connectionId
  · have hthread := h.isSome_of_mem threadId connectionId hmem
    refine ⟨fun threadId' connectionId' => ?_, fun threadId' connectionId' hmem' => ?_,
      fun threadId' entry hentry => ?_⟩
    · rw [connectionIds_unsubscribe hmem hthread, threadIds_unsubscribe hmem hthread]
      have hmirror := h.mirror threadId' connectionId'
      by_cases hid : threadId' = threadId <;> by_cases hconn : connectionId' = connectionId <;>
        simp_all
    · rw [connectionIds_unsubscribe hmem hthread] at hmem'
      rw [unsubscribe_subscribed hmem hthread]
      split at hmem'
      · exact h.live threadId connectionId' (Finset.mem_of_mem_erase hmem')
      · exact h.live threadId' connectionId' hmem'
    · rw [unsubscribe_subscribed hmem hthread] at hentry
      refine h.watcher_mapped (fun id entry => ?_) hentry
      by_cases hid : id = threadId
      · rw [if_pos hid]
        exact .inr ⟨_, rfl⟩
      · rw [if_neg hid]
        exact .inl rfl
  · unfold unsubscribeConnectionFromThread
    split <;> exact h

theorem removeThreadState : (m.removeThreadState threadId).Mirrored := by
  refine ⟨fun threadId' connectionId => ?_, fun threadId' connectionId hmem => ?_,
    fun threadId' entry hentry => ?_⟩
  · rw [connectionIds_removeThreadState, threadIds_removeThreadState]
    have hmirror := h.mirror threadId' connectionId
    by_cases hid : threadId' = threadId <;> simp_all
  · rw [connectionIds_removeThreadState] at hmem
    split at hmem
    · simp at hmem
    · exact h.live threadId' connectionId hmem
  · unfold ThreadStateManager.removeThreadState at hentry
    rw [lookup_erase_ite] at hentry
    split at hentry
    · cases hentry
    · exact h.watcher threadId' entry hentry

theorem removeConnection : (m.removeConnection connectionId).1.Mirrored := by
  have hgone : ∀ threadId, connectionId ∉
      (m.removeConnection connectionId).1.connectionIds threadId := by
    intro threadId hmem
    rw [connectionIds_removeConnection] at hmem
    split at hmem
    · exact Finset.notMem_erase _ _ hmem
    · next hnot => exact hnot ((h.mirror threadId connectionId).mp hmem)
  refine ⟨fun threadId connectionId' => ?_, fun threadId connectionId' hmem => ?_,
    fun threadId entry hentry => ?_⟩
  · rw [threadIds_removeConnection]
    by_cases hconn : connectionId' = connectionId
    · rw [if_pos hconn, hconn]
      simp [hgone threadId]
    · rw [if_neg hconn, connectionIds_removeConnection, ← h.mirror threadId connectionId']
      split
      · simp [hconn]
      · exact Iff.rfl
  · have hne : connectionId' ≠ connectionId := fun heq => hgone threadId (heq ▸ hmem)
    refine Finset.mem_erase.mpr ⟨hne, h.live threadId connectionId' ?_⟩
    rw [connectionIds_removeConnection] at hmem
    split at hmem
    · exact Finset.mem_of_mem_erase hmem
    · exact hmem
  · refine h.watcher_mapped (fun id entry => ?_) hentry
    by_cases hmem : id ∈ m.threadIds connectionId
    · rw [if_pos hmem]
      exact .inr ⟨_, rfl⟩
    · rw [if_neg hmem]
      exact .inl rfl

theorem mem_removeConnection : threadId ∈ (m.removeConnection connectionId).2 ↔
    m.connectionIds threadId = {connectionId} := by
  have hentry : ((m.removeConnection connectionId).1.threads.lookup threadId).map
      ThreadEntry.connectionIds = some ∅ ↔
      ((m.removeConnection connectionId).1.threads.lookup threadId).isSome ∧
        (m.removeConnection connectionId).1.connectionIds threadId = ∅ := by
    unfold connectionIds
    cases (m.removeConnection connectionId).1.threads.lookup threadId <;> simp
  have hresult : threadId ∈ (m.removeConnection connectionId).2 ↔
      threadId ∈ m.threadIds connectionId ∧
        ((m.removeConnection connectionId).1.threads.lookup threadId).map
          ThreadEntry.connectionIds = some ∅ := by
    refine Finset.mem_filter.trans (and_congr_right' ?_)
    change Option.any _ ((m.removeConnection connectionId).1.threads.lookup threadId) = true ↔ _
    cases (m.removeConnection connectionId).1.threads.lookup threadId <;> simp
  rw [hresult, hentry, connectionIds_removeConnection]
  constructor
  · rintro ⟨hmem, -, hempty⟩
    rw [if_pos hmem] at hempty
    have hconn := (h.mirror threadId connectionId).mpr hmem
    rw [← Finset.insert_erase hconn, hempty]
    rfl
  · intro hsole
    have hconn : connectionId ∈ m.connectionIds threadId := by simp [hsole]
    have hmem := (h.mirror threadId connectionId).mp hconn
    refine ⟨hmem, ?_, by rw [if_pos hmem, hsole]; simp⟩
    have hsome := h.isSome_of_mem threadId connectionId hmem
    change ((mapValues _ m.threads).lookup threadId).isSome
    rw [lookup_mapValues, isSome_map]
    exact hsome

theorem apply (op : Operation) : (m.apply op).Mirrored := by
  cases op with
  | connectionInitialized connectionId =>
    refine ⟨h.mirror, fun threadId connectionId' hmem => ?_, h.watcher⟩
    exact Finset.mem_insert_of_mem (h.live threadId connectionId' hmem)
  | threadState threadId => exact h.entryOrDefault threadId
  | tryEnsureConnectionSubscribed threadId connectionId raw =>
    rw [ThreadStateManager.apply, tryEnsureConnectionSubscribed]
    split
    · exact h
    · next hlive =>
      have hsub := h.subscribe threadId connectionId (not_not.mp hlive)
      dsimp only
      split
      · exact ⟨hsub.mirror, hsub.live, hsub.watcher⟩
      · exact hsub
  | tryAddConnectionToThread threadId connectionId =>
    rw [ThreadStateManager.apply, tryAddConnectionToThread]
    split
    · exact h
    · next hlive => exact h.subscribe threadId connectionId (not_not.mp hlive)
  | unsubscribeConnectionFromThread threadId connectionId =>
    exact h.unsubscribe threadId connectionId
  | removeConnection connectionId => exact h.removeConnection connectionId
  | removeThreadState threadId => exact h.removeThreadState threadId

end Mirrored

theorem mirrored_new : new.Mirrored := by
  refine ⟨fun _ _ => by simp [new, connectionIds, threadIds], fun _ _ hmem => ?_,
    fun _ _ hentry => ?_⟩
  · simp [new, connectionIds] at hmem
  · cases hentry

/-- After any operations the two sides agree, and removing a connection returns the threads
whose last subscriber it removes. -/
theorem subscriptions_mirrored (ops : List Operation) :
    (ops.foldl apply new).Mirrored ∧
      ∀ threadId connectionId, threadId ∈ ((ops.foldl apply new).removeConnection connectionId).2 ↔
        (ops.foldl apply new).connectionIds threadId = {connectionId} := by
  have hmirrored : ∀ m : ThreadStateManager, m.Mirrored → (ops.foldl apply m).Mirrored := by
    induction ops with
    | nil => exact fun m h => h
    | cons op ops ih => exact fun m h => ih _ (h.apply op)
  exact ⟨hmirrored new mirrored_new, (hmirrored new mirrored_new).mem_removeConnection⟩

end ThreadStateManager

end Codex.AppServer
