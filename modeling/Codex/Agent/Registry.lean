import Codex.Foundation.Decimal
import Codex.Foundation.Table
import Mathlib.Data.Finset.Insert

/-!
# The registry of agents

The tree of agents stands behind a lock, and the count of slots is an atomic beside it. A
slot is taken by a reservation, which becomes an agent or gives the slot back.
-/

namespace Codex.Agent

open Foundation

/-! ## Agent paths -/

def rootText : Text := "/root".toList

def morpheusText : Text := "/morpheus".toList

def validateAgentName (agentName : Text) : Bool :=
  agentName ≠ [] && agentName ≠ "root".toList && agentName ≠ ".".toList &&
    agentName ≠ "..".toList && !agentName.contains '/' &&
      agentName.all fun ch => ch.isLower || ch.isDigit || ch = '_'

def validateAbsolutePath (path : Text) : Bool :=
  path = morpheusText ||
    match path with
    | '/' :: stripped =>
      match stripped.splitOn '/' with
      | root :: segments =>
        root = "root".toList && stripped.getLast? ≠ some '/' && segments.all validateAgentName
      | [] => false
    | _ => false

structure AgentPath where
  text : Text
  valid : validateAbsolutePath text = true
deriving DecidableEq

def AgentPath.root : AgentPath := ⟨rootText, by decide +kernel⟩

def AgentPath.isRoot (path : AgentPath) : Bool := path.text = rootText

abbrev ThreadId := Text

def threadKey (threadId : ThreadId) : Text := "thread:".toList ++ threadId

theorem AgentPath.head_text (path : AgentPath) : path.text.head? = some '/' := by
  have hvalid := path.valid
  rcases Bool.or_eq_true_iff.mp hvalid with hmorpheus | habsolute
  · rw [of_decide_eq_true hmorpheus]
    rfl
  · split at habsolute
    · next hpath => rw [hpath, List.head?_cons]
    · cases habsolute

theorem AgentPath.text_ne_threadKey (path : AgentPath) (threadId : ThreadId) :
    path.text ≠ threadKey threadId := by
  intro h
  have hhead := path.head_text
  rw [h] at hhead
  cases hhead

theorem AgentPath.eq_of_text {path path' : AgentPath} (h : path.text = path'.text) :
    path = path' := by
  cases path
  cases path'
  cases h
  rfl

/-! ## The tree behind the lock -/

structure AgentMetadata where
  agentId : Option ThreadId := none
  agentPath : Option AgentPath := none
  agentNickname : Option Text := none
  agentRole : Option Text := none
  lastTaskMessage : Option Text := none
deriving DecidableEq

def ordinalSuffix (value : ℕ) : Text :=
  if 11 ≤ value % 100 ∧ value % 100 ≤ 13 then "th".toList
  else if value % 10 = 1 then "st".toList
  else if value % 10 = 2 then "nd".toList
  else if value % 10 = 3 then "rd".toList
  else "th".toList

def formatAgentNickname (name : Text) (nicknameResetCount : ℕ) : Text :=
  if nicknameResetCount = 0 then name
  else
    let value := nicknameResetCount + 1
    name ++ (" the ".toList ++ (decimal value ++ ordinalSuffix value))

structure ActiveAgents where
  agentTree : Table Text AgentMetadata := ∅
  usedAgentNicknames : Finset Text := ∅
  nicknameResetCount : ℕ := 0

inductive CodexErr where
  | agentLimitReached (maxThreads : ℕ)
  | unsupportedOperation (message : Text)
deriving DecidableEq

/-- A random choice among names, which there are none of only if the list is empty. -/
def choose (choice : ℕ) (names : List Text) : Option Text := names[choice % names.length]?

namespace ActiveAgents

def registerRootThread (a : ActiveAgents) (threadId : ThreadId) : ActiveAgents :=
  match a.agentTree.lookup rootText with
  | some _ => a
  | none =>
    { a with
      agentTree := a.agentTree.insert rootText
        { agentId := some threadId, agentPath := some AgentPath.root } }

def keyOf (metadata : AgentMetadata) (threadId : ThreadId) : Text :=
  match metadata.agentPath with
  | some path => path.text
  | none => threadKey threadId

def registerSpawnedThread (a : ActiveAgents) (metadata : AgentMetadata) : ActiveAgents :=
  match metadata.agentId with
  | none => a
  | some threadId =>
    { a with
      usedAgentNicknames :=
        match metadata.agentNickname with
        | some agentNickname => insert agentNickname a.usedAgentNicknames
        | none => a.usedAgentNicknames
      agentTree := a.agentTree.insert (keyOf metadata threadId) metadata }

def reserveAgentNickname (a : ActiveAgents) (names : List Text) (preferred : Option Text)
    (choice : ℕ) : ActiveAgents × Option Text :=
  let use (a : ActiveAgents) (agentNickname : Text) : ActiveAgents × Option Text :=
    ({ a with usedAgentNicknames := insert agentNickname a.usedAgentNicknames }, some agentNickname)
  match preferred with
  | some preferred => use a preferred
  | none =>
    if names = [] then (a, none)
    else
      let availableNames := (names.map (formatAgentNickname · a.nicknameResetCount)).filter
        fun name => decide (name ∉ a.usedAgentNicknames)
      match choose choice availableNames with
      | some name => use a name
      | none =>
        let a := { a with
          usedAgentNicknames := ∅
          nicknameResetCount := a.nicknameResetCount + 1 }
        match choose choice names with
        | some name => use a (formatAgentNickname name a.nicknameResetCount)
        | none => (a, none)

def placeholder (path : AgentPath) : AgentMetadata := { agentPath := some path }

def reserveAgentPath (a : ActiveAgents) (path : AgentPath) : Except CodexErr ActiveAgents :=
  match a.agentTree.lookup path.text with
  | some _ => .error (.unsupportedOperation
    ("agent path `".toList ++ (path.text ++ "` already exists".toList)))
  | none => .ok { a with agentTree := a.agentTree.insert path.text (placeholder path) }

def releaseReservedAgentPath (a : ActiveAgents) (path : AgentPath) : ActiveAgents :=
  match a.agentTree.lookup path.text with
  | some metadata =>
    if metadata.agentId = none then { a with agentTree := a.agentTree.erase path.text } else a
  | none => a

end ActiveAgents

def AgentMetadata.counted (metadata : AgentMetadata) : Bool :=
  match metadata.agentPath with
  | some path => !path.isRoot
  | none => true

/-! ## Slots -/

structure SpawnReservation where
  reservedAgentNickname : Option Text := none
  reservedAgentPath : Option AgentPath := none
deriving DecidableEq

/-- A call of `reserve_spawn_slot` and what becomes of its reservation. -/
inductive Spawn where
  | loading
  | trying (current : ℕ)
  | refused (error : CodexErr)
  | reserved (reservation : SpawnReservation)
  | dropping
  | dropped
  | committed
deriving DecidableEq

/-- `releasing` are the removed agents whose slot is still to be given back. `registered`
tells what the tree would be without reservations. -/
structure AgentRegistry where
  activeAgents : ActiveAgents
  totalCount : ℕ
  maxThreads : Option ℕ
  spawns : List Spawn
  releasing : ℕ
  registered : Text → Option AgentMetadata

inductive RegistryAction where
  | reserve
  | load (spawn : ℕ)
  | exchange (spawn : ℕ) (spurious : Bool)
  | reservePath (spawn : ℕ) (path : AgentPath)
  | reserveNickname (spawn : ℕ) (names : List Text) (preferred : Option Text) (choice : ℕ)
  | commit (spawn : ℕ) (metadata : AgentMetadata)
  | drop (spawn : ℕ)
  | giveBack (spawn : ℕ)
  | registerRoot (threadId : ThreadId)
  | release (threadId : ThreadId) (found : Option Text)
  | giveBackReleased

def usizeMax : ℕ := 2 ^ 64 - 1

def fetchSub (n : ℕ) : ℕ := if n = 0 then usizeMax else n - 1

namespace AgentRegistry

def new (maxThreads : Option ℕ) : AgentRegistry := ⟨{}, 0, maxThreads, [], 0, fun _ => none⟩

def set (m : AgentRegistry) (spawn : ℕ) (s : Spawn) : AgentRegistry :=
  { m with spawns := m.spawns.set spawn s }

def reserveSpawnSlot (m : AgentRegistry) : AgentRegistry :=
  match m.maxThreads with
  | some _ => { m with spawns := m.spawns ++ [.loading] }
  | none => { m with totalCount := m.totalCount + 1, spawns := m.spawns ++ [.reserved {}] }

def exchange (m : AgentRegistry) (spawn current maxThreads : ℕ) (spurious : Bool) :
    AgentRegistry :=
  if maxThreads ≤ current then m.set spawn (.refused (.agentLimitReached maxThreads))
  else if m.totalCount = current ∧ spurious = false then
    { m.set spawn (.reserved {}) with totalCount := current + 1 }
  else m.set spawn (.trying m.totalCount)

def reserveAgentPath (m : AgentRegistry) (spawn : ℕ) (r : SpawnReservation) (path : AgentPath) :
    AgentRegistry :=
  match m.activeAgents.reserveAgentPath path with
  | .ok activeAgents =>
    { m.set spawn (.reserved { r with reservedAgentPath := some path }) with
      activeAgents := activeAgents }
  | .error _ => m

def reserveAgentNickname (m : AgentRegistry) (spawn : ℕ) (r : SpawnReservation)
    (names : List Text) (preferred : Option Text) (choice : ℕ) : AgentRegistry :=
  let result := m.activeAgents.reserveAgentNickname names preferred choice
  let r :=
    match result.2 with
    | some agentNickname => { r with reservedAgentNickname := some agentNickname }
    | none => r
  { m.set spawn (.reserved r) with activeAgents := result.1 }

def commit (m : AgentRegistry) (spawn : ℕ) (metadata : AgentMetadata) : AgentRegistry :=
  { m.set spawn .committed with
    activeAgents := m.activeAgents.registerSpawnedThread metadata
    registered :=
      match metadata.agentId with
      | some threadId => fun key =>
        if key = ActiveAgents.keyOf metadata threadId then some metadata else m.registered key
      | none => m.registered }

def drop (m : AgentRegistry) (spawn : ℕ) (r : SpawnReservation) : AgentRegistry :=
  { m.set spawn .dropping with
    activeAgents :=
      match r.reservedAgentPath with
      | some path => m.activeAgents.releaseReservedAgentPath path
      | none => m.activeAgents }

def registerRootThread (m : AgentRegistry) (threadId : ThreadId) : AgentRegistry :=
  { m with
    activeAgents := m.activeAgents.registerRootThread threadId
    registered := fun key =>
      if key = rootText ∧ m.registered rootText = none then
        some { agentId := some threadId, agentPath := some AgentPath.root }
      else m.registered key }

def releaseSpawnedThread (m : AgentRegistry) (key : Text) (metadata : AgentMetadata) :
    AgentRegistry :=
  { m with
    activeAgents := { m.activeAgents with agentTree := m.activeAgents.agentTree.erase key }
    releasing := if metadata.counted then m.releasing + 1 else m.releasing
    registered := fun key' => if key' = key then none else m.registered key' }

def stepOption (m : AgentRegistry) : RegistryAction → Option AgentRegistry
  | .reserve => some m.reserveSpawnSlot
  | .load spawn =>
    match m.spawns[spawn]? with
    | some .loading => some (m.set spawn (.trying m.totalCount))
    | _ => none
  | .exchange spawn spurious =>
    match m.spawns[spawn]?, m.maxThreads with
    | some (.trying current), some maxThreads =>
      some (m.exchange spawn current maxThreads spurious)
    | _, _ => none
  | .reservePath spawn path =>
    match m.spawns[spawn]? with
    | some (.reserved r) => some (m.reserveAgentPath spawn r path)
    | _ => none
  | .reserveNickname spawn names preferred choice =>
    match m.spawns[spawn]? with
    | some (.reserved r) => some (m.reserveAgentNickname spawn r names preferred choice)
    | _ => none
  | .commit spawn metadata =>
    match m.spawns[spawn]? with
    | some (.reserved _) => some (m.commit spawn metadata)
    | _ => none
  | .drop spawn =>
    match m.spawns[spawn]? with
    | some (.reserved r) => some (m.drop spawn r)
    | _ => none
  | .giveBack spawn =>
    match m.spawns[spawn]? with
    | some .dropping => some { m.set spawn .dropped with totalCount := fetchSub m.totalCount }
    | _ => none
  | .registerRoot threadId => some (m.registerRootThread threadId)
  | .release threadId (some key) =>
    match m.activeAgents.agentTree.lookup key with
    | some metadata =>
      if metadata.agentId = some threadId then some (m.releaseSpawnedThread key metadata)
      else none
    | none => none
  | .release threadId none =>
    if m.activeAgents.agentTree.entries.all fun entry => entry.2.agentId ≠ some threadId then
      some m
    else none
  | .giveBackReleased =>
    if 0 < m.releasing then
      some { m with releasing := m.releasing - 1, totalCount := fetchSub m.totalCount }
    else none

def step (m : AgentRegistry) (action : RegistryAction) : Except Unit AgentRegistry :=
  match m.stepOption action with
  | some m' => .ok m'
  | none => .error ()

end AgentRegistry

end Codex.Agent
