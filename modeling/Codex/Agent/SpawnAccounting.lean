import Codex.Agent.Registry
import Codex.Foundation.Run
import Codex.Foundation.Slots

/-!
# Slots and paths

Every slot that is counted is a reservation's or an agent's, and every entry of the tree
without an agent is the path that one reservation holds.
-/

namespace Codex.Agent

open Foundation Function Option

/-! ## The tree -/

def Spawn.path : Spawn → Option AgentPath
  | .reserved r => r.reservedAgentPath
  | _ => none

/-- The tree against what is registered and the paths that reservations hold. -/
structure Tree (look registered : Text → Option AgentMetadata)
    (pathAt : ℕ → Option AgentPath) : Prop where
  keyed : ∀ key metadata, look key = some metadata →
    (∃ path, metadata.agentPath = some path ∧ key = path.text) ∨
      ∃ threadId, metadata.agentPath = none ∧ metadata.agentId = some threadId ∧
        key = threadKey threadId
  placed : ∀ key metadata, look key = some metadata → metadata.agentId = none →
    ∃ i path, pathAt i = some path ∧ metadata = ActiveAgents.placeholder path
  holds : ∀ i path, pathAt i = some path →
    look path.text = some (ActiveAgents.placeholder path) ∧ path.isRoot = false
  alone : ∀ i j path, pathAt i = some path → pathAt j = some path → i = j
  ids : ∀ key key' metadata metadata' threadId, look key = some metadata →
    look key' = some metadata' → metadata.agentId = some threadId →
      metadata'.agentId = some threadId → key = key'
  registered : ∀ key, registered key = (look key).filter (·.agentId.isSome)

section
variable {look registered : Text → Option AgentMetadata} {pathAt : ℕ → Option AgentPath}

theorem tree_new : Tree (fun _ => none) (fun _ => none) fun _ => none where
  keyed := nofun
  placed := nofun
  holds := nofun
  alone := nofun
  ids := nofun
  registered := fun _ => rfl

variable (h : Tree look registered pathAt)
include h

theorem Tree.entry_iff (key : Text) (metadata : AgentMetadata) : look key = some metadata ↔
      registered key = some metadata ∨
        ∃ i path, pathAt i = some path ∧ key = path.text ∧
          metadata = ActiveAgents.placeholder path := by
  rw [h.registered]
  constructor
  · intro hlook
    cases hid : metadata.agentId with
    | some threadId => exact .inl (by simp [hlook, Option.filter, hid])
    | none =>
      obtain ⟨i, path, hpath, rfl⟩ := h.placed key metadata hlook hid
      refine .inr ⟨i, path, hpath, ?_, rfl⟩
      rcases h.keyed key _ hlook with ⟨path', hpath', hkey⟩ | ⟨threadId, hnone, -⟩
      · cases hpath'
        exact hkey
      · cases hnone
  · rintro (hregistered | ⟨i, path, hpath, rfl, rfl⟩)
    · exact (filter_eq_some_iff.mp hregistered).1
    · exact (h.holds i path hpath).1

theorem Tree.reserve {i : ℕ} {path : AgentPath}
    (hvacant : look path.text = none) (hroot : path.isRoot = false) (hnone : pathAt i = none) :
    Tree (Function.update look path.text (some (ActiveAgents.placeholder path))) registered
      (Function.update pathAt i (some path)) := by
  have hother : ∀ j path', pathAt j = some path' → path'.text ≠ path.text ∧ j ≠ i := by
    intro j path' hj
    constructor
    · intro htext
      rw [← htext, (h.holds j path' hj).1] at hvacant
      cases hvacant
    · rintro rfl
      rw [hnone] at hj
      cases hj
  refine ⟨?_, ?_, ?_, ?_, ?_, ?_⟩
  · intro key metadata hlook
    by_cases hkey : key = path.text
    · subst hkey
      obtain rfl : ActiveAgents.placeholder path = metadata := by simpa using hlook
      exact .inl ⟨path, rfl, rfl⟩
    · exact h.keyed key metadata (by simpa [hkey] using hlook)
  · intro key metadata hlook hid
    by_cases hkey : key = path.text
    · subst hkey
      obtain rfl : ActiveAgents.placeholder path = metadata := by simpa using hlook
      exact ⟨i, path, by simp, rfl⟩
    · obtain ⟨j, path', hj, hmetadata⟩ := h.placed key metadata (by simpa [hkey] using hlook) hid
      exact ⟨j, path', by simpa [(hother j path' hj).2] using hj, hmetadata⟩
  · intro j path' hj
    by_cases hji : j = i
    · subst hji
      obtain rfl : path = path' := by simpa using hj
      exact ⟨by simp, hroot⟩
    · have hj' : pathAt j = some path' := by simpa [hji] using hj
      simpa [(hother j path' hj').1] using h.holds j path' hj'
  · intro j k path' hj hk
    by_cases hji : j = i <;> by_cases hki : k = i
    · rw [hji, hki]
    · have hk' : pathAt k = some path' := by simpa [hki] using hk
      obtain rfl : path = path' := by simpa [hji] using hj
      exact absurd rfl (hother k path hk').1
    · have hj' : pathAt j = some path' := by simpa [hji] using hj
      obtain rfl : path = path' := by simpa [hki] using hk
      exact absurd rfl (hother j path hj').1
    · exact h.alone j k path' (by simpa [hji] using hj) (by simpa [hki] using hk)
  · intro key key' metadata metadata' threadId hlook hlook' hid hid'
    have hold : ∀ key metadata, Function.update look path.text
        (some (ActiveAgents.placeholder path)) key = some metadata →
          metadata.agentId = some threadId → look key = some metadata := by
      intro key metadata hlook hid
      by_cases hkey : key = path.text
      · obtain rfl : ActiveAgents.placeholder path = metadata := by simpa [hkey] using hlook
        cases hid
      · simpa [hkey] using hlook
    exact h.ids key key' metadata metadata' threadId (hold _ _ hlook hid) (hold _ _ hlook' hid')
      hid hid'
  · intro key
    by_cases hkey : key = path.text
    · subst hkey
      rw [h.registered, hvacant]
      simp [ActiveAgents.placeholder, Option.filter]
    · simpa [hkey] using h.registered key

theorem Tree.enter {key : Text} {metadata : AgentMetadata}
    {threadId : ThreadId} {pathAt' : ℕ → Option AgentPath} (hid : metadata.agentId = some threadId)
    (hfresh : ∀ key metadata, look key = some metadata → metadata.agentId ≠ some threadId)
    (hkeyed : (∃ path, metadata.agentPath = some path ∧ key = path.text) ∨
      ∃ threadId, metadata.agentPath = none ∧ metadata.agentId = some threadId ∧
        key = threadKey threadId)
    (hpaths : ∀ j path, pathAt' j = some path ↔ pathAt j = some path ∧ path.text ≠ key) :
    Tree (Function.update look key (some metadata)) (Function.update registered key (some metadata))
      pathAt' := by
  refine ⟨?_, ?_, ?_, ?_, ?_, ?_⟩
  · intro key' metadata' hlook
    by_cases hkey : key' = key
    · subst hkey
      obtain rfl : metadata = metadata' := by simpa using hlook
      exact hkeyed
    · exact h.keyed key' metadata' (by simpa [hkey] using hlook)
  · intro key' metadata' hlook hnone
    by_cases hkey : key' = key
    · obtain rfl : metadata = metadata' := by simpa [hkey] using hlook
      rw [hid] at hnone
      cases hnone
    · have hlook' : look key' = some metadata' := by simpa [hkey] using hlook
      obtain ⟨j, path, hj, rfl⟩ := h.placed key' metadata' hlook' hnone
      refine ⟨j, path, (hpaths j path).mpr ⟨hj, ?_⟩, rfl⟩
      rcases h.keyed key' _ hlook' with ⟨path', hpath', htext⟩ | ⟨threadId', hpath', -⟩
      · cases hpath'
        exact htext ▸ hkey
      · cases hpath'
  · intro j path hj
    obtain ⟨hj', hne⟩ := (hpaths j path).mp hj
    simpa [hne] using h.holds j path hj'
  · intro j k path hj hk
    exact h.alone j k path ((hpaths j path).mp hj).1 ((hpaths k path).mp hk).1
  · intro key₁ key₂ metadata₁ metadata₂ threadId' h₁ h₂ hid₁ hid₂
    by_cases hkey₁ : key₁ = key <;> by_cases hkey₂ : key₂ = key
    · rw [hkey₁, hkey₂]
    · obtain rfl : metadata = metadata₁ := by simpa [hkey₁] using h₁
      obtain rfl : threadId = threadId' := Option.some.inj (hid.symm.trans hid₁)
      exact absurd hid₂ (hfresh key₂ metadata₂ (by simpa [hkey₂] using h₂))
    · obtain rfl : metadata = metadata₂ := by simpa [hkey₂] using h₂
      obtain rfl : threadId = threadId' := Option.some.inj (hid.symm.trans hid₂)
      exact absurd hid₁ (hfresh key₁ metadata₁ (by simpa [hkey₁] using h₁))
    · exact h.ids key₁ key₂ metadata₁ metadata₂ threadId' (by simpa [hkey₁] using h₁)
        (by simpa [hkey₂] using h₂) hid₁ hid₂
  · intro key'
    by_cases hkey : key' = key
    · simp [hkey, Option.filter, hid]
    · simpa [hkey] using h.registered key'

theorem Tree.remove {key : Text} {pathAt' : ℕ → Option AgentPath}
    (hpaths : ∀ j path, pathAt' j = some path ↔ pathAt j = some path ∧ path.text ≠ key) :
    Tree (Function.update look key none) (Function.update registered key none) pathAt' := by
  have hkept : ∀ key' metadata, Function.update look key none key' = some metadata →
      key' ≠ key ∧ look key' = some metadata := by
    intro key' metadata hlook
    by_cases hkey : key' = key
    · simp [hkey] at hlook
    · exact ⟨hkey, by simpa [hkey] using hlook⟩
  refine ⟨?_, ?_, ?_, ?_, ?_, ?_⟩
  · exact fun key' metadata hlook => h.keyed key' metadata (hkept key' metadata hlook).2
  · intro key' metadata hlook hnone
    obtain ⟨hne, hlook'⟩ := hkept key' metadata hlook
    obtain ⟨j, path, hj, rfl⟩ := h.placed key' metadata hlook' hnone
    refine ⟨j, path, (hpaths j path).mpr ⟨hj, ?_⟩, rfl⟩
    rcases h.keyed key' _ hlook' with ⟨path', hpath', htext⟩ | ⟨threadId', hpath', -⟩
    · cases hpath'
      exact htext ▸ hne
    · cases hpath'
  · intro j path hj
    obtain ⟨hj', hne⟩ := (hpaths j path).mp hj
    simpa [hne] using h.holds j path hj'
  · intro j k path hj hk
    exact h.alone j k path ((hpaths j path).mp hj).1 ((hpaths k path).mp hk).1
  · intro key₁ key₂ metadata₁ metadata₂ threadId h₁ h₂
    exact h.ids key₁ key₂ metadata₁ metadata₂ threadId (hkept _ _ h₁).2 (hkept _ _ h₂).2
  · intro key'
    by_cases hkey : key' = key
    · simp [hkey]
    · simpa [hkey] using h.registered key'

end

namespace Spawn

def live : Spawn → Bool
  | .reserved _ | .dropping => true
  | _ => false

def owes : Spawn → Bool
  | .dropping => true
  | _ => false

end Spawn

namespace AgentRegistry

variable {m m' : AgentRegistry}

def tree (m : AgentRegistry) : Table Text AgentMetadata := m.activeAgents.agentTree

def pathAt (m : AgentRegistry) (i : ℕ) : Option AgentPath := m.spawns[i]?.bind Spawn.path

def liveReservations (m : AgentRegistry) : ℕ := m.spawns.countP Spawn.live

def agentCount (metadata : AgentMetadata) : ℕ :=
  if metadata.agentId.isSome && metadata.counted then 1 else 0

/-- An agent is committed until the release that removes it has given its slot back. -/
def committedAgents (m : AgentRegistry) : ℕ := total agentCount m.tree + m.releasing

def owed (m : AgentRegistry) : ℕ := m.spawns.countP Spawn.owes + m.releasing

structure Accounted (m : AgentRegistry) : Prop where
  count : m.totalCount = m.liveReservations + m.committedAgents
  bound : ∀ maxThreads, m.maxThreads = some maxThreads → m.totalCount ≤ maxThreads
  floor : m.owed ≤ m.totalCount
  paths : ∀ key key' metadata metadata' path, m.tree.lookup key = some metadata →
    m.tree.lookup key' = some metadata' → metadata.agentPath = some path →
      metadata'.agentPath = some path → key = key'
  ids : ∀ key key' metadata metadata' threadId, m.tree.lookup key = some metadata →
    m.tree.lookup key' = some metadata' → metadata.agentId = some threadId →
      metadata'.agentId = some threadId → key = key'
  table : ∀ key metadata, m.tree.lookup key = some metadata ↔
    m.registered key = some metadata ∨
      ∃ i path, m.pathAt i = some path ∧ key = path.text ∧ metadata = ActiveAgents.placeholder path

/-! ## The runs -/

def Fresh (m : AgentRegistry) (threadId : ThreadId) : Prop :=
  ∀ key metadata, m.tree.lookup key = some metadata → metadata.agentId ≠ some threadId

/-- A commit has a fresh thread id, and the path that the reservation holds, if any. -/
def Admitted (m : AgentRegistry) : RegistryAction → Prop
  | .commit spawn metadata =>
    m.pathAt spawn = metadata.agentPath ∧
      ∃ threadId, metadata.agentId = some threadId ∧ m.Fresh threadId
  | _ => True

/-- A reservation takes one path at most and never the root's, and the root is registered
with a thread that is no agent yet. -/
def Orderly (m : AgentRegistry) : RegistryAction → Prop
  | .reservePath spawn path => m.tree.lookup path.text = none →
    path.isRoot = false ∧ m.pathAt spawn = none
  | .registerRoot threadId => m.tree.lookup rootText = none → m.Fresh threadId
  | _ => True

structure Inv (m : AgentRegistry) : Prop where
  tree : Tree m.tree.lookup m.registered m.pathAt
  count : m.totalCount = m.liveReservations + m.committedAgents
  bound : ∀ maxThreads, m.maxThreads = some maxThreads → m.totalCount ≤ maxThreads

theorem Inv.accounted (h : m.Inv) : m.Accounted where
  count := h.count
  bound := h.bound
  floor := by
    have howes : m.spawns.countP Spawn.owes ≤ m.spawns.countP Spawn.live := by
      apply List.countP_mono_left
      intro s _ hs
      cases s <;> simp [Spawn.owes, Spawn.live] at hs ⊢
    rw [h.count, owed, liveReservations, committedAgents]
    omega
  paths := by
    intro key key' metadata metadata' path hlook hlook' hpath hpath'
    rcases h.tree.keyed key metadata hlook with ⟨path₁, h₁, rfl⟩ | ⟨threadId, h₁, -⟩
    · rcases h.tree.keyed key' metadata' hlook' with ⟨path₂, h₂, rfl⟩ | ⟨threadId, h₂, -⟩
      · rw [hpath] at h₁
        rw [hpath'] at h₂
        cases h₁
        cases h₂
        rfl
      · rw [hpath'] at h₂
        cases h₂
    · rw [hpath] at h₁
      cases h₁
  ids := h.tree.ids
  table := h.tree.entry_iff

/-! ## Steps -/

variable {i : ℕ} {old : Spawn} {key : Text} {r : SpawnReservation} {metadata : AgentMetadata}
  {threadId : ThreadId}

section
variable (hslot : m.spawns[i]? = some old)
include hslot

theorem pathAt_set (s : Spawn) : (m.set i s).pathAt = Function.update m.pathAt i s.path := by
  obtain ⟨hlt, -⟩ := List.getElem?_eq_some_iff.mp hslot
  funext j
  by_cases hj : j = i
  · subst hj
    simp [pathAt, set, hlt]
  · simp [pathAt, set, hj, Ne.symm hj]

theorem pathAt_slot : m.pathAt i = old.path := by
  simp [pathAt, hslot]

theorem live_set (s : Spawn) :
    (m.set i s).liveReservations + old.live.toNat = m.liveReservations + s.live.toNat :=
  countP_slot Spawn.live hslot s

end

theorem Inv.move (h : m.Inv) (hslot : m.spawns[i]? = some old) (s : Spawn)
    (hpath : s.path = old.path) (hlive : s.live = old.live) {a : ActiveAgents}
    (ha : a.agentTree = m.tree) : { m.set i s with activeAgents := a }.Inv := by
  have hpaths : (m.set i s).pathAt = m.pathAt := by
    rw [pathAt_set hslot, hpath, ← pathAt_slot hslot, update_eq_self]
  have hcount := live_set hslot s
  rw [hlive] at hcount
  refine ⟨?_, ?_, h.bound⟩
  · show Tree a.agentTree.lookup m.registered (m.set i s).pathAt
    rw [ha, hpaths]
    exact h.tree
  · show m.totalCount = (m.set i s).liveReservations + (total agentCount a.agentTree + m.releasing)
    rw [ha, Nat.add_right_cancel hcount]
    exact h.count

theorem Inv.append (h : m.Inv) {s : Spawn} (hpath : s.path = none) {n : ℕ}
    (hn : n = m.totalCount + s.live.toNat)
    (hbound : ∀ maxThreads, m.maxThreads = some maxThreads → n ≤ maxThreads) :
    { m with totalCount := n, spawns := m.spawns ++ [s] }.Inv := by
  refine ⟨?_, ?_, hbound⟩
  · have hpaths : { m with totalCount := n, spawns := m.spawns ++ [s] }.pathAt = m.pathAt := by
      funext j
      unfold pathAt
      rcases Nat.lt_trichotomy j m.spawns.length with hlt | heq | hgt
      · rw [List.getElem?_append_left hlt]
      · subst heq
        simp [hpath]
      · rw [List.getElem?_eq_none (by simp; omega), List.getElem?_eq_none (by omega)]
    rw [hpaths]
    exact h.tree
  · show n = (m.spawns ++ [s]).countP Spawn.live + m.committedAgents
    have hcount := h.count
    rw [List.countP_append, hn, hcount]
    unfold liveReservations
    cases hlive : s.live <;> simp [hlive, Nat.add_right_comm]

theorem Inv.exchange (h : m.Inv) {current maxThreads : ℕ} {spurious : Bool}
    (hslot : m.spawns[i]? = some (.trying current)) (hmax : m.maxThreads = some maxThreads) :
    (m.exchange i current maxThreads spurious).Inv := by
  unfold AgentRegistry.exchange
  by_cases hfull : maxThreads ≤ current
  · rw [if_pos hfull]
    exact h.move hslot (.refused (.agentLimitReached maxThreads)) rfl rfl rfl
  rw [if_neg hfull]
  by_cases hsame : m.totalCount = current ∧ spurious = false
  · rw [if_pos hsame]
    obtain ⟨rfl, -⟩ := hsame
    have hcount := live_set hslot (.reserved {})
    refine ⟨?_, ?_, ?_⟩
    · show Tree m.tree.lookup m.registered (m.set i (.reserved {})).pathAt
      have hnone := pathAt_slot hslot
      rw [pathAt_set hslot, show (Spawn.reserved {}).path = m.pathAt i from hnone.symm,
        update_eq_self]
      exact h.tree
    · show m.totalCount + 1 = (m.set i (.reserved {})).liveReservations + m.committedAgents
      simp only [Spawn.live, Bool.toNat_false, Bool.toNat_true, Nat.add_zero] at hcount
      rw [hcount, h.count]
      omega
    · intro maxThreads' hmax'
      obtain rfl : maxThreads = maxThreads' := Option.some.inj (hmax.symm.trans hmax')
      exact Nat.succ_le_of_lt (Nat.not_le.mp hfull)
  · rw [if_neg hsame]
    exact h.move hslot (.trying m.totalCount) rfl rfl rfl

theorem lookup_insert_update (t : Table Text AgentMetadata) (key : Text)
    (metadata : AgentMetadata) :
    (t.insert key metadata).lookup = Function.update t.lookup key (some metadata) := by
  funext key'
  rw [lookup_insert_ite, update_apply]

theorem lookup_erase_update (t : Table Text AgentMetadata) (key : Text) :
    (t.erase key).lookup = Function.update t.lookup key none := by
  funext key'
  rw [lookup_erase_ite, update_apply]

theorem total_insert_vacant {t : Table Text AgentMetadata}
    (hold : ((t.lookup key).map agentCount).getD 0 = 0) (metadata : AgentMetadata) :
    total agentCount (t.insert key metadata) = total agentCount t + agentCount metadata := by
  have hinsert := total_insert agentCount key metadata t
  omega

theorem Inv.reservePath (h : m.Inv) {path : AgentPath} (hslot : m.spawns[i]? = some (.reserved r))
    (horderly : m.tree.lookup path.text = none → path.isRoot = false ∧ m.pathAt i = none) :
    (m.reserveAgentPath i r path).Inv := by
  unfold AgentRegistry.reserveAgentPath ActiveAgents.reserveAgentPath
  cases hlook : m.activeAgents.agentTree.lookup path.text with
  | some metadata => exact h
  | none =>
    obtain ⟨hroot, hnone⟩ := horderly hlook
    have hcount := live_set hslot (.reserved { r with reservedAgentPath := some path })
    refine ⟨?_, ?_, h.bound⟩
    · show Tree (m.tree.insert path.text (ActiveAgents.placeholder path)).lookup m.registered
        (m.set i (.reserved { r with reservedAgentPath := some path })).pathAt
      rw [lookup_insert_update, pathAt_set hslot]
      exact h.tree.reserve hlook hroot hnone
    · show m.totalCount = (m.set i _).liveReservations +
        (total agentCount (m.tree.insert path.text (ActiveAgents.placeholder path)) + m.releasing)
      have hvacant : ((m.tree.lookup path.text).map agentCount).getD 0 = 0 := by
        rw [show m.tree.lookup path.text = none from hlook]
        rfl
      rw [total_insert_vacant hvacant, Nat.add_right_cancel hcount]
      exact h.count

theorem Inv.commit (h : m.Inv) (hslot : m.spawns[i]? = some (.reserved r))
    (hpath : m.pathAt i = metadata.agentPath) (hid : metadata.agentId = some threadId)
    (hfresh : m.Fresh threadId) : (m.commit i metadata).Inv := by
  have hcount := live_set hslot .committed
  have hkeyed : (∃ path, metadata.agentPath = some path ∧
      ActiveAgents.keyOf metadata threadId = path.text) ∨
        ∃ threadId', metadata.agentPath = none ∧ metadata.agentId = some threadId' ∧
          ActiveAgents.keyOf metadata threadId = threadKey threadId' := by
    unfold ActiveAgents.keyOf
    cases hagentPath : metadata.agentPath with
    | some path => exact .inl ⟨path, rfl, rfl⟩
    | none => exact .inr ⟨threadId, rfl, hid, rfl⟩
  -- the key is the reservation's own path, or one that no path has
  have hpaths : ∀ j path, Function.update m.pathAt i none j = some path ↔
      m.pathAt j = some path ∧ path.text ≠ ActiveAgents.keyOf metadata threadId := by
    intro j path
    unfold ActiveAgents.keyOf
    by_cases hj : j = i
    · subst hj
      rw [hpath]
      cases metadata.agentPath <;> simp
      rintro rfl
      rfl
    · rw [update_of_ne hj]
      refine ⟨fun hpathAt => ⟨hpathAt, ?_⟩, And.left⟩
      cases hagentPath : metadata.agentPath with
      | none => exact path.text_ne_threadKey threadId
      | some path' =>
        intro htext
        obtain rfl := AgentPath.eq_of_text htext
        exact hj (h.tree.alone j i path hpathAt (hpath.trans hagentPath))
  have hvacant : ((m.tree.lookup (ActiveAgents.keyOf metadata threadId)).map agentCount).getD 0 =
      0 := by
    unfold ActiveAgents.keyOf
    cases hagentPath : metadata.agentPath with
    | some path =>
      obtain ⟨hlook, -⟩ := h.tree.holds i path (hpath.trans hagentPath)
      simp [hlook, agentCount, ActiveAgents.placeholder]
    | none =>
      cases hlook : m.tree.lookup (threadKey threadId) with
      | none => rfl
      | some metadata' =>
        exfalso
        rcases h.tree.keyed _ _ hlook with ⟨path, -, hkey⟩ | ⟨threadId', -, hid', hkey⟩
        · exact path.text_ne_threadKey threadId hkey.symm
        · obtain rfl : threadId = threadId' := List.append_cancel_left hkey
          exact hfresh _ _ hlook hid'
  have htree : (m.commit i metadata).tree =
      m.tree.insert (ActiveAgents.keyOf metadata threadId) metadata := by
    show (m.activeAgents.registerSpawnedThread metadata).agentTree = _
    unfold ActiveAgents.registerSpawnedThread
    rw [hid]
    rfl
  have hregistered : (m.commit i metadata).registered =
      Function.update m.registered (ActiveAgents.keyOf metadata threadId) (some metadata) := by
    funext key
    unfold AgentRegistry.commit
    simp only [hid, update_apply]
  have hone : agentCount metadata = 1 := by
    unfold agentCount AgentMetadata.counted
    cases hagentPath : metadata.agentPath with
    | none => simp [hid]
    | some path =>
      obtain ⟨-, hroot⟩ := h.tree.holds i path (hpath.trans hagentPath)
      simp [hid, hroot]
  refine ⟨?_, ?_, h.bound⟩
  · rw [htree, hregistered, lookup_insert_update]
    show Tree _ _ (m.set i .committed).pathAt
    rw [pathAt_set hslot]
    exact h.tree.enter hid hfresh hkeyed hpaths
  · show m.totalCount = (m.set i .committed).liveReservations +
      (total agentCount (m.commit i metadata).tree + m.releasing)
    simp only [Spawn.live, Bool.toNat_true, Bool.toNat_false, Nat.add_zero] at hcount
    have hbefore := h.count
    rw [htree, total_insert_vacant hvacant, hone]
    unfold committedAgents at hbefore
    omega

theorem total_erase_of {t : Table Text AgentMetadata} (hlook : t.lookup key = some metadata) :
    total agentCount (t.erase key) + agentCount metadata = total agentCount t := by
  have herase := total_erase agentCount key t
  rw [hlook] at herase
  exact herase

theorem Inv.drop (h : m.Inv) (hslot : m.spawns[i]? = some (.reserved r)) : (m.drop i r).Inv := by
  have hcount : (m.set i .dropping).liveReservations = m.liveReservations :=
    Nat.add_right_cancel (live_set hslot .dropping)
  have hpathAt : m.pathAt i = r.reservedAgentPath := pathAt_slot hslot
  cases hpath : r.reservedAgentPath with
  | none =>
    have hdrop : m.drop i r = { m.set i .dropping with activeAgents := m.activeAgents } := by
      unfold AgentRegistry.drop
      rw [hpath]
    rw [hdrop]
    exact h.move hslot .dropping hpath.symm rfl rfl
  | some path =>
    obtain ⟨hlook, -⟩ := h.tree.holds i path (hpathAt.trans hpath)
    have htree : (m.drop i r).tree = m.tree.erase path.text := by
      unfold AgentRegistry.drop AgentRegistry.tree ActiveAgents.releaseReservedAgentPath
      rw [hpath]
      simp only
      rw [show m.activeAgents.agentTree.lookup path.text = _ from hlook]
      rfl
    have hregistered : Function.update m.registered path.text none = m.registered := by
      rw [update_eq_self_iff, h.tree.registered, hlook]
      rfl
    refine ⟨?_, ?_, h.bound⟩
    · rw [htree, lookup_erase_update]
      show Tree _ m.registered (m.set i .dropping).pathAt
      rw [← hregistered, pathAt_set hslot]
      apply h.tree.remove
      intro j path'
      by_cases hj : j = i
      · subst hj
        rw [update_self, hpathAt, hpath]
        simp [Spawn.path]
        rintro rfl
        rfl
      · rw [update_of_ne hj]
        refine ⟨fun hpath' => ⟨hpath', fun htext => hj ?_⟩, And.left⟩
        obtain rfl := AgentPath.eq_of_text htext
        exact h.tree.alone j i path' hpath' (hpathAt.trans hpath)
    · show m.totalCount = (m.set i .dropping).liveReservations +
        (total agentCount (m.drop i r).tree + m.releasing)
      have hsame := total_erase_of hlook
      rw [show agentCount (ActiveAgents.placeholder path) = 0 from rfl, Nat.add_zero] at hsame
      rw [htree, hsame, hcount]
      exact h.count

theorem Inv.giveBack (h : m.Inv) (hslot : m.spawns[i]? = some .dropping) :
    { m.set i .dropped with totalCount := fetchSub m.totalCount }.Inv := by
  have hcount := live_set hslot .dropped
  simp only [Spawn.live, Bool.toNat_true, Bool.toNat_false, Nat.add_zero] at hcount
  have hbefore := h.count
  have hsub : fetchSub m.totalCount = m.totalCount - 1 := if_neg (by omega)
  refine ⟨?_, ?_, ?_⟩
  · show Tree m.tree.lookup m.registered (m.set i .dropped).pathAt
    rw [pathAt_set hslot, show Spawn.dropped.path = m.pathAt i from (pathAt_slot hslot).symm,
      update_eq_self]
    exact h.tree
  · show fetchSub m.totalCount = (m.set i .dropped).liveReservations + m.committedAgents
    omega
  · intro maxThreads hmax
    have hbound := h.bound maxThreads hmax
    show fetchSub m.totalCount ≤ maxThreads
    omega

theorem Inv.registerRoot (h : m.Inv) (horderly : m.tree.lookup rootText = none → m.Fresh threadId) :
    (m.registerRootThread threadId).Inv := by
  cases hlook : m.tree.lookup rootText with
  | some metadata =>
    -- the entry is no placeholder, so the root is registered already
    have hregistered : m.registered rootText ≠ none := by
      rw [h.tree.registered, hlook]
      cases hid : metadata.agentId with
      | some threadId' => simp [Option.filter, hid]
      | none =>
        obtain ⟨i, path, hpath, rfl⟩ := h.tree.placed _ _ hlook hid
        obtain ⟨-, hroot⟩ := h.tree.holds i path hpath
        rcases h.tree.keyed _ _ hlook with ⟨path', hpath', hkey⟩ | ⟨threadId', hpath', -⟩
        · cases hpath'
          simp [AgentPath.isRoot, ← hkey] at hroot
        · cases hpath'
    have hsame : m.registerRootThread threadId = m := by
      unfold AgentRegistry.registerRootThread ActiveAgents.registerRootThread
      rw [show m.activeAgents.agentTree.lookup rootText = _ from hlook]
      simp [hregistered]
    rw [hsame]
    exact h
  | none =>
    let root : AgentMetadata := { agentId := some threadId, agentPath := some AgentPath.root }
    have htree : (m.registerRootThread threadId).tree = m.tree.insert rootText root := by
      unfold AgentRegistry.registerRootThread ActiveAgents.registerRootThread AgentRegistry.tree
      rw [show m.activeAgents.agentTree.lookup rootText = _ from hlook]
    have hregistered : (m.registerRootThread threadId).registered =
        Function.update m.registered rootText (some root) := by
      have hnone : m.registered rootText = none := by
        rw [h.tree.registered, hlook]
        rfl
      funext key
      unfold AgentRegistry.registerRootThread
      simp [hnone, update_apply, root]
    refine ⟨?_, ?_, h.bound⟩
    · rw [htree, hregistered, lookup_insert_update]
      apply h.tree.enter rfl (horderly hlook) (.inl ⟨AgentPath.root, rfl, rfl⟩)
      intro j path
      refine ⟨fun hpath => ⟨hpath, fun htext => ?_⟩, And.left⟩
      obtain ⟨-, hroot⟩ := h.tree.holds j path hpath
      simp [AgentPath.isRoot, htext, AgentPath.root] at hroot
    · show m.totalCount = m.liveReservations +
        (total agentCount (m.registerRootThread threadId).tree + m.releasing)
      rw [htree, total_insert_vacant (by rw [hlook]; rfl),
        show agentCount root = 0 from rfl]
      exact h.count

theorem Inv.release (h : m.Inv) (hlook : m.tree.lookup key = some metadata)
    (hid : metadata.agentId = some threadId) : (m.releaseSpawnedThread key metadata).Inv := by
  refine ⟨?_, ?_, h.bound⟩
  · show Tree (m.tree.erase key).lookup (m.releaseSpawnedThread key metadata).registered m.pathAt
    have hregistered : (m.releaseSpawnedThread key metadata).registered =
        Function.update m.registered key none := by
      funext key'
      simp [releaseSpawnedThread, update_apply]
    rw [hregistered, lookup_erase_update]
    apply h.tree.remove
    intro j path
    refine ⟨fun hpath => ⟨hpath, ?_⟩, And.left⟩
    rintro rfl
    obtain ⟨hplaced, -⟩ := h.tree.holds j path hpath
    obtain rfl := Option.some.inj (hlook.symm.trans hplaced)
    cases hid
  · show m.totalCount = m.liveReservations + (total agentCount (m.tree.erase key) +
      if metadata.counted then m.releasing + 1 else m.releasing)
    have herase := total_erase_of hlook
    have hbefore := h.count
    unfold committedAgents at hbefore
    have hone : agentCount metadata = if metadata.counted then 1 else 0 := by
      simp [agentCount, hid]
    rw [hone] at herase
    cases hcounted : metadata.counted <;> simp [hcounted] at herase ⊢ <;> omega

theorem step_eq_ok {action : RegistryAction} :
    m.step action = .ok m' ↔ m.stepOption action = some m' := by
  unfold step
  cases m.stepOption action <;> simp

theorem Inv.step {action : RegistryAction} (h : m.Inv) (hadmitted : m.Admitted action)
    (horderly : m.Orderly action) (hstep : m.stepOption action = some m') : m'.Inv := by
  unfold stepOption at hstep
  cases action with
  | reserve =>
    cases hstep
    unfold reserveSpawnSlot
    split
    · exact h.append (s := .loading) rfl rfl h.bound
    · next hmax =>
      apply h.append (s := .reserved {}) rfl rfl
      intro maxThreads hsome
      rw [hmax] at hsome
      cases hsome
  | load spawn =>
    simp only at hstep
    split at hstep
    · next hslot =>
      cases hstep
      exact h.move hslot (.trying m.totalCount) rfl rfl rfl
    · cases hstep
  | exchange spawn spurious =>
    simp only at hstep
    split at hstep
    · next hslot hmax =>
      cases hstep
      exact h.exchange hslot hmax
    · cases hstep
  | reservePath spawn path =>
    simp only at hstep
    split at hstep
    · next hslot =>
      cases hstep
      exact h.reservePath hslot horderly
    · cases hstep
  | reserveNickname spawn names preferred choice =>
    simp only at hstep
    split at hstep
    · next r hslot =>
      cases hstep
      have htree : (m.activeAgents.reserveAgentNickname names preferred choice).1.agentTree =
          m.tree := by
        unfold ActiveAgents.reserveAgentNickname
        split
        · rfl
        · split
          · rfl
          · simp only
            split
            · rfl
            · split <;> rfl
      unfold AgentRegistry.reserveAgentNickname
      cases hresult : m.activeAgents.reserveAgentNickname names preferred choice with
      | mk a agentNickname =>
        rw [hresult] at htree
        cases agentNickname with
        | none => exact h.move hslot (.reserved r) rfl rfl htree
        | some agentNickname =>
          exact h.move hslot (.reserved { r with reservedAgentNickname := some agentNickname }) rfl
            rfl htree
    · cases hstep
  | commit spawn metadata =>
    simp only at hstep
    split at hstep
    · next hslot =>
      cases hstep
      obtain ⟨hpath, threadId, hid, hfresh⟩ := hadmitted
      exact h.commit hslot hpath hid hfresh
    · cases hstep
  | drop spawn =>
    simp only at hstep
    split at hstep
    · next hslot =>
      cases hstep
      exact h.drop hslot
    · cases hstep
  | giveBack spawn =>
    simp only at hstep
    split at hstep
    · next hslot =>
      cases hstep
      exact h.giveBack hslot
    · cases hstep
  | registerRoot threadId =>
    cases hstep
    exact h.registerRoot horderly
  | release threadId found =>
    cases found with
    | some key =>
      simp only at hstep
      split at hstep
      · next metadata hlook =>
        simp only [ite_none_right_eq_some, Option.some.injEq] at hstep
        obtain ⟨hid, rfl⟩ := hstep
        exact h.release hlook hid
      · cases hstep
    | none =>
      simp only [ite_none_right_eq_some, Option.some.injEq] at hstep
      obtain ⟨-, rfl⟩ := hstep
      exact h
  | giveBackReleased =>
    simp only [ite_none_right_eq_some, Option.some.injEq] at hstep
    obtain ⟨hreleasing, rfl⟩ := hstep
    have hbefore := h.count
    unfold committedAgents at hbefore
    have hsub : fetchSub m.totalCount = m.totalCount - 1 := if_neg (by omega)
    refine ⟨h.tree, ?_, ?_⟩
    · show fetchSub m.totalCount =
        m.liveReservations + (total agentCount m.tree + (m.releasing - 1))
      omega
    · intro maxThreads hmax
      have hbound := h.bound maxThreads hmax
      show fetchSub m.totalCount ≤ maxThreads
      omega

theorem inv_new (maxThreads : Option ℕ) : (new maxThreads).Inv where
  tree := tree_new
  count := rfl
  bound := fun _ _ => Nat.zero_le _

/-! ## Runs -/

variable {actions : List RegistryAction} {maxThreads : Option ℕ}

/-- In every run of the registry with orderly reservations, its slots and its tree are
accounted for. -/
theorem spawns_accounted (hrun : actions.foldlM step (new maxThreads) = .ok m)
    (hruns : Along step (fun u a => u.Admitted a ∧ u.Orderly a) (new maxThreads) actions) :
    m.Accounted := by
  have hstep : ∀ u a v, u.Inv → u.Admitted a ∧ u.Orderly a → step u a = .ok v → v.Inv :=
    fun u a v hu ha hv => hu.step ha.1 ha.2 (step_eq_ok.mp hv)
  have h : m.Inv := run_keeps_along hstep (inv_new maxThreads) hruns (List.prefix_refl actions) hrun
  exact h.accounted

def pathA : AgentPath := ⟨"/root/a".toList, by decide +kernel⟩

def pathB : AgentPath := ⟨"/root/b".toList, by decide +kernel⟩

def oneSpawn : List RegistryAction :=
  [.reserve, .load 0, .exchange 0 false, .reservePath 0 pathA,
    .commit 0 { agentId := some "1".toList, agentPath := some pathA },
    .release "1".toList (some pathA.text), .giveBackReleased]

theorem spawns_accounted_oneSpawn :
    ∃ m, oneSpawn.foldlM step (new (some 1)) = .ok m ∧ m.totalCount = 0 ∧ m.Accounted := by
  have hruns : Along step (fun u a => u.Admitted a ∧ u.Orderly a) (new (some 1)) oneSpawn := by
    refine ⟨⟨trivial, trivial⟩, fun t ht => ?_⟩
    cases ht
    refine ⟨⟨trivial, trivial⟩, fun t ht => ?_⟩
    cases ht
    refine ⟨⟨trivial, trivial⟩, fun t ht => ?_⟩
    cases ht
    refine ⟨⟨trivial, fun _ => ⟨by decide, rfl⟩⟩, fun t ht => ?_⟩
    cases ht
    refine ⟨⟨⟨rfl, "1".toList, rfl, ?_⟩, trivial⟩, fun t ht => ?_⟩
    · intro key metadata hlook
      have hlook : ((∅ : Table Text AgentMetadata).insert pathA.text
          (ActiveAgents.placeholder pathA)).lookup key = some metadata := hlook
      rw [lookup_insert_ite] at hlook
      split at hlook
      · cases hlook
        simp [ActiveAgents.placeholder]
      · cases hlook
    cases ht
    refine ⟨⟨trivial, trivial⟩, fun t ht => ?_⟩
    cases ht
    exact ⟨⟨trivial, trivial⟩, fun t ht => trivial⟩
  have hrun : ∃ m, oneSpawn.foldlM step (new (some 1)) = .ok m ∧ m.totalCount = 0 := ⟨_, rfl, rfl⟩
  obtain ⟨m, hrun, hcount⟩ := hrun
  exact ⟨m, hrun, hcount, spawns_accounted hrun hruns⟩

def twoPaths : List RegistryAction :=
  [.reserve, .load 0, .exchange 0 false, .reservePath 0 pathA, .reservePath 0 pathB, .drop 0,
    .giveBack 0]

def rootedAgent : List RegistryAction :=
  [.reserve, .load 0, .exchange 0 false, .commit 0 { agentId := some "1".toList },
    .registerRoot "1".toList]

/-- The second path of a reservation makes it forget the first, and the root may be
registered with an agent's thread. -/
theorem first_path_never_released : (∃ m, twoPaths.foldlM step (new (some 1)) = .ok m ∧
      Along step Admitted (new (some 1)) twoPaths ∧ ¬m.Accounted) ∧
    ∃ m, rootedAgent.foldlM step (new (some 1)) = .ok m ∧
      Along step Admitted (new (some 1)) rootedAgent ∧ ¬m.Accounted := by
  constructor
  · have hrun : ∃ m, twoPaths.foldlM step (new (some 1)) = .ok m ∧
        m.tree.lookup pathA.text = some (ActiveAgents.placeholder pathA) ∧
          m.registered pathA.text = none ∧ m.spawns = [.dropped] :=
      ⟨_, rfl, rfl, rfl, rfl⟩
    obtain ⟨m, hrun, hlook, hregistered, hspawns⟩ := hrun
    refine ⟨m, hrun, Along.of_forall (fun a ha u => ?_) _, fun h => ?_⟩
    · cases a <;> trivial
    · rcases (h.table _ _).mp hlook with hkey | ⟨i, path, hpath, -⟩
      · rw [hregistered] at hkey
        cases hkey
      · unfold pathAt at hpath
        rw [hspawns] at hpath
        cases i <;> cases hpath
  · have hrun : ∃ m, rootedAgent.foldlM step (new (some 1)) = .ok m ∧
        m.tree.lookup rootText = some { agentId := some "1".toList, agentPath := some .root } ∧
          m.tree.lookup (threadKey "1".toList) = some { agentId := some "1".toList } :=
      ⟨_, rfl, rfl, rfl⟩
    obtain ⟨m, hrun, hroot, hagent⟩ := hrun
    refine ⟨m, hrun, ?_, fun h => ?_⟩
    · refine ⟨trivial, fun t ht => ?_⟩
      cases ht
      refine ⟨trivial, fun t ht => ?_⟩
      cases ht
      refine ⟨trivial, fun t ht => ?_⟩
      cases ht
      refine ⟨⟨rfl, "1".toList, rfl, nofun⟩, fun t ht => ?_⟩
      exact ⟨trivial, fun t ht => trivial⟩
    · have hkeys := h.ids _ _ _ _ _ hroot hagent rfl rfl
      cases hkeys

end AgentRegistry

end Codex.Agent
