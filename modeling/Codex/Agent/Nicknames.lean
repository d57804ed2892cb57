import Codex.Agent.Registry
import Codex.Foundation.Run

/-!
# Nicknames of agents

A pool of names is handed out in rounds: when it is used up, the used names are forgotten
and the next round writes its ordinal behind each name. A restored agent brings its nickname
along, which may carry the ordinal of a round that is still to come.
-/

namespace Codex.Agent

open Foundation List

/-! ## Ordinals -/

def OrdinalFree (name : Text) : Prop :=
  ∀ base nicknameResetCount, 0 < nicknameResetCount →
    name ≠ formatAgentNickname base nicknameResetCount

theorem formatAgentNickname_pos {nicknameResetCount : ℕ} (name : Text)
    (h : 0 < nicknameResetCount) : formatAgentNickname name nicknameResetCount =
      (name ++ " the".toList ++ ' ' :: decimal (nicknameResetCount + 1)) ++
        ordinalSuffix (nicknameResetCount + 1) := by
  unfold formatAgentNickname
  rw [if_neg (by omega)]
  simp

theorem ordinalSuffix_mem (value : ℕ) :
    ordinalSuffix value ∈ ["th".toList, "st".toList, "nd".toList, "rd".toList] := by
  unfold ordinalSuffix
  split
  · simp
  · split
    · simp
    · split
      · simp
      · split <;> simp

theorem ordinalSuffix_length (value : ℕ) : (ordinalSuffix value).length = 2 := by
  have hlength : ∀ suffix ∈ ["th".toList, "st".toList, "nd".toList, "rd".toList],
      suffix.length = 2 := by decide
  exact hlength _ (ordinalSuffix_mem value)

theorem formatAgentNickname_inj_pos {name name' : Text} {count count' : ℕ} (hpos : 0 < count)
    (hpos' : 0 < count') (h : formatAgentNickname name count = formatAgentNickname name' count') :
    name = name' ∧ count = count' := by
  rw [formatAgentNickname_pos name hpos, formatAgentNickname_pos name' hpos'] at h
  have hnumbers := append_inj_left' h (by simp only [ordinalSuffix_length])
  obtain ⟨hnames, -, hvalues⟩ := digits_inj (fun c hc => isDigit_of_decimal hc)
    (fun c hc => isDigit_of_decimal hc) (by decide) (by decide) hnumbers
  have hcounts := decimal_injective hvalues
  exact ⟨append_cancel_right hnames, by omega⟩

theorem formatAgentNickname_inj {name name' : Text} {count count' : ℕ} (hfree : OrdinalFree name)
    (hfree' : OrdinalFree name')
    (h : formatAgentNickname name count = formatAgentNickname name' count') :
    name = name' ∧ count = count' := by
  rcases Nat.eq_zero_or_pos count with rfl | hpos
  · rcases Nat.eq_zero_or_pos count' with rfl | hpos'
    · exact ⟨h, rfl⟩
    · exact absurd h (hfree name' count' hpos')
  · rcases Nat.eq_zero_or_pos count' with rfl | hpos'
    · exact absurd h.symm (hfree' name count hpos)
    · exact formatAgentNickname_inj_pos hpos hpos' h

theorem ordinalFree_of_getLast? {name : Text}
    (h : name.getLast? ∉ [some 'h', some 't', some 'd']) : OrdinalFree name := by
  intro base count hpos hname
  have hlast : name.getLast? = (ordinalSuffix (count + 1)).getLast? := by
    rw [hname, formatAgentNickname_pos base hpos]
    apply List.getLast?_append_of_ne_nil
    apply ne_nil_of_length_pos
    simp [ordinalSuffix_length]
  have hsuffixes : ∀ suffix ∈ ["th".toList, "st".toList, "nd".toList, "rd".toList],
      suffix.getLast? ∈ [some 'h', some 't', some 'd'] := by decide
  rw [hlast] at h
  exact h (hsuffixes _ (ordinalSuffix_mem _))

/-- `found` is where the search by thread has found the agent. -/
inductive RegistryOperation where
  | act (action : RegistryAction)
  | updateLastTaskMessage (threadId : ThreadId) (found : Option Text) (lastTaskMessage : Text)

def RegistryOperation.nickname : RegistryOperation → Option Text
  | .act (.commit _ metadata) => metadata.agentNickname
  | _ => none

namespace AgentRegistry

def updateLastTaskMessage (m : AgentRegistry) (key : Text) (metadata : AgentMetadata)
    (lastTaskMessage : Text) : AgentRegistry :=
  let metadata := { metadata with lastTaskMessage := some lastTaskMessage }
  { m with
    activeAgents :=
      { m.activeAgents with agentTree := m.activeAgents.agentTree.insert key metadata }
    registered := fun key' => if key' = key then some metadata else m.registered key' }

def operate (m : AgentRegistry) : RegistryOperation → Except Unit AgentRegistry
  | .act action => m.step action
  | .updateLastTaskMessage threadId (some key) lastTaskMessage =>
    match m.activeAgents.agentTree.lookup key with
    | some metadata =>
      if metadata.agentId = some threadId then
        .ok (m.updateLastTaskMessage key metadata lastTaskMessage)
      else .error ()
    | none => .error ()
  | .updateLastTaskMessage threadId none _ =>
    if m.activeAgents.agentTree.entries.all fun entry => entry.2.agentId ≠ some threadId then
      .ok m
    else .error ()

end AgentRegistry

/-! ## What an operation does to the nicknames -/

variable {metadata : AgentMetadata}

namespace ActiveAgents

variable {a a' : ActiveAgents}

def HasNickname (a : ActiveAgents) (agentNickname : Text) : Prop :=
  ∃ key metadata, a.agentTree.lookup key = some metadata ∧ metadata.agentId.isSome = true ∧
    metadata.agentNickname = some agentNickname

def Exhausted (a : ActiveAgents) (names : List Text) : Prop :=
  names ≠ [] ∧ ∀ name ∈ names, formatAgentNickname name a.nicknameResetCount ∈ a.usedAgentNicknames

variable {key : Text} {names : List Text}

theorem HasNickname.of_insert {agentNickname : Text}
    (htree : a'.agentTree = a.agentTree.insert key metadata) (h : a'.HasNickname agentNickname) :
    a.HasNickname agentNickname ∨
      metadata.agentId.isSome = true ∧ metadata.agentNickname = some agentNickname := by
  obtain ⟨key', metadata', hlook, hid, hnickname⟩ := h
  rw [htree, lookup_insert_ite] at hlook
  split at hlook
  · cases hlook
    exact .inr ⟨hid, hnickname⟩
  · exact .inl ⟨key', metadata', hlook, hid, hnickname⟩

theorem HasNickname.of_erase {agentNickname : Text} (htree : a'.agentTree = a.agentTree.erase key)
    (h : a'.HasNickname agentNickname) : a.HasNickname agentNickname := by
  obtain ⟨key', metadata', hlook, hid, hnickname⟩ := h
  rw [htree, lookup_erase_ite] at hlook
  split at hlook
  · cases hlook
  · exact ⟨key', metadata', hlook, hid, hnickname⟩

theorem choose_mem {choice : ℕ} {name : Text} (h : choose choice names = some name) :
    name ∈ names := mem_of_getElem? h

theorem choose_eq_none {choice : ℕ} (h : choose choice names = none) : names = [] := by
  unfold choose at h
  rw [List.getElem?_eq_none_iff] at h
  cases names with
  | nil => rfl
  | cons name names =>
    have hlt : choice % (names.length + 1) < names.length + 1 := Nat.mod_lt _ (by omega)
    simp only [length_cons] at h
    omega

theorem reserveAgentNickname_cases (a : ActiveAgents) (choice : ℕ) (hnames : names ≠ []) :
    (∃ name ∈ names, formatAgentNickname name a.nicknameResetCount ∉ a.usedAgentNicknames ∧
        a.reserveAgentNickname names none choice =
          ({ a with
              usedAgentNicknames :=
                insert (formatAgentNickname name a.nicknameResetCount) a.usedAgentNicknames },
            some (formatAgentNickname name a.nicknameResetCount))) ∨
      a.Exhausted names ∧ ∃ name ∈ names,
        a.reserveAgentNickname names none choice =
          ({ a with
              usedAgentNicknames := {formatAgentNickname name (a.nicknameResetCount + 1)}
              nicknameResetCount := a.nicknameResetCount + 1 },
            some (formatAgentNickname name (a.nicknameResetCount + 1))) := by
  unfold reserveAgentNickname
  dsimp only
  rw [if_neg hnames]
  split
  · next name hname =>
    obtain ⟨hmem, hunused⟩ := mem_filter.mp (choose_mem hname)
    obtain ⟨base, hbase, rfl⟩ := mem_map.mp hmem
    exact .inl ⟨base, hbase, by simpa using hunused, rfl⟩
  · next hnone =>
    have hempty := choose_eq_none hnone
    refine .inr ⟨⟨hnames, ?_⟩, ?_⟩
    · intro name hname
      have hused := filter_eq_nil_iff.mp hempty _ (mem_map_of_mem hname)
      simpa using hused
    · split
      · next name hname => exact ⟨name, choose_mem hname, rfl⟩
      · next hchoose => exact absurd (choose_eq_none hchoose) hnames

/-- A step within a round: what is used stays used, and at most one nickname is new, which
is used as well. -/
structure Keeps (new : Option Text) (a a' : ActiveAgents) : Prop where
  count : a'.nicknameResetCount = a.nicknameResetCount
  used : a.usedAgentNicknames ⊆ a'.usedAgentNicknames
  nickname : ∀ agentNickname, a'.HasNickname agentNickname →
    a.HasNickname agentNickname ∨ new = some agentNickname ∧ agentNickname ∈ a'.usedAgentNicknames

theorem Keeps.refl (new : Option Text) (a : ActiveAgents) : Keeps new a a :=
  ⟨rfl, Finset.Subset.refl _, fun _ h => .inl h⟩

theorem keeps_insert_unnamed (hnone : metadata.agentNickname = none) :
    Keeps none a { a with agentTree := a.agentTree.insert key metadata } := by
  refine ⟨rfl, Finset.Subset.refl _, fun agentNickname h => ?_⟩
  rcases h.of_insert rfl with hold | ⟨-, hnickname⟩
  · exact .inl hold
  · rw [hnone] at hnickname
    cases hnickname

theorem keeps_erase (a : ActiveAgents) (key : Text) :
    Keeps none a { a with agentTree := a.agentTree.erase key } :=
  ⟨rfl, Finset.Subset.refl _, fun _ h => .inl (h.of_erase rfl)⟩

theorem keeps_registerRootThread (a : ActiveAgents) (threadId : ThreadId) :
    Keeps none a (a.registerRootThread threadId) := by
  unfold registerRootThread
  split
  · exact Keeps.refl _ a
  · exact keeps_insert_unnamed rfl

theorem keeps_reserveAgentPath {path : AgentPath} (h : a.reserveAgentPath path = .ok a') :
    Keeps none a a' := by
  unfold reserveAgentPath at h
  split at h
  · cases h
  · cases h
    exact keeps_insert_unnamed rfl

theorem keeps_releaseReservedAgentPath (a : ActiveAgents) (path : AgentPath) :
    Keeps none a (a.releaseReservedAgentPath path) := by
  unfold releaseReservedAgentPath
  split
  · split
    · exact keeps_erase a path.text
    · exact Keeps.refl _ a
  · exact Keeps.refl _ a

theorem keeps_registerSpawnedThread (a : ActiveAgents) (metadata : AgentMetadata) :
    Keeps metadata.agentNickname a (a.registerSpawnedThread metadata) := by
  unfold registerSpawnedThread
  split
  · exact Keeps.refl _ a
  · refine ⟨rfl, ?_, fun agentNickname h => ?_⟩
    · split
      · apply Finset.subset_insert
      · exact Finset.Subset.refl _
    · rcases h.of_insert rfl with hold | ⟨-, hnickname⟩
      · exact .inl hold
      · simp [hnickname]

theorem reserveAgentNickname_keeps (a : ActiveAgents) (names : List Text) (preferred : Option Text)
    (choice : ℕ) : Keeps none a (a.reserveAgentNickname names preferred choice).1 ∨
      preferred = none ∧ a.Exhausted names ∧
        (a.reserveAgentNickname names preferred choice).1.nicknameResetCount =
            a.nicknameResetCount + 1 ∧
          (a.reserveAgentNickname names preferred choice).1.agentTree = a.agentTree := by
  cases preferred with
  | some preferred =>
    exact .inl ⟨rfl, Finset.subset_insert _ _, fun _ h => .inl h⟩
  | none =>
    cases names with
    | nil => exact .inl (Keeps.refl _ a)
    | cons name names =>
      rcases a.reserveAgentNickname_cases choice (cons_ne_nil name names) with
        ⟨_, _, _, hreserve⟩ | ⟨hexhausted, _, _, hreserve⟩
      · rw [hreserve]
        exact .inl ⟨rfl, Finset.subset_insert _ _, fun _ h => .inl h⟩
      · rw [hreserve]
        exact .inr ⟨rfl, hexhausted, rfl, rfl⟩

end ActiveAgents

variable {operation : RegistryOperation}

namespace AgentRegistry

open ActiveAgents

variable {u v : AgentRegistry}

/-- The operation ends a round: it reserves without a preference, and each name of its list
is used. -/
def EndsRound (u : AgentRegistry) : RegistryOperation → Prop
  | .act (.reserveNickname _ names none _) => u.activeAgents.Exhausted names
  | _ => False

theorem updateLastTaskMessage_keeps {key : Text}
    (hlook : u.activeAgents.agentTree.lookup key = some metadata) (lastTaskMessage : Text) :
    Keeps none u.activeAgents
      (u.updateLastTaskMessage key metadata lastTaskMessage).activeAgents := by
  refine ⟨rfl, Finset.Subset.refl _, fun agentNickname h => ?_⟩
  rcases h.of_insert rfl with hold | ⟨hid, hnickname⟩
  · exact .inl hold
  · exact .inl ⟨key, metadata, hlook, hid, hnickname⟩

section
variable (u : AgentRegistry)

theorem reserveSpawnSlot_activeAgents : u.reserveSpawnSlot.activeAgents = u.activeAgents := by
  unfold reserveSpawnSlot
  split <;> rfl

theorem exchange_activeAgents (spawn current maxThreads : ℕ) (spurious : Bool) :
    (u.exchange spawn current maxThreads spurious).activeAgents = u.activeAgents := by
  unfold exchange
  split
  · rfl
  · split <;> rfl

theorem reserveAgentPath_keeps (spawn : ℕ) (r : SpawnReservation) (path : AgentPath) :
    Keeps none u.activeAgents (u.reserveAgentPath spawn r path).activeAgents := by
  unfold reserveAgentPath
  split
  · next h => exact keeps_reserveAgentPath h
  · exact Keeps.refl none u.activeAgents

theorem drop_keeps (spawn : ℕ) (r : SpawnReservation) :
    Keeps none u.activeAgents (u.drop spawn r).activeAgents := by
  unfold drop
  split
  · exact keeps_releaseReservedAgentPath u.activeAgents _
  · exact Keeps.refl none u.activeAgents

end

theorem step_cases {action : RegistryAction} (h : u.step action = .ok v) :
    Keeps (RegistryOperation.act action).nickname u.activeAgents v.activeAgents ∨
      u.EndsRound (.act action) ∧
        v.activeAgents.nicknameResetCount = u.activeAgents.nicknameResetCount + 1 ∧
          v.activeAgents.agentTree = u.activeAgents.agentTree := by
  unfold step at h
  split at h
  · next m' hm =>
    cases h
    cases action with
    | reserve =>
      cases hm
      rw [reserveSpawnSlot_activeAgents]
      exact .inl (Keeps.refl _ _)
    | load spawn =>
      simp only [stepOption] at hm
      split at hm
      · cases hm
        exact .inl (Keeps.refl _ _)
      · cases hm
    | exchange spawn spurious =>
      simp only [stepOption] at hm
      split at hm
      · cases hm
        rw [exchange_activeAgents]
        exact .inl (Keeps.refl _ _)
      · cases hm
    | reservePath spawn path =>
      simp only [stepOption] at hm
      split at hm
      · next r _ =>
        cases hm
        exact .inl (u.reserveAgentPath_keeps spawn r path)
      · cases hm
    | reserveNickname spawn names preferred choice =>
      simp only [stepOption] at hm
      split at hm
      · cases hm
        rcases u.activeAgents.reserveAgentNickname_keeps names preferred choice with
          hkeeps | ⟨rfl, hexhausted, hcount, htree⟩
        · exact .inl hkeeps
        · exact .inr ⟨hexhausted, hcount, htree⟩
      · cases hm
    | commit spawn metadata =>
      simp only [stepOption] at hm
      split at hm
      · cases hm
        exact .inl (keeps_registerSpawnedThread u.activeAgents metadata)
      · cases hm
    | drop spawn =>
      simp only [stepOption] at hm
      split at hm
      · next r _ =>
        cases hm
        exact .inl (u.drop_keeps spawn r)
      · cases hm
    | giveBack spawn =>
      simp only [stepOption] at hm
      split at hm
      · cases hm
        exact .inl (Keeps.refl _ _)
      · cases hm
    | registerRoot threadId =>
      cases hm
      exact .inl (keeps_registerRootThread u.activeAgents threadId)
    | release threadId found =>
      cases found with
      | none =>
        simp only [stepOption] at hm
        split at hm
        · cases hm
          exact .inl (Keeps.refl _ _)
        · cases hm
      | some key =>
        simp only [stepOption] at hm
        split at hm
        · split at hm
          · cases hm
            exact .inl (keeps_erase u.activeAgents key)
          · cases hm
        · cases hm
    | giveBackReleased =>
      simp only [stepOption] at hm
      split at hm
      · cases hm
        exact .inl (Keeps.refl _ _)
      · cases hm
  · cases h

theorem operate_cases (h : u.operate operation = .ok v) :
    Keeps operation.nickname u.activeAgents v.activeAgents ∨
      u.EndsRound operation ∧
        v.activeAgents.nicknameResetCount = u.activeAgents.nicknameResetCount + 1 ∧
          v.activeAgents.agentTree = u.activeAgents.agentTree := by
  cases operation with
  | act action => exact step_cases h
  | updateLastTaskMessage threadId found lastTaskMessage =>
    cases found with
    | none =>
      simp only [operate] at h
      split at h
      · cases h
        exact .inl (Keeps.refl _ _)
      · cases h
    | some key =>
      simp only [operate] at h
      split at h
      · next metadata hlook =>
        split at h
        · cases h
          exact .inl (updateLastTaskMessage_keeps hlook lastTaskMessage)
        · cases h
      · cases h

end AgentRegistry

/-! ## Rounds -/

namespace ActiveAgents

variable {a a' : ActiveAgents}

/-- What carries the ordinal of the round and is registered has been used in the round. -/
def InRound (a : ActiveAgents) : Prop :=
  ∀ name, OrdinalFree name →
    a.HasNickname (formatAgentNickname name a.nicknameResetCount) →
      formatAgentNickname name a.nicknameResetCount ∈ a.usedAgentNicknames

/-- No agent that is registered carries the ordinal of the next round. -/
def NoneAhead (a : ActiveAgents) : Prop :=
  ∀ name, OrdinalFree name → ¬a.HasNickname (formatAgentNickname name (a.nicknameResetCount + 1))

/-- The nickname carries the ordinal of no round that is still to come. -/
def Arrived (a : ActiveAgents) (agentNickname : Text) : Prop :=
  ∀ name count, OrdinalFree name → agentNickname = formatAgentNickname name count →
    count ≤ a.nicknameResetCount

variable {agentNickname : Text} {names : List Text}

theorem HasNickname.of_tree (htree : a'.agentTree = a.agentTree)
    (h : a'.HasNickname agentNickname) : a.HasNickname agentNickname := by
  unfold HasNickname at h ⊢
  rwa [htree] at h

theorem Keeps.inRound {new : Option Text} (h : Keeps new a a') (hin : a.InRound) : a'.InRound := by
  intro name hfree hnickname
  rw [h.count] at hnickname ⊢
  rcases h.nickname _ hnickname with hold | ⟨-, hused⟩
  · exact h.used (hin name hfree hold)
  · exact hused

theorem inRound_of_reset (hcount : a'.nicknameResetCount = a.nicknameResetCount + 1)
    (htree : a'.agentTree = a.agentTree) (hahead : a.NoneAhead) : a'.InRound := by
  intro name hfree hnickname
  rw [hcount] at hnickname
  exact absurd (hnickname.of_tree htree) (hahead name hfree)

theorem Arrived.noneAhead (h : ∀ agentNickname, a.HasNickname agentNickname →
    a.Arrived agentNickname) : a.NoneAhead := by
  intro name hfree hnickname
  have hle := h _ hnickname name _ hfree rfl
  omega

theorem reserveAgentNickname_distinct {choice : ℕ} (hin : a.InRound)
    (hclear : a.Exhausted names → a.NoneAhead) (hnames : ∀ name ∈ names, OrdinalFree name)
    (h : (a.reserveAgentNickname names none choice).2 = some agentNickname) :
    ¬a.HasNickname agentNickname := by
  intro hnickname
  cases names with
  | nil =>
    cases h
  | cons first rest =>
    rcases a.reserveAgentNickname_cases choice (cons_ne_nil first rest) with
      ⟨name, hname, hunused, hreserve⟩ | ⟨hexhausted, name, hname, hreserve⟩
    · rw [hreserve] at h
      cases h
      exact hunused (hin name (hnames name hname) hnickname)
    · rw [hreserve] at h
      cases h
      exact hclear hexhausted name (hnames name hname) hnickname

end ActiveAgents

namespace AgentRegistry

open ActiveAgents

variable {u v : AgentRegistry}

def RoundClear (u : AgentRegistry) (operation : RegistryOperation) : Prop :=
  u.EndsRound operation → u.activeAgents.NoneAhead

theorem operate_inRound (hin : u.activeAgents.InRound) (hclear : u.RoundClear operation)
    (h : u.operate operation = .ok v) : v.activeAgents.InRound := by
  rcases operate_cases h with hkeeps | ⟨hends, hcount, htree⟩
  · exact hkeeps.inRound hin
  · exact inRound_of_reset hcount htree (hclear hends)

theorem inRound_new (maxThreads : Option ℕ) : (new maxThreads).activeAgents.InRound := by
  intro name _ hnickname
  obtain ⟨key, metadata, hlook, -⟩ := hnickname
  cases hlook

theorem operate_arrived (hold : ∀ agentNickname, u.activeAgents.HasNickname agentNickname →
      u.activeAgents.Arrived agentNickname)
    (hnew : ∀ agentNickname ∈ operation.nickname, u.activeAgents.Arrived agentNickname)
    (h : u.operate operation = .ok v) (agentNickname : Text)
    (hnickname : v.activeAgents.HasNickname agentNickname) :
    v.activeAgents.Arrived agentNickname := by
  intro name count hfree hname
  rcases operate_cases h with hkeeps | ⟨-, hcount, htree⟩
  · rw [hkeeps.count]
    rcases hkeeps.nickname _ hnickname with hregistered | ⟨hcommit, -⟩
    · exact hold _ hregistered name count hfree hname
    · exact hnew _ hcommit name count hfree hname
  · have hle := hold _ (hnickname.of_tree htree) name count hfree hname
    omega

theorem roundClear_of_arrived {maxThreads : Option ℕ} {operations : List RegistryOperation}
    (h : Along operate (fun u operation => ∀ agentNickname ∈ operation.nickname,
      u.activeAgents.Arrived agentNickname) (new maxThreads) operations) :
    Along operate RoundClear (new maxThreads) operations := by
  refine h.imp (I := fun m => ∀ agentNickname, m.activeAgents.HasNickname agentNickname →
      m.activeAgents.Arrived agentNickname) ?_ ?_ ?_
  · intro u operation v hold hnew hstep
    exact operate_arrived hold hnew hstep
  · intro u operation hold _ _
    exact Arrived.noneAhead hold
  · intro agentNickname hnickname
    obtain ⟨key, metadata, hlook, -⟩ := hnickname
    cases hlook

theorem nickname_handed_out_unregistered {maxThreads : Option ℕ}
    {operations pre : List RegistryOperation} {u : AgentRegistry} {spawn choice : ℕ}
    {names : List Text} {agentNickname : Text}
    (hclear : Along operate RoundClear (new maxThreads) operations)
    (hpre : pre ++ [.act (.reserveNickname spawn names none choice)] <+: operations)
    (hu : pre.foldlM operate (new maxThreads) = .ok u) (hnames : ∀ name ∈ names, OrdinalFree name)
    (h : (u.activeAgents.reserveAgentNickname names none choice).2 = some agentNickname) :
    ¬u.activeAgents.HasNickname agentNickname := by
  have hin : u.activeAgents.InRound :=
    run_keeps_along (I := fun m => m.activeAgents.InRound)
      (fun _ _ _ hin hc hstep => operate_inRound hin hc hstep) (inRound_new maxThreads) hclear
      ((prefix_append pre _).trans hpre) hu
  exact reserveAgentNickname_distinct hin (hclear.at hpre hu) hnames h

def twoRounds : List RegistryOperation :=
  [.act .reserve, .act (.reserveNickname 0 ["Plato".toList] none 0),
    .act (.commit 0 { agentId := some "1".toList, agentNickname := some "Plato".toList }),
    .act .reserve, .act (.reserveNickname 1 ["Plato".toList] none 0)]

theorem ordinalFree_plato : OrdinalFree "Plato".toList :=
  ordinalFree_of_getLast? (by decide)

theorem nickname_handed_out_unregistered_twoRounds :
    ∃ u, (twoRounds.take 4).foldlM operate (new none) = .ok u ∧
      (u.activeAgents.reserveAgentNickname ["Plato".toList] none 0).2 =
        some "Plato the 2nd".toList ∧
      ¬u.activeAgents.HasNickname "Plato the 2nd".toList := by
  have hclear : Along operate RoundClear (new none) twoRounds := by
    apply roundClear_of_arrived
    refine Along.of_forall (fun operation hoperation u agentNickname hnickname => ?_) _
    obtain rfl : "Plato".toList = agentNickname := by
      simp only [twoRounds, mem_cons, not_mem_nil, or_false] at hoperation
      rcases hoperation with rfl | rfl | rfl | rfl | rfl <;> cases hnickname
      rfl
    intro name count hfree hname
    obtain ⟨-, rfl⟩ := @formatAgentNickname_inj _ name 0 count ordinalFree_plato hfree hname
    exact Nat.zero_le _
  have hrun : ∃ u, (twoRounds.take 4).foldlM operate (new none) = .ok u ∧
      (u.activeAgents.reserveAgentNickname ["Plato".toList] none 0).2 =
        some "Plato the 2nd".toList := ⟨_, rfl, by decide +kernel⟩
  obtain ⟨u, hu, hhanded⟩ := hrun
  have hpre : twoRounds.take 4 ++ [.act (.reserveNickname 1 ["Plato".toList] none 0)] <+:
      twoRounds := prefix_refl twoRounds
  refine ⟨u, hu, hhanded, ?_⟩
  apply nickname_handed_out_unregistered hclear hpre hu _ hhanded
  simpa using ordinalFree_plato

/-- An agent is restored as the second of its name, and so is the next of that name called
in the second round. -/
def restoredAhead : List RegistryOperation :=
  [.act .reserve, .act (.reserveNickname 0 ["Plato".toList] (some "Plato the 2nd".toList) 0),
    .act (.commit 0 { agentId := some "1".toList, agentNickname := some "Plato the 2nd".toList }),
    .act .reserve, .act (.reserveNickname 1 ["Plato".toList] none 0),
    .act (.commit 1 { agentId := some "2".toList, agentNickname := some "Plato".toList }),
    .act .reserve]

theorem restored_nickname_handed_out : OrdinalFree "Plato".toList ∧
      ∃ u, restoredAhead.foldlM operate (new none) = .ok u ∧
        (u.activeAgents.reserveAgentNickname ["Plato".toList] none 0).2 =
          some "Plato the 2nd".toList ∧
        u.activeAgents.HasNickname "Plato the 2nd".toList := by
  refine ⟨ordinalFree_plato, ?_⟩
  exact ⟨_, rfl, by decide +kernel, threadKey "1".toList, _, rfl, rfl, rfl⟩

end AgentRegistry

end Codex.Agent
