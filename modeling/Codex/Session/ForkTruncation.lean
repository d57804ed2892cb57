import Codex.Session.Survivors

/-!
# Rollouts cut at turns

A fork keeps the last turns of a rollout, another cut keeps what stands before a user
message. Both count turns by their place in the rollout, with the rollback markers applied,
and so count those that its replay shows. A rollout cut at one of them replays as the end of
the history from there on.
-/

namespace Codex

open Foundation List

/-- The readers of embedded formats, and whether a text that reads as an inter-agent
message asks for a turn. -/
structure ForkFormats extends EmbeddedFormats where
  triggerTurn : Text → Bool

def usizeMax : ℕ := 2 ^ 64 - 1

section
variable (formats : EmbeddedFormats)

def isRealUserMessageBoundary (item : ResponseItem) : Bool :=
  match parseTurnItem formats item with
  | some (.userMessage _) => true
  | _ => false

def userPositionStep (positions : List ℕ) (entry : RolloutItem × ℕ) : List ℕ :=
  match entry.1 with
  | .responseItem item =>
    if isRealUserMessageBoundary formats item then positions ++ [entry.2] else positions
  | .eventMsg (.threadRolledBack numTurns) => positions.take (positions.length - numTurns)
  | _ => positions

def userMessagePositionsInRollout (items : List RolloutItem) : List ℕ :=
  items.zipIdx.foldl (userPositionStep formats) []

def truncateRolloutBeforeNthUserMessageFromStart (items : List RolloutItem) (nFromStart : ℕ) :
    List RolloutItem :=
  if nFromStart = usizeMax then items
  else
    match (userMessagePositionsInRollout formats items)[nFromStart]? with
    | some cutIdx => items.take cutIdx
    | none => items

end

section
variable (formats : ForkFormats)

def isTriggerTurnContent : List ContentItem → Bool
  | [.inputText text] => formats.isInterAgentCommunication text && formats.triggerTurn text
  | [.outputText text] => formats.isInterAgentCommunication text && formats.triggerTurn text
  | _ => false

def isTriggerTurnBoundary : ResponseItem → Bool
  | .message _ role content _ => role == ASSISTANT && isTriggerTurnContent formats content
  | _ => false

def isForkTurnBoundary (item : ResponseItem) : Bool :=
  isRealUserMessageBoundary formats.toEmbeddedFormats item || isTriggerTurnBoundary formats item

structure ForkPositions where
  rollbackTurnPositions : List ℕ
  forkTurnPositions : List ℕ

def rollbackStart (positions : List ℕ) (numTurns : ℕ) : Option ℕ :=
  if numTurns ≤ positions.length then positions[positions.length - numTurns]?
  else positions.head?

def forkPositionStep (s : ForkPositions) (entry : RolloutItem × ℕ) : ForkPositions :=
  match entry.1 with
  | .responseItem item =>
    { rollbackTurnPositions :=
        if isUserTurnBoundary formats.toEmbeddedFormats item then
          s.rollbackTurnPositions ++ [entry.2]
        else s.rollbackTurnPositions
      forkTurnPositions :=
        if isForkTurnBoundary formats item then s.forkTurnPositions ++ [entry.2]
        else s.forkTurnPositions }
  | .eventMsg (.threadRolledBack numTurns) =>
    if numTurns = 0 then s
    else
      match rollbackStart s.rollbackTurnPositions numTurns with
      | none => s
      | some start =>
        { rollbackTurnPositions :=
            s.rollbackTurnPositions.take (s.rollbackTurnPositions.length - numTurns)
          forkTurnPositions := s.forkTurnPositions.filter (· < start) }
  | _ => s

def forkTurnPositionsInRollout (items : List RolloutItem) : List ℕ :=
  (items.zipIdx.foldl (forkPositionStep formats) ⟨[], []⟩).forkTurnPositions

def truncateRolloutToLastNForkTurns (items : List RolloutItem) (nFromEnd : ℕ) :
    List RolloutItem :=
  if nFromEnd = 0 then []
  else
    let positions := forkTurnPositionsInRollout formats items
    if positions.length ≤ nFromEnd then items
    else items.drop (positions[positions.length - nFromEnd]?.getD 0)

end

theorem userMessage_turn {formats : EmbeddedFormats} {item : ResponseItem}
    {content : List UserInput} (h : parseTurnItem formats item = some (.userMessage content)) :
    isUserTurnBoundary formats item = true := by
  cases item with
  | message id role message phase =>
    simp only [parseTurnItem, parseUserMessage] at h
    by_cases hrole : role = USER
    · rw [if_pos hrole] at h
      by_cases hcontent : isContextualUserMessageContent formats message = true
      · rw [if_pos hcontent, Option.map_none] at h
        split at h <;> cases h
      · simp only [isUserTurnBoundary, hrole, hcontent, beq_self_eq_true, Bool.not_false,
          Bool.and_self, Bool.true_or]
    · rw [if_neg hrole] at h
      split at h <;> cases h
  | _ => cases h

theorem realUserMessage_turn (formats : EmbeddedFormats) :
    TurnKind formats (isRealUserMessageBoundary formats) := by
  intro item h
  unfold isRealUserMessageBoundary at h
  split at h
  · rename_i hparse
    exact userMessage_turn hparse
  · cases h

variable {formats : ForkFormats}

theorem triggerTurn_turn : TurnKind formats.toEmbeddedFormats (isTriggerTurnBoundary formats) := by
  intro item h
  cases item with
  | message id role content phase =>
    simp only [isTriggerTurnBoundary, Bool.and_eq_true] at h
    have hcontent : isInterAgentInstructionContent formats.toEmbeddedFormats content = true := by
      obtain ⟨-, h⟩ := h
      unfold isTriggerTurnContent at h
      split at h
      · exact (Bool.and_eq_true_iff.mp h).1
      · exact (Bool.and_eq_true_iff.mp h).1
      · cases h
    simp only [isUserTurnBoundary, h.1, hcontent, Bool.and_self, Bool.or_true]
  | _ => cases h

theorem forkTurn_turn : TurnKind formats.toEmbeddedFormats (isForkTurnBoundary formats) := by
  intro item h
  rcases Bool.or_eq_true_iff.mp h with h | h
  · exact realUserMessage_turn _ item h
  · exact triggerTurn_turn item h

section
variable (formats)

def fromForkTurn (n : ℕ) : List ResponseItem → List ResponseItem
  | [] => []
  | item :: newer =>
    if isForkTurnBoundary formats item = true ∧
        (newer.filter (isForkTurnBoundary formats)).length + 1 = n then item :: newer
    else fromForkTurn n newer

def lastForkTurns (n : ℕ) (history : List ResponseItem) : List ResponseItem :=
  if 0 < n ∧ (history.filter (isForkTurnBoundary formats)).length ≤ n then history
  else fromForkTurn formats n history

theorem fromForkTurn_zero (history : List ResponseItem) : fromForkTurn formats 0 history = [] := by
  induction history with
  | nil => rfl
  | cons item newer ih =>
    rw [fromForkTurn, if_neg fun h => Nat.succ_ne_zero _ h.2, ih]

end

theorem fromForkTurn_append {older newer : List ResponseItem} {turn : ResponseItem}
    (hturn : isForkTurnBoundary formats turn = true) :
    fromForkTurn formats ((turn :: newer).filter (isForkTurnBoundary formats)).length
      (older ++ turn :: newer) = turn :: newer := by
  rw [filter_cons_of_pos hturn, length_cons]
  induction older with
  | nil => rw [nil_append, fromForkTurn, if_pos ⟨hturn, rfl⟩]
  | cons item older ih =>
    -- more fork turns are behind an older item
    have hmore : ((older ++ turn :: newer).filter (isForkTurnBoundary formats)).length + 1 ≠
        (newer.filter (isForkTurnBoundary formats)).length + 1 := by
      rw [filter_append, filter_cons_of_pos hturn, length_append, length_cons]
      omega
    rw [cons_append, fromForkTurn, if_neg fun h => hmore h.2, ih]

/-! ## Positions -/

section
variable (ctx : ReplayContext) (triggerTurn : Text → Bool)

structure CountsSurvivors (s : ForkPositions) (h : List (ℕ × ResponseItem)) : Prop where
  rollbackTurns : s.rollbackTurnPositions = turnTags (isUserTurnBoundary ctx.formats) h
  forkTurns : s.forkTurnPositions = turnTags (isForkTurnBoundary ⟨ctx.formats, triggerTurn⟩) h

variable {ctx triggerTurn} {s : ForkPositions} {h : List (ℕ × ResponseItem)} {n : ℕ}

theorem rollbackStart_eq {earlier later : List ℕ} {start numTurns : ℕ}
    (hcount : (start :: later).length = min numTurns (earlier ++ start :: later).length) :
    rollbackStart (earlier ++ start :: later) numTurns = some start ∧
      (earlier ++ start :: later).take ((earlier ++ start :: later).length - numTurns) =
        earlier := by
  rw [length_append] at hcount ⊢
  unfold rollbackStart
  rw [length_append]
  by_cases hall : numTurns ≤ earlier.length + (start :: later).length
  · have hidx : earlier.length + (start :: later).length - numTurns = earlier.length := by omega
    rw [if_pos hall, hidx]
    exact ⟨by simp, take_left⟩
  · have hnil : earlier = [] := eq_nil_of_length_eq_zero (by omega)
    have hidx : earlier.length + (start :: later).length - numTurns = 0 := by omega
    rw [if_neg hall, hidx, hnil]
    exact ⟨rfl, rfl⟩

theorem forkPositionStep_counts (ht : TaggedUpTo n h) (hs : CountsSurvivors ctx triggerTurn s h)
    (item : RolloutItem) : CountsSurvivors ctx triggerTurn
      (forkPositionStep ⟨ctx.formats, triggerTurn⟩ s (item, n)) (survivorStep ctx h (item, n)) := by
  have hsame : ∀ s', s' = s → ∀ h', h' = h → CountsSurvivors ctx triggerTurn s' h' := by
    rintro s' rfl h' rfl
    exact hs
  cases item with
  | responseItem item =>
    constructor
    · rw [turnTags_record (TurnKind.boundary _), ← hs.rollbackTurns]
      rfl
    · rw [turnTags_record forkTurn_turn, ← hs.forkTurns]
      rfl
  | eventMsg event =>
    cases event with
    | threadRolledBack numTurns =>
      rcases Nat.eq_zero_or_pos numTurns with rfl | hpos
      · refine hsame _ rfl _ ?_
        simp only [survivorStep, dropTurns_zero, length_map, take_length]
      · obtain ⟨hnone, hstep⟩ | ⟨earlier, start, later, hsplit, hcount, hturns, hstep⟩ :=
          turnTags_rollback ctx ht hpos
        · refine hsame _ ?_ _ hstep
          rw [← hs.rollbackTurns] at hnone
          simp only [forkPositionStep, hnone, rollbackStart, length_nil,
            if_neg (Nat.ne_of_gt hpos), if_neg (Nat.not_le.mpr hpos), List.head?_nil]
        · rw [hsplit] at hcount
          obtain ⟨hstart, htake⟩ := rollbackStart_eq hcount
          rw [← hsplit, ← hs.rollbackTurns] at hstart htake
          constructor
          · rw [hturns, ← htake]
            simp only [forkPositionStep, if_neg (Nat.ne_of_gt hpos), hstart]
          · rw [hstep _ forkTurn_turn, ← hs.forkTurns]
            simp only [forkPositionStep, if_neg (Nat.ne_of_gt hpos), hstart]
    | _ => exact hs
  | _ => exact hs

theorem forkTurnPositionsInRollout_eq (items : List RolloutItem) :
    forkTurnPositionsInRollout ⟨ctx.formats, triggerTurn⟩ items =
      turnTags (isForkTurnBoundary ⟨ctx.formats, triggerTurn⟩) (survivors ctx items) := by
  have hcounts : CountsSurvivors ctx triggerTurn
      (items.zipIdx.foldl (forkPositionStep ⟨ctx.formats, triggerTurn⟩) ⟨[], []⟩)
      (survivors ctx items) := by
    induction items using List.reverseRecOn with
    | nil => exact ⟨rfl, rfl⟩
    | append_singleton items item ih =>
      rw [survivors_snoc, zipIdx_append, foldl_append]
      have hstep := forkPositionStep_counts (survivors_tagged ctx items) ih item
      simpa using hstep
  exact hcounts.forkTurns

/-! ## The cut -/

variable (ctx) in
theorem turnTags_replay_length (p : ResponseItem → Bool) {items : List RolloutItem}
    (hc : NoCompaction items) :
    (turnTags p (survivors ctx items)).length = ((eagerReplay ctx items).filter p).length := by
  rw [turnTags_length, ← survivors_items hc, filter_map, length_map]
  rfl

theorem replay_drop_turn {items : List RolloutItem} (hc : NoCompaction items)
    {x z : List (ℕ × ResponseItem)} {e : ℕ × ResponseItem}
    (hsplit : survivors ctx items = x ++ e :: z) (he : isUserTurnBoundary ctx.formats e.2 = true) :
    eagerReplay ctx (items.drop e.1) = e.2 :: z.map (·.2) := by
  have hmem : e ∈ survivors ctx items := by
    rw [hsplit]
    exact mem_append_right x mem_cons_self
  obtain ⟨older, turn, newer, rfl, hidx, hitem⟩ := survivors_place hmem
  have hturn : isUserTurnBoundary ctx.formats turn = true := by
    rw [← (TurnKind.boundary ctx.formats).processItem turn, ← hitem]
    exact he
  rw [(processItem_turn hturn).2] at hitem
  have hkept : older.length ∈
      (survivors ctx (older ++ .responseItem turn :: newer)).map (·.1) :=
    mem_map.mpr ⟨e, hmem, hidx⟩
  have hnewer : NoCompaction newer := fun i hi =>
    hc i (mem_append_right older (mem_cons_of_mem _ hi))
  obtain ⟨later, hsurv, hreplay⟩ := survivors_behind hturn hnewer hkept
  obtain ⟨k, item⟩ := e
  subst hidx hitem
  have ht := survivors_tagged ctx (older ++ .responseItem item :: newer)
  rw [hsplit] at hsurv ht
  obtain ⟨-, -, rfl⟩ := split_eq ht hsurv
  rw [drop_left, hreplay]

/-- Cutting a rollout to its last fork turns cuts its replay to them. -/
theorem replay_truncateRolloutToLastNForkTurns {items : List RolloutItem}
    (hc : NoCompaction items) (nFromEnd : ℕ) :
    eagerReplay ctx (truncateRolloutToLastNForkTurns ⟨ctx.formats, triggerTurn⟩ items nFromEnd) =
      lastForkTurns ⟨ctx.formats, triggerTurn⟩ nFromEnd (eagerReplay ctx items) := by
  have hcount := turnTags_replay_length ctx (isForkTurnBoundary ⟨ctx.formats, triggerTurn⟩) hc
  unfold truncateRolloutToLastNForkTurns lastForkTurns
  simp only [forkTurnPositionsInRollout_eq]
  by_cases hzero : nFromEnd = 0
  · rw [hzero, if_pos rfl, if_neg fun h => Nat.lt_irrefl _ h.1, fromForkTurn_zero]
    rfl
  · rw [if_neg hzero, hcount]
    by_cases hall : ((eagerReplay ctx items).filter
        (isForkTurnBoundary ⟨ctx.formats, triggerTurn⟩)).length ≤ nFromEnd
    · rw [if_pos hall, if_pos ⟨Nat.pos_of_ne_zero hzero, hall⟩]
    · rw [if_neg hall, if_neg fun h => hall h.2]
      rw [← hcount, turnTags_length] at hall ⊢
      obtain ⟨x, e, z, hsplit, he, hlast⟩ := exists_last_of_kind
        (fun e : ℕ × ResponseItem => isForkTurnBoundary ⟨ctx.formats, triggerTurn⟩ e.2)
        (survivors ctx items) (Nat.pos_of_ne_zero hzero) (by omega)
      have hturn : isUserTurnBoundary ctx.formats e.2 = true := forkTurn_turn e.2 he
      -- the position is that of the `n`-th fork turn from the end
      have hpos : (turnTags (isForkTurnBoundary ⟨ctx.formats, triggerTurn⟩) (survivors ctx items))[
          ((survivors ctx items).filter fun e =>
            isForkTurnBoundary ⟨ctx.formats, triggerTurn⟩ e.2).length - nFromEnd]? = some e.1 := by
        rw [hsplit, filter_append, length_append, hlast, Nat.add_sub_cancel,
          turnTags_append, turnTags_cons he, ← turnTags_length]
        simp
      have hnewer : ((e.2 :: z.map (·.2)).filter
          (isForkTurnBoundary ⟨ctx.formats, triggerTurn⟩)).length = nFromEnd := by
        rw [← map_cons (f := fun e : ℕ × ResponseItem => e.2), filter_map, length_map]
        exact hlast
      rw [hpos, Option.getD_some, replay_drop_turn hc hsplit hturn, ← survivors_items hc, hsplit,
        map_append, map_cons, ← hnewer]
      exact (fromForkTurn_append he).symm

end

def forkedRollout : List RolloutItem :=
  [.responseItem (userTextMessage "one".toList), .responseItem (userTextMessage "two".toList),
    .responseItem (userTextMessage "gone".toList), .eventMsg (.threadRolledBack 1),
    .responseItem (userTextMessage "three".toList)]

theorem last_two_fork_turns : NoCompaction forkedRollout ∧
      eagerReplay plainContext
          (truncateRolloutToLastNForkTurns ⟨plainContext.formats, fun _ => false⟩ forkedRollout 2) =
        [userTextMessage "two".toList, userTextMessage "three".toList] := by
  have hc : NoCompaction forkedRollout := by simp [NoCompaction, forkedRollout]
  refine ⟨hc, ?_⟩
  rw [replay_truncateRolloutToLastNForkTurns hc]
  decide +kernel

def greetedRollout : List RolloutItem :=
  [.responseItem (.message none ASSISTANT [.outputText "hello".toList] none),
    .responseItem (userTextMessage "one".toList)]

/-- With exactly as many fork turns as asked for, the greeting stays. -/
theorem exact_fork_turns_keep_all :
    ((eagerReplay plainContext greetedRollout).filter
        (isForkTurnBoundary ⟨plainContext.formats, fun _ => false⟩)).length = 1 ∧
      eagerReplay plainContext
          (truncateRolloutToLastNForkTurns ⟨plainContext.formats, fun _ => false⟩ greetedRollout 1) ≠
        fromForkTurn ⟨plainContext.formats, fun _ => false⟩ 1
          (eagerReplay plainContext greetedRollout) := by
  decide +kernel

end Codex
