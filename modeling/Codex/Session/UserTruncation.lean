import Codex.Session.ForkTruncation

/-!
# The positions of the user messages

The positions are a stack of the user messages alone, while a rollback counts turns of
every kind. So they are those of the replay exactly when no user message that stays is
older than an inter-agent instruction that is rolled back.
-/

namespace Codex

open Foundation ContextManager List

variable (items : List RolloutItem)

section
variable (formats : EmbeddedFormats)

def turnOp : RolloutItem × ℕ → Option (StackOp (ℕ × ResponseItem))
  | (.responseItem item, idx) =>
    if isUserTurnBoundary formats item then some (.push (idx, item)) else none
  | (.eventMsg (.threadRolledBack numTurns), _) => some (.pop numTurns)
  | _ => none

def turnOps (items : List RolloutItem) : List (StackOp (ℕ × ResponseItem)) :=
  items.zipIdx.filterMap (turnOp formats)

def isUserEntry (e : ℕ × ResponseItem) : Bool := isRealUserMessageBoundary formats e.2

/-- No user message that stays is older than an instruction turn that is rolled back. -/
def UserMessagesSpared (items : List RolloutItem) : Prop :=
  Spared (isUserEntry formats) (turnOps formats items)

instance decidableUserMessagesSpared (items : List RolloutItem) :
    Decidable (UserMessagesSpared formats items) :=
  inferInstanceAs (Decidable (Spared _ _))

theorem turnOps_snoc (item : RolloutItem) : turnOps formats (items ++ [item]) =
      turnOps formats items ++ (turnOp formats (item, items.length)).toList := by
  unfold turnOps
  rw [zipIdx_append, filterMap_append]
  cases h : turnOp formats (item, items.length) <;> simp [h]

end

section
variable {formats : EmbeddedFormats}

theorem userMessagePositionsInRollout_snoc (item : RolloutItem) :
    userMessagePositionsInRollout formats (items ++ [item]) =
      userPositionStep formats (userMessagePositionsInRollout formats items)
        (item, items.length) := by
  unfold userMessagePositionsInRollout
  rw [zipIdx_append, foldl_append]
  simp

theorem userMessagePositions_stack : (userMessagePositionsInRollout formats items).reverse =
      (stackOf ((turnOps formats items).filter (StackOp.keeps (isUserEntry formats)))).map
        (·.1) := by
  induction items using List.reverseRecOn with
  | nil => rfl
  | append_singleton items item ih =>
    rw [userMessagePositionsInRollout_snoc, turnOps_snoc, filter_append]
    cases item with
    | responseItem item =>
      simp only [userPositionStep, turnOp]
      have hkeeps : (StackOp.push (items.length, item)).keeps (isUserEntry formats) =
          isRealUserMessageBoundary formats item := rfl
      by_cases huser : isRealUserMessageBoundary formats item = true
      · rw [if_pos huser, if_pos (realUserMessage_turn formats item huser), Option.toList_some,
          filter_cons_of_pos (hkeeps.trans huser), filter_nil, stackOf_concat,
          reverse_append, ih]
        rfl
      · rw [if_neg huser]
        split
        · rw [Option.toList_some, filter_cons_of_neg (by rw [hkeeps]; exact huser),
            filter_nil, append_nil, ih]
        · rw [Option.toList_none, filter_nil, append_nil, ih]
    | eventMsg event =>
      cases event with
      | threadRolledBack n =>
        simp only [userPositionStep, turnOp]
        rw [Option.toList_some, filter_cons_of_pos rfl, filter_nil, stackOf_concat,
          StackOp.apply, map_drop, ← ih, drop_reverse]
      | _ => simpa [userPositionStep, turnOp] using ih
    | _ => simpa [userPositionStep, turnOp] using ih

end

section
variable {ctx : ReplayContext}

theorem turns_rollback (h : List (ℕ × ResponseItem)) (numTurns n : ℕ) :
    (survivorStep ctx h (.eventMsg (.threadRolledBack numTurns), n)).filter
        (fun e => isUserTurnBoundary ctx.formats e.2) =
      (h.filter fun e => isUserTurnBoundary ctx.formats e.2).take
        ((h.filter fun e => isUserTurnBoundary ctx.formats e.2).length - numTurns) := by
  rcases Nat.eq_zero_or_pos numTurns with rfl | hpos
  · simp only [survivorStep, dropTurns_zero, length_map, take_length, Nat.sub_zero]
  · obtain ⟨hnone, hstep⟩ | ⟨x, e, z, rfl, -, hcount, hstep⟩ :=
      survivorStep_rollback ctx n h hpos
    · rw [hstep, filter_eq_nil_iff.mpr (any_eq_false.mp hnone), take_nil]
    · rw [hstep _ (TurnKind.boundary ctx.formats)]
      rw [filter_append, length_append] at hcount ⊢
      rw [take_append_of_le_length (by omega), take_of_length_le (by omega)]

theorem survivors_stack :
    ((survivors ctx items).filter fun e => isUserTurnBoundary ctx.formats e.2).reverse =
      stackOf (turnOps ctx.formats items) := by
  induction items using List.reverseRecOn with
  | nil => rfl
  | append_singleton items item ih =>
    rw [survivors_snoc, turnOps_snoc]
    cases item with
    | responseItem item =>
      rw [survivorStep_record (TurnKind.boundary ctx.formats)]
      simp only [turnOp]
      split
      · rw [Option.toList_some, stackOf_concat, reverse_append, ih]
        rfl
      · rw [Option.toList_none, append_nil, append_nil, ih]
    | eventMsg event =>
      cases event with
      | threadRolledBack n =>
        simp only [turnOp]
        rw [turns_rollback, Option.toList_some, stackOf_concat, StackOp.apply, ← ih, drop_reverse]
      | _ => simpa [survivorStep, turnOp] using ih
    | _ => simpa [survivorStep, turnOp] using ih

theorem userTags_stack :
    (turnTags (isRealUserMessageBoundary ctx.formats) (survivors ctx items)).reverse =
      ((stackOf (turnOps ctx.formats items)).filter (isUserEntry ctx.formats)).map (·.1) := by
  unfold turnTags isUserEntry
  rw [← survivors_stack, filter_reverse, filter_filter, map_reverse]
  congr 2
  refine filter_congr fun e _ => ?_
  cases huser : isRealUserMessageBoundary ctx.formats e.2 with
  | false => rfl
  | true => rw [realUserMessage_turn _ _ huser, Bool.and_self]

/-- The positions, and the cut at each of them, are those of the user messages that the
replay shows exactly when no such message is older than a dropped instruction turn. -/
theorem userMessagePositions_iff_spared {items : List RolloutItem} (hc : NoCompaction items) :
    (survivors ctx items).map (·.2) = eagerReplay ctx items ∧
      ((userMessagePositionsInRollout ctx.formats items =
            turnTags (isRealUserMessageBoundary ctx.formats) (survivors ctx items) ∧
          ∀ n, n ≠ usizeMax →
            truncateRolloutBeforeNthUserMessageFromStart ctx.formats items n =
              items.take ((turnTags (isRealUserMessageBoundary ctx.formats)
                (survivors ctx items))[n]?.getD items.length)) ↔
        UserMessagesSpared ctx.formats items) := by
  refine ⟨survivors_items hc, ?_⟩
  have hpositions : userMessagePositionsInRollout ctx.formats items =
      turnTags (isRealUserMessageBoundary ctx.formats) (survivors ctx items) ↔
        UserMessagesSpared ctx.formats items := by
    rw [← reverse_inj, userMessagePositions_stack, userTags_stack]
    exact stackOf_keeps _ _
  constructor
  · intro h
    exact hpositions.mp h.1
  · intro hspared
    have heq := hpositions.mpr hspared
    refine ⟨heq, fun n hn => ?_⟩
    unfold truncateRolloutBeforeNthUserMessageFromStart
    rw [if_neg hn, heq]
    split
    · rename_i hcut
      rw [hcut, Option.getD_some]
    · rename_i hcut
      rw [hcut, Option.getD_none, take_length]

end

def agentMessage : Text :=
  ("\x7b\"author\":\"/root\",\"recipient\":\"/root/worker\",\"other_recipients\":[]," ++
    "\"content\":\"go\",\"trigger_turn\":true\x7d").toList

def agentContext : ReplayContext :=
  ⟨⟨fun _ => false, fun text => text == agentMessage⟩, .bytes 10000,
    fun budget => (6 * budget + 4) / 5⟩

def instructionTurn : RolloutItem :=
  .responseItem (.message none ASSISTANT [.outputText agentMessage] (some .commentary))

def sparedRollout : List RolloutItem :=
  [.responseItem (userTextMessage "one".toList), instructionTurn,
    .responseItem (userTextMessage "gone".toList), .eventMsg (.threadRolledBack 1)]

theorem sparedRollout_positions : NoCompaction sparedRollout ∧
      userMessagePositionsInRollout agentContext.formats sparedRollout =
        turnTags (isRealUserMessageBoundary agentContext.formats)
          (survivors agentContext sparedRollout) := by
  have hc : NoCompaction sparedRollout := by
    simp [NoCompaction, sparedRollout, instructionTurn]
  have hspared : UserMessagesSpared agentContext.formats sparedRollout := by decide +kernel
  exact ⟨hc, ((userMessagePositions_iff_spared hc).2.mpr hspared).1⟩

def instructionRolledBack : List RolloutItem :=
  [.responseItem (userTextMessage "one".toList), instructionTurn, .eventMsg (.threadRolledBack 1)]

/-- The message of the user stays in the history, and its position is lost. -/
theorem rolledBack_instruction_loses_position :
    eagerReplay agentContext instructionRolledBack = [userTextMessage "one".toList] ∧
      turnTags (isRealUserMessageBoundary agentContext.formats)
        (survivors agentContext instructionRolledBack) = [0] ∧
      userMessagePositionsInRollout agentContext.formats instructionRolledBack = [] ∧
      truncateRolloutBeforeNthUserMessageFromStart agentContext.formats instructionRolledBack 0 =
        instructionRolledBack := by
  decide +kernel

end Codex
