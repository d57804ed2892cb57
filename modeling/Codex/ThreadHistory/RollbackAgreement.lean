import Codex.Session.Survivors
import Codex.ThreadHistory.ShownMessages

/-!
# Rollbacks of the thread and of the model history

A marker rolls turns back in two places. The thread that a client sees loses its last turns,
whatever they hold; the history of the model loses its last turn boundaries. The same user
messages are left as long as both lose equally many of them.
-/

namespace Codex.ThreadHistory

open Foundation List

/-! ## Rollouts of explicit turns -/

section
variable (formats : EmbeddedFormats)

def isUserMessage : ResponseItem → Bool
  | .message id role content phase =>
    role == USER && isUserTurnBoundary formats (.message id role content phase)
  | _ => false

theorem isUserMessage_boundary : TurnKind formats (isUserMessage formats) := by
  intro item h
  cases item with
  | message id role content phase => exact ((Bool.and_eq_true _ _).mp h).2
  | _ => cases h

def RolloutItem.recordedMessage : RolloutItem → Option ResponseItem
  | .responseItem item => if isUserMessage formats item then some item else none
  | _ => none

structure RecordedMessage where
  item : ResponseItem
  content : List UserInput

structure ExplicitTurn where
  fresh : Fresh
  turnId : Text
  startedAt : Option ℤ
  completedAt : Option ℤ
  durationMs : Option ℤ
  items : List (Fresh × RolloutItem)
  user : Option RecordedMessage
  inTurn : ∀ item ∈ items, item.2.inTurn = true
  shown : items.filterMap (·.2.shownContent) = user.toList.map (·.content)
  recorded : items.filterMap (·.2.recordedMessage formats) = user.toList.map (·.item)

inductive Segment where
  | turn (t : ExplicitTurn formats)
  | rolledBack (fresh : Fresh) (numTurns : ℕ)

variable {formats}

namespace Segment

def items : Segment formats → List (Fresh × RolloutItem)
  | .turn t =>
    (t.fresh, .eventMsg (.turnStarted t.turnId t.startedAt)) ::
      (t.items ++ [(t.fresh, .eventMsg (.turnComplete t.turnId t.completedAt t.durationMs))])
  | .rolledBack fresh numTurns => [(fresh, .eventMsg (.threadRolledBack numTurns))]

def messages : Segment formats → List RecordedMessage
  | .turn t => t.user.toList
  | .rolledBack _ _ => []

end Segment

def rolloutItems (r : List (Segment formats)) : List (Fresh × RolloutItem) := r.flatMap Segment.items

theorem rolloutItems_snoc (r : List (Segment formats)) (segment : Segment formats) :
    rolloutItems (r ++ [segment]) = rolloutItems r ++ segment.items := by
  simp [rolloutItems]

end

/-! ## The two views -/

def buildTurnsFromRolloutItems (fromXmlStr : Text → Option HookPromptFragment)
    (items : List (Fresh × RolloutItem)) : List Turn :=
  (ThreadHistoryBuilder.replay fromXmlStr items).finish

def RolloutItem.replayed : RolloutItem → Codex.RolloutItem
  | .eventMsg (.threadRolledBack numTurns) => .eventMsg (.threadRolledBack numTurns)
  | .eventMsg _ => .eventMsg .other
  | .compacted payload => .compacted payload
  | .responseItem item => .responseItem item
  | .turnContext => .eventMsg .other
  | .sessionMeta => .sessionMeta

def modelHistory (ctx : ReplayContext) (items : List RolloutItem) : List ResponseItem :=
  eagerReplay ctx (items.map RolloutItem.replayed)

section
variable (fromXmlStr : Text → Option HookPromptFragment) (ctx : ReplayContext)
  (r : List (Segment ctx.formats))

def shownTurns : List (List (List UserInput)) :=
  (buildTurnsFromRolloutItems fromXmlStr (rolloutItems r)).map fun turn =>
    turn.userMessages.map Prod.snd

def historyMessages : List ResponseItem :=
  (modelHistory ctx ((rolloutItems r).map (·.2))).filter (isUserMessage ctx.formats)

def UserMessagesAgree : Prop :=
  ∃ kept : List RecordedMessage, kept.Sublist (r.flatMap Segment.messages) ∧
    (shownTurns fromXmlStr ctx r).flatten = kept.map (·.content) ∧
    historyMessages ctx r = kept.map (·.item)

def lostFromThread (numTurns : ℕ) : ℕ := ((shownTurns fromXmlStr ctx r).rtake numTurns).flatten.length

def lostFromHistory (numTurns : ℕ) : ℕ :=
  (((modelHistory ctx ((rolloutItems r).map (·.2))).filter (isUserTurnBoundary ctx.formats)).rtake
    numTurns).countP (isUserMessage ctx.formats)

/-- No id in the rollout looks like a numbered one, and compactions keep the user messages. -/
structure Undisturbed : Prop where
  foreign : ∀ item ∈ rolloutItems r, item.2.Foreign fromXmlStr
  compactions : ∀ before payload,
    before ++ [.compacted payload] <+: (rolloutItems r).map (·.2) →
      (modelHistory ctx (before ++ [.compacted payload])).filter (isUserMessage ctx.formats) =
        (modelHistory ctx before).filter (isUserMessage ctx.formats)

end

/-! ## The thread -/

section
open ThreadHistoryBuilder

variable {fromXmlStr : Text → Option HookPromptFragment} {formats : EmbeddedFormats}

theorem replay_append (x y : List (Fresh × RolloutItem)) :
    ThreadHistoryBuilder.replay fromXmlStr (x ++ y) =
      y.foldl (fun b item => handleRolloutItem fromXmlStr item.1 b item.2)
        (ThreadHistoryBuilder.replay fromXmlStr x) := by
  unfold ThreadHistoryBuilder.replay
  rw [foldl_append]

variable {finished : List (List (Text × List UserInput))}

theorem inTurn_items {b : ThreadHistoryBuilder} {turnId : Text}
    {messages : List (Text × List UserInput)} {items : List (Fresh × RolloutItem)}
    (h : OpenTurn b turnId finished messages) (hforeign : ∀ item ∈ items, item.2.Foreign fromXmlStr)
    (hin : ∀ item ∈ items, item.2.inTurn = true) :
    ∃ messages', OpenTurn (items.foldl (fun b item => handleRolloutItem fromXmlStr item.1 b item.2) b)
        turnId finished messages' ∧
      messages'.map Prod.snd = messages.map Prod.snd ++ items.filterMap (·.2.shownContent) := by
  induction items generalizing b messages with
  | nil => exact ⟨messages, h, by simp⟩
  | cons item items ih =>
    obtain ⟨hfirst, hrest⟩ := forall_mem_cons.mp hforeign
    obtain ⟨hinFirst, hinRest⟩ := forall_mem_cons.mp hin
    obtain ⟨messages₁, h₁, hshown₁⟩ := inTurn_handleRolloutItem h hfirst hinFirst
    obtain ⟨messages₂, h₂, hshown₂⟩ := ih h₁ hrest hinRest
    refine ⟨messages₂, h₂, ?_⟩
    rw [hshown₂, hshown₁, List.append_assoc]
    cases hcontent : item.2.shownContent <;> simp [hcontent]

theorem betweenTurns_turn {b : ThreadHistoryBuilder} (h : BetweenTurns b finished)
    (t : ExplicitTurn formats) (hforeign : ∀ item ∈ t.items, item.2.Foreign fromXmlStr) :
    ∃ messages, BetweenTurns ((Segment.turn t).items.foldl
        (fun b item => handleRolloutItem fromXmlStr item.1 b item.2) b) (finished ++ [messages]) ∧
      messages.map Prod.snd = t.user.toList.map (·.content) := by
  have hstart := @inTurn_handleTurnStarted _ t.fresh finished (h.moved b.nextRolloutIndex
    (b.nextRolloutIndex + 1)) t.turnId t.startedAt
  obtain ⟨messages, hitems, hshown⟩ := inTurn_items hstart hforeign t.inTurn
  rw [map_nil, nil_append, t.shown] at hshown
  refine ⟨messages, ?_, hshown⟩
  unfold Segment.items
  rw [foldl_cons, foldl_append, foldl_cons, foldl_nil]
  exact betweenTurns_handleTurnComplete (hitems.moved _ _) _ _

theorem betweenTurns_replay (r : List (Segment formats))
    (hforeign : ∀ item ∈ rolloutItems r, item.2.Foreign fromXmlStr) :
    ∃ finished, BetweenTurns (ThreadHistoryBuilder.replay fromXmlStr (rolloutItems r)) finished := by
  induction r using List.reverseRecOn with
  | nil => exact ⟨[], rfl, rfl, fun _ h => absurd h not_mem_nil⟩
  | append_singleton r segment ih =>
    rw [rolloutItems_snoc] at hforeign ⊢
    obtain ⟨finished, h⟩ := ih fun item hitem => hforeign item (mem_append_left _ hitem)
    rw [replay_append]
    cases segment with
    | turn t =>
      obtain ⟨messages, h', -⟩ := betweenTurns_turn h t fun item hitem =>
        hforeign item (mem_append_right _ (by simp [Segment.items, hitem]))
      exact ⟨_, h'⟩
    | rolledBack fresh numTurns =>
      exact ⟨_, betweenTurns_handleThreadRollback (h.moved _ _) numTurns⟩

variable {ctx : ReplayContext} {r : List (Segment ctx.formats)}

theorem shownTurns_of_between
    (h : BetweenTurns (ThreadHistoryBuilder.replay fromXmlStr (rolloutItems r)) finished) :
    shownTurns fromXmlStr ctx r = finished.map fun messages => messages.map Prod.snd := by
  unfold shownTurns buildTurnsFromRolloutItems finish finishCurrentTurn
  rw [h.current, ← h.turns, map_map]
  rfl

theorem shownTurns_turn {t : ExplicitTurn ctx.formats}
    (hforeign : ∀ item ∈ rolloutItems (r ++ [.turn t]), item.2.Foreign fromXmlStr) :
    shownTurns fromXmlStr ctx (r ++ [.turn t]) =
      shownTurns fromXmlStr ctx r ++ [t.user.toList.map (·.content)] := by
  rw [rolloutItems_snoc] at hforeign
  obtain ⟨finished, h⟩ := betweenTurns_replay r fun item hitem =>
    hforeign item (mem_append_left _ hitem)
  obtain ⟨messages, h', hshown⟩ := betweenTurns_turn h t fun item hitem =>
    hforeign item (mem_append_right _ (by simp [Segment.items, hitem]))
  rw [← replay_append, ← rolloutItems_snoc] at h'
  rw [shownTurns_of_between h, shownTurns_of_between h', map_append, map_singleton, hshown]

theorem shownTurns_rolledBack (fresh : Fresh) (numTurns : ℕ)
    (hforeign : ∀ item ∈ rolloutItems r, item.2.Foreign fromXmlStr) :
    shownTurns fromXmlStr ctx (r ++ [.rolledBack fresh numTurns]) =
      (shownTurns fromXmlStr ctx r).rdrop numTurns := by
  obtain ⟨finished, h⟩ := betweenTurns_replay r hforeign
  have h' : BetweenTurns (ThreadHistoryBuilder.replay fromXmlStr
      (rolloutItems (r ++ [.rolledBack fresh numTurns]))) (finished.rdrop numTurns) := by
    rw [rolloutItems_snoc, replay_append]
    exact betweenTurns_handleThreadRollback (h.moved _ _) numTurns
  rw [shownTurns_of_between h, shownTurns_of_between h', List.rdrop, List.rdrop, map_take,
    length_map]

end

/-! ## The history -/

section
variable {ctx : ReplayContext}

theorem modelHistory_snoc (items : List RolloutItem) {item : RolloutItem}
    (hitem : ∀ payload, item ≠ .compacted payload) :
    modelHistory ctx (items ++ [item]) = replayItems ctx (modelHistory ctx items) item.replayed := by
  unfold modelHistory
  rw [map_append, map_singleton, eagerReplay_snoc_items]
  intro c
  cases item with
  | compacted payload => exact absurd rfl (hitem payload)
  | eventMsg event => cases event <;> exact nofun
  | _ => exact nofun

theorem filter_processItem (history : List ResponseItem) (item : ResponseItem) :
    (replayItems ctx history (.responseItem item)).filter (isUserMessage ctx.formats) =
      history.filter (isUserMessage ctx.formats) ++
        ((RolloutItem.responseItem item).recordedMessage ctx.formats).toList := by
  have hkind := isUserMessage_boundary ctx.formats
  simp only [replayItems, RolloutItem.recordedMessage]
  by_cases hitem : isUserMessage ctx.formats item = true
  · obtain ⟨hapi, hsame⟩ := processItem_turn (hkind item hitem)
    rw [if_pos hapi, if_pos hitem, filter_append, hsame]
    simp [hitem]
  · rw [if_neg hitem, Option.toList_none, append_nil]
    split
    · rw [filter_append]
      simp [hkind.processItem, hitem]
    · rfl

theorem filter_modelHistory {before : List RolloutItem} {items : List RolloutItem}
    (hstays : ∀ item ∈ items, ∀ numTurns, item ≠ .eventMsg (.threadRolledBack numTurns))
    (hcompact : ∀ x payload, x ++ [.compacted payload] <+: before ++ items →
      (modelHistory ctx (x ++ [.compacted payload])).filter (isUserMessage ctx.formats) =
        (modelHistory ctx x).filter (isUserMessage ctx.formats)) :
    (modelHistory ctx (before ++ items)).filter (isUserMessage ctx.formats) =
      (modelHistory ctx before).filter (isUserMessage ctx.formats) ++
        items.filterMap (RolloutItem.recordedMessage ctx.formats) := by
  induction items using List.reverseRecOn with
  | nil => simp
  | append_singleton items item ih =>
    have hprefix : before ++ items <+: before ++ (items ++ [item]) := by
      rw [← List.append_assoc]
      exact prefix_append _ _
    have ih := ih (fun i hi => hstays i (mem_append_left _ hi))
      fun x payload hx => hcompact x payload (hx.trans hprefix)
    have hitem := hstays item (mem_append_right _ (mem_singleton_self _))
    rw [← List.append_assoc, filterMap_append, ← List.append_assoc, ← ih]
    cases item with
    | compacted payload =>
      rw [hcompact (before ++ items) payload (by rw [List.append_assoc])]
      simp [RolloutItem.recordedMessage]
    | responseItem item =>
      rw [modelHistory_snoc _ (fun _ h => by cases h)]
      simp only [RolloutItem.replayed, filter_processItem]
      cases hrecorded : (RolloutItem.responseItem item).recordedMessage ctx.formats <;>
        simp [hrecorded]
    | eventMsg event =>
      rw [modelHistory_snoc _ (fun _ h => by cases h)]
      cases event with
      | threadRolledBack numTurns => exact absurd rfl (hitem numTurns)
      | _ => simp [RolloutItem.replayed, replayItems, RolloutItem.recordedMessage]
    | turnContext | sessionMeta =>
      rw [modelHistory_snoc _ (fun _ h => by cases h)]
      simp [RolloutItem.replayed, replayItems, RolloutItem.recordedMessage]

theorem filter_dropTurns (formats : EmbeddedFormats) (items : List ResponseItem) (numTurns : ℕ) :
    (dropTurns formats items numTurns).filter (isUserMessage formats) =
      (items.filter (isUserMessage formats)).rdrop
        (((items.filter (isUserTurnBoundary formats)).rtake numTurns).countP
          (isUserMessage formats)) := by
  rcases Nat.eq_zero_or_pos numTurns with rfl | hpos
  · simp [dropTurns_zero, List.rtake, List.rdrop]
  · obtain ⟨hnone, hdrop⟩ | ⟨x, y, z, rfl, hy, hcount, hdrop⟩ := dropTurns_cases formats items hpos
    · have hempty : items.filter (isUserTurnBoundary formats) = [] := by
        rw [filter_eq_nil_iff]
        exact fun item hitem hturn => Bool.eq_false_iff.mp hnone (any_eq_true.mpr ⟨item, hitem, hturn⟩)
      rw [hdrop, hempty]
      simp [List.rtake, List.rdrop]
    · have hkind := isUserMessage_boundary formats
      have hlast : ((x ++ y :: z).filter (isUserTurnBoundary formats)).rtake numTurns =
          (y :: z).filter (isUserTurnBoundary formats) := by
        rw [filter_append, length_append] at hcount
        have hfirst : ((x.filter (isUserTurnBoundary formats) ++
            (y :: z).filter (isUserTurnBoundary formats)).length - numTurns) =
              (x.filter (isUserTurnBoundary formats)).length := by
          rw [length_append]
          omega
        rw [filter_append, List.rtake, hfirst, drop_left]
      have hsub : ((y :: z).filter (isUserTurnBoundary formats)).countP (isUserMessage formats) =
          ((y :: z).filter (isUserMessage formats)).length := by
        rw [countP_eq_length_filter, filter_filter]
        refine congrArg List.length (filter_congr fun item _ => ?_)
        by_cases hitem : isUserMessage formats item = true
        · rw [hitem, hkind item hitem, Bool.and_self]
        · rw [Bool.not_eq_true] at hitem
          rw [hitem, Bool.false_and]
      rw [hdrop, filter_trimmed hkind, hlast, hsub, filter_append, List.rdrop,
        length_append, Nat.add_sub_cancel, take_left]

/-! ## Both views -/

variable {fromXmlStr : Text → Option HookPromptFragment} {r : List (Segment ctx.formats)}

theorem Undisturbed.of_isPrefix {r' : List (Segment ctx.formats)}
    (h : Undisturbed fromXmlStr ctx r) (hr : r' <+: r) : Undisturbed fromXmlStr ctx r' := by
  have hitems : rolloutItems r' <+: rolloutItems r := by
    obtain ⟨later, rfl⟩ := hr
    unfold rolloutItems
    rw [flatMap_append]
    exact prefix_append _ _
  exact ⟨fun item hitem => h.foreign item (hitems.subset hitem),
    fun before payload hbefore => h.compactions before payload (hbefore.trans (hitems.map _))⟩

theorem historyMessages_turn {t : ExplicitTurn ctx.formats}
    (h : Undisturbed fromXmlStr ctx (r ++ [.turn t])) :
    historyMessages ctx (r ++ [.turn t]) = historyMessages ctx r ++ t.user.toList.map (·.item) := by
  unfold historyMessages
  have hcompact := h.compactions
  rw [rolloutItems_snoc, map_append] at hcompact ⊢
  rw [filter_modelHistory ?_ hcompact, ← t.recorded]
  · rw [Segment.items, map_cons, map_append, filterMap_cons_none rfl,
      filterMap_append, filterMap_map]
    exact congrArg _ (append_nil _)
  · intro item hitem numTurns hrolled
    obtain ⟨⟨fresh, item'⟩, hmem, hsame⟩ := mem_map.mp hitem
    have hrolled' : item' = .eventMsg (.threadRolledBack numTurns) := hsame.trans hrolled
    subst hrolled'
    simp only [Segment.items, mem_cons, mem_append, Prod.mk.injEq, reduceCtorEq,
      RolloutItem.eventMsg.injEq, and_false, not_mem_nil, or_false, false_or] at hmem
    exact Bool.false_ne_true (t.inTurn _ hmem)

theorem historyMessages_rolledBack (r : List (Segment ctx.formats)) (fresh : Fresh) (numTurns : ℕ) :
    historyMessages ctx (r ++ [.rolledBack fresh numTurns]) =
      (historyMessages ctx r).rdrop (lostFromHistory ctx r numTurns) := by
  unfold historyMessages lostFromHistory
  rw [rolloutItems_snoc, map_append, Segment.items, map_singleton,
    modelHistory_snoc _ (fun _ h => by cases h)]
  exact filter_dropTurns ctx.formats _ numTurns

theorem flatten_split {α : Type} (l : List (List α)) (n : ℕ) :
    l.flatten = (l.rdrop n).flatten ++ (l.rtake n).flatten := by
  rw [← flatten_append, List.rdrop, List.rtake, take_append_drop]

theorem flatten_rdrop {α : Type} (l : List (List α)) (n : ℕ) :
    (l.rdrop n).flatten = l.flatten.rdrop (l.rtake n).flatten.length := by
  have hleft : ∀ x y : List α, (x ++ y).rdrop y.length = x := by
    intro x y
    rw [List.rdrop, length_append, Nat.add_sub_cancel, take_left]
  rw [flatten_split l n, hleft]

theorem map_rdrop {α β : Type} (f : α → β) (l : List α) (n : ℕ) :
    (l.rdrop n).map f = (l.map f).rdrop n := by
  rw [List.rdrop, List.rdrop, map_take, length_map]

theorem lostFromThread_le (numTurns : ℕ) :
    lostFromThread fromXmlStr ctx r numTurns ≤ (shownTurns fromXmlStr ctx r).flatten.length := by
  rw [flatten_split _ numTurns, length_append]
  exact Nat.le_add_left _ _

theorem lostFromHistory_le (numTurns : ℕ) :
    lostFromHistory ctx r numTurns ≤ (historyMessages ctx r).length := by
  unfold lostFromHistory historyMessages
  rw [← countP_eq_length_filter]
  exact ((drop_sublist _ _).trans filter_sublist).countP_le

theorem UserMessagesAgree.turn {t : ExplicitTurn ctx.formats}
    (h : Undisturbed fromXmlStr ctx (r ++ [.turn t])) (hagree : UserMessagesAgree fromXmlStr ctx r) :
    UserMessagesAgree fromXmlStr ctx (r ++ [.turn t]) := by
  obtain ⟨kept, hsub, hshown, hhistory⟩ := hagree
  refine ⟨kept ++ t.user.toList, ?_, ?_, ?_⟩
  · rw [flatMap_append, flatMap_singleton]
    exact hsub.append (.refl _)
  · rw [shownTurns_turn h.foreign, flatten_append, hshown, flatten_singleton, map_append]
  · rw [historyMessages_turn h, hhistory, map_append]

theorem userMessagesAgree_rolledBack {fresh : Fresh} {numTurns : ℕ}
    (h : Undisturbed fromXmlStr ctx r) (hagree : UserMessagesAgree fromXmlStr ctx r) :
    UserMessagesAgree fromXmlStr ctx (r ++ [.rolledBack fresh numTurns]) ↔
      lostFromThread fromXmlStr ctx r numTurns = lostFromHistory ctx r numTurns := by
  obtain ⟨kept, hsub, hshown, hhistory⟩ := hagree
  have hthread := shownTurns_rolledBack fresh numTurns h.foreign
  have hmodel := historyMessages_rolledBack r fresh numTurns
  constructor
  · rintro ⟨kept', -, hshown', hhistory'⟩
    have hthreadLe := @lostFromThread_le ctx fromXmlStr r numTurns
    have hhistoryLe := @lostFromHistory_le ctx r numTurns
    have hlength := congrArg List.length hshown
    have hlength' := congrArg List.length hshown'
    rw [hthread, flatten_rdrop] at hlength'
    rw [hmodel] at hhistory'
    have hsame := congrArg List.length hhistory
    have hsame' := congrArg List.length hhistory'
    simp only [List.rdrop, length_take, length_map] at hlength hlength' hsame hsame'
    unfold lostFromThread at hthreadLe ⊢
    omega
  · intro hlost
    refine ⟨kept.rdrop (lostFromHistory ctx r numTurns), ?_, ?_, ?_⟩
    · rw [flatMap_append]
      exact ((take_sublist _ _).trans hsub).trans (sublist_append_left _ _)
    · rw [hthread, flatten_rdrop, map_rdrop, ← hshown, ← hlost]
      rfl
    · rw [hmodel, map_rdrop, ← hhistory]

/-- The views agree all along exactly if each marker takes equally many user messages. -/
theorem userMessagesAgree_iff (h : Undisturbed fromXmlStr ctx r) :
    (∀ r', r' <+: r → UserMessagesAgree fromXmlStr ctx r') ↔
      ∀ r' fresh numTurns, r' ++ [.rolledBack fresh numTurns] <+: r →
        lostFromThread fromXmlStr ctx r' numTurns = lostFromHistory ctx r' numTurns := by
  constructor
  · intro hall r' fresh numTurns hr
    have hr' : r' <+: r := (prefix_append r' _).trans hr
    exact (userMessagesAgree_rolledBack (h.of_isPrefix hr') (hall r' hr')).mp (hall _ hr)
  · intro hlost r' hr
    induction r' using List.reverseRecOn with
    | nil => exact ⟨[], .refl _, rfl, rfl⟩
    | append_singleton r' segment ih =>
      have hr' : r' <+: r := (prefix_append r' _).trans hr
      cases segment with
      | turn t => exact UserMessagesAgree.turn (h.of_isPrefix hr) (ih hr')
      | rolledBack fresh numTurns =>
        exact (userMessagesAgree_rolledBack (h.of_isPrefix hr') (ih hr')).mpr
          (hlost r' fresh numTurns hr)

end

/-! ## A turn without a user message -/

def noFresh : Fresh := ⟨⟨['0', 'f'], rfl⟩, ⟨['1', 'f'], rfl⟩⟩

def questionTurn : ExplicitTurn plainContext.formats where
  fresh := noFresh
  turnId := ['q']
  startedAt := none
  completedAt := none
  durationMs := none
  items := [(noFresh, .responseItem (userTextMessage ['Q'])),
    (noFresh, .eventMsg (.userMessage ['Q'] none [] []))]
  user := some ⟨userTextMessage ['Q'], [.text ['Q'] []]⟩
  inTurn := by decide
  shown := by decide
  recorded := by decide

def taskTurn : ExplicitTurn plainContext.formats where
  fresh := noFresh
  turnId := ['t']
  startedAt := none
  completedAt := none
  durationMs := none
  items := [(noFresh, .eventMsg .contextCompacted)]
  user := none
  inTurn := by decide
  shown := by decide
  recorded := by decide

def taskRolledBack : List (Segment plainContext.formats) :=
  [.turn questionTurn, .turn taskTurn, .rolledBack noFresh 1]

theorem taskRolledBack_disagrees :
    ¬ UserMessagesAgree (fun _ => none) plainContext taskRolledBack := by
  rintro ⟨kept, -, hshown, hhistory⟩
  have hthread : (shownTurns (fun _ => none) plainContext taskRolledBack).flatten.length = 1 := by
    decide +kernel
  have hmodel : (historyMessages plainContext taskRolledBack).length = 0 := by decide +kernel
  rw [hshown, length_map] at hthread
  rw [hhistory, length_map, hthread] at hmodel
  cases hmodel

theorem taskRolledBack_undisturbed : Undisturbed (fun _ => none) plainContext taskRolledBack := by
  have hcalls : ∀ item ∈ rolloutItems taskRolledBack, item.2.callId = none := by decide
  have hshown : ∀ item ∈ rolloutItems taskRolledBack, item.2.itemId (fun _ => none) = none := by
    decide
  refine ⟨fun item hitem => ⟨fun id hid => ?_, fun id hid => ?_⟩, fun before payload hbefore => ?_⟩
  · rw [hcalls item hitem] at hid
    cases hid
  · rw [hshown item hitem] at hid
    cases hid
  · have hmem := hbefore.subset (mem_append_right before (mem_singleton_self _))
    simp [rolloutItems, taskRolledBack, Segment.items, questionTurn, taskTurn] at hmem

theorem userMessagesAgree_taskRolledBack :
    (∀ r', r' <+: taskRolledBack → UserMessagesAgree (fun _ => none) plainContext r') ↔
      ∀ r' fresh numTurns, r' ++ [.rolledBack fresh numTurns] <+: taskRolledBack →
        lostFromThread (fun _ => none) plainContext r' numTurns =
          lostFromHistory plainContext r' numTurns :=
  userMessagesAgree_iff taskRolledBack_undisturbed

end Codex.ThreadHistory
