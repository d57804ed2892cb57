import Codex.Session.ContextManager
import Codex.Session.Compact

/-!
# Reconstruction from a rollout

The rollout is read newest to oldest, turn by turn, for the newest replacement
history that is not rolled back and for the settings of the last turn. Then the
items behind that checkpoint are replayed forwards.
-/

namespace Codex

open Foundation

/-! ## Rollout items -/

structure CompactedItem where
  message : Text
  replacementHistory : Option (List ResponseItem)
deriving DecidableEq

inductive EventMsg where
  | threadRolledBack (numTurns : Nat)
  | turnStarted (turnId : Text)
  | turnComplete (turnId : Text)
  | turnAborted (turnId : Option Text)
  | userMessage
  | other
deriving DecidableEq

inductive RolloutItem where
  | sessionMeta
  | responseItem (item : ResponseItem)
  | compacted (item : CompactedItem)
  | turnContext (item : TurnContextItem)
  | eventMsg (event : EventMsg)
deriving DecidableEq

def NoCompaction (items : List RolloutItem) : Prop :=
  ∀ item ∈ items, ∀ compacted, item ≠ .compacted compacted

structure PreviousTurnSettings where
  model : Text
  realtimeActive : Option Bool
deriving DecidableEq

def TurnContextItem.previousTurnSettings (item : TurnContextItem) : PreviousTurnSettings :=
  ⟨item.model, item.realtimeActive⟩

inductive TurnReferenceContextItem where
  | neverSet
  | cleared
  | latest (item : TurnContextItem)
deriving DecidableEq

structure RolloutReconstruction where
  history : List ResponseItem
  previousTurnSettings : Option PreviousTurnSettings
  referenceContextItem : Option TurnContextItem
deriving DecidableEq

/-! ## The reverse scan -/

structure ActiveReplaySegment where
  turnId : Option Text
  countsAsUserTurn : Bool
  previousTurnSettings : Option PreviousTurnSettings
  referenceContextItem : TurnReferenceContextItem
  baseReplacementHistory : Option (List ResponseItem)
deriving DecidableEq

def ActiveReplaySegment.default : ActiveReplaySegment := ⟨none, false, none, .neverSet, none⟩

/-- The variables of the loop. -/
structure ReverseReplay where
  baseReplacementHistory : Option (List ResponseItem)
  previousTurnSettings : Option PreviousTurnSettings
  referenceContextItem : TurnReferenceContextItem
  pendingRollbackTurns : Nat
  rolloutSuffix : List RolloutItem
  activeSegment : Option ActiveReplaySegment
deriving DecidableEq

def turnIdsAreCompatible (activeTurnId itemTurnId : Option Text) : Bool :=
  match activeTurnId, itemTurnId with
  | some turnId, some itemTurnId => itemTurnId = turnId
  | _, _ => true

def saturatingAdd (a b : Nat) : Nat := min (a + b) (2 ^ 64 - 1)

def finalizeActiveSegment (seg : ActiveReplaySegment) (s : ReverseReplay) : ReverseReplay :=
  if 0 < s.pendingRollbackTurns then
    if seg.countsAsUserTurn then { s with pendingRollbackTurns := s.pendingRollbackTurns - 1 } else s
  else
    { s with
      baseReplacementHistory := s.baseReplacementHistory.or seg.baseReplacementHistory
      previousTurnSettings :=
        if s.previousTurnSettings = none ∧ seg.countsAsUserTurn then seg.previousTurnSettings
        else s.previousTurnSettings
      referenceContextItem :=
        if s.referenceContextItem = .neverSet ∧
            (seg.countsAsUserTurn ∨ seg.referenceContextItem = .cleared) then
          seg.referenceContextItem
        else s.referenceContextItem }

def ReverseReplay.updateSegment (s : ReverseReplay)
    (f : ActiveReplaySegment → ActiveReplaySegment) : ReverseReplay :=
  { s with activeSegment := some (f (s.activeSegment.getD .default)) }

def ActiveReplaySegment.noteTurnId (turnId : Option Text) (seg : ActiveReplaySegment) :
    ActiveReplaySegment :=
  { seg with turnId := seg.turnId.or turnId }

def ActiveReplaySegment.noteTurnContext (ctx : TurnContextItem) (seg : ActiveReplaySegment) :
    ActiveReplaySegment :=
  let seg := seg.noteTurnId ctx.turnId
  if turnIdsAreCompatible seg.turnId ctx.turnId then
    { seg with
      previousTurnSettings := some ctx.previousTurnSettings
      referenceContextItem :=
        if seg.referenceContextItem = .neverSet then .latest ctx else seg.referenceContextItem }
  else seg

/-- A compaction clears an older baseline. The newest replacement history of the
segment becomes its checkpoint, and the items behind it the suffix to replay. -/
def noteCompacted (newer : List RolloutItem) (compacted : CompactedItem) (s : ReverseReplay) :
    ReverseReplay :=
  let seg := s.activeSegment.getD .default
  let seg := { seg with
    referenceContextItem :=
      if seg.referenceContextItem = TurnReferenceContextItem.neverSet then .cleared
      else seg.referenceContextItem }
  match seg.baseReplacementHistory, compacted.replacementHistory with
  | none, some replacementHistory =>
    { s with
      activeSegment := some { seg with baseReplacementHistory := some replacementHistory }
      rolloutSuffix := newer }
  | _, _ => { s with activeSegment := some seg }

variable (ctx : ReplayContext)

def reverseStep (newer : List RolloutItem) (item : RolloutItem) (s : ReverseReplay) :
    ReverseReplay :=
  match item with
  | .compacted compacted => noteCompacted newer compacted s
  | .eventMsg (.threadRolledBack numTurns) =>
    { s with pendingRollbackTurns := saturatingAdd s.pendingRollbackTurns numTurns }
  | .eventMsg (.turnComplete turnId) => s.updateSegment (·.noteTurnId (some turnId))
  | .eventMsg (.turnAborted turnId) =>
    match s.activeSegment, turnId with
    | some _, turnId => s.updateSegment (·.noteTurnId turnId)
    | none, some turnId => s.updateSegment (·.noteTurnId (some turnId))
    | none, none => s
  | .eventMsg .userMessage => s.updateSegment fun seg => { seg with countsAsUserTurn := true }
  | .turnContext item => s.updateSegment (·.noteTurnContext item)
  | .eventMsg (.turnStarted turnId) =>
    match s.activeSegment with
    | some seg =>
      if turnIdsAreCompatible seg.turnId (some turnId) then
        finalizeActiveSegment seg { s with activeSegment := none }
      else s
    | none => s
  | .responseItem item => s.updateSegment fun seg =>
      { seg with countsAsUserTurn := seg.countsAsUserTurn || isUserTurnBoundary ctx.formats item }
  | .eventMsg .other => s
  | .sessionMeta => s

def ReverseReplay.settled (s : ReverseReplay) : Bool :=
  s.baseReplacementHistory.isSome && s.previousTurnSettings.isSome &&
    decide (s.referenceContextItem ≠ .neverSet)

def ReverseReplay.start (items : List RolloutItem) : ReverseReplay :=
  ⟨none, none, .neverSet, 0, items, none⟩

def ReverseReplay.close (s : ReverseReplay) : ReverseReplay :=
  match s.activeSegment with
  | some seg => finalizeActiveSegment seg { s with activeSegment := none }
  | none => s

def reverseReplay (items : List RolloutItem) : ReverseReplay :=
  (backwardUntil (reverseStep ctx) ReverseReplay.settled (.start items) items).1.close

def reverseReplayAll (items : List RolloutItem) : ReverseReplay :=
  (backward (reverseStep ctx) (.start items) items).close

/-- One item forwards; the flag says that a legacy compaction was seen. -/
def replayItem (r : ContextManager × Bool) (item : RolloutItem) : ContextManager × Bool :=
  let (history, sawLegacyCompaction) := r
  match item with
  | .responseItem responseItem => (history.recordItem ctx responseItem, sawLegacyCompaction)
  | .compacted compacted =>
    match compacted.replacementHistory with
    | some replacementHistory => (history.replace replacementHistory, sawLegacyCompaction)
    | none =>
      let userMessages := collectUserMessages ctx.formats history.items
      (history.replace (buildCompactedHistory [] userMessages compacted.message), true)
  | .eventMsg (.threadRolledBack numTurns) =>
    (history.dropLastNUserTurns ctx.formats numTurns, sawLegacyCompaction)
  | _ => r

def replayFrom (history : ContextManager) (items : List RolloutItem) : ContextManager × Bool :=
  items.foldl (replayItem ctx) (history, false)

def ReverseReplay.materialize (s : ReverseReplay) : RolloutReconstruction :=
  let history := match s.baseReplacementHistory with
    | some base => ContextManager.new.replace base
    | none => ContextManager.new
  let (history, sawLegacyCompaction) := replayFrom ctx history s.rolloutSuffix
  let referenceContextItem := match s.referenceContextItem with
    | .latest item => some item
    | _ => none
  ⟨history.items, s.previousTurnSettings,
    if sawLegacyCompaction then none else referenceContextItem⟩

def reconstructHistoryFromRollout (items : List RolloutItem) : RolloutReconstruction :=
  (reverseReplay ctx items).materialize ctx

end Codex
