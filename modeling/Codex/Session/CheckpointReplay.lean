import Codex.Session.RolloutReconstruction

/-!
# Reconstructed and eager history

Replaying every item forwards needs only the newest replacement history and the
items behind it (`replay_of_checkpoint`). The reverse scan finds both, unless the
only turn that has a checkpoint is rolled back: then the items behind it are
replayed over nothing (`reconstructed_history_eq_eager`).
-/

namespace Codex

open Foundation List Option

section
variable (ctx : ReplayContext)

/-! ## Eager replay -/

def eagerReplay (items : List RolloutItem) : List ResponseItem :=
  (replayFrom ctx .new items).1.items

def replayOver (base : List ResponseItem) (items : List RolloutItem) : List ResponseItem :=
  (replayFrom ctx (ContextManager.new.replace base) items).1.items

theorem replayItem_items {r r' : ContextManager × Bool} (h : r.1.items = r'.1.items)
    (item : RolloutItem) : (replayItem ctx r item).1.items = (replayItem ctx r' item).1.items := by
  cases item with
  | sessionMeta => exact h
  | responseItem item => exact ContextManager.recordItem_items h ctx item
  | turnContext item => exact h
  | compacted item =>
    unfold replayItem
    simp only
    cases item.replacementHistory with
    | some base => rfl
    | none =>
      simp only [h]
      rfl
  | eventMsg event =>
    cases event with
    | threadRolledBack n => exact ContextManager.dropLastNUserTurns_items h ctx.formats n
    | turnStarted id | turnComplete id | turnAborted id | userMessage | other => exact h

theorem foldl_replayItem_items {r r' : ContextManager × Bool} (h : r.1.items = r'.1.items)
    (items : List RolloutItem) :
    (items.foldl (replayItem ctx) r).1.items = (items.foldl (replayItem ctx) r').1.items := by
  induction items generalizing r r' with
  | nil => exact h
  | cons item items ih => exact ih (replayItem_items ctx h item)

theorem eagerReplay_eq (items : List RolloutItem) : eagerReplay ctx items = replayOver ctx [] items :=
  foldl_replayItem_items ctx (by rfl) items

def newestCheckpoint : List RolloutItem → Option (List ResponseItem × List RolloutItem)
  | [] => none
  | item :: newer =>
    (newestCheckpoint newer).or <|
      match item with
      | .compacted compacted => compacted.replacementHistory.map fun base => (base, newer)
      | _ => none

theorem replay_of_checkpoint {items : List RolloutItem} {base : List ResponseItem}
    {tail : List RolloutItem} (h : newestCheckpoint items = some (base, tail))
    (r : ContextManager × Bool) :
    (items.foldl (replayItem ctx) r).1.items = replayOver ctx base tail := by
  induction items generalizing r with
  | nil => exact absurd h (by simp [newestCheckpoint])
  | cons item newer ih =>
    cases hn : newestCheckpoint newer with
    | some found =>
      simp only [newestCheckpoint, hn, some_or] at h
      exact ih (hn.trans h) _
    | none =>
      simp only [newestCheckpoint, hn, none_or] at h
      cases item with
      | compacted compacted =>
        simp only [map_eq_some_iff, Prod.mk.injEq] at h
        obtain ⟨b, hb, rfl, rfl⟩ := h
        refine foldl_replayItem_items ctx ?_ newer
        simp only [replayItem, hb]
        rfl
      | sessionMeta | responseItem item | turnContext item | eventMsg event => cases h

/-! ## Turn segments -/

structure TurnSegment where
  turnId : Option Text
  userTurn : Bool
  checkpoint : Bool

/-- A turn read to its start: whether it holds a replacement history, and whether a
rollback behind it was still to be used up. -/
structure ClosedSegment where
  checkpoint : Bool
  rolledBack : Bool
deriving DecidableEq

structure SegmentTrace where
  pending : Nat
  current : Option TurnSegment
  closed : List ClosedSegment

namespace SegmentTrace

def note (f : TurnSegment → TurnSegment) (t : SegmentTrace) : SegmentTrace :=
  { t with current := some (f (t.current.getD ⟨none, false, false⟩)) }

def noteTurnId (turnId : Option Text) : SegmentTrace → SegmentTrace :=
  note fun seg => { seg with turnId := seg.turnId.or turnId }

def close (t : SegmentTrace) : SegmentTrace :=
  match t.current with
  | some seg =>
    ⟨if 0 < t.pending ∧ seg.userTurn then t.pending - 1 else t.pending, none,
      t.closed ++ [⟨seg.checkpoint, 0 < t.pending⟩]⟩
  | none => t

def step (item : RolloutItem) (t : SegmentTrace) : SegmentTrace :=
  match item with
  | .compacted compacted => t.note fun seg =>
      { seg with checkpoint := seg.checkpoint || compacted.replacementHistory.isSome }
  | .responseItem item => t.note fun seg =>
      { seg with userTurn := seg.userTurn || isUserTurnBoundary ctx.formats item }
  | .turnContext item => t.noteTurnId item.turnId
  | .eventMsg (.threadRolledBack numTurns) =>
    { t with pending := saturatingAdd t.pending numTurns }
  | .eventMsg (.turnStarted turnId) =>
    match t.current with
    | some seg => if turnIdsAreCompatible seg.turnId (some turnId) then t.close else t
    | none => t
  | .eventMsg (.turnComplete turnId) => t.noteTurnId (some turnId)
  | .eventMsg (.turnAborted (some turnId)) => t.noteTurnId (some turnId)
  | .eventMsg (.turnAborted none) => t
  | .eventMsg .userMessage => t.note fun seg => { seg with userTurn := true }
  | .eventMsg .other => t
  | .sessionMeta => t

end SegmentTrace

def segmentTrace (items : List RolloutItem) : SegmentTrace :=
  backward (fun _ => SegmentTrace.step ctx) ⟨0, none, []⟩ items

def turnSegments (items : List RolloutItem) : List ClosedSegment :=
  (segmentTrace ctx items).close.closed

def CheckpointLost (items : List RolloutItem) : Prop :=
  (turnSegments ctx items).filter (·.checkpoint) = [⟨true, true⟩]

instance (items : List RolloutItem) : Decidable (CheckpointLost ctx items) :=
  inferInstanceAs (Decidable (_ = _))

/-! ## What the scan knows of checkpoints -/

/-- The checkpoint taken, the items to replay, the checkpoint of the turn in
progress, and the turns behind it. -/
structure CheckpointView where
  base : Option (List ResponseItem)
  suffix : List RolloutItem
  openBase : Option (List ResponseItem)
  closed : List ClosedSegment

def ReverseReplay.openBase (s : ReverseReplay) : Option (List ResponseItem) :=
  s.activeSegment.bind (·.baseReplacementHistory)

def viewOf (s : ReverseReplay) (t : SegmentTrace) : CheckpointView :=
  ⟨s.baseReplacementHistory, s.rolloutSuffix, s.openBase, t.closed⟩

def ActiveReplaySegment.trace (seg : ActiveReplaySegment) : TurnSegment :=
  ⟨seg.turnId, seg.countsAsUserTurn, seg.baseReplacementHistory.isSome⟩

structure Tracks (s : ReverseReplay) (t : SegmentTrace) : Prop where
  pending : t.pending = s.pendingRollbackTurns
  current : t.current = s.activeSegment.map (·.trace)

def CheckpointView.close (v : CheckpointView) (rolledBack : Bool) : CheckpointView :=
  ⟨if rolledBack then v.base else v.base.or v.openBase, v.suffix, none,
    v.closed ++ [⟨v.openBase.isSome, rolledBack⟩]⟩

inductive ViewStep (newer : List RolloutItem) : RolloutItem → CheckpointView → CheckpointView → Prop
  | quiet {item v} (h : newestCheckpoint (item :: newer) = newestCheckpoint newer) :
      ViewStep newer item v v
  | shadowed {compacted base v} (hb : compacted.replacementHistory = some base)
      (ho : v.openBase.isSome) : ViewStep newer (.compacted compacted) v v
  | found {compacted base v} (hb : compacted.replacementHistory = some base)
      (ho : v.openBase = none) :
      ViewStep newer (.compacted compacted) v { v with suffix := newer, openBase := some base }
  | closed {turnId v} (rolledBack : Bool) :
      ViewStep newer (.eventMsg (.turnStarted turnId)) v (v.close rolledBack)

variable {s : ReverseReplay} {t : SegmentTrace} {full items : List RolloutItem}
  {v : CheckpointView} {item : RolloutItem} {newer : List RolloutItem}

theorem viewOf_finalize (h : Tracks s t) {seg : ActiveReplaySegment}
    (hseg : s.activeSegment = some seg) :
    Tracks (finalizeActiveSegment seg { s with activeSegment := none }) t.close ∧
      viewOf (finalizeActiveSegment seg { s with activeSegment := none }) t.close =
        (viewOf s t).close (0 < s.pendingRollbackTurns) := by
  obtain ⟨hp, hc⟩ := h
  rw [hseg] at hc
  unfold finalizeActiveSegment SegmentTrace.close
  simp only [hc, map_some, hp]
  by_cases hpos : 0 < s.pendingRollbackTurns
  · simp only [hpos, if_true, true_and, decide_true]
    cases hu : seg.countsAsUserTurn with
    | true | false =>
      refine ⟨⟨by simp [ActiveReplaySegment.trace, hu], rfl⟩, ?_⟩
      simp [viewOf, CheckpointView.close, ReverseReplay.openBase, hseg, ActiveReplaySegment.trace]
  · simp only [hpos, if_false, false_and, decide_false]
    refine ⟨⟨rfl, rfl⟩, ?_⟩
    simp [viewOf, CheckpointView.close, ReverseReplay.openBase, hseg, ActiveReplaySegment.trace]

theorem viewOf_updateSegment (h : Tracks s t) (f : ActiveReplaySegment → ActiveReplaySegment)
    (g : TurnSegment → TurnSegment) (hfg : ∀ seg, (f seg).trace = g seg.trace)
    (hf : ∀ seg, (f seg).baseReplacementHistory = seg.baseReplacementHistory) :
    Tracks (s.updateSegment f) (t.note g) ∧ viewOf (s.updateSegment f) (t.note g) = viewOf s t := by
  obtain ⟨hp, hc⟩ := h
  refine ⟨⟨hp, ?_⟩, ?_⟩
  · unfold ReverseReplay.updateSegment SegmentTrace.note
    simp only [hc, map_some, hfg]
    cases s.activeSegment <;> rfl
  · unfold ReverseReplay.updateSegment SegmentTrace.note viewOf ReverseReplay.openBase
    cases hs : s.activeSegment with
    | none => simp [hf, ActiveReplaySegment.default]
    | some seg => simp [hf]

theorem viewOf_noteTurnId (h : Tracks s t) (turnId : Option Text) :
    Tracks (s.updateSegment (·.noteTurnId turnId)) (t.noteTurnId turnId) ∧
      viewOf (s.updateSegment (·.noteTurnId turnId)) (t.noteTurnId turnId) = viewOf s t :=
  viewOf_updateSegment h _ (fun seg => { seg with turnId := seg.turnId.or turnId })
    (fun _ => rfl) (fun _ => rfl)

theorem noteTurnContext_trace (item : TurnContextItem) (seg : ActiveReplaySegment) :
    (seg.noteTurnContext item).trace =
        { seg.trace with turnId := seg.trace.turnId.or item.turnId } ∧
      (seg.noteTurnContext item).baseReplacementHistory = seg.baseReplacementHistory := by
  unfold ActiveReplaySegment.noteTurnContext
  simp only
  split
  · exact ⟨rfl, rfl⟩
  · exact ⟨rfl, rfl⟩

theorem noteCompacted_view (h : Tracks s t) (newer : List RolloutItem) (compacted : CompactedItem) :
    Tracks (noteCompacted newer compacted s) (t.step ctx (.compacted compacted)) ∧
      ViewStep newer (.compacted compacted) (viewOf s t)
        (viewOf (noteCompacted newer compacted s) (t.step ctx (.compacted compacted))) := by
  obtain ⟨hp, hc⟩ := h
  have hopen : s.openBase = (s.activeSegment.getD .default).baseReplacementHistory := by
    unfold ReverseReplay.openBase
    cases s.activeSegment <;> rfl
  have hcur : t.current.getD ⟨none, false, false⟩ = (s.activeSegment.getD .default).trace := by
    rw [hc]
    cases s.activeSegment <;> rfl
  have hview : ∀ seg : ActiveReplaySegment, seg.baseReplacementHistory = s.openBase →
      ∀ current, viewOf { s with activeSegment := some seg } { t with current := current } =
        viewOf s t := by
    intro seg hseg current
    unfold viewOf
    rw [← hseg]
    rfl
  have htrace : t.step ctx (.compacted compacted) =
      { t with current := some { (s.activeSegment.getD .default).trace with
        checkpoint := (s.activeSegment.getD .default).trace.checkpoint ||
          compacted.replacementHistory.isSome } } := by
    simp only [SegmentTrace.step, SegmentTrace.note, hcur]
  rw [htrace]
  unfold noteCompacted
  simp only
  cases hb : (s.activeSegment.getD .default).baseReplacementHistory with
  | some base =>
    -- the turn has its checkpoint already
    cases hr : compacted.replacementHistory with
    | none =>
      refine ⟨⟨hp, by simp [ActiveReplaySegment.trace, hb]⟩, ?_⟩
      rw [hview _ (by rw [hopen, hb])]
      exact .quiet (by simp [newestCheckpoint, hr])
    | some found =>
      refine ⟨⟨hp, by simp [ActiveReplaySegment.trace, hb]⟩, ?_⟩
      rw [hview _ (by rw [hopen, hb])]
      exact .shadowed hr (by simp [viewOf, hopen, hb])
  | none =>
    cases hr : compacted.replacementHistory with
    | none =>
      refine ⟨⟨hp, by simp [ActiveReplaySegment.trace, hb]⟩, ?_⟩
      rw [hview _ (by rw [hopen, hb])]
      exact .quiet (by simp [newestCheckpoint, hr])
    | some found =>
      refine ⟨⟨hp, by simp [ActiveReplaySegment.trace]⟩, ?_⟩
      exact .found hr (hopen.trans hb)

theorem reverseStep_view (h : Tracks s t) (newer : List RolloutItem) (item : RolloutItem) :
    Tracks (reverseStep ctx newer item s) (t.step ctx item) ∧
      ViewStep newer item (viewOf s t) (viewOf (reverseStep ctx newer item s) (t.step ctx item)) := by
  have hquiet : ∀ {s' : ReverseReplay} {t' : SegmentTrace},
      newestCheckpoint (item :: newer) = newestCheckpoint newer →
      Tracks s' t' ∧ viewOf s' t' = viewOf s t →
      Tracks s' t' ∧ ViewStep newer item (viewOf s t) (viewOf s' t') := by
    intro s' t' hnew hs
    refine ⟨hs.1, ?_⟩
    rw [hs.2]
    exact .quiet hnew
  cases item with
  | compacted compacted => exact noteCompacted_view ctx h newer compacted
  | sessionMeta => exact hquiet (or_none) ⟨h, rfl⟩
  | responseItem item =>
    exact hquiet or_none (viewOf_updateSegment h
      (fun seg => { seg with
        countsAsUserTurn := seg.countsAsUserTurn || isUserTurnBoundary ctx.formats item })
      (fun seg => { seg with userTurn := seg.userTurn || isUserTurnBoundary ctx.formats item })
      (fun _ => rfl) (fun _ => rfl))
  | turnContext item =>
    exact hquiet or_none (viewOf_updateSegment h _
      (fun seg => { seg with turnId := seg.turnId.or item.turnId })
      (fun seg => (noteTurnContext_trace item seg).1) (fun seg => (noteTurnContext_trace item seg).2))
  | eventMsg event =>
    cases event with
    | other => exact hquiet or_none ⟨h, rfl⟩
    | threadRolledBack n =>
      refine hquiet or_none ⟨⟨?_, h.current⟩, rfl⟩
      simp only [SegmentTrace.step, reverseStep, h.pending]
    | userMessage =>
      exact hquiet or_none (viewOf_updateSegment h
        (fun seg => { seg with countsAsUserTurn := true }) (fun seg => { seg with userTurn := true })
        (fun _ => rfl) (fun _ => rfl))
    | turnComplete id => exact hquiet or_none (viewOf_noteTurnId h (some id))
    | turnAborted id =>
      cases id with
      | none =>
        cases hs : s.activeSegment with
        | none =>
          simp only [reverseStep, hs]
          exact hquiet or_none ⟨h, rfl⟩
        | some seg =>
          have hstep : reverseStep ctx newer (.eventMsg (.turnAborted none)) s = s := by
            obtain ⟨base, settings, ref, pending, suffix, active⟩ := s
            subst hs
            simp [reverseStep, ReverseReplay.updateSegment, ActiveReplaySegment.noteTurnId]
          rw [hstep]
          exact hquiet or_none ⟨h, rfl⟩
      | some id =>
        have hstep : reverseStep ctx newer (.eventMsg (.turnAborted (some id))) s =
            s.updateSegment (·.noteTurnId (some id)) := by
          unfold reverseStep
          cases s.activeSegment <;> rfl
        rw [hstep]
        exact hquiet or_none (viewOf_noteTurnId h (some id))
    | turnStarted id =>
      cases hs : s.activeSegment with
      | none =>
        have hcur : t.current = none := by rw [h.current, hs]; rfl
        simp only [reverseStep, SegmentTrace.step, hs, hcur]
        exact hquiet or_none ⟨h, rfl⟩
      | some seg =>
        have hcur : t.current = some seg.trace := by rw [h.current, hs]; rfl
        have hid : seg.trace.turnId = seg.turnId := rfl
        simp only [reverseStep, SegmentTrace.step, hs, hcur, hid]
        split
        · obtain ⟨h1, h2⟩ := viewOf_finalize h hs
          refine ⟨h1, ?_⟩
          rw [h2]
          exact .closed _
        · exact hquiet or_none ⟨h, rfl⟩

/-! ## The invariant of the scan -/

def CheckpointView.checkpoints (v : CheckpointView) : Nat :=
  (v.closed.filter (·.checkpoint)).length + if v.openBase.isSome then 1 else 0

/-- What the view says of the items read so far, of a rollout `full`: no checkpoint,
one in the turn in progress, one in a finished turn, or at least two. -/
inductive CheckpointState (full items : List RolloutItem) (v : CheckpointView) : Prop
  | absent (hn : newestCheckpoint items = none) (hc : v.closed.filter (·.checkpoint) = [])
      (hb : v.base = none) (ho : v.openBase = none) (hs : v.suffix = full)
  | inProgress (base : List ResponseItem) (hn : newestCheckpoint items = some (base, v.suffix))
      (hc : v.closed.filter (·.checkpoint) = []) (hb : v.base = none) (ho : v.openBase = some base)
  | single (base : List ResponseItem) (rolledBack : Bool)
      (hn : newestCheckpoint items = some (base, v.suffix))
      (hc : v.closed.filter (·.checkpoint) = [⟨true, rolledBack⟩])
      (hb : v.base = if rolledBack then none else some base) (ho : v.openBase = none)
  | several (found : List ResponseItem × List RolloutItem)
      (hn : newestCheckpoint items = some found) (hs : newestCheckpoint v.suffix = some found)
      (hc : 2 ≤ v.checkpoints)

variable (rolledBack : Bool)

theorem CheckpointView.close_filter (v : CheckpointView) :
    (v.close rolledBack).closed.filter (·.checkpoint) =
      v.closed.filter (·.checkpoint) ++ if v.openBase.isSome then [⟨true, rolledBack⟩] else [] := by
  unfold CheckpointView.close
  rw [filter_append]
  cases v.openBase <;> rfl

theorem CheckpointView.close_checkpoints (v : CheckpointView) :
    (v.close rolledBack).checkpoints = v.checkpoints := by
  unfold CheckpointView.checkpoints
  rw [close_filter, length_append]
  cases v.openBase <;> rfl

section
variable (h : CheckpointState full items v)
include h

theorem CheckpointState.close : CheckpointState full items (v.close rolledBack) := by
  cases h with
  | absent hn hc hb ho hs =>
    refine .absent hn ?_ ?_ rfl hs
    · rw [CheckpointView.close_filter, hc, ho]
      rfl
    · simp [CheckpointView.close, hb, ho]
  | inProgress base hn hc hb ho =>
    refine .single base rolledBack hn ?_ ?_ rfl
    · rw [CheckpointView.close_filter, hc, ho]
      rfl
    · simp [CheckpointView.close, hb, ho]
  | single base rb hn hc hb ho =>
    refine .single base rb hn ?_ ?_ rfl
    · rw [CheckpointView.close_filter, hc, ho]
      rfl
    · simp [CheckpointView.close, hb, ho]
  | several found hn hs hc =>
    refine .several found hn hs ?_
    rw [CheckpointView.close_checkpoints]
    exact hc

theorem CheckpointState.quiet (hq : newestCheckpoint (item :: items) = newestCheckpoint items) :
    CheckpointState full (item :: items) v := by
  cases h with
  | absent hn hc hb ho hs => exact .absent (hq.trans hn) hc hb ho hs
  | inProgress base hn hc hb ho => exact .inProgress base (hq.trans hn) hc hb ho
  | single base rb hn hc hb ho => exact .single base rb (hq.trans hn) hc hb ho
  | several found hn hs hc => exact .several found (hq.trans hn) hs hc

theorem CheckpointState.step {v' : CheckpointView}
    (hv : ViewStep items item v v') : CheckpointState full (item :: items) v' := by
  cases hv with
  | quiet hq => exact h.quiet hq
  | closed rolledBack => exact (h.close rolledBack).quiet or_none
  | shadowed hr hopen =>
    cases h with
    | absent hn hc hb ho hs =>
      rw [ho] at hopen
      cases hopen
    | inProgress base hn hc hb ho =>
      exact .inProgress base (by rw [newestCheckpoint, hn, some_or]) hc hb ho
    | single base rb hn hc hb ho =>
      rw [ho] at hopen
      cases hopen
    | several found hn hs hc =>
      exact .several found (by rw [newestCheckpoint, hn, some_or]) hs hc
  | found hr hopen =>
    cases h with
    | absent hn hc hb ho hs =>
      refine .inProgress _ ?_ hc hb rfl
      simp [newestCheckpoint, hn, hr]
    | inProgress base hn hc hb ho =>
      rw [hopen] at ho
      cases ho
    | single base rb hn hc hb ho =>
      refine .several _ (by rw [newestCheckpoint, hn, some_or]) hn ?_
      simp [CheckpointView.checkpoints, hc]
    | several found hn hs hc =>
      refine .several found (by rw [newestCheckpoint, hn, some_or]) hn ?_
      simp only [CheckpointView.checkpoints, hopen] at hc ⊢
      simp only [isSome_none, Bool.false_eq_true, if_false] at hc
      omega

end

/-- A surviving checkpoint in a finished turn, or at least two checkpoints. -/
def CheckpointView.Spared (v : CheckpointView) : Prop :=
  ⟨true, false⟩ ∈ v.closed ∨ 2 ≤ v.checkpoints

theorem CheckpointView.Spared.close (h : v.Spared) : (v.close rolledBack).Spared := by
  rcases h with h | h
  · exact .inl (mem_append_left _ h)
  · refine .inr ?_
    rw [close_checkpoints]
    exact h

theorem CheckpointView.Spared.step {v' : CheckpointView} (h : v.Spared)
    (hv : ViewStep newer item v v') : v'.Spared := by
  cases hv with
  | quiet hq | shadowed hr hopen => exact h
  | closed rolledBack => exact h.close rolledBack
  | found hr hopen =>
    rcases h with h | h
    · exact .inl h
    · refine .inr ?_
      simp only [checkpoints, hopen] at h ⊢
      simp only [isSome_none, Bool.false_eq_true, if_false] at h
      omega

theorem CheckpointState.spared (h : CheckpointState full items v) (hb : v.base.isSome) :
    v.Spared := by
  cases h with
  | absent hn hc hb' ho hs | inProgress base hn hc hb' ho =>
    rw [hb'] at hb
    cases hb
  | single base rb hn hc hb' ho =>
    cases rb with
    | true =>
      rw [hb'] at hb
      cases hb
    | false =>
      refine .inl ?_
      have hmem : (⟨true, false⟩ : ClosedSegment) ∈ v.closed.filter (·.checkpoint) := by
        rw [hc]
        exact mem_singleton_self _
      exact (mem_filter.mp hmem).1
  | several found hn hs hc => exact .inr hc

/-! ## Whole rollouts -/

theorem scan_state (full items : List RolloutItem) :
    Tracks (backward (reverseStep ctx) (.start full) items) (segmentTrace ctx items) ∧
      CheckpointState full items
        (viewOf (backward (reverseStep ctx) (.start full) items) (segmentTrace ctx items)) := by
  induction items with
  | nil => exact ⟨⟨rfl, rfl⟩, .absent rfl rfl rfl rfl rfl⟩
  | cons item items ih =>
    obtain ⟨ht, hs⟩ := ih
    obtain ⟨ht', hv⟩ := reverseStep_view ctx ht items item
    exact ⟨ht', hs.step hv⟩

theorem close_view (h : Tracks s t) :
    viewOf s.close t.close = (viewOf s t).close (0 < s.pendingRollbackTurns) ∨
      (s.openBase = none ∧ viewOf s.close t.close = viewOf s t) := by
  unfold ReverseReplay.close
  cases hs : s.activeSegment with
  | some seg => exact .inl (viewOf_finalize h hs).2
  | none =>
    have ht : t.close = t := by
      unfold SegmentTrace.close
      rw [h.current, hs]
      rfl
    rw [ht]
    exact .inr ⟨by unfold ReverseReplay.openBase; rw [hs]; rfl, rfl⟩

theorem close_state (h : Tracks s t) (hs : CheckpointState full items (viewOf s t)) :
    CheckpointState full items (viewOf s.close t.close) ∧ (viewOf s.close t.close).openBase = none := by
  rcases close_view h with hv | ⟨ho, hv⟩
  · rw [hv]
    exact ⟨hs.close _, rfl⟩
  · rw [hv]
    exact ⟨hs, ho⟩

theorem close_spared (h : Tracks s t) (hs : (viewOf s t).Spared) :
    (viewOf s.close t.close).Spared := by
  rcases close_view h with hv | ⟨-, hv⟩
  · rw [hv]
    exact hs.close _
  · rw [hv]
    exact hs

theorem materialize_history (s : ReverseReplay) :
    (s.materialize ctx).history = replayOver ctx (s.baseReplacementHistory.getD []) s.rolloutSuffix := by
  unfold ReverseReplay.materialize replayOver replayFrom
  cases s.baseReplacementHistory with
  | some base => rfl
  | none => exact foldl_replayItem_items ctx (by rfl) s.rolloutSuffix

theorem not_lost_of_spared (h : v.Spared) (hv : v.closed = turnSegments ctx items)
    (ho : v.openBase = none) : ¬ CheckpointLost ctx items := by
  intro hlost
  unfold CheckpointLost at hlost
  rw [← hv] at hlost
  rcases h with h | h
  · have hmem : (⟨true, false⟩ : ClosedSegment) ∈ v.closed.filter (·.checkpoint) :=
      mem_filter.mpr ⟨h, rfl⟩
    rw [hlost] at hmem
    cases mem_singleton.mp hmem
  · rw [CheckpointView.checkpoints, hlost, ho] at h
    exact absurd h (by decide)

theorem newestCheckpoint_append {found : List ResponseItem × List RolloutItem}
    (h : newestCheckpoint newer = some found) (older : List RolloutItem) :
    newestCheckpoint (older ++ newer) = some found := by
  induction older with
  | nil => exact h
  | cons item older ih =>
    rw [cons_append]
    unfold newestCheckpoint
    rw [ih, some_or]

theorem eagerReplay_of_checkpoint {base : List ResponseItem} {tail : List RolloutItem}
    (h : newestCheckpoint items = some (base, tail)) :
    eagerReplay ctx items = replayOver ctx base tail :=
  replay_of_checkpoint ctx h _

theorem replay_of_state {older : List RolloutItem} (h : CheckpointState (older ++ newer) newer v)
    (hb : v.base.isSome) :
    replayOver ctx (v.base.getD []) v.suffix = eagerReplay ctx (older ++ newer) := by
  cases h with
  | absent hn hc hb' ho hs | inProgress base hn hc hb' ho =>
    rw [hb'] at hb
    cases hb
  | single base rb hn hc hb' ho =>
    rw [eagerReplay_of_checkpoint ctx (newestCheckpoint_append hn older), hb']
    cases rb with
    | true =>
      rw [hb'] at hb
      cases hb
    | false => rfl
  | several found hn hs hc =>
    rw [eagerReplay_of_checkpoint ctx (newestCheckpoint_append hn older)]
    exact replay_of_checkpoint ctx hs _

theorem scan_stopped_early {older : List RolloutItem}
    (hstop : (backward (reverseStep ctx) (.start (older ++ newer)) newer).settled = true) :
    ((backward (reverseStep ctx) (.start (older ++ newer)) newer).close.materialize ctx).history =
        eagerReplay ctx (older ++ newer) ∧
      ¬ CheckpointLost ctx (older ++ newer) := by
  obtain ⟨ht, hs⟩ := scan_state ctx (older ++ newer) newer
  have hbase : (viewOf (backward (reverseStep ctx) (.start (older ++ newer)) newer)
      (segmentTrace ctx newer)).base.isSome := by
    simp only [ReverseReplay.settled, Bool.and_eq_true] at hstop
    exact hstop.1.1
  constructor
  · obtain ⟨hc, ho⟩ := close_state ht hs
    have hkept : (viewOf (backward (reverseStep ctx) (.start (older ++ newer)) newer).close
        (segmentTrace ctx newer).close).base.isSome := by
      rcases close_view ht with hv | ⟨-, hv⟩
      · rw [hv]
        obtain ⟨base, hb⟩ := isSome_iff_exists.mp hbase
        simp only [CheckpointView.close, hb, some_or, ite_self]
        rfl
      · rw [hv]
        exact hbase
    rw [materialize_history]
    exact replay_of_state ctx hc hkept
  · -- what is older cannot make the checkpoint a lost one
    have hspared : ∀ rest : List RolloutItem,
        Tracks (backward (reverseStep ctx) (.start (older ++ newer)) (rest ++ newer))
            (segmentTrace ctx (rest ++ newer)) ∧
          (viewOf (backward (reverseStep ctx) (.start (older ++ newer)) (rest ++ newer))
            (segmentTrace ctx (rest ++ newer))).Spared := by
      intro rest
      induction rest with
      | nil => exact ⟨ht, hs.spared hbase⟩
      | cons item rest ih =>
        obtain ⟨ht', hv⟩ := reverseStep_view ctx ih.1 (rest ++ newer) item
        exact ⟨ht', ih.2.step hv⟩
    obtain ⟨ht', hsp⟩ := hspared older
    obtain ⟨-, ho⟩ := close_state ht' (scan_state ctx (older ++ newer) (older ++ newer)).2
    exact not_lost_of_spared ctx (close_spared ht' hsp) rfl ho

/-- The reconstructed history is the eager one, unless the only turn with a
replacement history is rolled back and replaying what is behind that history does
not come out the same without it. -/
theorem reconstructed_history_eq_eager (items : List RolloutItem) :
    (reconstructHistoryFromRollout ctx items).history = eagerReplay ctx items ↔
      (CheckpointLost ctx items → ∀ base tail, newestCheckpoint items = some (base, tail) →
        replayOver ctx [] tail = replayOver ctx base tail) := by
  unfold reconstructHistoryFromRollout reverseReplay
  rcases backwardUntil_cases (reverseStep ctx) ReverseReplay.settled (.start items) items with
    ⟨older, newer, hl, -, hrun, hstop⟩ | hrun
  · rw [hrun]
    subst hl
    obtain ⟨heq, hlost⟩ := scan_stopped_early ctx hstop
    exact ⟨fun _ h => absurd h hlost, fun _ => heq⟩
  · rw [hrun]
    obtain ⟨ht, hs⟩ := scan_state ctx items items
    obtain ⟨hc, ho⟩ := close_state ht hs
    simp only [materialize_history]
    generalize hv : viewOf (backward (reverseStep ctx) (.start items) items).close
      (segmentTrace ctx items).close = v at hc ho
    have hbase : (backward (reverseStep ctx) (.start items) items).close.baseReplacementHistory =
        v.base := by rw [← hv]; rfl
    have hsuffix : (backward (reverseStep ctx) (.start items) items).close.rolloutSuffix =
        v.suffix := by rw [← hv]; rfl
    have hclosed : v.closed = turnSegments ctx items := by rw [← hv]; rfl
    rw [hbase, hsuffix]
    cases hc with
    | absent hn hf hb ho' hs' =>
      have hlost : ¬ CheckpointLost ctx items := by
        unfold CheckpointLost
        rw [← hclosed, hf]
        exact (cons_ne_nil _ _).symm
      refine ⟨fun _ h => absurd h hlost, fun _ => ?_⟩
      rw [hb, hs']
      exact (eagerReplay_eq ctx items).symm
    | inProgress base hn hf hb ho' =>
      rw [ho] at ho'
      cases ho'
    | single base rb hn hf hb ho' =>
      rw [eagerReplay_of_checkpoint ctx hn, hb]
      cases rb with
      | false =>
        have hlost : ¬ CheckpointLost ctx items := by
          unfold CheckpointLost
          rw [← hclosed, hf]
          decide
        exact ⟨fun _ h => absurd h hlost, fun _ => rfl⟩
      | true =>
        have hlost : CheckpointLost ctx items := by
          unfold CheckpointLost
          rw [← hclosed, hf]
        constructor
        · intro h _ base' tail' hn'
          rw [hn] at hn'
          cases hn'
          exact h
        · intro h
          exact h hlost base v.suffix hn
    | several found hn hs' hf =>
      have hlost := not_lost_of_spared ctx (.inr hf) hclosed ho
      refine ⟨fun _ h => absurd h hlost, fun _ => ?_⟩
      rw [eagerReplay_of_checkpoint ctx hn]
      exact replay_of_checkpoint ctx hs' _

end

def plainContext : ReplayContext :=
  ⟨⟨fun _ => false, fun _ => false⟩, .bytes 10000, fun budget => (6 * budget + 4) / 5⟩

def compactedThenRolledBack : List RolloutItem :=
  [.eventMsg (.turnStarted ['1']), .eventMsg .userMessage,
    .responseItem (userTextMessage "one".toList), .eventMsg (.turnComplete ['1']),
    .eventMsg (.turnStarted ['2']), .eventMsg .userMessage,
    .responseItem (userTextMessage "two".toList),
    .compacted ⟨"summary".toList,
      some [userTextMessage "one".toList, userTextMessage "summary".toList]⟩,
    .eventMsg (.turnComplete ['2']), .eventMsg (.threadRolledBack 1)]

theorem rolledBack_compaction_empties_history :
    (reconstructHistoryFromRollout plainContext compactedThenRolledBack).history = [] ∧
      eagerReplay plainContext compactedThenRolledBack = [userTextMessage "one".toList] := by
  decide

end Codex
