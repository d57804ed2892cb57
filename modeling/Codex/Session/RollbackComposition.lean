import Codex.Session.TurnCut

/-!
# Rollbacks one after the other

Two rollbacks leave the items that one over as many turns leaves. The baseline is cleared
for a mixed bundle that is taken along in front of the cut, and not for one behind it, so
it may outlive the bundle that established it.
-/

namespace Codex

open Foundation ContextManager List

section
variable (formats : EmbeddedFormats)

def takesMixedAlong (items : List ResponseItem) : Bool :=
  items.any (isUserTurnBoundary formats) &&
    (items.rtakeWhile (isPreTurnContext formats)).any isMixedDevMessage

def rollbackCut (items : List ResponseItem) (numTurns : ℕ) : ℕ :=
  if numTurns = 0 then items.length
  else
    let userPositions := userMessagePositions formats items
    match userPositions with
    | [] => items.length
    | first :: _ =>
      if userPositions.length ≤ numTurns then first
      else userPositions[userPositions.length - numTurns]?.getD 0

variable {formats}

/-! ## The baseline -/

variable {h : ContextManager} {numTurns : ℕ}

theorem dropLast_reference {x z : List ResponseItem} {y : ResponseItem}
    (hitems : h.items = x ++ y :: z) (hy : isUserTurnBoundary formats y = true)
    (hpos : 0 < numTurns) (hcount : ((y :: z).filter (isUserTurnBoundary formats)).length =
      min numTurns ((x ++ y :: z).filter (isUserTurnBoundary formats)).length) :
    (h.dropLastNUserTurns formats numTurns).referenceContextItem =
      if takesMixedAlong formats x then none else h.referenceContextItem := by
  have htake : (x ++ y :: z).take x.length = x := by simp
  have hflag : ∀ first rest, userMessagePositions formats (x ++ y :: z) = first :: rest →
      (trimPreTurnContextUpdates formats (x ++ y :: z) first x.length).2 =
        takesMixedAlong formats x := by
    intro first rest hP
    obtain ⟨hlt, f, hf, hturn⟩ := mem_userMessagePositions
      (show first ∈ userMessagePositions formats (x ++ y :: z) by simp [hP])
    rw [trim_flag hf hturn _ (by simp), htake]
    unfold takesMixedAlong
    rw [userMessagePositions_append] at hP
    cases hx : userMessagePositions formats x with
    | nil =>
      have hany := userMessagePositions_eq_nil.mp hx
      have hge : ¬ first < x.length := by
        rw [hx, nil_append] at hP
        obtain ⟨n, -, hn⟩ := mem_map.mp (show first ∈ _ by rw [hP]; exact mem_cons_self)
        omega
      rw [if_neg hge, hany, Bool.false_and]
    | cons first' rest' =>
      rw [hx, cons_append] at hP
      obtain ⟨hlt', f', hf', hturn'⟩ := mem_userMessagePositions
        (show first' ∈ userMessagePositions formats x by simp [hx])
      have hany : x.any (isUserTurnBoundary formats) = true :=
        any_eq_true.mpr ⟨f', mem_of_getElem? hf', hturn'⟩
      rw [if_pos (by rw [← (List.cons.inj hP).1]; exact hlt'), hany, Bool.true_and]
  unfold dropLastNUserTurns
  rw [if_neg (Nat.ne_of_gt hpos), hitems]
  dsimp only
  cases hP : userMessagePositions formats (x ++ y :: z) with
  | nil =>
    rw [userMessagePositions_eq_nil, any_append, any_cons, hy] at hP
    simp at hP
  | cons first rest =>
    dsimp only
    rw [cut_position hy hcount hP, hflag first rest hP]
    cases takesMixedAlong formats x <;> rfl

theorem dropLast_none (hnone : h.items.any (isUserTurnBoundary formats) = false) (numTurns : ℕ) :
    (h.dropLastNUserTurns formats numTurns).items = h.items ∧
      (h.dropLastNUserTurns formats numTurns).referenceContextItem = h.referenceContextItem := by
  unfold dropLastNUserTurns
  split
  · exact ⟨rfl, rfl⟩
  · simp only [userMessagePositions_eq_nil.mpr hnone]
    exact ⟨rfl, rfl⟩

theorem dropLast_items (h : ContextManager) (numTurns : ℕ) :
    (h.dropLastNUserTurns formats numTurns).items = dropTurns formats h.items numTurns :=
  @dropLastNUserTurns_items h ⟨h.items, 0, none⟩ rfl formats numTurns

variable (formats) in
structure CutsAt (h : ContextManager) (numTurns : ℕ) (x : List ResponseItem) : Prop where
  cut : rollbackCut formats h.items numTurns = x.length
  items : (h.dropLastNUserTurns formats numTurns).items = trimmed formats x
  reference : (h.dropLastNUserTurns formats numTurns).referenceContextItem =
    if takesMixedAlong formats x then none else h.referenceContextItem

theorem cutsAt {x z : List ResponseItem} {y : ResponseItem} (hitems : h.items = x ++ y :: z)
    (hy : isUserTurnBoundary formats y = true) (hpos : 0 < numTurns)
    (hcount : ((y :: z).filter (isUserTurnBoundary formats)).length =
      min numTurns ((x ++ y :: z).filter (isUserTurnBoundary formats)).length) :
    CutsAt formats h numTurns x := by
  refine ⟨?_, ?_, dropLast_reference hitems hy hpos hcount⟩
  · unfold rollbackCut
    rw [if_neg (Nat.ne_of_gt hpos), hitems]
    cases hP : userMessagePositions formats (x ++ y :: z) with
    | nil =>
      rw [userMessagePositions_eq_nil, any_append, any_cons, hy] at hP
      simp at hP
    | cons first rest => exact cut_position hy hcount hP
  · rw [dropLast_items, hitems]
    exact dropTurns_eq hy hpos hcount

theorem rollbackCut_none {items : List ResponseItem}
    (h : numTurns = 0 ∨ items.any (isUserTurnBoundary formats) = false) :
    rollbackCut formats items numTurns = items.length := by
  unfold rollbackCut
  split
  · rfl
  · next hpos =>
    simp only [userMessagePositions_eq_nil.mpr (h.resolve_left hpos)]

theorem drops_cases (h : ContextManager) (numTurns : ℕ) :
    (numTurns = 0 ∨ h.items.any (isUserTurnBoundary formats) = false) ∨
    ∃ x y z, h.items = x ++ y :: z ∧ isUserTurnBoundary formats y = true ∧ 0 < numTurns ∧
      ((y :: z).filter (isUserTurnBoundary formats)).length =
        min numTurns ((x ++ y :: z).filter (isUserTurnBoundary formats)).length := by
  rcases Nat.eq_zero_or_pos numTurns with hzero | hpos
  · exact .inl (.inl hzero)
  · obtain ⟨hnone, -⟩ | ⟨x, y, z, hitems, hy, hcount, -⟩ := dropTurns_cases formats h.items hpos
    · exact .inl (.inr hnone)
    · exact .inr ⟨x, y, z, hitems, hy, hpos, by rw [← hitems]; exact hcount⟩

theorem dropLast_nothing (hnone : numTurns = 0 ∨ h.items.any (isUserTurnBoundary formats) = false) :
    (h.dropLastNUserTurns formats numTurns).items = h.items ∧
      (h.dropLastNUserTurns formats numTurns).referenceContextItem = h.referenceContextItem := by
  obtain rfl | hnone := hnone
  · exact ⟨rfl, rfl⟩
  · exact dropLast_none hnone numTurns

variable (formats) in
def BaselineFollows (h : ContextManager) (numTurns : ℕ) : Prop :=
  h.referenceContextItem = none ∨
    ((h.items.drop (rollbackCut formats h.items numTurns)).any isMixedDevMessage = true →
      takesMixedAlong formats (h.items.take (rollbackCut formats h.items numTurns)) = true)

theorem trimmed_split {x : List ResponseItem} : ∃ along, x = trimmed formats x ++ along ∧
      (along.any isMixedDevMessage = true → takesMixedAlong formats x = true) := by
  unfold trimmed takesMixedAlong
  cases x.any (isUserTurnBoundary formats) with
  | true => exact ⟨x.rtakeWhile (isPreTurnContext formats),
      rdropWhile_append_rtakeWhile.symm, fun h => by simpa using h⟩
  | false => exact ⟨[], by simp, fun h => by simp at h⟩

theorem cleared_iff (h : ContextManager) (numTurns : ℕ) :
    ((h.items.drop (h.dropLastNUserTurns formats numTurns).items.length).any isMixedDevMessage =
        true → (h.dropLastNUserTurns formats numTurns).referenceContextItem = none) ↔
      BaselineFollows formats h numTurns := by
  unfold BaselineFollows
  obtain hnone | ⟨x, y, z, hitems, hy, hpos, hcount⟩ := @drops_cases formats h numTurns
  · rw [(dropLast_nothing hnone).1, rollbackCut_none hnone]
    simp
  · have hcuts := cutsAt hitems hy hpos hcount
    obtain ⟨along, hx, hmixed⟩ := @trimmed_split formats x
    have hremoved : ∀ kept, x = kept ++ along →
        (x ++ y :: z).drop kept.length = along ++ y :: z := by
      rintro kept rfl
      rw [List.append_assoc, drop_left]
    have htake : (x ++ y :: z).take x.length = x := by simp
    have hdrop : (x ++ y :: z).drop x.length = y :: z := by simp
    rw [hcuts.items, hcuts.reference, hcuts.cut, hitems, hremoved _ hx, htake, hdrop, any_append]
    cases htakes : takesMixedAlong formats x with
    | true => simp
    | false =>
      have hclean : along.any isMixedDevMessage = false :=
        Bool.eq_false_iff.mpr fun h => by simp [hmixed h] at htakes
      rw [hclean, Bool.false_or, if_neg Bool.false_ne_true]
      cases (y :: z).any isMixedDevMessage <;> simp

/-! ## Composition -/

variable (formats) in
theorem compose_cases (h : ContextManager) {m n : ℕ} (hm : 0 < m) (hn : 0 < n) :
    (h.items.any (isUserTurnBoundary formats) = false) ∨
    ∃ x, CutsAt formats h m x ∧
      ((x.any (isUserTurnBoundary formats) = false ∧ CutsAt formats h (m + n) x) ∨
      ∃ x', CutsAt formats (h.dropLastNUserTurns formats m) n x' ∧
        CutsAt formats h (m + n) x' ∧
        ∃ older newer, h.items = x' ++ older ++ x.rtakeWhile (isPreTurnContext formats) ++ newer) := by
  obtain (hzero | hnone) | ⟨x, y, z, hitems, hy, -, hcount⟩ := @drops_cases formats h m
  · omega
  · exact .inl hnone
  · right
    have hcuts := cutsAt hitems hy hm hcount
    refine ⟨x, hcuts, ?_⟩
    cases hany : x.any (isUserTurnBoundary formats) with
    | false =>
      have hzero : (x.filter (isUserTurnBoundary formats)).length = 0 := by
        rw [length_eq_zero_iff, filter_eq_nil_iff, ← any_eq_false]
        exact hany
      refine .inl ⟨rfl, cutsAt hitems hy (by omega) ?_⟩
      rw [filter_append, length_append]
      omega
    | true =>
      right
      have hkept : (h.dropLastNUserTurns formats m).items =
          x.rdropWhile (isPreTurnContext formats) := by
        rw [hcuts.items, trimmed, if_pos hany]
      have hfilter := filter_rdropWhile (q := isPreTurnContext formats)
        (p := isUserTurnBoundary formats) (fun item hturn => not_preTurnContext hturn) x
      have hsplit := @rdropWhile_append_rtakeWhile _ (isPreTurnContext formats) x
      obtain (hzero | hnone) | ⟨x', y', z', hitems', hy', -, hcount'⟩ :=
        @drops_cases formats (h.dropLastNUserTurns formats m) n
      · omega
      · rw [hkept, any_eq_false, ← filter_eq_nil_iff, hfilter, filter_eq_nil_iff,
          ← any_eq_false, hany] at hnone
        cases hnone
      · refine ⟨x', cutsAt hitems' hy' hn hcount', ?_⟩
        rw [hkept] at hitems'
        generalize x.rtakeWhile (isPreTurnContext formats) = along at hsplit ⊢
        rw [hitems'] at hfilter hsplit
        subst hsplit
        have hall : h.items = x' ++ y' :: (z' ++ along ++ y :: z) := by
          rw [hitems]
          simp
        refine ⟨cutsAt hall hy' (by omega) ?_, y' :: z', y :: z, by rw [hall]; simp⟩
        have hlen := congrArg List.length hfilter
        simp only [filter_append, length_append, filter_cons_of_pos hy,
          filter_cons_of_pos hy', length_cons] at hcount hcount' hlen ⊢
        omega

/-! ## Sound rollbacks -/

variable (formats) in
structure RollbacksCompose (h : ContextManager) (m n : ℕ) : Prop where
  items : ((h.dropLastNUserTurns formats m).dropLastNUserTurns formats n).items =
    (h.dropLastNUserTurns formats (m + n)).items
  reference :
    ((h.dropLastNUserTurns formats m).dropLastNUserTurns formats n).referenceContextItem =
      (h.dropLastNUserTurns formats (m + n)).referenceContextItem
  cleared : (h.items.drop (h.dropLastNUserTurns formats (m + n)).items.length).any
      isMixedDevMessage = true →
    (h.dropLastNUserTurns formats (m + n)).referenceContextItem = none

theorem any_rtakeWhile {x : List ResponseItem} (h : takesMixedAlong formats x = true) :
    (x.rtakeWhile (isPreTurnContext formats)).any isMixedDevMessage = true := by
  exact (Bool.and_eq_true_iff.mp h).2

theorem rollbacks_compose (h : ContextManager) (m n : ℕ) :
    RollbacksCompose formats h m n ↔ BaselineFollows formats h (m + n) := by
  refine ⟨fun hcompose => (cleared_iff h (m + n)).mp hcompose.cleared, fun hfollows => ?_⟩
  suffices hsame : ((h.dropLastNUserTurns formats m).dropLastNUserTurns formats n).items =
        (h.dropLastNUserTurns formats (m + n)).items ∧
      ((h.dropLastNUserTurns formats m).dropLastNUserTurns formats n).referenceContextItem =
        (h.dropLastNUserTurns formats (m + n)).referenceContextItem from
    ⟨hsame.1, hsame.2, (cleared_iff h (m + n)).mpr hfollows⟩
  rcases Nat.eq_zero_or_pos m with rfl | hm
  · rw [Nat.zero_add]
    exact ⟨rfl, rfl⟩
  rcases Nat.eq_zero_or_pos n with rfl | hn
  · exact ⟨rfl, rfl⟩
  obtain hnone | ⟨x, hcuts, ⟨hnone, hall⟩ | ⟨x', hsecond, hall, older, newer, hitems⟩⟩ :=
    compose_cases formats h hm hn
  · -- there is nothing to drop
    have hfirst := dropLast_none hnone m
    have hthen := dropLast_none (h := h.dropLastNUserTurns formats m) (by rw [hfirst.1]; exact hnone) n
    have hboth := dropLast_none hnone (m + n)
    exact ⟨by rw [hthen.1, hfirst.1, hboth.1], by rw [hthen.2, hfirst.2, hboth.2]⟩
  · -- the first rollback drops all of the turns
    have htrimmed : trimmed formats x = x := by
      unfold trimmed
      rw [if_neg (by simp [hnone])]
    have hthen := dropLast_none (h := h.dropLastNUserTurns formats m)
      (by rw [hcuts.items, htrimmed]; exact hnone) n
    exact ⟨by rw [hthen.1, hcuts.items, hall.items], by rw [hthen.2, hcuts.reference, hall.reference]⟩
  · refine ⟨by rw [hsecond.items, hall.items], ?_⟩
    rw [hsecond.reference, hall.reference, hcuts.reference]
    obtain hbaseline | hfollows := hfollows
    · simp [hbaseline]
    · cases htakes : takesMixedAlong formats x with
      | false => simp
      | true =>
        -- what the first rollback took along is behind the other cut
        have htake : (x' ++ older ++ x.rtakeWhile (isPreTurnContext formats) ++ newer).take
            x'.length = x' := by simp
        have hdrop : (x' ++ older ++ x.rtakeWhile (isPreTurnContext formats) ++ newer).drop
            x'.length = older ++ x.rtakeWhile (isPreTurnContext formats) ++ newer := by simp
        rw [hall.cut, hitems, htake, hdrop] at hfollows
        have htakes' := hfollows (by simp only [any_append, any_rtakeWhile htakes,
          Bool.or_true, Bool.true_or])
        rw [htakes', if_pos rfl, if_pos rfl]

end

def mixedBetweenTurns : ContextManager where
  items := [.message none USER [.inputText "one".toList] none,
    .message none DEVELOPER [.inputText "<model_switch>".toList, .inputText "Be brief.".toList] none,
    .message none USER [.inputText "two".toList] none]
  historyVersion := 0
  referenceContextItem := some ⟨none, "model".toList, none, []⟩

/-- One rollback over both turns keeps the baseline that two rollbacks clear. -/
theorem mixed_bundle_outlived :
    ¬ RollbacksCompose ⟨fun _ => false, fun _ => false⟩ mixedBetweenTurns 1 1 := by
  intro h
  have hreference := h.reference
  revert hreference
  decide +kernel

end Codex
