import Codex.Foundation.ListEnds
import Codex.Session.ContextManager

/-!
# Where a rollback cuts a history

A rollback cuts in front of the earliest turn it drops, and takes the injected context
right before it along. So it drops the last boundaries and no other, and does not see
what stands before a boundary that it leaves (`dropTurns_append`).
-/

namespace Codex

open Foundation ContextManager List

variable (formats : EmbeddedFormats)

def dropTurns (items : List ResponseItem) (numTurns : ℕ) : List ResponseItem :=
  ((⟨items, 0, none⟩ : ContextManager).dropLastNUserTurns formats numTurns).items

def isPreTurnContext : ResponseItem → Bool
  | .message _ role content _ =>
    (role == DEVELOPER && isContextualDevMessageContent content) ||
      (role == USER && isContextualUserMessageContent formats content)
  | _ => false

def isMixedDevMessage : ResponseItem → Bool
  | .message _ role content _ =>
    role == DEVELOPER && isContextualDevMessageContent content &&
      hasNonContextualDevMessageContent content
  | _ => false

def trimmed (items : List ResponseItem) : List ResponseItem :=
  if items.any (isUserTurnBoundary formats) then items.rdropWhile (isPreTurnContext formats)
  else items

variable {formats}

theorem not_preTurnContext {item : ResponseItem} (h : isUserTurnBoundary formats item = true) :
    isPreTurnContext formats item = false := by
  have hud : (USER == DEVELOPER) = false := by decide
  have had : (ASSISTANT == DEVELOPER) = false := by decide
  have hau : (ASSISTANT == USER) = false := by decide
  cases item with
  | message id role content phase =>
    unfold isUserTurnBoundary at h
    unfold isPreTurnContext
    simp only [Bool.or_eq_true, Bool.and_eq_true, beq_iff_eq, Bool.not_eq_true'] at h
    obtain ⟨hrole, hcontent⟩ | ⟨hrole, -⟩ := h
    · simp only [hrole, hud, hcontent, Bool.false_and, Bool.and_false, Bool.or_false]
    · simp only [hrole, had, hau, Bool.false_and, Bool.or_false]
  | _ => cases h

/-! ## Positions of turns -/

variable (formats) in
theorem userMessagePositions_append (x y : List ResponseItem) :
    userMessagePositions formats (x ++ y) =
      userMessagePositions formats x ++ (userMessagePositions formats y).map (x.length + ·) := by
  unfold userMessagePositions
  rw [length_append, range_add, filter_append, filter_map]
  congr 1
  · refine filter_congr fun idx hidx => ?_
    rw [List.getElem?_append_left (mem_range.mp hidx)]
  · congr 1
    refine filter_congr fun idx _ => ?_
    rw [Function.comp_apply, List.getElem?_append_right (Nat.le_add_right _ _),
      Nat.add_sub_cancel_left]

variable (formats) in
theorem userMessagePositions_length (items : List ResponseItem) :
    (userMessagePositions formats items).length =
      (items.filter (isUserTurnBoundary formats)).length := by
  induction items with
  | nil => rfl
  | cons item items ih =>
    have hsplit := userMessagePositions_append formats [item] items
    rw [singleton_append] at hsplit
    rw [hsplit, length_append, length_map, ih, filter_cons]
    by_cases h : isUserTurnBoundary formats item = true
    · simp [userMessagePositions, h, Nat.add_comm]
    · simp [userMessagePositions, h]

variable {x z : List ResponseItem} {y : ResponseItem} {items snapshot : List ResponseItem}
  {first : ℕ} {f : ResponseItem} {numTurns : ℕ}

theorem userMessagePositions_at (hy : isUserTurnBoundary formats y = true) :
    (userMessagePositions formats (x ++ y :: z))[(userMessagePositions formats x).length]? =
      some x.length := by
  have hcons : userMessagePositions formats (y :: z) =
      0 :: (userMessagePositions formats z).map (1 + ·) := by
    have hsplit := userMessagePositions_append formats [y] z
    rw [singleton_append] at hsplit
    rw [hsplit]
    simp [userMessagePositions, hy]
  rw [userMessagePositions_append, hcons]
  simp

theorem mem_userMessagePositions {idx : ℕ} (h : idx ∈ userMessagePositions formats items) :
    idx < items.length ∧ ∃ item, items[idx]? = some item ∧
      isUserTurnBoundary formats item = true := by
  obtain ⟨hrange, hturn⟩ := mem_filter.mp h
  have hlt := mem_range.mp hrange
  rw [List.getElem?_eq_getElem hlt] at hturn ⊢
  exact ⟨hlt, _, rfl, hturn⟩

theorem userMessagePositions_eq_nil : userMessagePositions formats items = [] ↔
      items.any (isUserTurnBoundary formats) = false := by
  rw [← length_eq_zero_iff, userMessagePositions_length, length_eq_zero_iff,
    filter_eq_nil_iff, any_eq_false]

/-! ## The cut -/

theorem trim_succ (snapshot : List ResponseItem) (first cut : ℕ) :
    trimPreTurnContextUpdates formats snapshot first (cut + 1) =
      if first < cut + 1 ∧ (snapshot[cut]?.any (isPreTurnContext formats)) = true then
        ((trimPreTurnContextUpdates formats snapshot first cut).1,
          (trimPreTurnContextUpdates formats snapshot first cut).2 ||
            snapshot[cut]?.any isMixedDevMessage)
      else (cut + 1, false) := by
  rw [trimPreTurnContextUpdates]
  by_cases hfirst : first < cut + 1
  · rw [if_pos hfirst]
    cases snapshot[cut]? with
    | none => simp
    | some item =>
      cases item with
      | message id role content phase =>
        by_cases hdev : role = DEVELOPER ∧ isContextualDevMessageContent content = true
        · simp [hdev, hfirst, isPreTurnContext, isMixedDevMessage]
        · by_cases huser : role = USER ∧ isContextualUserMessageContent formats content = true
          · have hnot : (USER == DEVELOPER) = false := by decide
            have hmixed : isMixedDevMessage (.message id role content phase) = false := by
              simp [isMixedDevMessage, huser.1, hnot]
            rw [if_pos ⟨hfirst, by simp [isPreTurnContext, huser]⟩]
            simp only [if_neg hdev, if_pos huser, Option.any_some, hmixed, Bool.or_false]
          · rw [if_neg (fun h => (by
              simp only [Option.any_some, isPreTurnContext, Bool.or_eq_true, Bool.and_eq_true,
                beq_iff_eq] at h
              exact h.2.elim hdev huser))]
            simp only [if_neg hdev, if_neg huser]
      | _ => simp [isPreTurnContext]
  · rw [if_neg hfirst, if_neg fun h => hfirst h.1]

section
variable (hf : snapshot[first]? = some f)
include hf

variable (hturn : isUserTurnBoundary formats f = true)
include hturn

theorem trim_eq (cut : ℕ) (hcut : cut ≤ snapshot.length) :
    (snapshot.take (trimPreTurnContextUpdates formats snapshot first cut).1,
        (trimPreTurnContextUpdates formats snapshot first cut).2) =
      if first < cut then
        ((snapshot.take cut).rdropWhile (isPreTurnContext formats),
          ((snapshot.take cut).rtakeWhile (isPreTurnContext formats)).any isMixedDevMessage)
      else (snapshot.take cut, false) := by
  induction cut with
  | zero => simp [trimPreTurnContextUpdates]
  | succ cut ih =>
    rw [trim_succ]
    by_cases hfirst : first < cut + 1
    · have hlast : snapshot.take (cut + 1) = snapshot.take cut ++ [snapshot[cut]] := by
        rw [take_succ_eq_append_getElem]
      have hget : snapshot[cut]? = some snapshot[cut] := List.getElem?_eq_getElem hcut
      rw [if_pos hfirst, hlast]
      by_cases hctx : isPreTurnContext formats snapshot[cut] = true
      · have hne : first ≠ cut := by
          rintro rfl
          rw [hf, Option.some.injEq] at hget
          rw [← hget, not_preTurnContext hturn] at hctx
          cases hctx
        obtain ⟨htake, hflag⟩ := Prod.mk.inj ((ih (Nat.le_of_lt hcut)).trans (if_pos (by omega)))
        rw [if_pos ⟨hfirst, by rw [hget]; exact hctx⟩, htake, hflag,
          rdropWhile_concat_pos _ _ _ hctx, rtakeWhile_concat_pos _ _ _ hctx, hget]
        simp [Bool.or_comm]
      · rw [if_neg fun h => hctx (by rw [hget] at h; exact h.2), hlast,
          rdropWhile_concat_neg _ _ _ hctx, rtakeWhile_concat_neg _ _ _ hctx]
        rfl
    · rw [if_neg fun h => hfirst h.1, if_neg hfirst]

theorem take_trim (cut : ℕ) (hcut : cut ≤ snapshot.length) :
    snapshot.take (trimPreTurnContextUpdates formats snapshot first cut).1 =
      if first < cut then (snapshot.take cut).rdropWhile (isPreTurnContext formats)
      else snapshot.take cut := by
  have h := congrArg Prod.fst (trim_eq hf hturn cut hcut)
  rwa [apply_ite Prod.fst] at h

theorem trim_flag (cut : ℕ) (hcut : cut ≤ snapshot.length) :
    (trimPreTurnContextUpdates formats snapshot first cut).2 =
      if first < cut then
        ((snapshot.take cut).rtakeWhile (isPreTurnContext formats)).any isMixedDevMessage
      else false := by
  have h := congrArg Prod.snd (trim_eq hf hturn cut hcut)
  rwa [apply_ite Prod.snd] at h

end

theorem dropTurns_zero (items : List ResponseItem) : dropTurns formats items 0 = items := rfl

theorem dropTurns_of_none (h : items.any (isUserTurnBoundary formats) = false) (numTurns : ℕ) :
    dropTurns formats items numTurns = items := by
  unfold dropTurns dropLastNUserTurns
  split
  · rfl
  · simp only [userMessagePositions_eq_nil.mpr h]
    rfl

theorem dropTurns_cons {rest : List ℕ} (h : userMessagePositions formats items = first :: rest)
    (hpos : 0 < numTurns) : dropTurns formats items numTurns =
      items.take (trimPreTurnContextUpdates formats items first
        (if (first :: rest).length ≤ numTurns then first
          else (first :: rest)[(first :: rest).length - numTurns]?.getD 0)).1 := by
  unfold dropTurns dropLastNUserTurns
  rw [if_neg (Nat.ne_of_gt hpos)]
  simp only [h]
  rfl

theorem cut_position (hy : isUserTurnBoundary formats y = true)
    (hcount : ((y :: z).filter (isUserTurnBoundary formats)).length =
      min numTurns ((x ++ y :: z).filter (isUserTurnBoundary formats)).length) {rest : List ℕ}
    (hP : userMessagePositions formats (x ++ y :: z) = first :: rest) :
    (if (first :: rest).length ≤ numTurns then first
      else (first :: rest)[(first :: rest).length - numTurns]?.getD 0) = x.length := by
  have hat := userMessagePositions_at (x := x) (z := z) hy
  have hlen := userMessagePositions_length formats (x ++ y :: z)
  have hlenx := userMessagePositions_length formats x
  rw [filter_append, length_append] at hcount hlen
  rw [hP] at hat hlen
  by_cases hall : (first :: rest).length ≤ numTurns
  · have hzero : (userMessagePositions formats x).length = 0 := by omega
    rw [if_pos hall]
    rw [hzero] at hat
    simpa using hat
  · have hidx : (first :: rest).length - numTurns = (userMessagePositions formats x).length := by
      omega
    rw [if_neg hall, hidx, hat]
    rfl

theorem dropTurns_eq (hy : isUserTurnBoundary formats y = true) (hpos : 0 < numTurns)
    (hcount : ((y :: z).filter (isUserTurnBoundary formats)).length =
      min numTurns ((x ++ y :: z).filter (isUserTurnBoundary formats)).length) :
    dropTurns formats (x ++ y :: z) numTurns = trimmed formats x := by
  have hat := userMessagePositions_at (x := x) (z := z) hy
  have htake : (x ++ y :: z).take x.length = x := by simp
  unfold trimmed
  cases hx : userMessagePositions formats x with
  | nil =>
    have hany := userMessagePositions_eq_nil.mp hx
    have hfirst : ∃ rest, userMessagePositions formats (x ++ y :: z) = x.length :: rest := by
      rw [hx] at hat
      cases hP : userMessagePositions formats (x ++ y :: z) with
      | nil => simp [hP] at hat
      | cons first rest =>
        rw [hP] at hat
        exact ⟨rest, by simpa using hat⟩
    obtain ⟨rest, hP⟩ := hfirst
    rw [dropTurns_cons hP hpos, cut_position hy hcount hP, if_neg (by simp [hany]),
      take_trim (by simp) hy _ (by simp), if_neg (Nat.lt_irrefl _), htake]
  | cons first rest =>
    have hfirst : first ∈ userMessagePositions formats x := by simp [hx]
    obtain ⟨hlt, f, hf, hturn⟩ := mem_userMessagePositions hfirst
    have hany : x.any (isUserTurnBoundary formats) = true :=
      any_eq_true.mpr ⟨f, mem_of_getElem? hf, hturn⟩
    have hP := userMessagePositions_append formats x (y :: z)
    rw [hx, cons_append] at hP
    rw [dropTurns_cons hP hpos, cut_position hy hcount hP, if_pos hany,
      take_trim (by rw [List.getElem?_append_left hlt]; exact hf) hturn _ (by simp), if_pos hlt,
      htake]

/-! ## What a rollback leaves -/

variable (formats) in
theorem dropTurns_cases (items : List ResponseItem) {numTurns : ℕ} (hpos : 0 < numTurns) :
    (items.any (isUserTurnBoundary formats) = false ∧ dropTurns formats items numTurns = items) ∨
    ∃ x y z, items = x ++ y :: z ∧ isUserTurnBoundary formats y = true ∧
      ((y :: z).filter (isUserTurnBoundary formats)).length =
        min numTurns (items.filter (isUserTurnBoundary formats)).length ∧
      dropTurns formats items numTurns = trimmed formats x := by
  cases hany : items.any (isUserTurnBoundary formats) with
  | false => exact .inl ⟨rfl, dropTurns_of_none hany numTurns⟩
  | true =>
    right
    obtain ⟨item, hitem, hturn⟩ := any_eq_true.mp hany
    have hsome : 0 < (items.filter (isUserTurnBoundary formats)).length :=
      length_pos_of_mem (mem_filter.mpr ⟨hitem, hturn⟩)
    obtain ⟨x, y, z, rfl, hy, hcount⟩ :=
      exists_last_of_kind (isUserTurnBoundary formats) items (Nat.lt_min.mpr ⟨hpos, hsome⟩)
        (Nat.min_le_right _ _)
    exact ⟨x, y, z, rfl, hy, hcount, dropTurns_eq hy hpos hcount⟩

variable (formats) in
theorem trimmed_isPrefix (items : List ResponseItem) : trimmed formats items <+: items := by
  unfold trimmed
  split
  · exact rdropWhile_prefix _ _
  · exact prefix_rfl

variable (formats) in
theorem dropTurns_isPrefix (items : List ResponseItem) (numTurns : ℕ) :
    dropTurns formats items numTurns <+: items := by
  rcases Nat.eq_zero_or_pos numTurns with rfl | hpos
  · exact prefix_rfl
  · obtain ⟨-, h⟩ | ⟨x, y, z, rfl, -, -, h⟩ := dropTurns_cases formats items hpos
    · exact ⟨[], by rw [h, append_nil]⟩
    · rw [h]
      exact (trimmed_isPrefix formats x).trans (prefix_append x _)

theorem filter_trimmed {p : ResponseItem → Bool}
    (hp : ∀ item, p item = true → isUserTurnBoundary formats item = true)
    (items : List ResponseItem) : (trimmed formats items).filter p = items.filter p := by
  unfold trimmed
  split
  · exact filter_rdropWhile (fun item h => not_preTurnContext (hp item h)) items
  · rfl

theorem trimmed_append (older newer : List ResponseItem) {turn : ResponseItem}
    (hturn : isUserTurnBoundary formats turn = true) :
    trimmed formats (older ++ turn :: newer) = older ++ trimmed formats (turn :: newer) := by
  unfold trimmed
  rw [if_pos (by simp [hturn]), if_pos (by simp [hturn]),
    rdropWhile_append_of_stays (not_preTurnContext hturn)]

theorem dropTurns_append {older newer : List ResponseItem} {turn : ResponseItem}
    (hturn : isUserTurnBoundary formats turn = true) {numTurns : ℕ}
    (hleft : older.length < (dropTurns formats (older ++ turn :: newer) numTurns).length) :
    dropTurns formats (older ++ turn :: newer) numTurns =
      older ++ dropTurns formats (turn :: newer) numTurns := by
  rcases Nat.eq_zero_or_pos numTurns with rfl | hpos
  · rfl
  · obtain ⟨hnone, -⟩ | ⟨x, y, z, hsplit, hy, hcount, h⟩ :=
      dropTurns_cases formats (older ++ turn :: newer) hpos
    · simp [hturn] at hnone
    · -- the cut is behind the turn, so it is the cut of the newer part
      have hx : older.length < x.length := by
        rw [h] at hleft
        exact Nat.lt_of_lt_of_le hleft (trimmed_isPrefix formats x).length_le
      obtain ⟨x', rfl⟩ : ∃ x', x = older ++ turn :: x' := by
        rcases append_eq_append_iff.mp hsplit with ⟨a, rfl, ha⟩ | ⟨a, rfl, -⟩
        · cases a with
          | nil => simp at hx
          | cons b a =>
            rw [cons_append, List.cons.injEq] at ha
            exact ⟨a, by rw [ha.1]⟩
        · rw [length_append] at hx
          omega
      have hnewer : turn :: newer = turn :: x' ++ y :: z := by
        rw [List.append_assoc] at hsplit
        exact append_cancel_left hsplit
      have hfew : ((y :: z).filter (isUserTurnBoundary formats)).length <
          ((turn :: newer).filter (isUserTurnBoundary formats)).length := by
        rw [hnewer, filter_append, length_append, filter_cons_of_pos hturn, length_cons]
        omega
      have hcount' : ((y :: z).filter (isUserTurnBoundary formats)).length =
          min numTurns ((turn :: newer).filter (isUserTurnBoundary formats)).length := by
        rw [filter_append, length_append] at hcount
        omega
      rw [h, trimmed_append older x' hturn]
      rw [hnewer] at hcount' ⊢
      rw [dropTurns_eq hy hpos hcount']

end Codex
