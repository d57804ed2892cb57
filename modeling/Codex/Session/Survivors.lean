import Codex.Session.CheckpointReplay
import Codex.Session.TurnCut

/-!
# The items of a rollout that survive its replay

The replay again, with each item tagged by its place in the rollout. The tags are those
of the eager replay (`survivors_items`), and they increase.
-/

namespace Codex

open Foundation ContextManager List

variable (ctx : ReplayContext)

def survivorStep (h : List (ℕ × ResponseItem)) (entry : RolloutItem × ℕ) :
    List (ℕ × ResponseItem) :=
  match entry.1 with
  | .responseItem item => if isApiMessage item then h ++ [(entry.2, processItem ctx item)] else h
  | .eventMsg (.threadRolledBack numTurns) =>
    h.take (dropTurns ctx.formats (h.map (·.2)) numTurns).length
  | _ => h

def survivors (items : List RolloutItem) : List (ℕ × ResponseItem) :=
  items.zipIdx.foldl (survivorStep ctx) []

variable (items : List RolloutItem)

theorem survivors_snoc (item : RolloutItem) :
    survivors ctx (items ++ [item]) = survivorStep ctx (survivors ctx items) (item, items.length) := by
  unfold survivors
  rw [zipIdx_append, foldl_append]
  simp

variable {ctx}

theorem NoCompaction.left {x y : List RolloutItem} (h : NoCompaction (x ++ y)) : NoCompaction x :=
  fun item hitem => h item (mem_append_left y hitem)

theorem eagerReplay_snoc (item : RolloutItem) : eagerReplay ctx (items ++ [item]) =
      (replayItem ctx (⟨eagerReplay ctx items, 0, none⟩, false) item).1.items := by
  unfold eagerReplay replayFrom
  rw [foldl_append, foldl_cons, foldl_nil]
  exact replayItem_items ctx (by rfl) item

/-- Without compactions an item is recorded, drops turns, or is passed over. -/
def replayItems (ctx : ReplayContext) (h : List ResponseItem) : RolloutItem → List ResponseItem
  | .responseItem item => if isApiMessage item then h ++ [processItem ctx item] else h
  | .eventMsg (.threadRolledBack numTurns) => dropTurns ctx.formats h numTurns
  | _ => h

theorem eagerReplay_snoc_items {item : RolloutItem} (hitem : ∀ c, item ≠ .compacted c) :
    eagerReplay ctx (items ++ [item]) = replayItems ctx (eagerReplay ctx items) item := by
  rw [eagerReplay_snoc]
  cases item with
  | compacted c => exact absurd rfl (hitem c)
  | responseItem item =>
    simp only [replayItem, recordItem, replayItems]
    split <;> rfl
  | eventMsg event => cases event <;> rfl
  | sessionMeta | turnContext item => rfl

theorem survivors_items {items : List RolloutItem} (hitems : NoCompaction items) :
    (survivors ctx items).map (·.2) = eagerReplay ctx items := by
  induction items using List.reverseRecOn with
  | nil => rfl
  | append_singleton items item ih =>
    have hitem := hitems item (mem_append_right items mem_cons_self)
    rw [survivors_snoc, eagerReplay_snoc_items items hitem, ← ih hitems.left]
    cases item with
    | responseItem item =>
      simp only [survivorStep, replayItems]
      split <;> simp
    | eventMsg event =>
      cases event with
      | threadRolledBack n =>
        simp only [survivorStep, replayItems]
        rw [map_take]
        exact (prefix_iff_eq_take.mp (dropTurns_isPrefix ctx.formats _ n)).symm
      | _ => rfl
    | _ => rfl

structure TaggedUpTo (n : ℕ) (h : List (ℕ × ResponseItem)) : Prop where
  increasing : h.Pairwise fun a b => a.1 < b.1
  below : ∀ e ∈ h, e.1 < n

theorem TaggedUpTo.mono {n m : ℕ} {h h' : List (ℕ × ResponseItem)} (ht : TaggedUpTo n h)
    (hsub : h'.Sublist h) (hle : n ≤ m) : TaggedUpTo m h' :=
  ⟨ht.increasing.sublist hsub, fun e he => Nat.lt_of_lt_of_le (ht.below e (hsub.subset he)) hle⟩

variable {h : List (ℕ × ResponseItem)}

theorem TaggedUpTo.push {n : ℕ} (ht : TaggedUpTo n h) (item : ResponseItem) :
    TaggedUpTo (n + 1) (h ++ [(n, item)]) := by
  constructor
  · rw [pairwise_append]
    refine ⟨ht.increasing, pairwise_singleton _ _, ?_⟩
    intro a ha b hb
    rw [mem_singleton] at hb
    rw [hb]
    exact ht.below a ha
  · intro e he
    rcases mem_append.mp he with he | he
    · exact Nat.lt_succ_of_lt (ht.below e he)
    · rw [mem_singleton] at he
      rw [he]
      exact Nat.lt_succ_self n

theorem survivorStep_tagged {n : ℕ} (ht : TaggedUpTo n h) (item : RolloutItem) :
    TaggedUpTo (n + 1) (survivorStep ctx h (item, n)) := by
  unfold survivorStep
  split
  · split
    · exact ht.push _
    · exact ht.mono (List.Sublist.refl h) (Nat.le_succ n)
  · exact ht.mono (take_sublist _ h) (Nat.le_succ n)
  · exact ht.mono (List.Sublist.refl h) (Nat.le_succ n)

variable (ctx) in
theorem survivors_tagged : TaggedUpTo items.length (survivors ctx items) := by
  induction items using List.reverseRecOn with
  | nil => exact ⟨List.Pairwise.nil, by simp [survivors]⟩
  | append_singleton items item ih =>
    rw [survivors_snoc, length_append, length_singleton]
    exact survivorStep_tagged ih item

/-! ## Turns -/

def TurnKind (formats : EmbeddedFormats) (p : ResponseItem → Bool) : Prop :=
  ∀ item, p item = true → isUserTurnBoundary formats item = true

theorem TurnKind.boundary (formats : EmbeddedFormats) :
    TurnKind formats (isUserTurnBoundary formats) := fun _ h => h

theorem processItem_turn {item : ResponseItem} (h : isUserTurnBoundary ctx.formats item = true) :
    isApiMessage item = true ∧ processItem ctx item = item := by
  have hus : (USER != SYSTEM) = true := by decide
  have has : (ASSISTANT != SYSTEM) = true := by decide
  cases item with
  | message id role content phase =>
    refine ⟨?_, rfl⟩
    unfold isUserTurnBoundary at h
    simp only [Bool.or_eq_true, Bool.and_eq_true, beq_iff_eq] at h
    obtain ⟨hrole, -⟩ | ⟨hrole, -⟩ := h
    · rw [hrole]
      exact hus
    · rw [hrole]
      exact has
  | _ => cases h

theorem TurnKind.processItem {p : ResponseItem → Bool} (hp : TurnKind ctx.formats p)
    (item : ResponseItem) : p (processItem ctx item) = p item := by
  by_cases h : isUserTurnBoundary ctx.formats item = true
  · rw [(processItem_turn h).2]
  · have hnot : ∀ i, isUserTurnBoundary ctx.formats i = false → p i = false := by
      intro i hi
      refine Bool.eq_false_iff.mpr fun hpi => ?_
      rw [hp i hpi] at hi
      cases hi
    rw [Bool.not_eq_true] at h
    rw [hnot item h]
    refine hnot _ ?_
    cases item <;> exact h

variable {e : ℕ × ResponseItem}

section
variable {p : ResponseItem → Bool} {h : List (ℕ × ResponseItem)} {n : ℕ}

theorem survivorStep_record (hp : TurnKind ctx.formats p) (item : ResponseItem) :
    (survivorStep ctx h (.responseItem item, n)).filter (fun e => p e.2) =
      h.filter (fun e => p e.2) ++ if p item then [(n, item)] else [] := by
  simp only [survivorStep]
  by_cases hitem : p item = true
  · obtain ⟨hapi, hsame⟩ := processItem_turn (hp item hitem)
    rw [if_pos hapi, if_pos hitem, filter_append, hsame]
    simp [hitem]
  · rw [if_neg hitem, append_nil]
    split
    · rw [filter_append]
      simp [hp.processItem, hitem]
    · rfl

theorem filter_take_trimmed (hp : TurnKind ctx.formats p) (x : List (ℕ × ResponseItem)) :
    (x.take (trimmed ctx.formats (x.map (·.2))).length).filter (fun e => p e.2) =
      x.filter (fun e => p e.2) := by
  unfold trimmed
  split
  · have hkept :=
      rdropWhile_prefix (isPreTurnContext ctx.formats ∘ fun e : ℕ × ResponseItem => e.2) x
    rw [rdropWhile_map, length_map, ← prefix_iff_eq_take.mp hkept]
    exact filter_rdropWhile (fun e he => not_preTurnContext (hp e.2 he)) x
  · rw [length_map, take_length]

variable (ctx n) in
theorem survivorStep_rollback (h : List (ℕ × ResponseItem)) {numTurns : ℕ} (hpos : 0 < numTurns) :
    (h.any (fun e => isUserTurnBoundary ctx.formats e.2) = false ∧
      survivorStep ctx h (.eventMsg (.threadRolledBack numTurns), n) = h) ∨
    ∃ x e z, h = x ++ e :: z ∧ isUserTurnBoundary ctx.formats e.2 = true ∧
      ((e :: z).filter (fun e => isUserTurnBoundary ctx.formats e.2)).length =
        min numTurns (h.filter (fun e => isUserTurnBoundary ctx.formats e.2)).length ∧
      ∀ p, TurnKind ctx.formats p →
        (survivorStep ctx h (.eventMsg (.threadRolledBack numTurns), n)).filter
          (fun e => p e.2) = x.filter (fun e => p e.2) := by
  have hlen : ∀ l : List (ℕ × ResponseItem),
      ((l.map (·.2)).filter (isUserTurnBoundary ctx.formats)).length =
        (l.filter (fun e => isUserTurnBoundary ctx.formats e.2)).length := by
    intro l
    rw [filter_map, length_map]
    rfl
  simp only [survivorStep]
  obtain ⟨hnone, hdrop⟩ | ⟨x', y, z', hsplit, hy, hcount, hdrop⟩ :=
    dropTurns_cases ctx.formats (h.map (·.2)) hpos
  · left
    rw [any_map] at hnone
    refine ⟨hnone, ?_⟩
    rw [hdrop, length_map, take_length]
  · right
    obtain ⟨x, w, rfl, rfl, hw⟩ := map_eq_append_iff.mp hsplit
    obtain ⟨e, z, rfl, rfl, rfl⟩ := map_eq_cons_iff.mp hw
    refine ⟨x, e, z, rfl, hy, ?_, fun p hp => ?_⟩
    · rw [← map_cons (f := fun e : ℕ × ResponseItem => e.2), hlen, hlen] at hcount
      exact hcount
    · rw [hdrop, take_append_of_le_length, filter_take_trimmed hp]
      have hle := (trimmed_isPrefix ctx.formats (x.map (·.2))).length_le
      rwa [length_map] at hle

theorem filter_lt_of_increasing {x z : List (ℕ × ResponseItem)} (ht : TaggedUpTo n (x ++ e :: z)) :
    (x ++ e :: z).filter (fun b => b.1 < e.1) = x := by
  obtain ⟨-, hright, hcross⟩ := pairwise_append.mp ht.increasing
  obtain ⟨hz, -⟩ := pairwise_cons.mp hright
  have hx : ∀ b ∈ x, b.1 < e.1 := fun b hb => hcross b hb e mem_cons_self
  have hnot : ∀ b ∈ e :: z, ¬ b.1 < e.1 := by
    intro b hb
    rcases mem_cons.mp hb with rfl | hb
    · exact Nat.lt_irrefl _
    · exact Nat.lt_asymm (hz b hb)
  rw [filter_append, filter_eq_self.mpr (by simpa using hx),
    filter_eq_nil_iff.mpr (by simpa using hnot), append_nil]

theorem split_eq {x x' z z' : List (ℕ × ResponseItem)} {k : ℕ} {item item' : ResponseItem}
    (ht : TaggedUpTo n (x ++ (k, item) :: z)) (h : x ++ (k, item) :: z = x' ++ (k, item') :: z') :
    x = x' ∧ item = item' ∧ z = z' := by
  have hx : x = x' := by
    have hleft := filter_lt_of_increasing ht
    rw [h] at ht hleft
    rw [← hleft]
    exact filter_lt_of_increasing ht
  subst hx
  have hright := append_cancel_left h
  rw [List.cons.injEq, Prod.mk.injEq] at hright
  exact ⟨rfl, hright.1.2, hright.2⟩

end

def turnTags (p : ResponseItem → Bool) (h : List (ℕ × ResponseItem)) : List ℕ :=
  (h.filter fun e => p e.2).map (·.1)

theorem turnTags_append (p : ResponseItem → Bool) (x y : List (ℕ × ResponseItem)) :
    turnTags p (x ++ y) = turnTags p x ++ turnTags p y := by
  unfold turnTags
  rw [filter_append, map_append]

theorem turnTags_cons {p : ResponseItem → Bool} (he : p e.2 = true) (h : List (ℕ × ResponseItem)) :
    turnTags p (e :: h) = e.1 :: turnTags p h := by
  unfold turnTags
  rw [filter_cons, if_pos he, map_cons]

theorem turnTags_length (p : ResponseItem → Bool) (h : List (ℕ × ResponseItem)) :
    (turnTags p h).length = (h.filter fun e => p e.2).length := length_map _

section
variable {p : ResponseItem → Bool} {h : List (ℕ × ResponseItem)} {n : ℕ}

theorem turnTags_record (hp : TurnKind ctx.formats p) (item : ResponseItem) :
    turnTags p (survivorStep ctx h (.responseItem item, n)) =
      if p item then turnTags p h ++ [n] else turnTags p h := by
  unfold turnTags
  rw [survivorStep_record hp, map_append]
  split
  · rfl
  · exact append_nil _

variable (ctx) in
theorem turnTags_rollback (ht : TaggedUpTo n h) {numTurns : ℕ} (hpos : 0 < numTurns) :
    (turnTags (isUserTurnBoundary ctx.formats) h = [] ∧
      survivorStep ctx h (.eventMsg (.threadRolledBack numTurns), n) = h) ∨
    ∃ earlier start later,
      turnTags (isUserTurnBoundary ctx.formats) h = earlier ++ start :: later ∧
      (start :: later).length = min numTurns (turnTags (isUserTurnBoundary ctx.formats) h).length ∧
      turnTags (isUserTurnBoundary ctx.formats)
        (survivorStep ctx h (.eventMsg (.threadRolledBack numTurns), n)) = earlier ∧
      ∀ p, TurnKind ctx.formats p →
        turnTags p (survivorStep ctx h (.eventMsg (.threadRolledBack numTurns), n)) =
          (turnTags p h).filter (· < start) := by
  obtain ⟨hnone, hstep⟩ | ⟨x, e, z, rfl, he, hcount, hstep⟩ := survivorStep_rollback ctx n h hpos
  · left
    refine ⟨?_, hstep⟩
    unfold turnTags
    rw [filter_eq_nil_iff.mpr (any_eq_false.mp hnone)]
    rfl
  · right
    have hsplit := turnTags_append (isUserTurnBoundary ctx.formats) x (e :: z)
    rw [turnTags_cons he] at hsplit
    refine ⟨_, e.1, _, hsplit, ?_, ?_, ?_⟩
    · rw [← turnTags_cons he, turnTags_length, turnTags_length, hcount]
    · unfold turnTags
      rw [hstep _ (TurnKind.boundary ctx.formats)]
    · intro p hp
      unfold turnTags
      rw [hstep p hp, filter_map, filter_filter]
      congr 1
      have hlt := filter_lt_of_increasing ht
      nth_rewrite 1 [← hlt]
      rw [filter_filter]
      refine filter_congr fun b _ => ?_
      exact Bool.and_comm _ _

end

/-! ## A suffix of the rollout -/

theorem mem_survivorStep {item : RolloutItem} {n : ℕ} (he : e ∈ survivorStep ctx h (item, n)) :
    e ∈ h ∨ ∃ i, item = .responseItem i ∧ e = (n, processItem ctx i) := by
  unfold survivorStep at he
  split at he
  · rename_i i heq
    split at he
    · rcases mem_append.mp he with he | he
      · exact .inl he
      · exact .inr ⟨i, heq, mem_singleton.mp he⟩
    · exact .inl he
  · exact .inl (mem_of_mem_take he)
  · exact .inl he

theorem survivors_place {items : List RolloutItem} (he : e ∈ survivors ctx items) :
    ∃ older item newer, items = older ++ .responseItem item :: newer ∧ e.1 = older.length ∧
      e.2 = processItem ctx item := by
  induction items using List.reverseRecOn with
  | nil => cases he
  | append_singleton items last ih =>
    rw [survivors_snoc] at he
    rcases mem_survivorStep he with he | ⟨item, rfl, rfl⟩
    · obtain ⟨older, item, newer, rfl, hidx, hitem⟩ := ih he
      refine ⟨older, item, newer ++ [last], ?_, hidx, hitem⟩
      rw [List.append_assoc, cons_append]
    · exact ⟨items, item, [], rfl, rfl, rfl⟩

variable {older newer : List RolloutItem} {turn : ResponseItem}

theorem survivorStep_rollback_behind {h later : List (ℕ × ResponseItem)} {n numTurns idx : ℕ}
    (ht : TaggedUpTo n h) (hturn : isUserTurnBoundary ctx.formats turn = true)
    (hkept : n ∈ (survivorStep ctx (h ++ (n, turn) :: later)
      (.eventMsg (.threadRolledBack numTurns), idx)).map (·.1)) :
    ∃ later', survivorStep ctx (h ++ (n, turn) :: later)
        (.eventMsg (.threadRolledBack numTurns), idx) = h ++ (n, turn) :: later' ∧
      turn :: later'.map (·.2) = dropTurns ctx.formats (turn :: later.map (·.2)) numTurns := by
  simp only [survivorStep, map_append, map_cons] at hkept ⊢
  have hbehind : (h.map (·.2)).length <
      (dropTurns ctx.formats (h.map (·.2) ++ turn :: later.map (·.2)) numTurns).length := by
    refine Nat.lt_of_not_le fun hle => ?_
    rw [length_map] at hle
    rw [take_append_of_le_length hle] at hkept
    obtain ⟨e, he, hidx⟩ := mem_map.mp hkept
    have hlt := ht.below e (mem_of_mem_take he)
    omega
  have hcut := dropTurns_append hturn hbehind
  rw [hcut] at hbehind ⊢
  have hleft := dropTurns_isPrefix ctx.formats (turn :: later.map (·.2)) numTurns
  rw [length_append, length_map] at hbehind ⊢
  cases hdrop : dropTurns ctx.formats (turn :: later.map (·.2)) numTurns with
  | nil =>
    rw [hdrop, length_nil] at hbehind
    omega
  | cons first rest =>
    rw [hdrop, cons_prefix_cons] at hleft
    obtain ⟨rfl, hrest⟩ := hleft
    refine ⟨later.take rest.length, ?_, ?_⟩
    · rw [take_length_add_append, length_cons, take_succ_cons]
    · rw [map_take, ← prefix_iff_eq_take.mp hrest]

theorem survivors_behind (hturn : isUserTurnBoundary ctx.formats turn = true)
    (hc : NoCompaction newer)
    (hkept : older.length ∈ (survivors ctx (older ++ .responseItem turn :: newer)).map (·.1)) :
    ∃ later, survivors ctx (older ++ .responseItem turn :: newer) =
        survivors ctx older ++ (older.length, turn) :: later ∧
      turn :: later.map (·.2) = eagerReplay ctx (.responseItem turn :: newer) := by
  induction newer using List.reverseRecOn with
  | nil =>
    obtain ⟨hapi, hsame⟩ := processItem_turn hturn
    refine ⟨[], ?_, ?_⟩
    · rw [survivors_snoc]
      simp only [survivorStep]
      rw [if_pos hapi, hsame]
    · have hsnoc := @eagerReplay_snoc_items ctx [] (.responseItem turn) fun c h => nomatch h
      rw [nil_append] at hsnoc
      rw [hsnoc]
      simp only [replayItems]
      rw [if_pos hapi, hsame]
      rfl
  | append_singleton newer item ih =>
    have hsnoc : older ++ .responseItem turn :: (newer ++ [item]) =
        (older ++ .responseItem turn :: newer) ++ [item] := by
      rw [List.append_assoc, cons_append]
    have hitem := hc item (mem_append_right newer mem_cons_self)
    have hbefore :
        older.length ∈ (survivors ctx (older ++ .responseItem turn :: newer)).map (·.1) := by
      obtain ⟨e, he, hidx⟩ := mem_map.mp hkept
      rw [hsnoc, survivors_snoc] at he
      rcases mem_survivorStep he with he | ⟨i, -, rfl⟩
      · exact mem_map.mpr ⟨e, he, hidx⟩
      · simp at hidx
    obtain ⟨later, hsurv, hreplay⟩ := ih hc.left hbefore
    rw [hsnoc, survivors_snoc] at hkept ⊢
    rw [← cons_append, eagerReplay_snoc_items _ hitem, ← hreplay]
    rw [hsurv] at hkept ⊢
    cases item with
    | responseItem item =>
      simp only [survivorStep, replayItems]
      split
      · refine ⟨later ++ [((older ++ RolloutItem.responseItem turn :: newer).length,
          processItem ctx item)], ?_, ?_⟩
        · rw [List.append_assoc, cons_append]
        · rw [map_append, cons_append]
          rfl
      · exact ⟨later, rfl, rfl⟩
    | eventMsg event =>
      cases event with
      | threadRolledBack n => exact survivorStep_rollback_behind (survivors_tagged ctx older) hturn hkept
      | _ => exact ⟨later, rfl, rfl⟩
    | compacted c => exact absurd rfl (hitem c)
    | _ => exact ⟨later, rfl, rfl⟩

end Codex
