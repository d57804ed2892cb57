import Codex.Foundation.Run

/-!
# Layers

A layer gives the points it covers new values. Of a stack of layers the last one that
covers a point decides there, and where none does the ground shows. A machine whose
steps lay one layer each shows the stack of its run (`run_shows_stack`).
-/

namespace Foundation

open List

section
variable {γ : Type} {P : γ → Prop} {a a' : γ} {l pre pre' post post' : List γ}

theorem exists_last (ha : a ∈ l) (hP : P a) :
    ∃ pre b post, l = pre ++ b :: post ∧ P b ∧ ∀ c ∈ post, ¬ P c := by
  induction l using List.reverseRecOn with
  | nil => exact absurd ha not_mem_nil
  | append_singleton l k ih =>
    by_cases hk : P k
    · exact ⟨l, k, [], rfl, hk, by simp⟩
    · rcases mem_append.mp ha with ha | ha
      · obtain ⟨pre, b, post, rfl, hb, hpost⟩ := ih ha
        refine ⟨pre, b, post ++ [k], by simp, hb, fun m hm => ?_⟩
        rcases mem_append.mp hm with hm | hm
        · exact hpost m hm
        · rwa [mem_singleton.mp hm]
      · rw [mem_singleton.mp ha] at hP
        exact absurd hP hk

theorem last_unique (h : pre ++ a :: post = pre' ++ a' :: post') (ha : P a) (ha' : P a')
    (hpost : ∀ c ∈ post, ¬ P c) (hpost' : ∀ c ∈ post', ¬ P c) : a = a' := by
  rcases append_eq_append_iff.mp h with ⟨mid, -, hmid⟩ | ⟨mid, -, hmid⟩
  · cases mid with
    | nil => exact (List.cons.inj hmid).1
    | cons c mid =>
      have hmem : a' ∈ post := by
        rw [(List.cons.inj hmid).2]
        simp
      exact absurd ha' (hpost a' hmem)
  · cases mid with
    | nil => exact (List.cons.inj hmid).1.symm
    | cons c mid =>
      have hmem : a ∈ post' := by
        rw [(List.cons.inj hmid).2]
        simp
      exact absurd ha (hpost' a hmem)

end

/-! ## Layers and their stack -/

structure Layer (α β : Type) where
  covers : α → Prop
  value : α → β

section
variable {β : Type} {c : Prop} {v s : β}

open Classical in
noncomputable def overIf (c : Prop) (v s : β) : β := if c then v else s

theorem overIf_pos (h : c) : overIf c v s = v := if_pos h

theorem overIf_neg (h : ¬ c) : overIf c v s = s := if_neg h

theorem overIf_twice {c' : Prop} : overIf c' v (overIf c v s) = overIf (c ∨ c') v s := by
  by_cases h' : c'
  · rw [overIf_pos h', overIf_pos (.inr h')]
  · rw [overIf_neg h', or_iff_left h']

end

section
variable {α β : Type}

noncomputable def Layer.over (l : Layer α β) (ground : α → β) : α → β := fun p =>
  overIf (l.covers p) (l.value p) (ground p)

noncomputable def stack (ground : α → β) (ls : List (Layer α β)) : α → β :=
  ls.foldl (fun shown l => l.over shown) ground

def Layer.clear (value : α → β) : Layer α β := ⟨fun _ => False, value⟩

variable {l : Layer α β} {ls post : List (Layer α β)} {ground ground' : α → β} {p : α}

@[simp] theorem Layer.over_of_covers (h : l.covers p) : l.over ground p = l.value p := if_pos h

@[simp] theorem Layer.over_of_not_covers (h : ¬ l.covers p) : l.over ground p = ground p := if_neg h

@[simp] theorem Layer.clear_over (value : α → β) : (Layer.clear value).over ground = ground :=
  funext fun _ => if_neg id

theorem Layer.over_congr (h : ground p = ground' p) : l.over ground p = l.over ground' p := by
  unfold Layer.over
  rw [h]

@[simp] theorem stack_nil : stack ground [] = ground := rfl

theorem stack_append (ls ls' : List (Layer α β)) :
    stack ground (ls ++ ls') = stack (stack ground ls) ls' := foldl_append

theorem stack_snoc (ls : List (Layer α β)) (l : Layer α β) :
    stack ground (ls ++ [l]) = l.over (stack ground ls) := stack_append ls [l]

theorem stack_cons (l : Layer α β) (ls : List (Layer α β)) :
    stack ground (l :: ls) = stack (l.over ground) ls := rfl

theorem stack_of_uncovered (h : ∀ l ∈ ls, ¬ l.covers p) : stack ground ls p = ground p := by
  induction ls using List.reverseRecOn with
  | nil => rfl
  | append_singleton ls l ih =>
    rw [stack_snoc, Layer.over_of_not_covers (h l (by simp))]
    exact ih fun l' hl' => h l' (mem_append_left _ hl')

theorem stack_of_last (pre : List (Layer α β)) (h : l.covers p)
    (hpost : ∀ l' ∈ post, ¬ l'.covers p) : stack ground (pre ++ l :: post) p = l.value p := by
  rw [stack_append, stack_cons, stack_of_uncovered hpost, Layer.over_of_covers h]

theorem stack_keeps {P : β → Prop} (hg : P (ground p))
    (hls : ∀ l ∈ ls, l.covers p → P (l.value p)) : P (stack ground ls p) := by
  induction ls using List.reverseRecOn with
  | nil => exact hg
  | append_singleton ls l ih =>
    rw [stack_snoc]
    by_cases hl : l.covers p
    · rw [Layer.over_of_covers hl]
      exact hls l (by simp) hl
    · rw [Layer.over_of_not_covers hl]
      exact ih fun l' hl' => hls l' (mem_append_left _ hl')

theorem exists_last_covering {l : Layer α β} (hl : l ∈ ls) (hp : l.covers p) :
    ∃ pre l' post, ls = pre ++ l' :: post ∧ l'.covers p ∧ ∀ k ∈ post, ¬ k.covers p :=
  exists_last hl hp

theorem stack_cases (ground : α → β) (ls : List (Layer α β)) (p : α) :
    (∃ pre l post, ls = pre ++ l :: post ∧ l.covers p ∧ (∀ k ∈ post, ¬ k.covers p) ∧
      stack ground ls p = l.value p) ∨
    (∀ l ∈ ls, ¬ l.covers p) ∧ stack ground ls p = ground p := by
  by_cases h : ∃ l ∈ ls, l.covers p
  · obtain ⟨l, hl, hp⟩ := h
    obtain ⟨pre, l', post, rfl, hl', hpost⟩ := exists_last_covering hl hp
    exact .inl ⟨pre, l', post, rfl, hl', hpost, stack_of_last pre hl' hpost⟩
  · have hno : ∀ l ∈ ls, ¬ l.covers p := fun l hl hp => h ⟨l, hl, hp⟩
    exact .inr ⟨hno, stack_of_uncovered hno⟩

theorem stack_map_eq_some {γ : Type} {layer : γ → Layer α (Option β)} {as : List γ} {p : α}
    {v : β} : stack (fun _ => none) (as.map layer) p = some v ↔
      ∃ pre a post, as = pre ++ a :: post ∧ (layer a).covers p ∧
        (∀ b ∈ post, ¬ (layer b).covers p) ∧ (layer a).value p = some v := by
  constructor
  · intro h
    rcases stack_cases (fun _ => none) (as.map layer) p with
      ⟨pre, l, post, heq, hl, hpost, hshow⟩ | ⟨-, hshow⟩
    · obtain ⟨pre, rest, rfl, rfl, hrest⟩ := map_eq_append_iff.mp heq
      obtain ⟨a, post, rfl, rfl, rfl⟩ := map_eq_cons_iff.mp hrest
      exact ⟨pre, a, post, rfl, hl, fun b hb => hpost _ (mem_map_of_mem hb), by rw [← hshow, h]⟩
    · rw [h] at hshow
      cases hshow
  · rintro ⟨pre, a, post, rfl, ha, hpost, hv⟩
    have hlast : ∀ l ∈ post.map layer, ¬ l.covers p := forall_mem_map.mpr hpost
    rw [map_append, map_cons, stack_of_last _ ha hlast, hv]

end

/-! ## Machines that lay layers -/

variable {σ α π β ε : Type} {step : σ → α → Except ε σ} {I : σ → Prop} {s t : σ} {l : List α}
  {shows : σ → π → β} {layer : α → Layer π β} {D : π → Prop}

theorem run_shows_stack {V : α → Prop} (hstep : ∀ u a v, I u → V a → step u a = .ok v →
      I v ∧ ∀ p, D p → shows v p = (layer a).over (shows u) p) (hs : I s) (hl : ∀ a ∈ l, V a)
    (hrun : l.foldlM step s = .ok t) :
    I t ∧ ∀ p, D p → shows t p = stack (shows s) (l.map layer) p := by
  induction l using List.reverseRecOn generalizing t with
  | nil =>
    cases hrun
    exact ⟨hs, fun _ _ => rfl⟩
  | append_singleton l a ih =>
    obtain ⟨u, hu, hv⟩ := run_snoc.mp hrun
    obtain ⟨hI, hshow⟩ := ih (fun b hb => hl b (mem_append_left _ hb)) hu
    obtain ⟨hI', hshow'⟩ := hstep u a t hI (hl a (by simp)) hv
    refine ⟨hI', fun p hp => ?_⟩
    rw [hshow' p hp, map_append, map_singleton, stack_snoc]
    exact Layer.over_congr (hshow p hp)

theorem run_ok_iff : (∃ t, l.foldlM step s = .ok t) ↔
      ∀ pre a post, l = pre ++ a :: post → ∀ u, pre.foldlM step s = .ok u →
        ∃ v, step u a = .ok v := by
  induction l using List.reverseRecOn with
  | nil =>
    constructor
    · intro _ pre a post h
      simp at h
    · intro _
      exact ⟨s, rfl⟩
  | append_singleton l a ih =>
    constructor
    · rintro ⟨t, ht⟩ pre b post h u hu
      have hpre : pre ++ [b] <+: l ++ [a] := ⟨post, by rw [h]; simp⟩
      obtain ⟨v, hv⟩ := run_prefix_ok hpre ht
      obtain ⟨u', hu', hstep⟩ := run_snoc.mp hv
      rw [hu] at hu'
      cases hu'
      exact ⟨v, hstep⟩
    · intro h
      obtain ⟨u, hu⟩ := ih.mpr fun pre b post hl u hu =>
        h pre b (post ++ [a]) (by rw [hl]; simp) u hu
      obtain ⟨v, hv⟩ := h l a [] rfl u hu
      exact ⟨v, run_snoc.mpr ⟨u, hu, hv⟩⟩

end Foundation
