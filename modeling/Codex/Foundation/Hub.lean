import Codex.Foundation.Table

/-!
# A hub that posts to its members

Names are given out in a fixed order, each to a member or to nobody. A member may be entered
in a table under its name, and what is addressed to a name goes to the member that the table
has for it. As long as no name is given twice, each member has received what was addressed
to its name, in the order of posting (`Routed.step`).
-/

namespace Foundation

open List

structure Hub (ι α β : Type) [DecidableEq ι] where
  issued : List (Option ℕ × ι)
  table : Table ι ℕ
  accepted : List α
  boxes : ℕ → List β

namespace Hub

variable {ι α β : Type} [DecidableEq ι] (name : ℕ → ι) (dest : α → ι) (msg : α → β)

def Stranger (h : Hub ι α β) (p : ℕ) : Prop := ∀ i, (some p, i) ∉ h.issued

def issue (h : Hub ι α β) (who : Option ℕ) : Hub ι α β :=
  { h with issued := h.issued ++ [(who, name h.issued.length)] }

def enter (h : Hub ι α β) (p : ℕ) (i : ι) : Hub ι α β := { h with table := h.table.insert i p }

def post (h : Hub ι α β) (p : ℕ) (a : α) : Hub ι α β :=
  { h with accepted := h.accepted ++ [a]
           boxes := Function.update h.boxes p (h.boxes p ++ [msg a]) }

inductive Step : Hub ι α β → Hub ι α β → Prop
  | issue (h : Hub ι α β) (who : Option ℕ) : (∀ p, who = some p → h.Stranger p) →
    Step h (h.issue name who)
  | enter (h : Hub ι α β) (p : ℕ) (i : ι) : (some p, i) ∈ h.issued → Step h (h.enter p i)
  | post (h : Hub ι α β) (p : ℕ) (a : α) : h.table.lookup (dest a) = some p →
    Step h (h.post msg p a)

structure Kept (h : Hub ι α β) : Prop where
  names : h.issued.map Prod.snd = (List.range h.issued.length).map name
  once : ∀ p i i', (some p, i) ∈ h.issued → (some p, i') ∈ h.issued → i = i'
  entered : ∀ i p, h.table.lookup i = some p → (some p, i) ∈ h.issued
  known : ∀ a ∈ h.accepted, ∃ p, (some p, dest a) ∈ h.issued
  empty : ∀ p, h.Stranger p → h.boxes p = []

structure Routed (h : Hub ι α β) : Prop where
  distinct : (h.issued.map Prod.snd).Nodup
  inOrder : ∀ p i, (some p, i) ∈ h.issued →
    h.boxes p = (h.accepted.filter fun a => dest a = i).map msg

variable {name dest msg} {h h' : Hub ι α β}

theorem mem_issue {who : Option ℕ} {e : Option ℕ × ι} :
    e ∈ (h.issue name who).issued ↔ e ∈ h.issued ∨ e = (who, name h.issued.length) := by
  rw [issue, mem_append, mem_singleton]

theorem post_self (p : ℕ) (a : α) : (h.post msg p a).boxes p = h.boxes p ++ [msg a] :=
  Function.update_self _ _ _

theorem post_other {p q : ℕ} (hne : q ≠ p) (a : α) : (h.post msg p a).boxes q = h.boxes q :=
  Function.update_of_ne hne _ _

theorem Kept.step (hk : Kept name dest h) (hstep : Step name dest msg h h') : Kept name dest h' := by
  cases hstep with
  | issue who hnew =>
    refine ⟨?_, ?_, ?_, ?_, ?_⟩
    · simp [issue, range_succ, hk.names]
    · intro p i i' hi hi'
      rcases mem_issue.mp hi with hi | hi <;> rcases mem_issue.mp hi' with hi' | hi'
      · exact hk.once p i i' hi hi'
      · exact absurd hi (hnew p (Prod.mk.inj hi').1.symm i)
      · exact absurd hi' (hnew p (Prod.mk.inj hi).1.symm i')
      · exact (Prod.mk.inj hi).2.trans (Prod.mk.inj hi').2.symm
    · exact fun i p hlookup => mem_issue.mpr (.inl (hk.entered i p hlookup))
    · intro a ha
      obtain ⟨p, hp⟩ := hk.known a ha
      exact ⟨p, mem_issue.mpr (.inl hp)⟩
    · exact fun p hp => hk.empty p fun i hi => hp i (mem_issue.mpr (.inl hi))
  | enter p i hi =>
    refine ⟨hk.names, hk.once, ?_, hk.known, hk.empty⟩
    intro i' p' hlookup
    rw [enter, lookup_insert_ite] at hlookup
    split at hlookup
    · next heq =>
      cases hlookup
      exact heq ▸ hi
    · exact hk.entered i' p' hlookup
  | post p a hto =>
    have hp : (some p, dest a) ∈ h.issued := hk.entered _ _ hto
    refine ⟨hk.names, hk.once, hk.entered, ?_, ?_⟩
    · intro b hb
      rcases mem_append.mp hb with hb | hb
      · exact hk.known b hb
      · rw [mem_singleton.mp hb]
        exact ⟨p, hp⟩
    · intro q hq
      have hne : q ≠ p := by
        rintro rfl
        exact hq _ hp
      exact (post_other hne a).trans (hk.empty q hq)

theorem Routed.unique (hr : Routed dest msg h) {e e' : Option ℕ × ι} (he : e ∈ h.issued)
    (he' : e' ∈ h.issued) (heq : e.2 = e'.2) : e = e' :=
  inj_on_of_nodup_map hr.distinct he he' heq

theorem Routed.step (hk : Kept name dest h) (hr : Routed dest msg h)
    (hstep : Step name dest msg h h') (hnodup : (h'.issued.map Prod.snd).Nodup) :
    Routed dest msg h' := by
  refine ⟨hnodup, ?_⟩
  cases hstep with
  | issue who hnew =>
    intro p i hi
    rcases mem_issue.mp hi with hi | hi
    · exact hr.inOrder p i hi
    · obtain ⟨hwho, rfl⟩ := Prod.mk.inj hi
      -- Nothing accepted so far is for a name that was not given out.
      have hnone : h.accepted.filter (fun a => dest a = name h.issued.length) = [] := by
        refine filter_eq_nil_iff.mpr fun a ha hto => ?_
        obtain ⟨q, hq⟩ := hk.known a ha
        rw [of_decide_eq_true hto] at hq
        rw [issue, map_append, nodup_append] at hnodup
        exact hnodup.2.2 _ (mem_map_of_mem hq) _ (mem_singleton_self _) rfl
      exact (hk.empty p (hnew p hwho.symm)).trans (by rw [issue, hnone]; rfl)
  | enter p i hi => exact hr.inOrder
  | post p a hto =>
    have hp : (some p, dest a) ∈ h.issued := hk.entered _ _ hto
    intro q i hi
    have haccepted : (h.post msg p a).accepted = h.accepted ++ [a] := rfl
    rw [haccepted, filter_append, map_append]
    by_cases hq : q = p
    · subst hq
      obtain rfl : i = dest a := hk.once q _ _ hi hp
      rw [post_self, hr.inOrder q _ hi]
      simp
    · have hne : ¬ dest a = i := by
        rintro rfl
        exact hq (Option.some.inj (Prod.mk.inj (hr.unique hi hp rfl)).1)
      rw [post_other hq, hr.inOrder q i hi]
      simp [hne]

end Hub

end Foundation
