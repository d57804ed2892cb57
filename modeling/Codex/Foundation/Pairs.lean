import Mathlib.Data.List.Nodup
import Mathlib.Data.List.Perm.Subperm

/-!
# Items in pairs

Some items of a list call and others answer, under keys. Where each key has one call and
one answer or neither, an item can be taken out with its counterpart, and the rest is
paired as before.
-/

namespace Foundation

variable {α κ : Type} [DecidableEq κ] (call out : α → Option κ)

structure PairedOnce (l : List α) : Prop where
  calls : ∀ k, l.countP (fun a => call a = some k) ≤ 1
  outs : ∀ k, l.countP (fun a => out a = some k) ≤ 1
  answered : ∀ k, (∃ a ∈ l, call a = some k) ↔ ∃ a ∈ l, out a = some k

def Counterpart (a b : α) : Prop :=
  ∃ k, call a = some k ∧ out b = some k ∨ out a = some k ∧ call b = some k

/-- What is left of the rest of a list when an item goes with its counterpart. -/
structure TakesCounterpart (a : α) (rest left : List α) : Prop where
  alone : call a = none → out a = none → left = rest
  paired : call a ≠ none ∨ out a ≠ none →
    ∃ x b y, rest = x ++ b :: y ∧ left = x ++ y ∧ Counterpart call out a b

def removeCounterpart (a : α) (rest : List α) : List α :=
  match call a, out a with
  | some k, _ => rest.eraseP fun b => out b = some k
  | none, some k => rest.eraseP fun b => call b = some k
  | none, none => rest

variable {call out} {l rest : List α} {a b : α} {k : κ}

theorem PairedOnce.perm (h : PairedOnce call out l) (hperm : l.Perm rest) :
    PairedOnce call out rest where
  calls k := hperm.countP_eq _ ▸ h.calls k
  outs k := hperm.countP_eq _ ▸ h.outs k
  answered k := by
    simp only [← hperm.mem_iff]
    exact h.answered k

theorem countP_eq_count_keys (f : α → Option κ) (k : κ) (l : List α) :
    l.countP (fun a => f a = some k) = (l.filterMap f).count k := by
  rw [List.count, List.countP_filterMap]
  congr 1
  funext a
  cases f a <;> simp [beq_eq_decide]

theorem PairedOnce.of_keys (hcalls : (l.filterMap call).Nodup)
    (hperm : (l.filterMap call).Perm (l.filterMap out)) : PairedOnce call out l where
  calls k := by
    rw [countP_eq_count_keys]
    exact List.nodup_iff_count_le_one.mp hcalls k
  outs k := by
    rw [countP_eq_count_keys]
    exact List.nodup_iff_count_le_one.mp (hperm.nodup hcalls) k
  answered k := by
    rw [← List.mem_filterMap, ← List.mem_filterMap]
    exact hperm.mem_iff

theorem PairedOnce.symm (h : PairedOnce call out l) : PairedOnce out call l :=
  ⟨h.outs, h.calls, fun k => (h.answered k).symm⟩

theorem mem_of_erased {p : α → Bool} (h : ∃ b ∈ l, p b = true) :
    ∃ x b y, p b = true ∧ l = x ++ b :: y ∧ l.eraseP p = x ++ y := by
  obtain ⟨b, hb, hp⟩ := h
  obtain ⟨c, x, y, -, hc, hl, herase⟩ := List.exists_of_eraseP hb hp
  exact ⟨x, c, y, hc, hl, herase⟩

theorem PairedOnce.tail_alone (h : PairedOnce call out (a :: rest)) (hcall : call a = none)
    (hout : out a = none) : PairedOnce call out rest where
  calls k := by simpa [hcall] using h.calls k
  outs k := by simpa [hout] using h.outs k
  answered k := by simpa [hcall, hout] using h.answered k

theorem PairedOnce.tail_pair (h : PairedOnce call out (a :: b :: rest)) (hcall : call a = some k)
    (hout : out b = some k) (hcalls : call b = none) (houts : out a = none) :
    PairedOnce call out rest := by
  have hnone : ∀ {f : α → Option κ}, rest.countP (fun c => f c = some k) = 0 →
      ∀ c ∈ rest, f c ≠ some k := fun hzero c hc => by
    simpa using List.countP_eq_zero.mp hzero c hc
  have hcallk : rest.countP (fun c => call c = some k) = 0 := by
    have hone := h.calls k
    simp [hcall, hcalls] at hone
    exact List.countP_eq_zero.mpr (by simpa using hone)
  have houtk : rest.countP (fun c => out c = some k) = 0 := by
    have hone := h.outs k
    simp [hout, houts] at hone
    exact List.countP_eq_zero.mpr (by simpa using hone)
  refine ⟨fun k' => ?_, fun k' => ?_, fun k' => ?_⟩
  · exact Nat.le_trans ((List.sublist_cons_self b rest).trans
      (List.sublist_cons_self a _)).countP_le (h.calls k')
  · exact Nat.le_trans ((List.sublist_cons_self b rest).trans
      (List.sublist_cons_self a _)).countP_le (h.outs k')
  · by_cases hk : k' = k
    · subst hk
      exact ⟨fun ⟨c, hc, hkey⟩ => absurd hkey (hnone hcallk c hc),
        fun ⟨c, hc, hkey⟩ => absurd hkey (hnone houtk c hc)⟩
    · simpa [hcall, hout, hcalls, houts, Ne.symm hk] using h.answered k'

theorem takes_counterpart (hkinds : ∀ c k, call c = some k → out c = none)
    (h : PairedOnce call out (a :: rest)) :
    TakesCounterpart call out a rest (removeCounterpart call out a rest) ∧
      PairedOnce call out (removeCounterpart call out a rest) := by
  have hkinds' : ∀ c k, out c = some k → call c = none := fun c k hout => by
    cases hcall : call c with
    | none => rfl
    | some k' =>
      rw [hkinds c k' hcall] at hout
      cases hout
  unfold removeCounterpart
  cases hcall : call a with
  | some k =>
    have hout := hkinds a k hcall
    obtain ⟨b, hb, hkey⟩ := (h.answered k).mp ⟨a, List.mem_cons_self, hcall⟩
    have hb : b ∈ rest := (List.mem_cons.mp hb).resolve_left fun heq => by simp [heq, hout] at hkey
    obtain ⟨x, b, y, hkey, rfl, herase⟩ :=
      mem_of_erased (l := rest) (p := fun c => out c = some k) ⟨b, hb, by simpa using hkey⟩
    have hkey := of_decide_eq_true hkey
    dsimp only
    rw [herase]
    refine ⟨⟨fun hnone => by simp [hcall] at hnone, fun _ => ⟨x, b, y, rfl, rfl, k, ?_⟩⟩, ?_⟩
    · exact .inl ⟨hcall, hkey⟩
    · exact (h.perm (List.perm_middle.cons a)).tail_pair hcall hkey (hkinds' b k hkey) hout
  | none =>
    cases hout : out a with
    | some k =>
      obtain ⟨b, hb, hkey⟩ := (h.answered k).mpr ⟨a, List.mem_cons_self, hout⟩
      have hb : b ∈ rest :=
        (List.mem_cons.mp hb).resolve_left fun heq => by simp [heq, hcall] at hkey
      obtain ⟨x, b, y, hkey, rfl, herase⟩ :=
        mem_of_erased (l := rest) (p := fun c => call c = some k) ⟨b, hb, by simpa using hkey⟩
      have hkey := of_decide_eq_true hkey
      dsimp only
      rw [herase]
      refine ⟨⟨fun _ hnone => by simp [hout] at hnone, fun _ => ⟨x, b, y, rfl, rfl, k, ?_⟩⟩, ?_⟩
      · exact .inr ⟨hout, hkey⟩
      · exact ((h.perm (List.perm_middle.cons a)).symm.tail_pair hout hkey (hkinds b k hkey)
          hcall).symm
    | none => exact ⟨⟨fun _ _ => rfl, fun hkey => by simp [hcall, hout] at hkey⟩,
        h.tail_alone hcall hout⟩

theorem eraseP_either {p q : α → Bool} (h : l.countP (fun a => p a || q a) ≤ 1) :
    (if l.any p then l.eraseP p else l.eraseP q) = l.eraseP fun a => p a || q a := by
  induction l with
  | nil => rfl
  | cons a l ih =>
    cases hp : p a with
    | true => simp [hp]
    | false =>
      cases hq : q a with
      | true =>
        have hnone : l.countP (fun a => p a || q a) = 0 := by
          rw [List.countP_cons_of_pos (by simp [hq])] at h
          omega
        have hany : l.any p = false := List.any_eq_false.mpr fun b hb hpb =>
          List.countP_eq_zero.mp hnone b hb (by simp [hpb])
        simp [hp, hq, hany]
      | false =>
        rw [List.countP_cons_of_neg (by simp [hp, hq])] at h
        have hrest := ih h
        simp only [List.any_cons, hp, Bool.false_or, List.eraseP_cons, hq, cond_false]
        rw [← hrest]
        split <;> rfl

end Foundation
