import Mathlib.Data.List.Forall2
import Mathlib.Data.List.Infix

/-!
# Computations and runs that may fail

`Eff σ ε α` reads and changes a state and returns a value or an error; an error
keeps the state reached so far, as code does whose effects are not rolled back.
A run that returns is taken apart with `bind_eq_ok`.

A run folds a step over a list of inputs. What one step says about a state and an
input, a run says about all its prefixes (`always_iff`).
-/

namespace Foundation

/-! ## Computations over a state that may fail -/

def Eff (σ ε α : Type) : Type := σ → Except ε α × σ

variable {σ ε ε' α β : Type}

namespace Eff

def ok (a : α) : Eff σ ε α := fun s => (.ok a, s)

def fail (e : ε) : Eff σ ε α := fun s => (.error e, s)

def bind (x : Eff σ ε α) (f : α → Eff σ ε β) : Eff σ ε β := fun s =>
  match x s with
  | (.ok a, s') => f a s'
  | (.error e, s') => (.error e, s')

instance : Monad (Eff σ ε) where
  pure := ok
  bind := bind

def mapError (f : ε → ε') (x : Eff σ ε α) : Eff σ ε' α := fun s =>
  match x s with
  | (.ok a, s') => (.ok a, s')
  | (.error e, s') => (.error (f e), s')

@[simp] theorem pure_run (a : α) (s : σ) : (pure a : Eff σ ε α) s = (.ok a, s) := rfl

@[simp] theorem fail_run (e : ε) (s : σ) : (fail e : Eff σ ε α) s = (.error e, s) := rfl

variable {x : Eff σ ε α} {f : α → Eff σ ε β}

theorem bind_run_ok {s s' : σ} {a : α} (h : x s = (.ok a, s')) : (x >>= f) s = f a s' := by
  show bind x f s = _
  rw [bind, h]

theorem bind_run_error {s s' : σ} {e : ε} (h : x s = (.error e, s')) :
    (x >>= f) s = (.error e, s') := by
  show bind x f s = _
  rw [bind, h]

theorem bind_eq_ok {s s' : σ} {b : β} :
    (x >>= f) s = (.ok b, s') ↔ ∃ a t, x s = (.ok a, t) ∧ f a t = (.ok b, s') := by
  constructor
  · intro h
    rcases hx : x s with ⟨r, t⟩
    cases r with
    | error e =>
      rw [bind_run_error hx] at h
      simp at h
    | ok a =>
      rw [bind_run_ok hx] at h
      exact ⟨a, t, rfl, h⟩
  · rintro ⟨a, t, hx, hf⟩
    rw [bind_run_ok hx, hf]

theorem bind_state (x : Eff σ ε α) (f : α → Eff σ ε β) (s : σ) :
    ((x >>= f) s).2 = (x s).2 ∨ ∃ a, ((x >>= f) s).2 = (f a (x s).2).2 := by
  rcases hx : x s with ⟨r, t⟩
  cases r with
  | error e =>
    left
    rw [bind_run_error hx]
  | ok a =>
    right
    exact ⟨a, by rw [bind_run_ok hx]⟩

theorem mapError_eq_ok {f : ε → ε'} {s s' : σ} {a : α} :
    mapError f x s = (.ok a, s') ↔ x s = (.ok a, s') := by
  unfold mapError
  rcases x s with ⟨r, t⟩
  cases r <;> simp

end Eff

/-! ## Runs of a step that may fail -/

theorem bind_ok_iff {ε α β : Type} {x : Except ε α} {f : α → Except ε β} {b : β} :
    x >>= f = .ok b ↔ ∃ a, x = .ok a ∧ f a = .ok b := by
  cases x with
  | error e | ok a => simp [bind, Except.bind]

theorem mapM_ok_iff {ε α β : Type} {f : α → Except ε β} {l : List α} {l' : List β} :
    l.mapM f = .ok l' ↔ List.Forall₂ (fun a b => f a = .ok b) l l' := by
  induction l generalizing l' with
  | nil =>
    simp [pure, Except.pure, eq_comm]
  | cons a l ih =>
    rw [List.mapM_cons, bind_ok_iff, List.forall₂_cons_left_iff]
    constructor
    · rintro ⟨b, hb, h⟩
      obtain ⟨bs, hbs, h⟩ := bind_ok_iff.mp h
      cases h
      exact ⟨b, bs, hb, ih.mp hbs, rfl⟩
    · rintro ⟨b, bs, hb, hbs, rfl⟩
      exact ⟨b, hb, bind_ok_iff.mpr ⟨bs, ih.mpr hbs, rfl⟩⟩

variable {σ α ε : Type} {step : σ → α → Except ε σ} {s t : σ}

theorem run_singleton {a : α} : [a].foldlM step s = step s a := by
  rw [List.foldlM_cons]
  cases step s a with
  | error e | ok u => rfl

theorem run_snoc {l : List α} {a : α} :
    (l ++ [a]).foldlM step s = .ok t ↔ ∃ u, l.foldlM step s = .ok u ∧ step u a = .ok t := by
  rw [List.foldlM_append]
  cases l.foldlM step s with
  | error e => simp [bind, Except.bind]
  | ok u =>
    cases hu : step u a with
    | error e => simp [bind, Except.bind, hu]
    | ok v => simp [bind, Except.bind, pure, Except.pure, hu]

theorem run_concat {l l' : List α} {u : σ} (h : l.foldlM step s = .ok u)
    (h' : l'.foldlM step u = .ok t) : (l ++ l').foldlM step s = .ok t := by
  rw [List.foldlM_append, h]
  exact h'

theorem run_prefix_ok {l pre : List α} (hpre : pre <+: l) (h : l.foldlM step s = .ok t) :
    ∃ u, pre.foldlM step s = .ok u := by
  obtain ⟨rest, rfl⟩ := hpre
  rw [List.foldlM_append] at h
  cases hp : pre.foldlM step s with
  | error e =>
    rw [hp] at h
    cases h
  | ok u => exact ⟨u, rfl⟩

theorem run_keeps {I : σ → Prop} (hstep : ∀ u a v, I u → step u a = .ok v → I v) (hs : I s)
    {l : List α} (hrun : l.foldlM step s = .ok t) : I t := by
  induction l using List.reverseRecOn generalizing t with
  | nil =>
    cases hrun
    exact hs
  | append_singleton l a ih =>
    obtain ⟨u, hu, hv⟩ := run_snoc.mp hrun
    exact hstep u a t (ih hu) hv

theorem run_reaches {P : σ → Prop} {f : σ → ℕ}
    (hstep : ∀ u, ¬ P u → ∃ a v, step u a = .ok v ∧ f v < f u) (s : σ) :
    ∃ (l : List α) (t : σ), l.foldlM step s = .ok t ∧ P t := by
  induction hn : f s using Nat.strong_induction_on generalizing s with
  | h n ih =>
    by_cases hs : P s
    · exact ⟨[], s, rfl, hs⟩
    · obtain ⟨a, v, hv, hlt⟩ := hstep s hs
      obtain ⟨l, t, ht, hP⟩ := ih (f v) (hn ▸ hlt) v rfl
      exact ⟨[a] ++ l, t, run_concat (run_singleton.trans hv) ht, hP⟩

theorem run_adds {β : Type} {P : σ → β → Prop} {Q : α → β → Prop}
    (hstep : ∀ u a v, step u a = .ok v → ∀ b, P v b ↔ P u b ∨ Q a b) {l : List α}
    (hrun : l.foldlM step s = .ok t) (b : β) : P t b ↔ P s b ∨ ∃ a ∈ l, Q a b := by
  induction l using List.reverseRecOn generalizing t with
  | nil =>
    cases hrun
    simp
  | append_singleton l a ih =>
    obtain ⟨u, hu, hv⟩ := run_snoc.mp hrun
    rw [hstep u a t hv b, ih hu]
    simp [or_and_right, exists_or, or_assoc]

variable {C : σ → α → Prop}

/-- A property that each step keeps exactly under a condition holds in all states of a
run exactly if all its steps meet the condition. What holds in every run may be used. -/
theorem always_iff_given {I P : σ → Prop} (hkeep : ∀ u a v, I u → step u a = .ok v → I v)
    (hstep : ∀ u a v, I u → P u → step u a = .ok v → (P v ↔ C u a)) (hI : I s) (hs : P s)
    {l : List α} (hrun : l.foldlM step s = .ok t) :
    (∀ pre u, pre <+: l → pre.foldlM step s = .ok u → P u) ↔
      ∀ pre a u, pre ++ [a] <+: l → pre.foldlM step s = .ok u → C u a := by
  constructor
  · intro hall pre a u hpre hu
    obtain ⟨v, hv⟩ := run_prefix_ok hpre hrun
    obtain ⟨u', hu', hstep'⟩ := run_snoc.mp hv
    rw [hu] at hu'
    cases hu'
    have hP := hall pre u ((List.prefix_append pre [a]).trans hpre) hu
    exact (hstep u a v (run_keeps hkeep hI hu) hP hstep').mp (hall _ v hpre hv)
  · intro hall pre
    induction pre using List.reverseRecOn with
    | nil =>
      intro u _ hu
      cases hu
      exact hs
    | append_singleton pre a ih =>
      intro v hpre hv
      obtain ⟨u, hu, hstep'⟩ := run_snoc.mp hv
      have hP := ih u ((List.prefix_append pre [a]).trans hpre) hu
      exact (hstep u a v (run_keeps hkeep hI hu) hP hstep').mpr (hall pre a u hpre hu)

theorem always_iff {P : σ → Prop} (hstep : ∀ u a v, P u → step u a = .ok v → (P v ↔ C u a))
    (hs : P s) {l : List α} (hrun : l.foldlM step s = .ok t) :
    (∀ pre u, pre <+: l → pre.foldlM step s = .ok u → P u) ↔
      ∀ pre a u, pre ++ [a] <+: l → pre.foldlM step s = .ok u → C u a :=
  always_iff_given (I := fun _ => True) (fun _ _ _ _ _ => trivial)
    (fun u a v _ hu h => hstep u a v hu h) trivial hs hrun

/-! ## Runs under a condition -/

/-- Each step of the run meets the condition, in the state where it is taken. -/
def Along (step : σ → α → Except ε σ) (C : σ → α → Prop) : σ → List α → Prop
  | _, [] => True
  | s, a :: l => C s a ∧ ∀ t, step s a = .ok t → Along step C t l

theorem Along.of_forall {l : List α} (h : ∀ a ∈ l, ∀ u, C u a) (s : σ) : Along step C s l := by
  induction l generalizing s with
  | nil => trivial
  | cons a l ih =>
    exact ⟨h a List.mem_cons_self s, fun t _ => ih (fun b hb => h b (List.mem_cons_of_mem _ hb)) t⟩

theorem Along.append {l l' : List α} (h : Along step C s l)
    (h' : ∀ u, l.foldlM step s = .ok u → Along step C u l') : Along step C s (l ++ l') := by
  induction l generalizing s with
  | nil => exact h' s rfl
  | cons a l ih =>
    refine ⟨h.1, fun t ht => ih (h.2 t ht) fun u hu => h' u ?_⟩
    rw [List.foldlM_cons, ht]
    exact hu

theorem Along.cons_ok {l : List α} {a : α} (hstep : step s a = .ok t) (hc : C s a)
    (h : Along step C t l) : Along step C s (a :: l) := by
  refine ⟨hc, fun u hu => ?_⟩
  rw [hstep] at hu
  cases hu
  exact h

theorem Along.at {l : List α} (h : Along step C s l) {pre : List α} {a : α} {u : σ}
    (hpre : pre ++ [a] <+: l) (hu : pre.foldlM step s = .ok u) : C u a := by
  induction pre generalizing s l with
  | nil =>
    obtain ⟨rest, rfl⟩ := hpre
    cases hu
    exact h.1
  | cons b pre ih =>
    obtain ⟨rest, rfl⟩ := hpre
    rw [List.foldlM_cons] at hu
    cases ht : step s b with
    | error e =>
      rw [ht] at hu
      cases hu
    | ok t =>
      rw [ht] at hu
      exact ih (h.2 t ht) (List.prefix_append (pre ++ [a]) rest) hu

theorem Along.imp {I : σ → Prop} {C D : σ → α → Prop}
    (hkeep : ∀ u a v, I u → C u a → step u a = .ok v → I v) (himp : ∀ u a, I u → C u a → D u a)
    (hs : I s) {l : List α} (h : Along step C s l) : Along step D s l := by
  induction l generalizing s with
  | nil => trivial
  | cons a l ih =>
    exact ⟨himp s a hs h.1, fun t ht => ih (hkeep s a t hs h.1 ht) (h.2 t ht)⟩

theorem run_keeps_along {I : σ → Prop} (hstep : ∀ u a v, I u → C u a → step u a = .ok v → I v)
    (hs : I s) {l : List α} (h : Along step C s l) {pre : List α} {u : σ} (hpre : pre <+: l)
    (hu : pre.foldlM step s = .ok u) : I u := by
  induction pre generalizing s l with
  | nil =>
    cases hu
    exact hs
  | cons a pre ih =>
    obtain ⟨rest, rfl⟩ := hpre
    rw [List.foldlM_cons] at hu
    cases ht : step s a with
    | error e =>
      rw [ht] at hu
      cases hu
    | ok t =>
      rw [ht] at hu
      exact ih (hstep s a t hs h.1 ht) (h.2 t ht) (List.prefix_append pre rest) hu

end Foundation
