import Codex.Config.Layers

/-!
# Values edited at a path

A value is set or removed at a path of keys. Setting makes tables of what it passes,
removing passes tables only. What is read at paths that part from the edited one stays as
it was, as long as nothing else than a table made room for a table.
-/

namespace Codex.Config

open Foundation List

/-! ## Reading -/

variable (v : TomlValue)

namespace TomlValue

def step : TomlValue → Step → Option TomlValue
  | .table entries, .key k => getEntry k entries
  | .array items, .index idx => items[idx]?
  | _, _ => none

def readAt : TomlValue → List Step → Option TomlValue
  | v, [] => some v
  | v, s :: path => (v.step s).bind fun child => child.readAt path

def IsLeaf (v : TomlValue) : Prop := ∀ entries, v ≠ .table entries

def entries : TomlValue → List (Text × TomlValue)
  | .table entries => entries
  | _ => []

@[simp] theorem entries_table (entries : List (Text × TomlValue)) :
    (table entries).entries = entries := rfl

@[simp] theorem readAt_nil : v.readAt [] = some v := by cases v <;> rfl

@[simp] theorem readAt_cons (s : Step) (path : List Step) :
    v.readAt (s :: path) = (v.step s).bind fun child => child.readAt path := by cases v <;> rfl

@[simp] theorem step_table_key (entries : List (Text × TomlValue)) (k : Text) :
    (table entries).step (.key k) = getEntry k entries := rfl

@[simp] theorem step_table_index (entries : List (Text × TomlValue)) (idx : ℕ) :
    (table entries).step (.index idx) = none := rfl

@[simp] theorem step_empty (s : Step) : (table []).step s = none := by cases s <;> rfl

theorem not_isLeaf_table (entries : List (Text × TomlValue)) : ¬ (table entries).IsLeaf :=
  fun h => h entries rfl

theorem table_of_not_isLeaf {v : TomlValue} (h : ¬ v.IsLeaf) : v = .table v.entries := by
  cases v with
  | table entries => rfl
  | scalar value | array items => exact absurd (fun _ => by simp) h

theorem step_key (k : Text) : v.step (.key k) = getEntry k v.entries := by
  cases v <;> rfl

end TomlValue

open TomlValue

def keySteps (p : List Text) : List Step := p.map Step.key

@[simp] theorem keySteps_nil : keySteps [] = [] := rfl

@[simp] theorem keySteps_cons (k : Text) (p : List Text) :
    keySteps (k :: p) = .key k :: keySteps p := rfl

def Incomparable (p q : List Step) : Prop := ¬ p <+: q ∧ ¬ q <+: p

theorem Incomparable.tail {s : Step} {p q : List Step} (h : Incomparable (s :: p) (s :: q)) :
    Incomparable p q :=
  ⟨fun hp => h.1 (cons_prefix_cons.mpr ⟨rfl, hp⟩), fun hq => h.2 (cons_prefix_cons.mpr ⟨rfl, hq⟩)⟩

def TablesAbove (v : TomlValue) (p : List Text) : Prop :=
  ∀ above, above <+: p → above ≠ p → ∀ w, v.readAt (keySteps above) = some w → ¬ w.IsLeaf

variable {p : List Text}

theorem TablesAbove.table {v : TomlValue} {k : Text} (h : TablesAbove v (k :: p)) :
    v = .table v.entries :=
  table_of_not_isLeaf (h [] nil_prefix (cons_ne_nil k p).symm v (readAt_nil v))

theorem TablesAbove.child {v child : TomlValue} {k : Text} (h : TablesAbove v (k :: p))
    (hk : getEntry k v.entries = some child) : TablesAbove child p := by
  intro above habove hne w hw
  refine h (k :: above) (cons_prefix_cons.mpr ⟨rfl, habove⟩) (fun heq => ?_) w ?_
  · exact hne (List.cons.inj heq).2
  · simp [step_key, hk, hw]

theorem tablesAbove_empty (p : List Text) : TablesAbove (.table []) p := by
  intro above _ _ w hw
  cases above with
  | nil =>
    cases hw
    exact not_isLeaf_table []
  | cons k above => simp [getEntry] at hw

def setAt (v : TomlValue) : List Text → TomlValue → TomlValue
  | [], _ => v
  | k :: p, current =>
    .table (setEntry k (setAt v p ((getEntry k current.entries).getD (.table []))) current.entries)

theorem readAt_setAt (p : List Text) (current : TomlValue) :
    (setAt v p current).readAt (keySteps p) = some v := by
  induction p generalizing current with
  | nil => simp [setAt]
  | cons k p ih => simp [setAt, ih]

variable {current : TomlValue}

theorem readAt_setAt_elsewhere (htables : TablesAbove current p) {q : List Step}
    (hq : Incomparable (keySteps p) q) : (setAt v p current).readAt q = current.readAt q := by
  induction p generalizing current q with
  | nil => exact absurd nil_prefix hq.1
  | cons k p ih =>
    obtain ⟨entries, rfl⟩ : ∃ entries, current = .table entries := ⟨_, htables.table⟩
    cases q with
    | nil => exact absurd nil_prefix hq.2
    | cons s q =>
      cases s with
      | index idx => simp [setAt]
      | key k' =>
        by_cases hk : k' = k
        · subst hk
          -- the path goes on below the same key
          have hq := hq.tail
          cases hchild : getEntry k' entries with
          | some child => simpa [setAt, hchild] using ih (htables.child hchild) hq
          | none =>
            have hbelow := ih (tablesAbove_empty p) hq
            cases q with
            | nil => exact absurd nil_prefix hq.2
            | cons s q => simpa [setAt, hchild] using hbelow
        · simp [setAt, getEntry_set, hk]

/-! ## Removing -/

def removeAt : List Text → TomlValue → TomlValue
  | [k], .table entries => .table (removeEntry k entries)
  | k :: k' :: p, .table entries =>
    match getEntry k entries with
    | some child => .table (setEntry k (removeAt (k' :: p) child) entries)
    | none => .table entries
  | _, current => current

theorem removeAt_cons {k : Text} (hp : p ≠ []) (entries : List (Text × TomlValue)) :
    removeAt (k :: p) (.table entries) = match getEntry k entries with
      | some child => .table (setEntry k (removeAt p child) entries)
      | none => .table entries := by
  cases p with
  | nil => exact absurd rfl hp
  | cons k' p => rfl

theorem removeAt_leaf {v : TomlValue} (h : v.IsLeaf) (p : List Text) : removeAt p v = v := by
  cases v with
  | table entries => exact absurd rfl (h entries)
  | scalar value | array items => rcases p with _ | ⟨k, _ | ⟨k', p⟩⟩ <;> rfl

theorem readAt_leaf {v : TomlValue} (h : v.IsLeaf) (hp : p ≠ []) :
    v.readAt (keySteps p) = none := by
  cases p with
  | nil => exact absurd rfl hp
  | cons k p =>
    cases v with
    | table entries => exact absurd rfl (h entries)
    | scalar value | array items => rfl

theorem removeAt_absent (h : current.readAt (keySteps p) = none) :
    removeAt p current = current := by
  induction p generalizing current with
  | nil => cases current <;> cases h
  | cons k p ih =>
    by_cases hleaf : current.IsLeaf
    · exact removeAt_leaf hleaf _
    · rw [table_of_not_isLeaf hleaf] at h ⊢
      simp only [keySteps_cons, readAt_cons, step_table_key] at h
      cases p with
      | nil =>
        rw [removeAt, remove_absent (by simpa using h)]
      | cons k' p =>
        rw [removeAt_cons (cons_ne_nil k' p)]
        cases hchild : getEntry k current.entries with
        | none => rfl
        | some child =>
          rw [hchild, Option.bind_some] at h
          dsimp only
          rw [ih h, set_getEntry hchild]

theorem readAt_removeAt (hp : p ≠ []) (current : TomlValue) :
    (removeAt p current).readAt (keySteps p) = none := by
  induction p generalizing current with
  | nil => exact absurd rfl hp
  | cons k p ih =>
    cases current with
    | scalar value | array items => cases p <;> simp [removeAt, step]
    | table entries =>
      cases p with
      | nil => simp [removeAt, getEntry_remove]
      | cons k' p =>
        unfold removeAt
        cases hchild : getEntry k entries with
        | none => simp [hchild]
        | some child => simpa using ih (cons_ne_nil k' p) child

theorem readAt_removeAt_leaf {q : List Step} (hq : ¬ keySteps p <+: q) {w : TomlValue}
    (hw : w.IsLeaf) : (removeAt p current).readAt q = some w ↔ current.readAt q = some w := by
  induction p generalizing current q with
  | nil => exact absurd nil_prefix hq
  | cons k p ih =>
    cases current with
    | scalar value | array items => cases p <;> simp [removeAt]
    | table entries =>
      have htables : ∀ a b : List (Text × TomlValue),
          (table a).readAt [] = some w ↔ (table b).readAt [] = some w := fun a b =>
        ⟨fun h => absurd (Option.some.inj h) (hw a ·.symm),
          fun h => absurd (Option.some.inj h) (hw b ·.symm)⟩
      cases p with
      | nil =>
        cases q with
        | nil => exact htables _ _
        | cons s q =>
          cases s with
          | index idx => simp [removeAt]
          | key k' =>
            have hk : k' ≠ k := fun h => hq (by simp [h])
            simp [removeAt, getEntry_remove, hk]
      | cons k₁ p =>
        unfold removeAt
        cases hchild : getEntry k entries with
        | none => simp
        | some child =>
          cases q with
          | nil => exact htables _ _
          | cons s q =>
            cases s with
            | index idx => simp
            | key k' =>
              by_cases hk : k' = k
              · subst hk
                have hbelow := @ih child q fun h => hq (cons_prefix_cons.mpr ⟨rfl, h⟩)
                simpa [hchild] using hbelow
              · simp [getEntry_set, hk]

end Codex.Config
