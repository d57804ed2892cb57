import Codex.Config.ValueEdits

/-!
# Merging lays leaves over leaves

Merging a config over another one keeps what it has nothing to say about, and lays its own
leaves over the rest. Both values are in canonical form by then: the base from the merges
before, the overlay since its tables are normalised on the way down.
-/

namespace Codex.Config

open Foundation TomlValue

section
variable (path : List Text)

def mergedWith (k : Text) (v : TomlValue) : Option TomlValue → TomlValue
  | some existing => mergeTomlValuesAtPath existing v (path ++ [k])
  | none => normalizedWithKeyAliases (path ++ [k]) v

theorem merge_tables (base overlay : List (Text × TomlValue)) :
    mergeTomlValuesAtPath (.table base) (.table overlay) path =
      .table ((normalizeKeyAliases path overlay).foldl
        (fun t e => setEntry e.1 (mergedWith path e.1 e.2 (getEntry e.1 t)) t)
        (normalizeKeyAliases path base)) := by
  rw [mergeTomlValuesAtPath]
  congr 1
  refine Eq.trans ?_ List.foldl_attach
  congr 1
  funext t e
  dsimp only
  cases getEntry e.1.1 t <;> rfl

theorem merge_of_not_tables {base overlay : TomlValue}
    (h : ∀ b o, base = .table b → overlay ≠ .table o) :
    mergeTomlValuesAtPath base overlay path = normalizedWithKeyAliases path overlay := by
  rw [mergeTomlValuesAtPath]
  exact fun b o hb ho => h b o hb ho

variable {path} {base overlay : List (Text × TomlValue)} in
theorem getEntry_merged (hunique : (overlay.map Prod.fst).Nodup)
    (hcanonical : Canonical path (.table base)) (k : Text) :
    getEntry k ((normalizeKeyAliases path overlay).foldl
      (fun t e => setEntry e.1 (mergedWith path e.1 e.2 (getEntry e.1 t)) t)
      (normalizeKeyAliases path base)) =
    ((getEntry k (normalizeKeyAliases path overlay)).map fun v =>
      mergedWith path k v (getEntry k base)).or (getEntry k base) := by
  rw [getEntry_updates (mergedWith path) (nodup_normalizeKeyAliases hunique), hcanonical.normalize]

end

/-! ## Canonical values -/

theorem canonical_normalized (path : List Text) (v : TomlValue) :
    Canonical path (normalizedWithKeyAliases path v) := by
  intro keyAlias hmem keys
  induction keys generalizing path v with
  | nil =>
    intro hpath
    rw [List.append_nil] at hpath
    subst hpath
    cases v with
    | table entries =>
      simp [normalizedWithKeyAliases, TomlValue.valueAt, getEntry_legacyKey hmem]
    | scalar value | array items => rfl
  | cons k keys ih =>
    intro hpath
    cases v with
    | table entries =>
      rw [normalizedWithKeyAliases, List.cons_append, TomlValue.valueAt, getEntry_normalized]
      cases getEntry k (normalizeKeyAliases path entries) with
      | none => rfl
      | some child => exact ih (path ++ [k]) child (by rw [List.append_assoc]; exact hpath)
    | scalar value | array items => rfl

theorem canonical_merge {overlay : TomlValue} (hunique : overlay.KeysUnique) :
    ∀ {path : List Text} {base : TomlValue}, Canonical path base →
      Canonical path (mergeTomlValuesAtPath base overlay path) := by
  induction hunique with
  | scalar value | array _ _ =>
    intro path base _
    rw [merge_of_not_tables path (by simp)]
    exact canonical_normalized path _
  | @table entries hkeys _ ih =>
    intro path base hcanonical
    by_cases hbase : ∃ below, base = .table below
    · obtain ⟨below, rfl⟩ := hbase
      rw [merge_tables]
      refine canonical_table ?_ fun k v hv => ?_
      · intro keyAlias hmem hpath
        rw [getEntry_merged hkeys hcanonical]
        subst hpath
        rw [getEntry_legacyKey hmem, ← hcanonical.normalize, getEntry_legacyKey hmem]
        rfl
      · rw [getEntry_merged hkeys hcanonical] at hv
        cases hover : getEntry k (normalizeKeyAliases path entries) with
        | none =>
          rw [hover] at hv
          exact hcanonical.child hv
        | some upper =>
          obtain ⟨key, hkey⟩ := mem_normalizeKeyAliases (mem_of_getEntry hover)
          rw [hover] at hv
          cases hv
          cases hbelow : getEntry k below with
          | none => exact canonical_normalized _ upper
          | some existing => exact ih _ hkey (hcanonical.child hbelow)
    · rw [merge_of_not_tables path fun below _ h => absurd ⟨below, h⟩ hbase]
      exact canonical_normalized path _

/-! ## What is read of a merged value -/

theorem TomlValue.replaces_of_readAt {v : TomlValue} {steps : List Step}
    (h : (v.readAt steps).isSome) : v.Replaces steps := by
  induction steps generalizing v with
  | nil => simp
  | cons s steps ih =>
    cases v with
    | scalar value | array items => simp
    | table entries =>
      cases s with
      | index idx => simp
      | key k =>
        unfold Replaces
        simp only [readAt_cons, step_table_key] at h
        cases hchild : getEntry k entries with
        | none => simp [hchild] at h
        | some child => exact ih (by simpa [hchild] using h)

section
variable {β : Type} (view : TomlValue → Option β)

/-- A config lays over another one what is seen of its values. -/
def viewLayer (config : TomlValue) : Layer (List Step) (Option β) :=
  ⟨config.Replaces, fun steps => (config.readAt steps).bind view⟩

variable {view} {config : TomlValue} {seen : List Step → Option β} {steps : List Step}

theorem viewLayer_over_replaced (h : config.Replaces steps) :
    (viewLayer view config).over seen steps = (config.readAt steps).bind view :=
  Layer.over_of_covers (l := viewLayer view config) h

theorem viewLayer_over_nothing (h : seen steps = none) :
    (viewLayer view config).over seen steps = (config.readAt steps).bind view := by
  by_cases hcovers : config.Replaces steps
  · exact viewLayer_over_replaced hcovers
  · rw [Layer.over_of_not_covers (l := viewLayer view config) hcovers, h]
    cases hread : config.readAt steps with
    | none => rfl
    | some value => exact absurd (TomlValue.replaces_of_readAt (by simp [hread])) hcovers

theorem viewLayer_over_key {entries below : List (Text × TomlValue)} {k : Text}
    {child existing : TomlValue} (hchild : getEntry k entries = some child)
    (hexisting : getEntry k below = some existing) (steps : List Step) :
    (viewLayer view (.table entries)).over
        (fun steps => ((TomlValue.table below).readAt steps).bind view) (.key k :: steps) =
      (viewLayer view child).over (fun steps => (existing.readAt steps).bind view) steps := by
  unfold Layer.over viewLayer
  simp [TomlValue.Replaces, hchild, hexisting]

variable (view) in
/-- Merging lays the overlay over the base, as far as tables look all the same. -/
theorem readAt_merge (hview : ∀ a b, view (.table a) = view (.table b)) {overlay : TomlValue}
    (hunique : overlay.KeysUnique) : ∀ {path : List Text} {base : TomlValue},
      Canonical path base → ∀ steps : List Step,
        ((mergeTomlValuesAtPath base overlay path).readAt steps).bind view =
        (viewLayer view (normalizedWithKeyAliases path overlay)).over
          (fun steps => (base.readAt steps).bind view) steps := by
  induction hunique with
  | scalar value =>
    intro path base _ steps
    rw [merge_of_not_tables path (by simp)]
    exact (viewLayer_over_replaced (TomlValue.replaces_scalar value steps)).symm
  | array _ _ =>
    intro path base _ steps
    rw [merge_of_not_tables path (by simp)]
    exact (viewLayer_over_replaced (TomlValue.replaces_array _ steps)).symm
  | @table entries hkeys _ ih =>
    intro path base hcanonical steps
    by_cases hbase : ∃ below, base = .table below
    · obtain ⟨below, rfl⟩ := hbase
      rw [merge_tables]
      cases steps with
      | nil => exact (hview _ _).trans (viewLayer_over_replaced (TomlValue.replaces_nil _)).symm
      | cons s steps =>
        cases s with
        | index idx =>
          rw [viewLayer_over_replaced (TomlValue.replaces_index _ idx steps)]
          rfl
        | key k =>
          have hnormal := getEntry_normalized path k entries
          rw [readAt_cons, step_table_key, getEntry_merged hkeys hcanonical,
            normalizedWithKeyAliases]
          cases hover : getEntry k (normalizeKeyAliases path entries) with
          | none =>
            rw [hover] at hnormal
            rw [Layer.over_of_not_covers (by simp [viewLayer, TomlValue.Replaces, hnormal])]
            rfl
          | some upper =>
            obtain ⟨key, hkey⟩ := mem_normalizeKeyAliases (mem_of_getEntry hover)
            rw [hover] at hnormal
            cases hbelow : getEntry k below with
            | none =>
              rw [viewLayer_over_nothing (by simp [hbelow])]
              simp [hnormal, mergedWith]
            | some existing =>
              rw [viewLayer_over_key hnormal hbelow]
              exact ih _ hkey (hcanonical.child hbelow) steps
    · rw [merge_of_not_tables path fun below _ h => absurd ⟨below, h⟩ hbase]
      cases steps with
      | nil => exact (viewLayer_over_replaced (TomlValue.replaces_nil _)).symm
      | cons s steps =>
        cases s with
        | index idx => exact (viewLayer_over_replaced (TomlValue.replaces_index _ idx steps)).symm
        | key k =>
          refine (viewLayer_over_nothing ?_).symm
          cases base with
          | table below => exact absurd ⟨below, rfl⟩ hbase
          | scalar value | array items => rfl

end

def TomlValue.scalarOf : TomlValue → Option TomlScalar
  | .scalar value => some value
  | _ => none

theorem leafAt_eq_readAt (steps : List Step) (v : TomlValue) :
    v.leafAt steps = (v.readAt steps).bind TomlValue.scalarOf := by
  induction steps generalizing v with
  | nil => cases v <;> rfl
  | cons s steps ih => cases v <;> cases s <;> simp [TomlValue.leafAt, step, ih, Option.bind_assoc]

theorem TomlValue.replaces_of_leafAt {v : TomlValue} {path : List Step}
    (h : (v.leafAt path).isSome) : v.Replaces path := by
  rw [leafAt_eq_readAt] at h
  exact replaces_of_readAt (Option.isSome_of_isSome_bind h)

def leafLayer (config : TomlValue) : Layer (List Step) (Option TomlScalar) :=
  ⟨config.Replaces, config.leafAt⟩

theorem leafAt_merge {overlay base : TomlValue} (hunique : overlay.KeysUnique) {path : List Text}
    (hcanonical : Canonical path base) (steps : List Step) :
    (mergeTomlValuesAtPath base overlay path).leafAt steps =
      (leafLayer (normalizedWithKeyAliases path overlay)).over base.leafAt steps := by
  have hmerge := readAt_merge TomlValue.scalarOf (fun _ _ => rfl) hunique hcanonical steps
  unfold Layer.over at hmerge ⊢
  rw [leafAt_eq_readAt, hmerge]
  simp only [leafLayer, viewLayer, leafAt_eq_readAt]

end Codex.Config
