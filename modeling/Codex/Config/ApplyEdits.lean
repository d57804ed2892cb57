import Codex.Config.Merge
import Codex.Foundation.Json

/-!
# Writes to the user's config

A write edits the user's layer and puts it back into the stack. Its response tells whether
a value that was written is overridden, and by which layer.
-/

namespace Codex.Config

open Foundation List

/-! ## Equal values -/

def isNan (text : Text) : Bool := text = "nan".toList

def isZero (text : Text) : Bool := text = "0.0".toList ∨ text = "-0.0".toList

def TomlScalar.same : TomlScalar → TomlScalar → Bool
  | .string a, .string b => a = b
  | .integer a, .integer b => a = b
  | .float a, .float b => !isNan a && !isNan b && (a = b || isZero a && isZero b)
  | .boolean a, .boolean b => a = b
  | .datetime a, .datetime b => a = b
  | _, _ => false

mutual

/-- `==` of values: the order of a table does not matter. -/
def TomlValue.same : TomlValue → TomlValue → Bool
  | .scalar a, .scalar b => a.same b
  | .array a, .array b => sameItems a b
  | .table a, .table b => a.length = b.length && sameEntries a b
  | _, _ => false

def sameItems : List TomlValue → List TomlValue → Bool
  | [], [] => true
  | v :: a, w :: b => v.same w && sameItems a b
  | _, _ => false

def sameEntries : List (Text × TomlValue) → List (Text × TomlValue) → Bool
  | [], _ => true
  | (k, v) :: a, b => (match getEntry k b with
    | some w => v.same w
    | none => false) && sameEntries a b

end

def sameValue : Option TomlValue → Option TomlValue → Bool
  | some v, some w => v.same w
  | none, none => true
  | _, _ => false

/-- `parse::<i64>` and then `usize::try_from`: a negative number is none, but for `-0`. -/
def parseIndex (segment : Text) : Option ℕ :=
  match segment with
  | '-' :: digits => if digits.all Char.isDigit ∧ parseUsize digits = some 0 then some 0 else none
  | _ => (parseUsize segment).filter fun idx => idx < 2 ^ 63

def valueAtPath : TomlValue → List Text → Option TomlValue
  | current, [] => some current
  | .table table, segment :: segments =>
    (getEntry segment table).bind fun child => valueAtPath child segments
  | .array items, segment :: segments =>
    (parseIndex segment).bind fun idx => items[idx]?.bind fun item => valueAtPath item segments
  | .scalar _, _ :: _ => none

def parseKeyPath (path : Text) : Except Text (List Text) :=
  if trim path = [] then .error "keyPath must not be empty".toList
  else .ok (path.splitOn '.')

/-! ## Edits -/

inductive MergeStrategy | replace | upsert
deriving DecidableEq

inductive MergeError
  | pathNotFound
  | validation (message : Text)

/-- The last segment of `apply_merge`, and whether the table changes. -/
def setLast (last : Text) (value : TomlValue) (strategy : MergeStrategy)
    (table : List (Text × TomlValue)) : Bool × List (Text × TomlValue) :=
  match strategy, getEntry last table, value with
  | .upsert, some (.table existing), .table _ =>
    (true, setEntry last (mergeTomlValues (.table existing) value) table)
  | _, existing, _ => (!sameValue existing (some value), setEntry last value table)

/-- The walk of `apply_merge` to the parent, which makes the tables it passes. -/
def setBelow (last : Text) (value : TomlValue) (strategy : MergeStrategy) :
    List Text → TomlValue → Except MergeError (Bool × TomlValue)
  | [], .table table =>
    let (changed, table) := setLast last value strategy table
    .ok (changed, .table table)
  | [], _ => .error (.validation "cannot set value on non-table parent".toList)
  | segment :: parents, current =>
    let table := match current with
      | .table table => table
      | _ => []
    let child := (getEntry segment table).getD (.table [])
    match setBelow last value strategy parents child with
    | .ok (changed, child) => .ok (changed, .table (setEntry segment child table))
    | .error err => .error err

/-- The walk of `clear_path` to the parent, which is to be there. -/
def clearBelow (last : Text) : List Text → TomlValue → Except MergeError (Bool × TomlValue)
  | [], .table table => .ok ((getEntry last table).isSome, .table (removeEntry last table))
  | segment :: parents, .table table =>
    match getEntry segment table with
    | some child =>
      match clearBelow last parents child with
      | .ok (changed, child) => .ok (changed, .table (setEntry segment child table))
      | .error err => .error err
    | none => .error .pathNotFound
  | _, _ => .error .pathNotFound

def clearPath (root : TomlValue) (segments : List Text) : Except MergeError (Bool × TomlValue) :=
  match segments.getLast? with
  | none => .error (.validation "keyPath must not be empty".toList)
  | some last => clearBelow last segments.dropLast root

def applyMerge (root : TomlValue) (segments : List Text) (value : Option TomlValue)
    (strategy : MergeStrategy) : Except MergeError (Bool × TomlValue) :=
  match value with
  | none => clearPath root segments
  | some value =>
    match segments.getLast? with
    | none => .error (.validation "keyPath must not be empty".toList)
    | some last => setBelow last value strategy segments.dropLast root

/-! ## Values with their keys once -/

abbrev UniqueToml := { v : TomlValue // v.KeysUnique }

variable {table : List (Text × TomlValue)} {last : Text} {strategy : MergeStrategy}

section
variable (h : (TomlValue.table table).KeysUnique)
include h

theorem keysUnique_set {k : Text} {v : TomlValue}
    (hv : v.KeysUnique) : (TomlValue.table (setEntry k v table)).KeysUnique := by
  cases h with
  | table hkeys hall =>
    refine .table (nodup_keys_set hkeys) fun e he => ?_
    rcases mem_setEntry he with rfl | hmem
    · exact hv
    · exact hall e hmem

theorem keysUnique_normalize {path : List Text} :
    (TomlValue.table (normalizeKeyAliases path table)).KeysUnique := by
  cases h with
  | table hkeys hall =>
    refine .table (nodup_normalizeKeyAliases hkeys) fun e he => ?_
    obtain ⟨k, hk⟩ := mem_normalizeKeyAliases he
    exact hall (k, e.2) hk

theorem keysUnique_get {k : Text} {v : TomlValue}
    (hk : getEntry k table = some v) : v.KeysUnique := by
  cases h with
  | table hkeys hall => exact hall _ (mem_of_getEntry hk)

end

theorem keysUnique_empty : (TomlValue.table []).KeysUnique := .table nodup_nil (forall_mem_nil _)

theorem keysUnique_merge {overlay : TomlValue} (h : overlay.KeysUnique) :
    ∀ {base : TomlValue} {path : List Text}, base.KeysUnique →
      (mergeTomlValuesAtPath base overlay path).KeysUnique := by
  have hover := fun path => keysUnique_normalized h path
  induction h with
  | scalar value | array _ _ =>
    intro base path _
    rw [merge_of_not_tables path (by simp)]
    exact hover path
  | @table entries hkeys hall ih =>
    intro base path hbase
    by_cases htable : ∃ below, base = .table below
    · obtain ⟨below, rfl⟩ := htable
      rw [merge_tables]
      -- along the updates of the table
      have hupdates : ∀ l : List (Text × TomlValue), (∀ e ∈ l, ∃ k, (k, e.2) ∈ entries) →
          ∀ t, (TomlValue.table t).KeysUnique → (TomlValue.table (l.foldl (fun t e =>
            setEntry e.1 (mergedWith path e.1 e.2 (getEntry e.1 t)) t) t)).KeysUnique := by
        intro l
        induction l with
        | nil => exact fun _ t ht => ht
        | cons e l ihl =>
          intro hmem t ht
          refine ihl (fun e' he' => hmem e' (mem_cons_of_mem _ he')) _ (keysUnique_set ht ?_)
          obtain ⟨k, hk⟩ := hmem e mem_cons_self
          cases hget : getEntry e.1 t with
          | none => exact keysUnique_normalized (hall _ hk) _
          | some existing =>
            exact ih (k, e.2) hk (keysUnique_normalized (hall _ hk)) (keysUnique_get ht hget)
      exact hupdates _ (fun e he => mem_normalizeKeyAliases he) _ (keysUnique_normalize hbase)
    · rw [merge_of_not_tables path fun below _ heq => absurd ⟨below, heq⟩ htable]
      exact hover path

theorem keysUnique_setLast {value : TomlValue} (hvalue : value.KeysUnique)
    (h : (TomlValue.table table).KeysUnique) :
    (TomlValue.table (setLast last value strategy table).2).KeysUnique := by
  unfold setLast
  split
  · next existing _ hget =>
    exact keysUnique_set h (keysUnique_merge hvalue (keysUnique_get h hget))
  · exact keysUnique_set h hvalue

theorem keysUnique_setBelow {value : TomlValue} (hvalue : value.KeysUnique) {parents : List Text}
    {current root : TomlValue} {changed : Bool} (h : current.KeysUnique)
    (hset : setBelow last value strategy parents current = .ok (changed, root)) :
    root.KeysUnique := by
  induction parents generalizing current root changed with
  | nil =>
    cases current with
    | table table =>
      cases hset
      exact keysUnique_setLast hvalue h
    | scalar value | array items => cases hset
  | cons segment parents ih =>
    unfold setBelow at hset
    dsimp only at hset
    generalize htable : (match current with
      | .table table => table
      | _ => ([] : List (Text × TomlValue))) = table at hset
    have hunique : (TomlValue.table table).KeysUnique := by
      rw [← htable]
      cases current with
      | table table => exact h
      | scalar value | array items => exact keysUnique_empty
    have hchild : ((getEntry segment table).getD (.table [])).KeysUnique := by
      cases hget : getEntry segment table with
      | none => exact keysUnique_empty
      | some child => exact keysUnique_get hunique hget
    split at hset
    · next changed child hbelow =>
      cases hset
      exact keysUnique_set hunique (ih hchild hbelow)
    · cases hset

theorem keysUnique_clearBelow {parents : List Text} {current root : TomlValue} {changed : Bool}
    (h : current.KeysUnique) (hclear : clearBelow last parents current = .ok (changed, root)) :
    root.KeysUnique := by
  induction parents generalizing current root changed with
  | nil =>
    cases current with
    | table table =>
      cases hclear
      cases h with
      | table hkeys hall =>
        exact .table (hkeys.sublist (filter_sublist.map _)) fun e he =>
          hall e (mem_of_mem_filter he)
    | scalar value | array items => cases hclear
  | cons segment parents ih =>
    cases current with
    | table table =>
      rw [clearBelow] at hclear
      split at hclear
      · next child hget =>
        split at hclear
        · next changed child' hbelow =>
          cases hclear
          exact keysUnique_set h (ih (keysUnique_get h hget) hbelow)
        · cases hclear
      · cases hclear
    | scalar value | array items => cases hclear

theorem keysUnique_applyMerge {root : UniqueToml} {segments : List Text} {value : Option UniqueToml}
    {result : Bool × TomlValue}
    (h : applyMerge root.1 segments (value.map Subtype.val) strategy = .ok result) :
    result.2.KeysUnique := by
  cases value with
  | none =>
    unfold applyMerge clearPath at h
    simp only [Option.map_none] at h
    split at h
    · cases h
    · exact keysUnique_clearBelow root.2 h
  | some value =>
    unfold applyMerge at h
    simp only [Option.map_some] at h
    split at h
    · cases h
    · exact keysUnique_setBelow value.2 root.2 h

/-! ## Layers in their order -/

def ConfigLayerSource.precedence : ConfigLayerSource → ℤ
  | .mdm _ _ => 0
  | .system _ => 10
  | .user _ => 20
  | .project _ => 25
  | .sessionFlags => 30
  | .legacyManagedConfigTomlFromFile _ => 40
  | .legacyManagedConfigTomlFromMdm => 50

def ConfigLayerSource.IsUser (name : ConfigLayerSource) : Prop := ∃ file, name = .user file

def userPrecedence : ℤ := 20

theorem ConfigLayerSource.IsUser.precedence {name : ConfigLayerSource} (h : name.IsUser) :
    name.precedence = userPrecedence := by
  obtain ⟨file, rfl⟩ := h
  rfl

/-- What `verify_layer_ordering` gives: the layers are sorted, and the index is that of the
one user's layer, if there is one. -/
structure OrderedLayerStack extends ConfigLayerStack where
  userLayerIndex : Option ℕ
  sorted : layers.Pairwise fun a b => a.name.precedence ≤ b.name.precedence
  user : ∀ i, userLayerIndex = some i ↔ ∃ layer, layers[i]? = some layer ∧ layer.name.IsUser

section
variable {layers : List ConfigLayerEntry} {layer : ConfigLayerEntry}

theorem sorted_set (h : layers.Pairwise fun a b => a.name.precedence ≤ b.name.precedence)
    {i : ℕ} {old : ConfigLayerEntry} (hold : layers[i]? = some old)
    (hsame : layer.name.precedence = old.name.precedence) :
    (layers.set i layer).Pairwise fun a b => a.name.precedence ≤ b.name.precedence := by
  have hmap : (layers.set i layer).map (fun l => l.name.precedence) =
      layers.map fun l => l.name.precedence := by
    rw [map_set, hsame]
    refine ext_getElem? fun j => ?_
    rw [List.getElem?_set]
    split
    · next hij =>
      obtain ⟨hlt, heq⟩ := List.getElem?_eq_some_iff.mp hold
      simp [← hij, hlt, heq]
    · rfl
  exact pairwise_map.mp (hmap ▸ pairwise_map.mpr h)

theorem precedence_take {n : ℤ} {l : ConfigLayerEntry}
    (h : l ∈ layers.take (layers.findIdx fun l => n < l.name.precedence)) :
    l.name.precedence ≤ n := by
  obtain ⟨j, hj, rfl⟩ := mem_take_iff_getElem.mp h
  have hnot := not_of_lt_findIdx (Nat.lt_of_lt_of_le hj (Nat.min_le_left _ _))
  simpa using hnot

theorem precedence_drop (h : layers.Pairwise fun a b => a.name.precedence ≤ b.name.precedence)
    {n : ℤ} {l : ConfigLayerEntry}
    (hl : l ∈ layers.drop (layers.findIdx fun l => n < l.name.precedence)) :
    n < l.name.precedence := by
  obtain ⟨j, hj, rfl⟩ := mem_drop_iff_getElem.mp hl
  have hlt : layers.findIdx (fun l => n < l.name.precedence) < layers.length := by omega
  refine Int.lt_of_lt_of_le (of_decide_eq_true (@findIdx_getElem _ _ layers hlt)) ?_
  rcases Nat.eq_zero_or_pos j with rfl | hpos
  · exact Int.le_refl _
  · exact pairwise_iff_getElem.mp h _ _ _ _ (by omega)

theorem sorted_insert (h : layers.Pairwise fun a b => a.name.precedence ≤ b.name.precedence) :
    let idx := layers.findIdx fun l => layer.name.precedence < l.name.precedence
    (layers.take idx ++ layer :: layers.drop idx).Pairwise fun a b =>
      a.name.precedence ≤ b.name.precedence := by
  intro idx
  have hsplit := h
  rw [← take_append_drop idx layers, pairwise_append] at hsplit
  obtain ⟨htake, hdrop, hcross⟩ := hsplit
  refine pairwise_append.mpr ⟨htake, pairwise_cons.mpr ⟨fun b hb => ?_, hdrop⟩, ?_⟩
  · exact Int.le_of_lt (precedence_drop h hb)
  · intro a ha b hb
    rcases mem_cons.mp hb with rfl | hb
    · exact precedence_take ha
    · exact hcross a ha b hb

theorem user_insert (hnone : ∀ l ∈ layers, ¬ l.name.IsUser) (hlayer : layer.name.IsUser) {idx : ℕ}
    (hidx : idx ≤ layers.length) (i : ℕ) : some idx = some i ↔
      ∃ l, (layers.take idx ++ layer :: layers.drop idx)[i]? = some l ∧ l.name.IsUser := by
  have hlen : (layers.take idx).length = idx := by simp [hidx]
  rw [Option.some_inj]
  constructor
  · rintro rfl
    refine ⟨layer, ?_, hlayer⟩
    rw [List.getElem?_append_right (by omega), hlen, Nat.sub_self]
    rfl
  · rintro ⟨l, hl, huser⟩
    by_contra hne
    rcases Nat.lt_or_gt_of_ne hne with hlt | hgt
    · rw [List.getElem?_append_right (by omega), hlen,
        (by omega : i - idx = i - idx - 1 + 1), List.getElem?_cons_succ] at hl
      exact hnone l (mem_of_mem_drop (mem_of_getElem? hl)) huser
    · rw [List.getElem?_append_left (by omega)] at hl
      exact hnone l (mem_of_mem_take (mem_of_getElem? hl)) huser

end

namespace OrderedLayerStack

def getUserLayer (stack : OrderedLayerStack) : Option ConfigLayerEntry :=
  stack.userLayerIndex.bind fun index => stack.layers[index]?

/-- `layers_high_to_low`: without the disabled ones. -/
def layersHighToLow (stack : OrderedLayerStack) : List ConfigLayerEntry :=
  stack.enabledLayers.reverse

/-- `with_user_config`, with the layer that is made of the file and its config. -/
def withUserLayer (stack : OrderedLayerStack) (layer : ConfigLayerEntry)
    (hlayer : layer.name.IsUser) : OrderedLayerStack :=
  match hindex : stack.userLayerIndex with
  | some index =>
    { layers := stack.layers.set index layer
      userLayerIndex := some index
      sorted := by
        obtain ⟨old, hold, huser⟩ := (stack.user index).mp hindex
        exact sorted_set stack.sorted hold (by rw [hlayer.precedence, huser.precedence])
      user := fun i => by
        obtain ⟨old, hold, -⟩ := (stack.user index).mp hindex
        obtain ⟨hlt, -⟩ := List.getElem?_eq_some_iff.mp hold
        rw [List.getElem?_set]
        by_cases hi : index = i
        · simp [hi, hi ▸ hlt, hlayer]
        · rw [if_neg hi, ← stack.user i, hindex] }
  | none =>
    let idx := stack.layers.findIdx fun l => layer.name.precedence < l.name.precedence
    { layers := stack.layers.take idx ++ layer :: stack.layers.drop idx
      userLayerIndex := some idx
      sorted := sorted_insert stack.sorted
      user := user_insert (fun l hl huser => by
        obtain ⟨i, hi⟩ := mem_iff_getElem?.mp hl
        have hsome := (stack.user i).mpr ⟨l, hi, huser⟩
        rw [hindex] at hsome
        cases hsome) hlayer findIdx_le_length }

end OrderedLayerStack

end Codex.Config
