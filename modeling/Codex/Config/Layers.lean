import Codex.Foundation.Decimal
import Codex.Foundation.Entries
import Codex.Foundation.Table
import Codex.Path
import Codex.Foundation.Layers

/-!
# Config layers and their leaves

A config is read in layers, from the lowest precedence to the highest. The effective
config merges them: tables key by key, anything else as a whole. The origins name for
each leaf, under its dotted path, a layer. Legacy keys take their canonical names in both.

The effective config is a stack of the layers' normalised configs: merging a layer
replaces the leaves that its config has something at, or something other than a table
above. The origins are a stack too, of the dotted paths of each layer's leaves.
-/

namespace Codex.Config

open Foundation List

inductive TomlScalar where
  | string (s : Text)
  | integer (i : ℤ)
  | float (text : Text)
  | boolean (b : Bool)
  | datetime (text : Text)

inductive TomlValue where
  | scalar (value : TomlScalar)
  | array (items : List TomlValue)
  | table (entries : List (Text × TomlValue))

inductive TomlValue.KeysUnique : TomlValue → Prop
  | scalar (value : TomlScalar) : KeysUnique (.scalar value)
  | array {items : List TomlValue} (h : ∀ v ∈ items, KeysUnique v) : KeysUnique (.array items)
  | table {entries : List (Text × TomlValue)} (hkeys : (entries.map Prod.fst).Nodup)
      (h : ∀ e ∈ entries, KeysUnique e.2) : KeysUnique (.table entries)

/-! ## Key aliases -/

structure ConfigKeyAlias where
  tablePath : List Text
  legacyKey : Text
  canonicalKey : Text

def configKeyAliases : List ConfigKeyAlias :=
  [⟨["memories".toList], "no_memories_if_mcp_or_web_search".toList,
    "disable_on_external_context".toList⟩]

section
variable {α : Type}

def normalizeKeyAlias (path : List Text) (table : Entries α) (keyAlias : ConfigKeyAlias) :
    Entries α :=
  if path = keyAlias.tablePath then
    match getEntry keyAlias.legacyKey table with
    | some value =>
      let table := removeEntry keyAlias.legacyKey table
      if (getEntry keyAlias.canonicalKey table).isSome then table
      else setEntry keyAlias.canonicalKey value table
    | none => table
  else table

def normalizeKeyAliases (path : List Text) (table : Entries α) : Entries α :=
  configKeyAliases.foldl (normalizeKeyAlias path) table

end

mutual

def normalizedWithKeyAliases (path : List Text) : TomlValue → TomlValue
  | .table table => .table (normalizeKeyAliases path (normalizedEntries path table))
  | .array items => .array (normalizedItems path items)
  | .scalar value => .scalar value

def normalizedEntries (path : List Text) : List (Text × TomlValue) → List (Text × TomlValue)
  | [] => []
  | (key, child) :: table =>
    (key, normalizedWithKeyAliases (path ++ [key]) child) :: normalizedEntries path table

def normalizedItems (path : List Text) : List TomlValue → List TomlValue
  | [] => []
  | item :: items => normalizedWithKeyAliases path item :: normalizedItems path items

end

/-! ## Merging -/

theorem mem_normalizeKeyAlias {α : Type} {path : List Text} {table : Entries α}
    {keyAlias : ConfigKeyAlias} {e : Text × α} (h : e ∈ normalizeKeyAlias path table keyAlias) :
    ∃ key, (key, e.2) ∈ table := by
  have hold : ∀ {t : Entries α}, e ∈ t → ∃ key, (key, e.2) ∈ t := fun h => ⟨e.1, h⟩
  unfold normalizeKeyAlias at h
  split at h
  · split at h
    · next value hvalue =>
      have hremoved : e ∈ removeEntry keyAlias.legacyKey table → ∃ key, (key, e.2) ∈ table :=
        fun h => hold (mem_of_mem_filter h)
      dsimp only at h
      split at h
      · exact hremoved h
      · rcases mem_setEntry h with rfl | h
        · exact ⟨keyAlias.legacyKey, mem_of_getEntry hvalue⟩
        · exact hremoved h
    · exact hold h
  · exact hold h

theorem mem_normalizeKeyAliases {α : Type} {path : List Text} {table : Entries α} {e : Text × α}
    (h : e ∈ normalizeKeyAliases path table) : ∃ key, (key, e.2) ∈ table :=
  mem_normalizeKeyAlias h

theorem sizeOf_lt_of_mem_normalize {path : List Text} {table : List (Text × TomlValue)}
    {e : Text × TomlValue} (h : e ∈ normalizeKeyAliases path table) :
    sizeOf e.2 < sizeOf (TomlValue.table table) := by
  obtain ⟨key, hkey⟩ := mem_normalizeKeyAliases h
  have hlt := sizeOf_lt_of_mem hkey
  simp only [Prod.mk.sizeOf_spec, TomlValue.table.sizeOf_spec] at hlt ⊢
  omega

def mergeTomlValuesAtPath (base overlay : TomlValue) (path : List Text) : TomlValue :=
  match base, overlay with
  | .table base, .table overlay =>
    .table ((normalizeKeyAliases path overlay).attach.foldl (fun base e =>
      let key := e.1.1
      match getEntry key base with
      | some existing => setEntry key (mergeTomlValuesAtPath existing e.1.2 (path ++ [key])) base
      | none => setEntry key (normalizedWithKeyAliases (path ++ [key]) e.1.2) base)
      (normalizeKeyAliases path base))
  | _, overlay => normalizedWithKeyAliases path overlay
termination_by sizeOf overlay
decreasing_by exact sizeOf_lt_of_mem_normalize e.2

def mergeTomlValues (base overlay : TomlValue) : TomlValue := mergeTomlValuesAtPath base overlay []

inductive ConfigLayerSource where
  | mdm (domain key : Text)
  | system (file : AbsolutePathBuf)
  | user (file : AbsolutePathBuf)
  | project (dotCodexFolder : AbsolutePathBuf)
  | sessionFlags
  | legacyManagedConfigTomlFromFile (file : AbsolutePathBuf)
  | legacyManagedConfigTomlFromMdm

structure ConfigLayerMetadata where
  name : ConfigLayerSource
  version : Text

structure ConfigLayerEntry where
  name : ConfigLayerSource
  config : TomlValue
  version : Text
  disabledReason : Option Text
  keysUnique : config.KeysUnique

namespace ConfigLayerEntry

def isDisabled (layer : ConfigLayerEntry) : Bool := layer.disabledReason.isSome

def metadata (layer : ConfigLayerEntry) : ConfigLayerMetadata := ⟨layer.name, layer.version⟩

end ConfigLayerEntry

/-! ## Origins -/

def joinDots (path : List Text) : Text := ['.'].intercalate path

abbrev Origins := Table Text ConfigLayerMetadata

mutual

def recordOrigins (metadata : ConfigLayerMetadata) (path : List Text) (origins : Origins) :
    TomlValue → Origins
  | .table table => recordEntries metadata path origins table
  | .array items => recordItems metadata path origins 0 items
  | .scalar _ => if path.isEmpty then origins else origins.insert (joinDots path) metadata

def recordEntries (metadata : ConfigLayerMetadata) (path : List Text) (origins : Origins) :
    List (Text × TomlValue) → Origins
  | [] => origins
  | (key, val) :: table =>
    recordEntries metadata path (recordOrigins metadata (path ++ [key]) origins val) table

def recordItems (metadata : ConfigLayerMetadata) (path : List Text) (origins : Origins) (idx : ℕ) :
    List TomlValue → Origins
  | [] => origins
  | item :: items =>
    recordItems metadata path (recordOrigins metadata (path ++ [decimal idx]) origins item)
      (idx + 1) items

end

/-- The layers go from the lowest precedence to the highest. -/
structure ConfigLayerStack where
  layers : List ConfigLayerEntry

namespace ConfigLayerStack

/-- `get_layers`, without the disabled ones. -/
def enabledLayers (stack : ConfigLayerStack) : List ConfigLayerEntry :=
  stack.layers.filter fun layer => !layer.isDisabled

def effectiveConfig (stack : ConfigLayerStack) : TomlValue :=
  stack.enabledLayers.foldl (fun merged layer => mergeTomlValues merged layer.config) (.table [])

def origins (stack : ConfigLayerStack) : Origins :=
  stack.enabledLayers.foldl (fun origins layer =>
    recordOrigins layer.metadata [] origins (normalizedWithKeyAliases [] layer.config)) ∅

end ConfigLayerStack

/-! ## Paths -/

inductive Step where
  | key (key : Text)
  | index (idx : ℕ)

def Step.text : Step → Text
  | .key k => k
  | .index idx => decimal idx

def dotted (path : List Step) : Text := joinDots (path.map Step.text)

namespace TomlValue

def leafAt : TomlValue → List Step → Option TomlScalar
  | .scalar value, [] => some value
  | .table entries, .key k :: path => (getEntry k entries).bind fun child => child.leafAt path
  | .array items, .index idx :: path => items[idx]?.bind fun item => item.leafAt path
  | _, _ => none

/-- Merged into another value, this one takes the place of what is at the path. -/
def Replaces : TomlValue → List Step → Prop
  | .table entries, .key k :: path =>
    match getEntry k entries with
    | some child => child.Replaces path
    | none => False
  | _, _ => True

@[simp] theorem replaces_scalar (value : TomlScalar) (path : List Step) :
    (scalar value).Replaces path := by
  cases path <;> trivial

@[simp] theorem replaces_array (items : List TomlValue) (path : List Step) :
    (array items).Replaces path := by
  cases path <;> trivial

@[simp] theorem replaces_nil (v : TomlValue) : v.Replaces [] := by
  cases v <;> trivial

@[simp] theorem replaces_index (v : TomlValue) (idx : ℕ) (path : List Step) :
    v.Replaces (.index idx :: path) := by
  cases v <;> trivial

end TomlValue

/-! ## Key aliases -/

theorem tablePath_length : ∀ keyAlias ∈ configKeyAliases, keyAlias.tablePath.length = 1 := by
  decide

theorem legacyKey_ne : ∀ keyAlias ∈ configKeyAliases,
    keyAlias.legacyKey ≠ keyAlias.canonicalKey := by
  decide

section
variable {α : Type} {path : List Text} {table : Entries α} {keyAlias : ConfigKeyAlias}

theorem normalizeKeyAlias_absent
    (h : path = keyAlias.tablePath → getEntry keyAlias.legacyKey table = none) :
    normalizeKeyAlias path table keyAlias = table := by
  unfold normalizeKeyAlias
  split
  · next hpath => rw [h hpath]
  · rfl

theorem getEntry_normalizeKeyAlias (hne : keyAlias.legacyKey ≠ keyAlias.canonicalKey) :
    getEntry keyAlias.legacyKey (normalizeKeyAlias keyAlias.tablePath table keyAlias) = none := by
  unfold normalizeKeyAlias
  rw [if_pos rfl]
  split
  · dsimp only
    split
    · rw [getEntry_remove, if_pos rfl]
    · rw [getEntry_set, if_neg hne, getEntry_remove, if_pos rfl]
  · assumption

theorem nodup_normalizeKeyAlias (h : (table.map Prod.fst).Nodup) :
    ((normalizeKeyAlias path table keyAlias).map Prod.fst).Nodup := by
  have hremove : ((removeEntry keyAlias.legacyKey table).map Prod.fst).Nodup :=
    h.sublist (filter_sublist.map _)
  unfold normalizeKeyAlias
  split
  · split
    · dsimp only
      split
      · exact hremove
      · exact nodup_keys_set hremove
    · exact h
  · exact h

theorem normalizeKeyAliases_eq (h : keyAlias ∈ configKeyAliases) :
    normalizeKeyAliases path table = normalizeKeyAlias path table keyAlias := by
  rw [mem_singleton.mp h]
  rfl

theorem normalizeKeyAliases_absent (h : ∀ keyAlias ∈ configKeyAliases,
    path = keyAlias.tablePath → getEntry keyAlias.legacyKey table = none) :
    normalizeKeyAliases path table = table :=
  normalizeKeyAlias_absent (h _ mem_cons_self)

theorem normalizeKeyAliases_elsewhere (h : path.length ≠ 1) :
    normalizeKeyAliases path table = table := by
  refine normalizeKeyAliases_absent fun keyAlias hmem hpath => absurd ?_ h
  rw [hpath, tablePath_length keyAlias hmem]

theorem getEntry_legacyKey (h : keyAlias ∈ configKeyAliases) :
    getEntry keyAlias.legacyKey (normalizeKeyAliases keyAlias.tablePath table) = none := by
  rw [normalizeKeyAliases_eq h]
  exact getEntry_normalizeKeyAlias (legacyKey_ne keyAlias h)

theorem nodup_normalizeKeyAliases (h : (table.map Prod.fst).Nodup) :
    ((normalizeKeyAliases path table).map Prod.fst).Nodup :=
  nodup_normalizeKeyAlias h

end

/-! ## Normalised values -/

mutual

theorem normalized_deep {path : List Text} (h : 2 ≤ path.length) :
    ∀ v, normalizedWithKeyAliases path v = v
  | .scalar _ => rfl
  | .array items => by rw [normalizedWithKeyAliases, normalizedItems_deep h items]
  | .table table => by
    rw [normalizedWithKeyAliases, normalizedEntries_deep (by omega) table,
      normalizeKeyAliases_elsewhere (by omega)]

theorem normalizedEntries_deep {path : List Text} (h : 1 ≤ path.length) :
    ∀ table, normalizedEntries path table = table
  | [] => rfl
  | (key, child) :: table => by
    rw [normalizedEntries, normalized_deep (by simp; omega) child, normalizedEntries_deep h table]

theorem normalizedItems_deep {path : List Text} (h : 2 ≤ path.length) :
    ∀ items, normalizedItems path items = items
  | [] => rfl
  | item :: items => by
    rw [normalizedItems, normalized_deep h item, normalizedItems_deep h items]

end

theorem getEntry_normalizedEntries (path : List Text) (key : Text)
    (table : List (Text × TomlValue)) : getEntry key (normalizedEntries path table) =
      (getEntry key table).map (normalizedWithKeyAliases (path ++ [key])) := by
  induction table with
  | nil => rfl
  | cons e table ih =>
    obtain ⟨k, child⟩ := e
    unfold normalizedEntries
    by_cases hk : k = key
    · subst hk
      simp [getEntry]
    · simp only [getEntry, if_neg hk, ih]

theorem getEntry_normalized (path : List Text) (key : Text) (table : List (Text × TomlValue)) :
    getEntry key (normalizeKeyAliases path (normalizedEntries path table)) =
      (getEntry key (normalizeKeyAliases path table)).map
        (normalizedWithKeyAliases (path ++ [key])) := by
  by_cases h : path.length = 1
  · have hid : normalizedWithKeyAliases (path ++ [key]) = id :=
      funext fun v => normalized_deep (by simp; omega) v
    rw [normalizedEntries_deep (by omega), hid, Option.map_id, id]
  · rw [normalizeKeyAliases_elsewhere h, normalizeKeyAliases_elsewhere h, getEntry_normalizedEntries]

theorem normalizedItems_eq_map (path : List Text) (items : List TomlValue) :
    normalizedItems path items = items.map (normalizedWithKeyAliases path) := by
  induction items with
  | nil => rfl
  | cons item items ih => rw [normalizedItems, ih, map_cons]

theorem normalizedEntries_eq_map (path : List Text) (entries : List (Text × TomlValue)) :
    normalizedEntries path entries =
      entries.map fun e => (e.1, normalizedWithKeyAliases (path ++ [e.1]) e.2) := by
  induction entries with
  | nil => rfl
  | cons e entries ih => rw [normalizedEntries, ih, map_cons]

theorem keysUnique_normalized {v : TomlValue} (h : v.KeysUnique) :
    ∀ path, (normalizedWithKeyAliases path v).KeysUnique := by
  induction h with
  | scalar value => exact fun _ => .scalar value
  | array _ ih =>
    intro path
    rw [normalizedWithKeyAliases, normalizedItems_eq_map]
    exact .array (forall_mem_map.mpr fun item hitem => ih item hitem path)
  | table hkeys _ ih =>
    intro path
    rw [normalizedWithKeyAliases, normalizedEntries_eq_map]
    refine .table (nodup_normalizeKeyAliases ?_) fun e he => ?_
    · rw [map_map]
      exact hkeys
    · obtain ⟨k, hk⟩ := mem_normalizeKeyAliases he
      obtain ⟨e', he', heq⟩ := mem_map.mp hk
      rw [← congrArg Prod.snd heq]
      exact ih e' he' _

def TomlValue.valueAt : TomlValue → List Text → Option TomlValue
  | v, [] => some v
  | .table entries, k :: keys => (getEntry k entries).bind fun child => child.valueAt keys
  | _, _ :: _ => none

def Canonical (path : List Text) (v : TomlValue) : Prop :=
  ∀ keyAlias ∈ configKeyAliases, ∀ keys, path ++ keys = keyAlias.tablePath →
    v.valueAt (keys ++ [keyAlias.legacyKey]) = none

variable {path : List Text} {entries : List (Text × TomlValue)}

theorem Canonical.normalize (h : Canonical path (.table entries)) :
    normalizeKeyAliases path entries = entries := by
  refine normalizeKeyAliases_absent fun keyAlias hmem hpath => ?_
  have hnone := h keyAlias hmem [] (by rw [append_nil, hpath])
  simpa [TomlValue.valueAt] using hnone

theorem Canonical.child {k : Text} {v : TomlValue} (h : Canonical path (.table entries))
    (hk : getEntry k entries = some v) : Canonical (path ++ [k]) v := by
  intro keyAlias hmem keys hpath
  have hnone := h keyAlias hmem (k :: keys) (by rw [← hpath, List.append_assoc]; rfl)
  simpa [TomlValue.valueAt, hk] using hnone

theorem canonical_table (hown : ∀ keyAlias ∈ configKeyAliases, path = keyAlias.tablePath →
      getEntry keyAlias.legacyKey entries = none)
    (hchild : ∀ k v, getEntry k entries = some v → Canonical (path ++ [k]) v) :
    Canonical path (.table entries) := by
  intro keyAlias hmem keys hpath
  cases keys with
  | nil => simp [TomlValue.valueAt, hown keyAlias hmem (by rw [← hpath, append_nil])]
  | cons k keys =>
    rw [cons_append, TomlValue.valueAt]
    cases hk : getEntry k entries with
    | none => rfl
    | some v => exact hchild k v hk keyAlias hmem keys (by rw [← hpath, List.append_assoc]; rfl)

end Codex.Config
