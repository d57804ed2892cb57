import Codex.Config.Merge

/-!
# Origins and the effective config

The origins are recorded layer by layer and nothing is ever taken out of them: a leaf that
a higher layer replaces keeps its origin. They name the layers of the effective config's
leaves exactly if every recorded path is that of a leaf which stands, and no higher layer
has recorded another leaf under that path.
-/

namespace Codex.Config

open Foundation List Option

/-! ## Recorded paths -/

/-- A leaf of the value at `path` is recorded under `name`. -/
def TomlValue.Records (v : TomlValue) (path : List Text) (name : Text) : Prop :=
  ∃ steps, (v.leafAt steps).isSome ∧ path ++ steps.map Step.text ≠ [] ∧
    joinDots (path ++ steps.map Step.text) = name

variable {items : List TomlValue}

section
variable {path : List Text} {name : Text} {metadata : ConfigLayerMetadata}

theorem records_scalar (value : TomlScalar) :
    (TomlValue.scalar value).Records path name ↔ path ≠ [] ∧ joinDots path = name := by
  constructor
  · rintro ⟨steps, hleaf, hne, hname⟩
    cases steps with
    | nil => simpa using And.intro hne hname
    | cons s steps => simp [TomlValue.leafAt] at hleaf
  · rintro ⟨hne, hname⟩
    exact ⟨[], rfl, by simpa using hne, by simpa using hname⟩

theorem records_table {entries : List (Text × TomlValue)} (hkeys : (entries.map Prod.fst).Nodup) :
    (TomlValue.table entries).Records path name ↔
      ∃ e ∈ entries, e.2.Records (path ++ [e.1]) name := by
  constructor
  · rintro ⟨steps, hleaf, hne, hname⟩
    cases steps with
    | nil => simp [TomlValue.leafAt] at hleaf
    | cons s steps =>
      cases s with
      | index idx => simp [TomlValue.leafAt] at hleaf
      | key k =>
        obtain ⟨value, hvalue⟩ := isSome_iff_exists.mp hleaf
        obtain ⟨child, hchild, hleaf⟩ := bind_eq_some_iff.mp hvalue
        refine ⟨(k, child), mem_of_getEntry hchild, steps, by simp [hleaf], by simp, ?_⟩
        simpa [Step.text] using hname
  · rintro ⟨e, he, steps, hleaf, hne, hname⟩
    refine ⟨.key e.1 :: steps, ?_, by simp, by simpa [Step.text] using hname⟩
    simpa [TomlValue.leafAt, getEntry_of_mem hkeys he] using hleaf

theorem records_array : (TomlValue.array items).Records path name ↔
      ∃ (idx : ℕ) (item : TomlValue), items[idx]? = some item ∧ item.Records (path ++ [decimal idx]) name := by
  constructor
  · rintro ⟨steps, hleaf, hne, hname⟩
    cases steps with
    | nil => simp [TomlValue.leafAt] at hleaf
    | cons s steps =>
      cases s with
      | key k => simp [TomlValue.leafAt] at hleaf
      | index idx =>
        obtain ⟨value, hvalue⟩ := isSome_iff_exists.mp hleaf
        obtain ⟨item, hitem, hleaf⟩ := bind_eq_some_iff.mp hvalue
        refine ⟨idx, item, hitem, steps, by simp [hleaf], by simp, ?_⟩
        simpa [Step.text] using hname
  · rintro ⟨idx, item, hitem, steps, hleaf, hne, hname⟩
    refine ⟨.index idx :: steps, ?_, by simp, by simpa [Step.text] using hname⟩
    simpa [TomlValue.leafAt, hitem] using hleaf

theorem lookup_recordEntries {entries : List (Text × TomlValue)}
    (h : ∀ e ∈ entries, ∀ path origins, (recordOrigins metadata path origins e.2).lookup name =
      overIf (e.2.Records path name) (some metadata) (origins.lookup name)) (origins : Origins) :
    (recordEntries metadata path origins entries).lookup name =
      overIf (∃ e ∈ entries, e.2.Records (path ++ [e.1]) name) (some metadata)
        (origins.lookup name) := by
  induction entries generalizing origins with
  | nil => exact (overIf_neg (by simp)).symm
  | cons e entries ih =>
    rw [recordEntries, ih fun e he => h e (mem_cons_of_mem _ he), h e mem_cons_self, overIf_twice]
    simp

theorem lookup_recordItems
    (h : ∀ item ∈ items, ∀ path origins, (recordOrigins metadata path origins item).lookup name =
      overIf (item.Records path name) (some metadata) (origins.lookup name)) (origins : Origins)
    (start : ℕ) : (recordItems metadata path origins start items).lookup name =
      overIf (∃ (idx : ℕ) (item : TomlValue), items[idx]? = some item ∧
          item.Records (path ++ [decimal (start + idx)]) name) (some metadata)
        (origins.lookup name) := by
  induction items generalizing origins start with
  | nil => exact (overIf_neg (by simp)).symm
  | cons item items ih =>
    rw [recordItems, ih fun item hitem => h item (mem_cons_of_mem _ hitem),
      h item mem_cons_self, overIf_twice]
    congr 1
    apply propext
    constructor
    · rintro (hrec | ⟨idx, item', hitem, hrec⟩)
      · exact ⟨0, item, rfl, hrec⟩
      · exact ⟨idx + 1, item', hitem, by rwa [Nat.add_assoc, Nat.add_comm 1 idx] at hrec⟩
    · rintro ⟨idx, item', hitem, hrec⟩
      cases idx with
      | zero =>
        cases hitem
        exact .inl hrec
      | succ idx => exact .inr ⟨idx, item', hitem, by rwa [Nat.add_assoc, Nat.add_comm 1 idx]⟩

theorem lookup_recordOrigins {v : TomlValue} (hunique : v.KeysUnique) :
    ∀ path origins, (recordOrigins metadata path origins v).lookup name =
      overIf (v.Records path name) (some metadata) (origins.lookup name) := by
  induction hunique with
  | scalar value =>
    intro path origins
    rw [records_scalar, recordOrigins]
    cases path with
    | nil => exact (overIf_neg (by simp)).symm
    | cons k path =>
      rw [isEmpty_cons, if_neg Bool.false_ne_true, lookup_insert_ite]
      by_cases hname : joinDots (k :: path) = name
      · rw [overIf_pos ⟨by simp, hname⟩, if_pos hname.symm]
      · rw [overIf_neg fun h => hname h.2, if_neg (Ne.symm hname)]
  | array _ ih =>
    intro path origins
    rw [records_array, recordOrigins, lookup_recordItems ih]
    simp only [Nat.zero_add]
  | table hkeys _ ih =>
    intro path origins
    rw [records_table hkeys, recordOrigins, lookup_recordEntries ih]

end

/-! ## The two stacks -/

def ConfigLayerEntry.normalized (layer : ConfigLayerEntry) : TomlValue :=
  normalizedWithKeyAliases [] layer.config

def ConfigLayerEntry.Names (layer : ConfigLayerEntry) (name : Text) : Prop :=
  layer.normalized.Records [] name

def originLayer (layer : ConfigLayerEntry) : Layer Text (Option ConfigLayerMetadata) :=
  ⟨layer.Names, fun _ => some layer.metadata⟩

def mergedLayers (layers : List ConfigLayerEntry) : TomlValue :=
  layers.foldl (fun merged layer => mergeTomlValues merged layer.config) (.table [])

def recordedLayers (layers : List ConfigLayerEntry) : Origins :=
  layers.foldl (fun origins layer =>
    recordOrigins layer.metadata [] origins (normalizedWithKeyAliases [] layer.config)) ∅

variable (layers : List ConfigLayerEntry)

theorem canonical_mergedLayers : Canonical [] (mergedLayers layers) := by
  induction layers using List.reverseRecOn with
  | nil => exact canonical_table (fun _ _ _ => rfl) fun k v hk => by cases hk
  | append_singleton layers layer ih =>
    rw [mergedLayers, foldl_append]
    exact canonical_merge layer.keysUnique ih

theorem leafAt_mergedLayers (steps : List Step) : (mergedLayers layers).leafAt steps =
      stack (fun _ => none) (layers.map fun layer => leafLayer layer.normalized) steps := by
  induction layers using List.reverseRecOn with
  | nil =>
    cases steps with
    | nil => rfl
    | cons s steps => cases s <;> rfl
  | append_singleton layers layer ih =>
    rw [map_append, map_singleton, stack_snoc, mergedLayers, foldl_append]
    exact (leafAt_merge layer.keysUnique (canonical_mergedLayers layers) steps).trans
      (Layer.over_congr ih)

theorem lookup_recordedLayers (name : Text) :
    (recordedLayers layers).lookup name = stack (fun _ => none) (layers.map originLayer) name := by
  induction layers using List.reverseRecOn with
  | nil => rfl
  | append_singleton layers layer ih =>
    rw [map_append, map_singleton, stack_snoc, recordedLayers, foldl_append]
    rw [Layer.over, ← ih]
    exact lookup_recordOrigins (keysUnique_normalized layer.keysUnique []) [] _

/-! ## Agreement -/

namespace ConfigLayerStack

/-- The names of the origins are the dotted paths of the effective config's leaves, and
each is mapped to the highest enabled layer that has the leaf. -/
structure OriginsAgree (stack : ConfigLayerStack) : Prop where
  names : ∀ name, name ∈ stack.origins ↔
    ∃ steps, (stack.effectiveConfig.leafAt steps).isSome ∧ dotted steps = name
  layers : ∀ steps value, stack.effectiveConfig.leafAt steps = some value →
    ∃ pre layer post, stack.enabledLayers = pre ++ layer :: post ∧
      layer.normalized.leafAt steps = some value ∧
      (∀ l ∈ post, l.normalized.leafAt steps = none) ∧
      stack.origins.lookup (dotted steps) = some layer.metadata

def Stands (stack : ConfigLayerStack) (layer : ConfigLayerEntry) (steps : List Step) : Prop :=
  ∃ pre post, stack.enabledLayers = pre ++ layer :: post ∧
    (layer.normalized.leafAt steps).isSome ∧ ∀ l ∈ post, ¬ l.normalized.Replaces steps

def Topmost (stack : ConfigLayerStack) (layer : ConfigLayerEntry) (name : Text) : Prop :=
  ∃ pre post, stack.enabledLayers = pre ++ layer :: post ∧ layer.Names name ∧
    ∀ l ∈ post, ¬ l.Names name

/-- Every leaf has the name of one that stands, and where one stands its layer is the
highest that has a leaf of the name. -/
structure NoneRetired (stack : ConfigLayerStack) : Prop where
  standing : ∀ layer ∈ stack.enabledLayers, ∀ name, layer.Names name →
    ∃ layer' steps, stack.Stands layer' steps ∧ dotted steps = name
  topmost : ∀ layer steps, stack.Stands layer steps →
    ∃ top, stack.Topmost top (dotted steps) ∧ top.metadata = layer.metadata

variable {stack : ConfigLayerStack}

variable {steps : List Step} {name : Text}

theorem leafAt_eq_some {value : TomlScalar} : stack.effectiveConfig.leafAt steps = some value ↔
      ∃ pre layer post, stack.enabledLayers = pre ++ layer :: post ∧
        layer.normalized.leafAt steps = some value ∧
        ∀ l ∈ post, ¬ l.normalized.Replaces steps := by
  refine (Eq.congr_left (leafAt_mergedLayers _ steps)).trans (stack_map_eq_some.trans ?_)
  constructor
  · rintro ⟨pre, layer, post, hlayers, -, hpost, hvalue⟩
    exact ⟨pre, layer, post, hlayers, hvalue, hpost⟩
  · rintro ⟨pre, layer, post, hlayers, hvalue, hpost⟩
    have hreplaces : layer.normalized.Replaces steps :=
      TomlValue.replaces_of_leafAt (isSome_of_eq_some hvalue)
    exact ⟨pre, layer, post, hlayers, hreplaces, hpost, hvalue⟩

theorem isSome_leafAt :
    (stack.effectiveConfig.leafAt steps).isSome ↔ ∃ layer, stack.Stands layer steps := by
  constructor
  · intro h
    obtain ⟨value, hvalue⟩ := isSome_iff_exists.mp h
    obtain ⟨pre, layer, post, hlayers, hleaf, hpost⟩ := leafAt_eq_some.mp hvalue
    exact ⟨layer, pre, post, hlayers, isSome_of_eq_some hleaf, hpost⟩
  · rintro ⟨layer, pre, post, hlayers, hleaf, hpost⟩
    obtain ⟨value, hvalue⟩ := isSome_iff_exists.mp hleaf
    exact isSome_of_eq_some (leafAt_eq_some.mpr ⟨pre, layer, post, hlayers, hvalue, hpost⟩)

theorem lookup_eq_some {metadata : ConfigLayerMetadata} :
    stack.origins.lookup name = some metadata ↔
      ∃ top, stack.Topmost top name ∧ top.metadata = metadata := by
  refine (Eq.congr_left (lookup_recordedLayers _ name)).trans (stack_map_eq_some.trans ?_)
  constructor
  · rintro ⟨pre, top, post, hlayers, hnames, hpost, hmetadata⟩
    exact ⟨top, ⟨pre, post, hlayers, hnames, hpost⟩, Option.some.inj hmetadata⟩
  · rintro ⟨top, ⟨pre, post, hlayers, hnames, hpost⟩, rfl⟩
    exact ⟨pre, top, post, hlayers, hnames, hpost, rfl⟩

theorem exists_topmost {layer : ConfigLayerEntry} (hlayer : layer ∈ stack.enabledLayers)
    (h : layer.Names name) : ∃ top, stack.Topmost top name := by
  obtain ⟨pre, top, post, hlayers, hnames, hpost⟩ :=
    exists_last (P := fun l => ConfigLayerEntry.Names l name) hlayer h
  exact ⟨top, pre, post, hlayers, hnames, hpost⟩

theorem mem_origins : name ∈ stack.origins ↔ ∃ top, stack.Topmost top name := by
  rw [← AList.lookup_isSome, isSome_iff_exists]
  simp only [lookup_eq_some]
  exact ⟨fun ⟨_, top, htop, _⟩ => ⟨top, htop⟩, fun ⟨top, htop⟩ => ⟨_, top, htop, rfl⟩⟩

theorem Stands.eq_of_last {layer layer' : ConfigLayerEntry} {pre post : List ConfigLayerEntry}
    (h : stack.Stands layer steps) (hlayers : stack.enabledLayers = pre ++ layer' :: post)
    (hleaf : (layer'.normalized.leafAt steps).isSome)
    (hpost : ∀ l ∈ post, l.normalized.leafAt steps = none) : layer = layer' := by
  obtain ⟨pre', post', hlayers', hleaf', hpost'⟩ := h
  refine last_unique (P := fun l => (ConfigLayerEntry.normalized l |>.leafAt steps).isSome)
    (hlayers'.symm.trans hlayers) hleaf' hleaf (fun l hl hsome => ?_) fun l hl hsome => ?_
  · exact hpost' l hl (TomlValue.replaces_of_leafAt hsome)
  · simp [hpost l hl] at hsome

/-- The origins agree with the effective config exactly if none is retired. -/
theorem originsAgree_iff : stack.OriginsAgree ↔ stack.NoneRetired := by
  constructor
  · intro h
    constructor
    · intro layer hlayer name hname
      obtain ⟨steps, hleaf, hsteps⟩ :=
        (h.names name).mp (mem_origins.mpr (exists_topmost hlayer hname))
      obtain ⟨layer', hstands⟩ := isSome_leafAt.mp hleaf
      exact ⟨layer', steps, hstands, hsteps⟩
    · intro layer steps hstands
      obtain ⟨value, hvalue⟩ := isSome_iff_exists.mp (isSome_leafAt.mpr ⟨layer, hstands⟩)
      obtain ⟨pre, layer', post, hlayers, hleaf, hpost, hlookup⟩ := h.layers steps value hvalue
      rw [hstands.eq_of_last hlayers (isSome_of_eq_some hleaf) hpost]
      exact lookup_eq_some.mp hlookup
  · intro h
    constructor
    · intro name
      rw [mem_origins]
      constructor
      · rintro ⟨top, pre, post, hlayers, hnames, -⟩
        obtain ⟨layer, steps, hstands, hsteps⟩ := h.standing top (by simp [hlayers]) name hnames
        exact ⟨steps, isSome_leafAt.mpr ⟨layer, hstands⟩, hsteps⟩
      · rintro ⟨steps, hleaf, rfl⟩
        obtain ⟨layer, hstands⟩ := isSome_leafAt.mp hleaf
        obtain ⟨top, htop, -⟩ := h.topmost layer steps hstands
        exact ⟨top, htop⟩
    · intro steps value hvalue
      obtain ⟨pre, layer, post, hlayers, hleaf, hpost⟩ := leafAt_eq_some.mp hvalue
      refine ⟨pre, layer, post, hlayers, hleaf, fun l hl => ?_, ?_⟩
      · by_contra hsome
        exact hpost l hl (TomlValue.replaces_of_leafAt (isSome_iff_ne_none.mpr hsome))
      · exact lookup_eq_some.mpr (h.topmost layer steps
          ⟨pre, post, hlayers, isSome_of_eq_some hleaf, hpost⟩)

/-! ## A list that is emptied -/

def notifyConfig (items : List TomlValue) : TomlValue := .table [("notify".toList, .array items)]

theorem notifyConfig_keysUnique (h : ∀ v ∈ items, v.KeysUnique) : (notifyConfig items).KeysUnique :=
  .table (nodup_singleton _) (forall_mem_singleton.mpr (.array h))

def userLayer : ConfigLayerEntry where
  name := .user .root
  config := notifyConfig [.scalar (.string "bell".toList)]
  version := "1".toList
  disabledReason := none
  keysUnique := notifyConfig_keysUnique (forall_mem_singleton.mpr (.scalar _))

def flagsLayer : ConfigLayerEntry where
  name := .sessionFlags
  config := notifyConfig []
  version := "2".toList
  disabledReason := none
  keysUnique := notifyConfig_keysUnique (forall_mem_nil _)

theorem leafAt_notifyConfig (h : ((notifyConfig items).leafAt steps).isSome) :
    (∃ rest, steps = .key "notify".toList :: rest) ∧ items ≠ [] := by
  cases steps with
  | nil => cases h
  | cons s steps =>
    cases s with
    | index idx => cases h
    | key k =>
      rw [notifyConfig, TomlValue.leafAt, getEntry] at h
      split at h
      · next hk =>
        refine ⟨⟨steps, by rw [hk]⟩, ?_⟩
        rintro rfl
        cases steps with
        | nil => cases h
        | cons s steps => cases s <;> cases h
      · cases h

/-- The item of the user's list keeps its origin when the session has an empty list. -/
theorem emptied_list_retires : ¬ OriginsAgree ⟨[userLayer, flagsLayer]⟩ := by
  rw [originsAgree_iff]
  intro h
  have hnames : userLayer.Names "notify.0".toList :=
    ⟨[.key "notify".toList, .index 0], rfl, by simp, rfl⟩
  obtain ⟨layer, steps, ⟨pre, post, hlayers, hleaf, hpost⟩, -⟩ :=
    h.standing userLayer mem_cons_self _ hnames
  have hlayers : [userLayer, flagsLayer] = pre ++ layer :: post := hlayers
  cases pre with
  | nil =>
    obtain ⟨rfl, rfl⟩ := List.cons.inj hlayers
    obtain ⟨⟨rest, rfl⟩, -⟩ := leafAt_notifyConfig hleaf
    exact hpost flagsLayer mem_cons_self (TomlValue.replaces_array [] rest)
  | cons l pre =>
    have hrest := (List.cons.inj hlayers).2
    obtain ⟨rfl, rfl, rfl⟩ : pre = [] ∧ layer = flagsLayer ∧ post = [] := by
      cases pre with
      | nil => exact ⟨rfl, (List.cons.inj hrest).1.symm, (List.cons.inj hrest).2.symm⟩
      | cons l pre => simp at hrest
    exact (leafAt_notifyConfig hleaf).2 rfl

end ConfigLayerStack

end Codex.Config
