import Codex.Config.LastWord

/-!
# Overridden writes

A write is reported as overridden if the user's value is not the effective one, by the
highest layer with a value at the path. That is an override when the value is another one
without the layers above the user's, and the layer that is named is one of these.
-/

namespace Codex.Config

open Foundation List Option

/-! ## Responses -/

structure OverriddenMetadata where
  message : Text
  overridingLayer : ConfigLayerMetadata
  effectiveValue : Json

inductive WriteStatus | ok | okOverridden
deriving DecidableEq

structure ConfigWriteResponse where
  status : WriteStatus
  version : Text
  filePath : AbsolutePathBuf
  overriddenMetadata : Option OverriddenMetadata

inductive ConfigWriteErrorCode
  | configLayerReadonly | configVersionConflict | configValidationError | configPathNotFound
  | userLayerNotFound
deriving DecidableEq

inductive ConfigManagerError
  | write (code : ConfigWriteErrorCode) (message : Text)
  | io (context source : Text)
  | anyhow (context source : Text)

def CONFIG_TOML_FILE : Text := "config.toml".toList

def overrideMessage : ConfigLayerSource → Text
  | .mdm domain _ => "Overridden by managed policy (MDM): ".toList ++ domain
  | .system file => "Overridden by managed config (system): ".toList ++ file.display
  | .project dotCodexFolder =>
    "Overridden by project config: ".toList ++ dotCodexFolder.display ++ '/' :: CONFIG_TOML_FILE
  | .sessionFlags => "Overridden by session flags".toList
  | .user file => "Overridden by user config: ".toList ++ file.display
  | .legacyManagedConfigTomlFromFile file =>
    "Overridden by legacy managed_config.toml: ".toList ++ file.display
  | .legacyManagedConfigTomlFromMdm => "Overridden by legacy managed configuration from MDM".toList

section
variable (jsonOfToml : TomlValue → Option Json) (layers : OrderedLayerStack)

def findEffectiveLayer (segments : List Text) : Option ConfigLayerMetadata :=
  (layers.layersHighToLow.find? fun layer => (valueAtPath layer.config segments).isSome).map
    ConfigLayerEntry.metadata

def computeOverrideMetadata (effective : TomlValue) (segments : List Text) :
    Option OverriddenMetadata :=
  match layers.getUserLayer with
  | none => none
  | some userLayer =>
    let userValue := valueAtPath userLayer.config segments
    let effectiveValue := valueAtPath effective segments
    if userValue.isSome ∧ sameValue userValue effectiveValue then none
    else if userValue.isNone ∧ effectiveValue.isNone then none
    else (findEffectiveLayer layers segments).map fun overridingLayer =>
      ⟨overrideMessage overridingLayer.name, overridingLayer,
        (effectiveValue.bind jsonOfToml).getD .null⟩

def firstOverriddenEdit (effective : TomlValue) (edits : List (List Text)) :
    Option OverriddenMetadata :=
  edits.findSome? fun segments => computeOverrideMetadata jsonOfToml layers effective segments

end

/-! ## The write -/

inductive ConfigEdit
  | setPath (segments : List Text) (value : TomlValue)
  | clearPath (segments : List Text)

structure ConfigManager where
  codexHome : AbsolutePathBuf
  processPaths : ProcessPaths
  pathsMatch : AbsolutePathBuf → AbsolutePathBuf → Bool
  loadThreadAgnosticConfig : Except Text OrderedLayerStack
  createEmptyUserLayer : AbsolutePathBuf → Except ConfigManagerError ConfigLayerEntry
  tomlOfJson : Json → Except Text UniqueToml
  jsonOfToml : TomlValue → Option Json
  versionForToml : TomlValue → Text
  validateConfig : TomlValue → Except Text Unit
  deserializeConfigToml : TomlValue → Except Text Unit
  validateFeatureRequirements : OrderedLayerStack → TomlValue → Except Text Unit
  persist : List ConfigEdit → Except Text Unit

namespace ConfigManager

variable (m : ConfigManager)

def validationError (message : Text) : ConfigManagerError := .write .configValidationError message

def invalidConfiguration (err : Text) : ConfigManagerError :=
  validationError ("Invalid configuration: ".toList ++ err)

def mergeError : MergeError → ConfigManagerError
  | .pathNotFound => .write .configPathNotFound "Path not found".toList
  | .validation message => validationError message

def parseValue (value : Json) : Except Text (Option UniqueToml) :=
  match value with
  | .null => .ok none
  | value =>
    match m.tomlOfJson value with
    | .ok value => .ok (some value)
    | .error err => .error ("invalid value: ".toList ++ err)

/-- `apply_merge` on a value with its keys once. -/
def applyMergeUnique (root : UniqueToml) (segments : List Text) (value : Option UniqueToml)
    (strategy : MergeStrategy) : Except MergeError UniqueToml :=
  match h : applyMerge root.1 segments (value.map Subtype.val) strategy with
  | .ok result => .ok ⟨result.2, keysUnique_applyMerge h⟩
  | .error err => .error err

def configEdit (segments : List Text) (original updated : Option TomlValue) : List ConfigEdit :=
  if sameValue original updated then []
  else match updated with
    | some value => [.setPath segments value]
    | none => [.clearPath segments]

/-- The loop over the edits: the config they make, their segments and what is to be
persisted. -/
def applyAll (userConfig : UniqueToml) : List (Text × Json × MergeStrategy) →
    Except ConfigManagerError (UniqueToml × List (List Text) × List ConfigEdit)
  | [] => .ok (userConfig, [], [])
  | (keyPath, value, strategy) :: edits => do
    let segments ← (parseKeyPath keyPath).mapError validationError
    let parsedValue ← (m.parseValue value).mapError validationError
    let updated ← (applyMergeUnique userConfig segments parsedValue strategy).mapError mergeError
    let (config, parsedSegments, configEdits) ← applyAll updated edits
    let edit := configEdit segments (valueAtPath userConfig.1 segments)
      (valueAtPath updated.1 segments)
    return (config, segments :: parsedSegments, edit ++ configEdits)

/-- A write that has gone through: the layers with the user's config in them, and the
segments of its edits. -/
structure EditedConfig where
  filePath : AbsolutePathBuf
  layers : OrderedLayerStack
  parsedSegments : List (List Text)

def userEntry (file : AbsolutePathBuf) (config : UniqueToml) : ConfigLayerEntry where
  name := .user file
  config := config.1
  version := m.versionForToml config.1
  disabledReason := none
  keysUnique := config.2

def withUserConfig (layers : OrderedLayerStack) (file : AbsolutePathBuf) (config : UniqueToml) :
    OrderedLayerStack :=
  layers.withUserLayer (m.userEntry file config) ⟨file, rfl⟩

/-- `apply_edits` up to the response. -/
def editConfig (filePath expectedVersion : Option Text)
    (edits : List (Text × Json × MergeStrategy)) : Except ConfigManagerError EditedConfig := do
  let allowedPath := resolvePathAgainstBase m.processPaths.homeDir CONFIG_TOML_FILE m.codexHome
  let providedPath ← match filePath with
    | some path =>
      match m.processPaths.absolutePath path with
      | some path => .ok path
      | none => .error (.io "failed to resolve user config path".toList [])
    | none => .ok allowedPath
  if !m.pathsMatch allowedPath providedPath then
    throw (.write .configLayerReadonly "Only writes to the user config are allowed".toList)
  let layers ← m.loadThreadAgnosticConfig.mapError
    (ConfigManagerError.io "failed to load configuration".toList)
  let userLayer ← match layers.getUserLayer with
    | some layer => .ok layer
    | none => m.createEmptyUserLayer allowedPath
  if expectedVersion.any fun expected => expected ≠ userLayer.version then
    throw (.write .configVersionConflict
      "Configuration was modified since last read. Fetch latest version and retry.".toList)
  let (userConfig, parsedSegments, configEdits) ←
    m.applyAll ⟨userLayer.config, userLayer.keysUnique⟩ edits
  (m.validateConfig userConfig.1).mapError invalidConfiguration
  (m.deserializeConfigToml userConfig.1).mapError invalidConfiguration
  (m.validateFeatureRequirements layers userConfig.1).mapError invalidConfiguration
  let updatedLayers := m.withUserConfig layers providedPath userConfig
  (m.validateConfig updatedLayers.effectiveConfig).mapError invalidConfiguration
  if !configEdits.isEmpty then
    (m.persist configEdits).mapError
      (ConfigManagerError.anyhow "failed to persist config.toml".toList)
  return ⟨providedPath, updatedLayers, parsedSegments⟩

def respond (edited : EditedConfig) : Except ConfigManagerError ConfigWriteResponse :=
  let overridden := firstOverriddenEdit m.jsonOfToml edited.layers edited.layers.effectiveConfig
    edited.parsedSegments
  match edited.layers.getUserLayer with
  | some userLayer => .ok
    { status := if overridden.isSome then .okOverridden else .ok
      version := userLayer.version
      filePath := edited.filePath
      overriddenMetadata := overridden }
  | none =>
    .error (.write .userLayerNotFound "user layer not found in updated layers".toList)

def applyEdits (filePath expectedVersion : Option Text)
    (edits : List (Text × Json × MergeStrategy)) : Except ConfigManagerError ConfigWriteResponse := do
  let edited ← m.editConfig filePath expectedVersion edits
  m.respond edited

end ConfigManager

/-! ## Overrides -/

theorem ConfigLayerSource.isUser_of_precedence {name : ConfigLayerSource}
    (h : name.precedence = userPrecedence) : name.IsUser := by
  cases name with
  | user file => exact ⟨file, rfl⟩
  | mdm | system | project | sessionFlags | legacyManagedConfigTomlFromFile |
    legacyManagedConfigTomlFromMdm => cases h

namespace OrderedLayerStack

variable (stack : OrderedLayerStack) (layer : ConfigLayerEntry) (path : List Text)

def ownValue : Option TomlValue :=
  stack.getUserLayer.bind fun layer => valueAtPath layer.config path

def effectiveValue : Option TomlValue := valueAtPath stack.effectiveConfig path

def belowUser : List ConfigLayerEntry :=
  stack.enabledLayers.filter fun layer => layer.name.precedence < userPrecedence

def aboveUser : List ConfigLayerEntry :=
  stack.enabledLayers.filter fun layer => userPrecedence < layer.name.precedence

def upToUser : List ConfigLayerEntry :=
  stack.enabledLayers.filter fun layer => layer.name.precedence ≤ userPrecedence

def userEffectiveValue : Option TomlValue := valueAtPath (mergedLayers stack.upToUser) path

/-- The layer is above the user's, and what the layers up to the user's give is neither the
effective value nor what it is with this layer. -/
structure Overrides : Prop where
  enabled : layer ∈ stack.enabledLayers
  above : userPrecedence < layer.name.precedence
  effective : sameValue (stack.userEffectiveValue path) (stack.effectiveValue path) = false
  changes : sameValue (stack.userEffectiveValue path)
    (valueAtPath (mergedLayers (stack.upToUser ++ [layer])) path) = false

/-- A response tells of an override exactly if there is one, and by a layer that overrides. -/
structure ReportsOverrides (paths : List (List Text)) (response : ConfigWriteResponse) : Prop where
  status : response.status = .okOverridden ↔ ∃ p ∈ paths, ∃ layer, stack.Overrides layer p
  layer : ∀ metadata, response.overriddenMetadata = some metadata →
    ∃ p ∈ paths, ∃ layer, stack.Overrides layer p ∧ layer.metadata = metadata.overridingLayer

/-- The layer is above the user's, and the highest one with a value at the path. -/
def Highest (path : List Text) (top : ConfigLayerEntry) : Prop :=
  ∃ pre post, stack.aboveUser = pre ++ top :: post ∧ (valueAtPath top.config path).isSome ∧
    ∀ l ∈ post, valueAtPath l.config path = none

/-- The path takes no item of a list above. If a layer above has the last word somewhere and it
is not the user's, the highest layer has another word than the user's, too. -/
structure KeysAbove (user : ConfigLayerEntry) (path : List Text) : Prop where
  byKeys : ∀ l, LastWord stack.aboveUser l path → l.normalized.ReadByKeys path
  topmost : ∀ l place, path <+: place → LastWord stack.aboveUser l place →
    sameNode (user.normalized.nodeAt place) (l.normalized.nodeAt place) = false →
    ∃ top, stack.Highest path top ∧ top.normalized.ReadByKeys path ∧ ∃ place, path <+: place ∧
      top.Says place ∧ sameNode (user.normalized.nodeAt place) (top.normalized.nodeAt place) = false

/-- The path goes into a list of the highest layer, which is the last word at its place. -/
def ItemAbove (path : List Text) : Prop :=
  ∃ top place rest items, path = place ++ rest ∧ stack.Highest path top ∧
    LastWord stack.aboveUser top place ∧ top.normalized.nodeAt place = some (.leaf (.array items))

/-- What the user's layer has at and below the path is known from its own value there, and
what the layers above make of it from the highest layer with a value there. -/
structure Traceable (user : ConfigLayerEntry) (path : List Text) : Prop where
  /-- No key of the user's value is renamed, and no number in it differs from itself. -/
  written : valueAtPath user.config path = valueAtPath user.normalized path
  equal : sameValue (valueAtPath user.config path) (valueAtPath user.config path)
  /-- Up to the user's layer, the path takes no item of a list. -/
  byKeys : ∀ l, LastWord stack.upToUser l path → l.normalized.ReadByKeys path
  /-- Where the user's layer says nothing, the layers below leave nothing. -/
  alone : ∀ l place, path <+: place → LastWord stack.belowUser l place → ¬ user.Says place →
    l.normalized.nodeAt place = none
  above : stack.KeysAbove user path ∨ stack.ItemAbove path

variable {stack layer path} {user : ConfigLayerEntry}

/-! ## The layers around the user's -/

theorem enabledLayers_split (huser : stack.getUserLayer = some user)
    (henabled : user.isDisabled = false) :
    stack.enabledLayers = stack.belowUser ++ user :: stack.aboveUser ∧
      stack.upToUser = stack.belowUser ++ [user] := by
  obtain ⟨index, hindex, hget⟩ := Option.bind_eq_some_iff.mp huser
  obtain ⟨old, hold, hname⟩ := (stack.user index).mp hindex
  obtain rfl := Option.some.inj (hget.symm.trans hold)
  -- no two layers are the user's
  have honce : stack.layers.Pairwise fun a b => ¬ (a.name.IsUser ∧ b.name.IsUser) := by
    refine pairwise_iff_getElem.mpr fun i j hi hj hij hboth => ?_
    have hfirst := (stack.user i).mpr ⟨_, getElem?_eq_getElem hi, hboth.1⟩
    have hsecond := (stack.user j).mpr ⟨_, getElem?_eq_getElem hj, hboth.2⟩
    rw [hfirst] at hsecond
    exact absurd (Option.some.inj hsecond) (Nat.ne_of_lt hij)
  have hmem : user ∈ stack.enabledLayers :=
    mem_filter.mpr ⟨mem_of_getElem? hget, by simp [henabled]⟩
  obtain ⟨pre, post, hlayers⟩ := append_of_mem hmem
  have horder := (stack.sorted.and honce).filter fun layer => !layer.isDisabled
  change stack.enabledLayers.Pairwise _ at horder
  rw [hlayers, pairwise_append, pairwise_cons] at horder
  have hpre : ∀ l ∈ pre, l.name.precedence < userPrecedence := by
    intro l hl
    obtain ⟨hle, hboth⟩ := horder.2.2 l hl user mem_cons_self
    rw [hname.precedence] at hle
    exact lt_of_le_of_ne hle fun heq =>
      hboth ⟨ConfigLayerSource.isUser_of_precedence heq, hname⟩
  have hpost : ∀ l ∈ post, userPrecedence < l.name.precedence := by
    intro l hl
    obtain ⟨hle, hboth⟩ := horder.2.1.1 l hl
    rw [hname.precedence] at hle
    exact lt_of_le_of_ne hle fun heq =>
      hboth ⟨hname, ConfigLayerSource.isUser_of_precedence heq.symm⟩
  have hbelow : stack.belowUser = pre := by
    rw [belowUser, hlayers, filter_append, filter_cons_of_neg (by simp [hname.precedence]),
      filter_eq_self.mpr fun l hl => by simpa using hpre l hl,
      filter_eq_nil_iff.mpr fun l hl => by simpa using (hpost l hl).le, append_nil]
  have habove : stack.aboveUser = post := by
    rw [aboveUser, hlayers, filter_append, filter_cons_of_neg (by simp [hname.precedence]),
      filter_eq_nil_iff.mpr fun l hl => by simpa using (hpre l hl).le,
      filter_eq_self.mpr fun l hl => by simpa using hpost l hl, nil_append]
  have hupTo : stack.upToUser = pre ++ [user] := by
    rw [upToUser, hlayers, filter_append, filter_cons_of_pos (by simp [hname.precedence]),
      filter_eq_self.mpr fun l hl => by simpa using (hpre l hl).le,
      filter_eq_nil_iff.mpr fun l hl => by simpa using hpost l hl]
  rw [hbelow, habove]
  exact ⟨hlayers, hupTo⟩

theorem getUserLayer_withUserLayer (stack : OrderedLayerStack)
    (hlayer : layer.name.IsUser) : (stack.withUserLayer layer hlayer).getUserLayer = some layer := by
  unfold withUserLayer
  split
  · next index hindex =>
    obtain ⟨old, hold, -⟩ := (stack.user index).mp hindex
    simp [getUserLayer, (List.getElem?_eq_some_iff.mp hold).1]
  · next hindex =>
    have hlen : (stack.layers.take (stack.layers.findIdx fun l =>
        layer.name.precedence < l.name.precedence)).length = stack.layers.findIdx fun l =>
          layer.name.precedence < l.name.precedence := by simp [findIdx_le_length]
    simp only [getUserLayer, Option.bind_some]
    rw [List.getElem?_append_right hlen.le, hlen, Nat.sub_self]
    rfl

theorem findEffectiveLayer_of_split {pre post : List ConfigLayerEntry}
    (hlayers : stack.enabledLayers = pre ++ layer :: post)
    (hsome : (valueAtPath layer.config path).isSome)
    (hpost : ∀ l ∈ post, valueAtPath l.config path = none) :
    findEffectiveLayer stack path = some layer.metadata := by
  unfold findEffectiveLayer layersHighToLow
  rw [hlayers, reverse_append, reverse_cons, List.append_assoc, find?_append,
    List.find?_eq_none.mpr fun l hl => by simp [hpost l (mem_reverse.mp hl)]]
  simp [hsome]

theorem computeOverrideMetadata_eq (jsonOfToml : TomlValue → Option Json)
    (huser : stack.getUserLayer = some user) : computeOverrideMetadata jsonOfToml stack
      stack.effectiveConfig path =
    if sameValue (stack.ownValue path) (stack.effectiveValue path) then none
    else (findEffectiveLayer stack path).map fun overridingLayer =>
      ⟨overrideMessage overridingLayer.name, overridingLayer,
        ((stack.effectiveValue path).bind jsonOfToml).getD .null⟩ := by
  unfold computeOverrideMetadata ownValue effectiveValue
  simp only [huser, bind_some]
  cases hown : valueAtPath user.config path with
  | some value => simp
  | none =>
    cases valueAtPath stack.effectiveConfig path with
    | some value | none => simp [sameValue]

/-! ## What the layers give -/

namespace Traceable

variable (huser : stack.getUserLayer = some user) (henabled : user.isDisabled = false)
  (h : stack.Traceable user path)
include h

theorem readByKeys_upToUser : (mergedLayers stack.upToUser).ReadByKeys path :=
  readByKeys_mergedLayers [] h.byKeys (by cases path <;> rfl)

include henabled huser

theorem nodeAt_upToUser {place : List Text} (hplace : path <+: place) :
    (mergedLayers stack.upToUser).nodeAt place = user.normalized.nodeAt place := by
  rw [(enabledLayers_split huser henabled).2]
  by_cases hsays : user.Says place
  · exact nodeAt_snoc_said hsays
  · rw [nodeAt_snoc_unsaid hsays, nodeAt_of_not_says hsays]
    rcases nodeAt_lastWord [] stack.belowUser place with ⟨l, hlast, hnode⟩ | ⟨-, hnode⟩
    · rw [← h.alone l place hplace hlast hsays]
      exact hnode
    · cases place with
      | nil => exact absurd (TomlValue.replaces_nil _) hsays
      | cons k place => exact hnode

theorem readByKeys_user : user.normalized.ReadByKeys path := by
  by_cases hsays : user.Says path
  · exact h.byKeys user ⟨_, [], (enabledLayers_split huser henabled).2, hsays, forall_mem_nil _⟩
  · exact readByKeys_of_not_replaces hsays

theorem ownValue_same_iff (value : Option TomlValue) (hvalue : ∀ v ∈ value, v.KeysUnique) :
    sameValue (stack.ownValue path) value ↔ sameValue (stack.userEffectiveValue path) value := by
  have hnodes {v : TomlValue} (hv : v.KeysUnique) :
      sameValue (v.readAt (keySteps path)) value ↔ ∀ place, sameNode (v.nodeAt (path ++ place))
        (value.bind fun w => w.nodeAt place) := by
    simp only [nodeAt_append]
    exact sameValue_iff fun v' hv' w hw => same_iff_nodes (keysUnique_readAt hv hv') (hvalue w hw)
  rw [ownValue, huser, bind_some, h.written, h.readByKeys_user huser henabled, userEffectiveValue,
    h.readByKeys_upToUser, hnodes (keysUnique_mergedLayers _),
    hnodes (show user.normalized.KeysUnique from keysUnique_normalized user.keysUnique [])]
  simp only [h.nodeAt_upToUser huser henabled (prefix_append path _)]

theorem userEffectiveValue_same_iff {upper : List ConfigLayerEntry}
    (hkeys : (mergedLayers (stack.upToUser ++ upper)).ReadByKeys path) :
    sameValue (stack.userEffectiveValue path)
        (valueAtPath (mergedLayers (stack.upToUser ++ upper)) path) ↔
      ∀ place, path <+: place → sameNode (user.normalized.nodeAt place)
        ((mergedLayers (stack.upToUser ++ upper)).nodeAt place) := by
  rw [userEffectiveValue, h.readByKeys_upToUser, hkeys,
    sameValue_readAt_iff (keysUnique_mergedLayers _) (keysUnique_mergedLayers _)]
  refine forall_congr' fun place => imp_congr_right fun hplace => ?_
  rw [h.nodeAt_upToUser huser henabled hplace]

theorem sameNode_self {place : List Text} (hplace : path <+: place) :
    sameNode (user.normalized.nodeAt place) (user.normalized.nodeAt place) := by
  have hunique := keysUnique_normalized user.keysUnique []
  have hequal := h.equal
  rw [h.written, h.readByKeys_user huser henabled] at hequal
  exact (sameValue_readAt_iff hunique hunique path).mp hequal place hplace

/-- What the layers above change at the path, the highest one with a value there changes. -/
theorem highest_changes (hnot : ¬ sameValue (stack.userEffectiveValue path)
      (valueAtPath (mergedLayers (stack.upToUser ++ stack.aboveUser)) path)) :
    ∃ top, stack.Highest path top ∧ ¬ sameValue (stack.userEffectiveValue path)
      (valueAtPath (mergedLayers (stack.upToUser ++ [top])) path) := by
  rcases h.above with habove | ⟨top, place, rest, items, rfl, htop, hlast, hitems⟩
  · rw [h.userEffectiveValue_same_iff huser henabled
      (readByKeys_mergedLayers _ habove.byKeys h.readByKeys_upToUser)] at hnot
    push Not at hnot
    obtain ⟨place, hplace, hnot⟩ := hnot
    -- the last word there is that of a layer above
    rcases nodeAt_lastWord stack.upToUser stack.aboveUser place with ⟨l, hlast, hnode⟩ | ⟨-, hnode⟩
    · obtain ⟨top, htop, hread, place', hplace', hsays, hother⟩ :=
        habove.topmost l place hplace hlast (Bool.eq_false_iff.mpr (hnode ▸ hnot))
      refine ⟨top, htop, ?_⟩
      rw [h.userEffectiveValue_same_iff huser henabled
        (readByKeys_snoc hread (.inr h.readByKeys_upToUser))]
      intro hsame
      have heq := hsame place' hplace'
      rw [nodeAt_snoc_said hsays, hother] at heq
      cases heq
    · rw [hnode, h.nodeAt_upToUser huser henabled hplace] at hnot
      exact absurd (h.sameNode_self huser henabled hplace) hnot
  · refine ⟨top, htop, fun hsame => hnot ?_⟩
    rw [valueAtPath_of_leaf ((nodeAt_of_lastWord hlast).trans hitems)]
    obtain ⟨-, -, -, hsays, -⟩ := hlast
    rwa [valueAtPath_of_leaf ((nodeAt_snoc_said hsays).trans hitems)] at hsame

/-- At such a path an override is reported, by a layer that overrides, and nothing else is. -/
theorem reported (jsonOfToml : TomlValue → Option Json) :
    (computeOverrideMetadata jsonOfToml stack stack.effectiveConfig path = none ∧
      ∀ layer, ¬ stack.Overrides layer path) ∨
    ∃ metadata top, computeOverrideMetadata jsonOfToml stack stack.effectiveConfig path =
      some metadata ∧ stack.Overrides top path ∧ top.metadata = metadata.overridingLayer := by
  obtain ⟨hlayers, hupTo⟩ := enabledLayers_split huser henabled
  have heffective : stack.effectiveValue path =
      valueAtPath (mergedLayers (stack.upToUser ++ stack.aboveUser)) path := by
    rw [hupTo, List.append_assoc, singleton_append, ← hlayers]
    rfl
  have hown := h.ownValue_same_iff huser henabled (stack.effectiveValue path) fun _ =>
    keysUnique_valueAtPath (keysUnique_mergedLayers _)
  rw [computeOverrideMetadata_eq jsonOfToml huser]
  by_cases hsame : sameValue (stack.userEffectiveValue path) (stack.effectiveValue path)
  · refine .inl ⟨if_pos (hown.mpr hsame), fun layer hover => ?_⟩
    rw [hover.effective] at hsame
    cases hsame
  · refine .inr ?_
    obtain ⟨top, ⟨pre, post, habove, hsome, hpost⟩, hchanges⟩ :=
      h.highest_changes huser henabled (heffective ▸ hsame)
    have htop : top ∈ stack.aboveUser := by simp [habove]
    have hsplit : stack.enabledLayers = (stack.belowUser ++ user :: pre) ++ top :: post := by
      rw [hlayers, habove]
      simp
    rw [if_neg (mt hown.mp hsame), findEffectiveLayer_of_split hsplit hsome hpost]
    refine ⟨_, top, rfl, ⟨(mem_filter.mp htop).1, ?_, ?_, ?_⟩, rfl⟩
    · simpa using (mem_filter.mp htop).2
    · exact Bool.eq_false_iff.mpr hsame
    · exact Bool.eq_false_iff.mpr hchanges

end Traceable

end OrderedLayerStack

open OrderedLayerStack

namespace ConfigManager

variable {m : ConfigManager}

theorem respond_eq_ok {edited : EditedConfig} {response : ConfigWriteResponse}
    (h : m.respond edited = .ok response) :
    ∃ userLayer, edited.layers.getUserLayer = some userLayer ∧
      response.overriddenMetadata = firstOverriddenEdit m.jsonOfToml edited.layers
        edited.layers.effectiveConfig edited.parsedSegments ∧
      (response.status = .okOverridden ↔ response.overriddenMetadata.isSome) := by
  unfold respond at h
  split at h
  · next userLayer huser =>
    cases h
    refine ⟨userLayer, huser, rfl, ?_⟩
    split
    · next hsome => simp [hsome]
    · next hnone => simp [hnone]
  · cases h

theorem respond_reports {edited : EditedConfig} {response : ConfigWriteResponse}
    (h : m.respond edited = .ok response) {user : ConfigLayerEntry}
    (huser : edited.layers.getUserLayer = some user) (henabled : user.isDisabled = false)
    (htrace : ∀ p ∈ edited.parsedSegments, edited.layers.Traceable user p) :
    edited.layers.ReportsOverrides edited.parsedSegments response := by
  obtain ⟨-, -, hmetadata, hstatus⟩ := respond_eq_ok h
  have hreported := fun p hp => (htrace p hp).reported huser henabled m.jsonOfToml
  cases hfirst : response.overriddenMetadata with
  | none =>
    have hnone := List.findSome?_eq_none_iff.mp (hmetadata.symm.trans hfirst)
    refine ⟨?_, fun metadata hsome => ?_⟩
    · rw [hstatus, hfirst]
      refine iff_of_false Bool.false_ne_true fun ⟨p, hp, layer, hover⟩ => ?_
      rcases hreported p hp with ⟨-, hquiet⟩ | ⟨metadata, top, hcompute, -⟩
      · exact hquiet layer hover
      · rw [hnone p hp] at hcompute
        cases hcompute
    · rw [hfirst] at hsome
      cases hsome
  | some metadata =>
    obtain ⟨p, hp, hcompute⟩ := List.exists_of_findSome?_eq_some (hmetadata.symm.trans hfirst)
    obtain ⟨layer, hover, hlayer⟩ : ∃ layer, edited.layers.Overrides layer p ∧
        layer.metadata = metadata.overridingLayer := by
      rcases hreported p hp with ⟨hnone, -⟩ | ⟨metadata', top, hcompute', hover, htop⟩
      · rw [hcompute] at hnone
        cases hnone
      · rw [hcompute] at hcompute'
        cases hcompute'
        exact ⟨top, hover, htop⟩
    refine ⟨?_, fun metadata' hsome => ?_⟩
    · rw [hstatus, hfirst]
      exact iff_of_true rfl ⟨p, hp, layer, hover⟩
    · rw [hfirst] at hsome
      cases hsome
      exact ⟨p, hp, layer, hover, hlayer⟩

theorem editConfig_layers {filePath expectedVersion : Option Text}
    {edits : List (Text × Json × MergeStrategy)} {edited : EditedConfig}
    (h : m.editConfig filePath expectedVersion edits = .ok edited) :
    ∃ layers file config, edited.layers = m.withUserConfig layers file config := by
  unfold editConfig at h
  -- what does not end in an error ends in the stack with the new layer
  repeat' first
    | split at h
    | (rw [bind_ok_iff] at h; obtain ⟨_, -, h⟩ := h; try dsimp only at h)
  all_goals cases h
  all_goals exact ⟨_, _, _, rfl⟩

/-- Where the edited paths can be traced, the response to a write that goes through tells of
overrides as they are. -/
theorem reportsOverrides_of_traceable {filePath expectedVersion : Option Text}
    {edits : List (Text × Json × MergeStrategy)} {edited : EditedConfig}
    (hedit : m.editConfig filePath expectedVersion edits = .ok edited)
    {response : ConfigWriteResponse}
    (happly : m.applyEdits filePath expectedVersion edits = .ok response)
    {user : ConfigLayerEntry} (huser : edited.layers.getUserLayer = some user)
    (htrace : ∀ p ∈ edited.parsedSegments, edited.layers.Traceable user p) :
    edited.layers.ReportsOverrides edited.parsedSegments response := by
  obtain ⟨layers, file, config, hlayers⟩ := editConfig_layers hedit
  have hnew : edited.layers.getUserLayer = some (m.userEntry file config) := by
    rw [hlayers]
    exact getUserLayer_withUserLayer layers _
  obtain rfl := Option.some.inj (huser.symm.trans hnew)
  unfold applyEdits at happly
  rw [hedit] at happly
  exact respond_reports happly huser rfl htrace

/-! ## A write below session flags -/

theorem keysUnique_singleton {k : Text} {v : TomlValue} (h : v.KeysUnique) :
    (TomlValue.table [(k, v)]).KeysUnique :=
  .table (nodup_singleton _) (forall_mem_singleton.mpr h)

def homeLayers : OrderedLayerStack where
  layers := [⟨.user .root, .table [], "1".toList, none, keysUnique_empty⟩]
  userLayerIndex := some 0
  sorted := pairwise_singleton _ _
  user := by
    intro i
    cases i with
    | zero => exact ⟨fun _ => ⟨_, rfl, .root, rfl⟩, fun _ => rfl⟩
    | succ i => simp

def homeManager : ConfigManager where
  codexHome := .root
  processPaths := ⟨none, none⟩
  pathsMatch := fun a b => a = b
  loadThreadAgnosticConfig := .ok homeLayers
  createEmptyUserLayer := fun _ => .error (.io [] [])
  tomlOfJson := fun value => match value with
    | .bool b => .ok ⟨.scalar (.boolean b), .scalar _⟩
    | _ => .error []
  jsonOfToml := fun _ => none
  versionForToml := fun _ => "2".toList
  validateConfig := fun _ => .ok ()
  deserializeConfigToml := fun _ => .ok ()
  validateFeatureRequirements := fun _ _ => .ok ()
  persist := fun _ => .ok ()

def modelConfig (b : Bool) : TomlValue := .table [("model".toList, .scalar (.boolean b))]

def flaggedLayers : OrderedLayerStack where
  layers := homeLayers.layers ++
    [⟨.sessionFlags, modelConfig false, "1".toList, none, keysUnique_singleton (.scalar _)⟩]
  userLayerIndex := some 0
  sorted := pairwise_pair.mpr (by decide)
  user := by
    intro i
    rcases i with _ | _ | i
    · exact ⟨fun _ => ⟨_, rfl, .root, rfl⟩, fun _ => rfl⟩
    · exact iff_of_false (by simp) (by rintro ⟨layer, hlayer, file, hfile⟩; cases hlayer; cases hfile)
    · simp [homeLayers]

def flaggedManager : ConfigManager := { homeManager with loadThreadAgnosticConfig := .ok flaggedLayers }

def modelWrite : List (Text × Json × MergeStrategy) := [("model".toList, .bool true, .replace)]

def modelLayers : OrderedLayerStack :=
  flaggedManager.withUserConfig flaggedLayers (resolvePathAgainstBase none CONFIG_TOML_FILE .root)
    ⟨modelConfig true, keysUnique_singleton (.scalar _)⟩

theorem flagged_write_reported : ∃ edited response,
    flaggedManager.editConfig none none modelWrite = .ok edited ∧
    flaggedManager.applyEdits none none modelWrite = .ok response ∧
    edited.layers.ReportsOverrides edited.parsedSegments response := by
  have hedit : flaggedManager.editConfig none none modelWrite =
      .ok ⟨resolvePathAgainstBase none CONFIG_TOML_FILE .root, modelLayers, [["model".toList]]⟩ := rfl
  obtain ⟨response, hresponse⟩ : ∃ response, flaggedManager.respond
      ⟨resolvePathAgainstBase none CONFIG_TOML_FILE .root, modelLayers, [["model".toList]]⟩ =
        .ok response := ⟨_, rfl⟩
  refine ⟨_, response, hedit, hresponse, ?_⟩
  refine reportsOverrides_of_traceable hedit hresponse rfl (forall_mem_singleton.mpr ?_)
  have hread {e : ConfigLayerEntry} (he : e.normalized.ReadByKeys ["model".toList]) :
      ∀ l, LastWord [e] l ["model".toList] → l.normalized.ReadByKeys ["model".toList] := by
    rintro l ⟨pre, post, hl, -⟩
    have hmem : l ∈ [e] := by simp [hl]
    rwa [mem_singleton.mp hmem]
  refine ⟨rfl, rfl, hread rfl, ?_, .inl ⟨hread rfl, fun _ _ _ _ _ => ?_⟩⟩
  · rintro l place - ⟨pre, post, hnone, -⟩
    have hnone : [] = pre ++ l :: post := hnone
    simp at hnone
  · exact ⟨_, ⟨[], [], rfl, rfl, forall_mem_nil _⟩, rfl, _, prefix_rfl,
      TomlValue.replaces_of_readAt rfl, rfl⟩

/-! ## The user's layer overrides itself -/

def legacyPath : List Text := ["memories".toList, "no_memories_if_mcp_or_web_search".toList]

def legacyWrite : List (Text × Json × MergeStrategy) :=
  [("memories.no_memories_if_mcp_or_web_search".toList, .bool true, .replace)]

theorem valueAtPath_eq_valueAt {segments : List Text} (h : ∀ s ∈ segments, parseIndex s = none) :
    ∀ v, valueAtPath v segments = v.valueAt segments := by
  induction segments with
  | nil =>
    intro v
    cases v <;> rfl
  | cons segment segments ih =>
    intro v
    cases v with
    | scalar value => rfl
    | array items =>
      rw [valueAtPath, h segment mem_cons_self]
      rfl
    | table table =>
      refine congrArg _ (funext fun child => ?_)
      exact ih (fun s hs => h s (mem_cons_of_mem _ hs)) child

theorem effectiveValue_legacyPath (stack : OrderedLayerStack) :
    stack.effectiveValue legacyPath = none := by
  have hsegments : ∀ s ∈ legacyPath, parseIndex s = none := by decide
  unfold effectiveValue
  rw [valueAtPath_eq_valueAt hsegments]
  exact canonical_mergedLayers stack.enabledLayers _ mem_cons_self ["memories".toList] rfl

def legacyLayers : OrderedLayerStack :=
  homeManager.withUserConfig homeLayers (resolvePathAgainstBase none CONFIG_TOML_FILE .root)
    ⟨.table [("memories".toList, .table [("no_memories_if_mcp_or_web_search".toList,
      .scalar (.boolean true))])], keysUnique_singleton (keysUnique_singleton (.scalar _))⟩

theorem legacyWrite_edits : homeManager.editConfig none none legacyWrite =
    .ok ⟨resolvePathAgainstBase none CONFIG_TOML_FILE .root, legacyLayers, [legacyPath]⟩ := rfl

theorem not_overrides_sole {stack : OrderedLayerStack} {sole layer : ConfigLayerEntry}
    {path : List Text} (hsole : stack.enabledLayers = [sole]) (huser : sole.name.IsUser) :
    ¬ stack.Overrides layer path := by
  intro hover
  have hmem := hover.enabled
  have habove := hover.above
  rw [hsole, mem_singleton] at hmem
  rw [hmem, huser.precedence] at habove
  omega

/-- The user's layer is the only one, and its write is reported as overridden by it. -/
theorem own_write_reported : ∃ edited response,
    homeManager.editConfig none none legacyWrite = .ok edited ∧
    homeManager.applyEdits none none legacyWrite = .ok response ∧
    response.status = .okOverridden ∧
    (response.overriddenMetadata.map fun metadata => metadata.overridingLayer.name) =
      some (.user (resolvePathAgainstBase none CONFIG_TOML_FILE .root)) ∧
    ¬ edited.layers.ReportsOverrides edited.parsedSegments response := by
  obtain ⟨response, hresponse⟩ : ∃ response, homeManager.respond
      ⟨resolvePathAgainstBase none CONFIG_TOML_FILE .root, legacyLayers, [legacyPath]⟩ =
        .ok response := ⟨_, rfl⟩
  obtain ⟨userLayer, huser, hmetadata, hstatus⟩ := respond_eq_ok hresponse
  have hfound : findEffectiveLayer legacyLayers legacyPath = some userLayer.metadata :=
    findEffectiveLayer_of_split (by rw [← Option.some.inj huser]; exact (nil_append _).symm)
      (by rw [← Option.some.inj huser]; rfl) (forall_mem_nil _)
  have hreported : response.overriddenMetadata.map OverriddenMetadata.overridingLayer =
      some userLayer.metadata := by
    rw [hmetadata, firstOverriddenEdit, findSome?_singleton, computeOverrideMetadata_eq _ huser,
      effectiveValue_legacyPath, if_neg (by exact Bool.false_ne_true), hfound]
    rfl
  obtain ⟨metadata, hsome, hlayer⟩ := map_eq_some_iff.mp hreported
  refine ⟨_, response, legacyWrite_edits, ?_, ?_, ?_, fun hreports => ?_⟩
  · exact hresponse
  · exact hstatus.mpr (by rw [hsome]; rfl)
  · rw [hsome, map_some, hlayer, ← Option.some.inj huser]
    rfl
  · obtain ⟨p, -, layer, hover, -⟩ := hreports.layer metadata hsome
    exact not_overrides_sole rfl ⟨_, rfl⟩ hover

end ConfigManager

end Codex.Config
