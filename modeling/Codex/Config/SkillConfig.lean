import Codex.Config.Document
import Codex.Foundation.Lines
import Codex.Foundation.Slots

/-!
# Skill entries of the config document

A skill is disabled by an entry of `[[skills.config]]` that selects it, by its name or by
its path, and enabled by taking the entry out. The edit finds the first entry that selects
the skill; it makes room for the entries where something else is in their place.
-/

namespace Codex.Config.Edit

open Foundation Option

/-! ## Selectors -/

inductive SkillConfigSelector where
  | name (name : Text)
  | path (path : Text)
deriving DecidableEq

def startsAtDot (path : Text) : Bool :=
  !isAbsolute path && (path.splitOn '/').head? = some ['.']

def samePath (a b : Text) : Bool :=
  isAbsolute a = isAbsolute b ∧ startsAtDot a = startsAtDot b ∧ components a = components b

def SkillConfigSelector.same : SkillConfigSelector → SkillConfigSelector → Bool
  | .name a, .name b => a = b
  | .path a, .path b => samePath a b
  | _, _ => false

@[simp] theorem SkillConfigSelector.same_self (selector : SkillConfigSelector) :
    selector.same selector = true := by
  cases selector <;> simp [SkillConfigSelector.same, samePath]

variable (canonicalize : Text → Option Text)

def normalizeSkillConfigPath (path : Text) : Text := (canonicalize path).getD path

def SkillConfigSelector.normalized : SkillConfigSelector → SkillConfigSelector
  | .name n => .name (trim n)
  | .path p => .path (normalizeSkillConfigPath canonicalize p)

def TomlItem.asStr : TomlItem → Option Text
  | .value (.scalar (.string s)) => some s
  | _ => none

def nameKey : Text := "name".toList
def pathKey : Text := "path".toList
def enabledKey : Text := "enabled".toList
def configKey : Text := "config".toList
def skillsKey : Text := "skills".toList

def skillConfigSelectorFromTable (table : TomlTable) : Option SkillConfigSelector :=
  let path := ((getEntry pathKey table).bind TomlItem.asStr).map fun path =>
    SkillConfigSelector.path (normalizeSkillConfigPath canonicalize path)
  let name := ((((getEntry nameKey table).bind TomlItem.asStr).map trim).filter
    fun name => name ≠ []).map SkillConfigSelector.name
  match path, name with
  | some selector, none => some selector
  | none, some selector => some selector
  | _, _ => none

def writeSkillConfigSelector (selector : SkillConfigSelector) (table : TomlTable) : TomlTable :=
  match selector with
  | .name name => setEntry nameKey (stringItem name) (removeEntry pathKey table)
  | .path path => setEntry pathKey (stringItem path) (removeEntry nameKey table)

def selects (selector : SkillConfigSelector) (table : TomlTable) : Bool :=
  match skillConfigSelectorFromTable canonicalize table with
  | some value => value.same selector
  | none => false

def disableEntry (selector : SkillConfigSelector) (table : TomlTable) : TomlTable :=
  setEntry enabledKey (boolItem false) (writeSkillConfigSelector selector table)

def setOverride (selector : SkillConfigSelector) (enabled : Bool) (overrides : List TomlTable) :
    Bool × List TomlTable :=
  match enabled, overrides.findIdx? (selects canonicalize selector) with
  | true, some index => (true, overrides.eraseIdx index)
  | true, none => (false, overrides)
  | false, some index => (true, overrides.modify index (disableEntry selector))
  | false, none => (true, overrides ++ [disableEntry selector []])

def skillsTable (enabled : Bool) (doc : TomlTable) : Option TomlTable :=
  match (getEntry skillsKey doc).bind ensureTableForWrite with
  | some skills => some skills
  | none => if enabled then none else some newImplicitTable

def skillOverrides (enabled : Bool) (skills : TomlTable) : Option (List TomlTable) :=
  match getEntry configKey skills with
  | some (.arrayOfTables overrides) => some overrides
  | _ => if enabled then none else some []

def setSkillConfig (selector : SkillConfigSelector) (enabled : Bool) (doc : TomlTable) :
    Bool × TomlTable :=
  let selector := selector.normalized canonicalize
  if selector = .name [] then (false, doc) else
  match skillsTable enabled doc with
  | none => (false, doc)
  | some skills =>
    match skillOverrides enabled skills with
    | none => (false, setEntry skillsKey (.table skills) doc)
    | some overrides =>
      let (mutated, overrides) := setOverride canonicalize selector enabled overrides
      if enabled ∧ mutated ∧ overrides = [] then
        let skills := removeEntry configKey skills
        if skills = [] then (mutated, removeEntry skillsKey doc)
        else (mutated, setEntry skillsKey (.table skills) doc)
      else
        let skills := setEntry configKey (.arrayOfTables overrides) skills
        (mutated, setEntry skillsKey (.table skills) doc)

/-! ## Entries of the document -/

def entriesOf (skills : TomlTable) : List TomlTable :=
  match getEntry configKey skills with
  | some (.arrayOfTables overrides) => overrides
  | _ => []

def skillEntries (doc : TomlTable) : List TomlTable :=
  match getEntry skillsKey doc with
  | some (.table skills) => entriesOf skills
  | _ => []

@[simp] theorem skillEntries_set (skills doc : TomlTable) :
    skillEntries (setEntry skillsKey (.table skills) doc) = entriesOf skills := by
  rw [skillEntries, getEntry_set_self]

@[simp] theorem skillEntries_remove (doc : TomlTable) :
    skillEntries (removeEntry skillsKey doc) = [] := by
  rw [skillEntries, getEntry_remove, if_pos rfl]

@[simp] theorem entriesOf_set (overrides : List TomlTable) (skills : TomlTable) :
    entriesOf (setEntry configKey (.arrayOfTables overrides) skills) = overrides := by
  rw [entriesOf, getEntry_set_self]

@[simp] theorem entriesOf_remove (skills : TomlTable) :
    entriesOf (removeEntry configKey skills) = [] := by
  rw [entriesOf, getEntry_remove, if_pos rfl]

theorem entriesOf_inline (inline : List (Text × TomlValue)) :
    entriesOf (tableFromInline inline) = [] := by
  rw [entriesOf, tableFromInline, getEntry_map]
  cases getEntry configKey inline <;> rfl

variable {enabled : Bool} {skills : TomlTable}

theorem entriesOf_skillsTable {doc : TomlTable} (h : skillsTable enabled doc = some skills) :
    entriesOf skills = skillEntries doc := by
  unfold skillsTable at h
  unfold skillEntries
  cases hget : getEntry skillsKey doc with
  | none =>
    rw [hget] at h
    cases enabled with
    | true => cases h
    | false =>
      rw [← Option.some.inj h]
      rfl
  | some item =>
    rw [hget] at h
    cases item with
    | table t => rw [← Option.some.inj h]
    | arrayOfTables tables =>
      cases enabled with
      | true => cases h
      | false =>
        rw [← Option.some.inj h]
        rfl
    | value v =>
      cases v with
      | table inline =>
        rw [← Option.some.inj h]
        exact entriesOf_inline inline
      | scalar value | array items =>
        rw [← Option.some.inj h]
        rfl

theorem skillsTable_none {doc : TomlTable} (h : skillsTable enabled doc = none) :
    enabled = true ∧ skillEntries doc = [] := by
  unfold skillsTable at h
  split at h
  · cases h
  · next hnone =>
    have henabled : enabled = true := by
      cases enabled with
      | true => rfl
      | false => cases h
    refine ⟨henabled, ?_⟩
    unfold skillEntries
    cases hget : getEntry skillsKey doc with
    | none => rfl
    | some item =>
      rw [hget] at hnone
      cases item with
      | table t => cases hnone
      | arrayOfTables tables | value v => rfl

theorem skillOverrides_some {overrides : List TomlTable}
    (h : skillOverrides enabled skills = some overrides) : overrides = entriesOf skills := by
  unfold skillOverrides at h
  unfold entriesOf
  split at h
  · exact (Option.some.inj h).symm
  · cases enabled with
    | true => cases h
    | false => exact (Option.some.inj h).symm

theorem skillOverrides_none (h : skillOverrides enabled skills = none) :
    enabled = true ∧ entriesOf skills = [] := by
  unfold skillOverrides at h
  unfold entriesOf
  split at h
  · cases h
  · cases enabled with
    | true => exact ⟨rfl, rfl⟩
    | false => cases h

variable {canonicalize} {selector : SkillConfigSelector} {enabled : Bool} {doc : TomlTable}

theorem setOverride_empty : setOverride canonicalize selector true [] = (false, []) := rfl

theorem setSkillConfig_entries (hname : selector.normalized canonicalize ≠ .name []) :
    (setSkillConfig canonicalize selector enabled doc).1 =
        (setOverride canonicalize (selector.normalized canonicalize) enabled (skillEntries doc)).1 ∧
      skillEntries (setSkillConfig canonicalize selector enabled doc).2 =
        (setOverride canonicalize (selector.normalized canonicalize) enabled
          (skillEntries doc)).2 := by
  unfold setSkillConfig
  dsimp only
  rw [if_neg hname]
  split
  · next hskills =>
    obtain ⟨rfl, hempty⟩ := skillsTable_none hskills
    rw [hempty, setOverride_empty]
    exact ⟨rfl, rfl⟩
  · next skills hskills =>
    rw [← entriesOf_skillsTable hskills]
    split
    · next hoverrides =>
      obtain ⟨rfl, hempty⟩ := skillOverrides_none hoverrides
      rw [hempty, setOverride_empty, skillEntries_set, hempty]
      exact ⟨rfl, rfl⟩
    · next overrides hoverrides =>
      rw [skillOverrides_some hoverrides]
      split
      · next hlast =>
        split
        · simp [hlast.2.2]
        · simp [hlast.2.2]
      · simp

/-! ## What an entry selects -/

theorem selects_empty (table : TomlTable) : selects canonicalize (.name []) table = false := by
  unfold selects skillConfigSelectorFromTable
  cases ((getEntry pathKey table).bind TomlItem.asStr) with
  | some path => cases ((((getEntry nameKey table).bind TomlItem.asStr).map trim).filter
      fun name => name ≠ []) <;> simp [SkillConfigSelector.same]
  | none =>
    cases hname : ((((getEntry nameKey table).bind TomlItem.asStr).map trim).filter
      fun name => name ≠ []) with
    | none => rfl
    | some name =>
      have hne := (filter_eq_some_iff.mp hname).2
      simpa [SkillConfigSelector.same] using hne

theorem getEntry_disable_name (n : Text) (table : TomlTable) :
    getEntry nameKey (disableEntry (.name n) table) = some (stringItem n) ∧
      getEntry pathKey (disableEntry (.name n) table) = none := by
  unfold disableEntry writeSkillConfigSelector
  simp only [getEntry_set, getEntry_remove]
  exact ⟨rfl, rfl⟩

theorem getEntry_disable_path (p : Text) (table : TomlTable) :
    getEntry pathKey (disableEntry (.path p) table) = some (stringItem p) ∧
      getEntry nameKey (disableEntry (.path p) table) = none := by
  unfold disableEntry writeSkillConfigSelector
  simp only [getEntry_set, getEntry_remove]
  exact ⟨rfl, rfl⟩

def Resolved (canonicalize : Text → Option Text) : Prop :=
  ∀ path resolved, canonicalize path = some resolved → canonicalize resolved = some resolved

theorem Resolved.normalize (h : Resolved canonicalize) (path : Text) :
    normalizeSkillConfigPath canonicalize (normalizeSkillConfigPath canonicalize path) =
      normalizeSkillConfigPath canonicalize path := by
  unfold normalizeSkillConfigPath
  cases hpath : canonicalize path with
  | some resolved => rw [getD_some, h path resolved hpath, getD_some]
  | none => rw [getD_none, hpath, getD_none]

theorem selects_disable (hresolved : Resolved canonicalize)
    (hname : selector.normalized canonicalize ≠ .name []) (table : TomlTable) :
    selects canonicalize (selector.normalized canonicalize)
      (disableEntry (selector.normalized canonicalize) table) = true := by
  cases selector with
  | name n =>
    have hne : trim n ≠ [] := fun h => hname (by rw [SkillConfigSelector.normalized, h])
    obtain ⟨hget, hnone⟩ := getEntry_disable_name (trim n) table
    simp [SkillConfigSelector.normalized, selects, skillConfigSelectorFromTable, hget, hnone,
      stringItem, TomlItem.asStr, trim_trim, Option.filter, hne]
  | path p =>
    obtain ⟨hget, hnone⟩ := getEntry_disable_path (normalizeSkillConfigPath canonicalize p) table
    simp [SkillConfigSelector.normalized, selects, skillConfigSelectorFromTable, hget, hnone,
      stringItem, TomlItem.asStr, hresolved.normalize]

theorem getEntry_disable_enabled (table : TomlTable) :
    getEntry enabledKey (disableEntry selector table) = some (boolItem false) :=
  getEntry_set_self _ _ _

/-! ## What is done to the entries -/

variable {overrides : List TomlTable}

theorem enabled_none_left : (∀ table ∈ (setOverride canonicalize selector true overrides).2,
      selects canonicalize selector table = false) ↔
    overrides.countP (selects canonicalize selector) ≤ 1 := by
  have hzero : ∀ l : List TomlTable, (∀ table ∈ l, selects canonicalize selector table = false) ↔
      l.countP (selects canonicalize selector) = 0 := fun l => by simp [List.countP_eq_zero]
  rw [hzero]
  unfold setOverride
  cases hfirst : overrides.findIdx? (selects canonicalize selector) with
  | some index =>
    have hcount := countP_eraseIdx_first hfirst
    dsimp only
    omega
  | none =>
    have hnone := (hzero overrides).mp (List.findIdx?_eq_none_iff.mp hfirst)
    dsimp only
    omega

theorem disabled_entry
    (hselects : ∀ table, selects canonicalize selector (disableEntry selector table) = true) :
    ∃ table ∈ (setOverride canonicalize selector false overrides).2,
      selects canonicalize selector table = true ∧
        getEntry enabledKey table = some (boolItem false) := by
  have hentry : ∀ table, selects canonicalize selector (disableEntry selector table) = true ∧
      getEntry enabledKey (disableEntry selector table) = some (boolItem false) :=
    fun table => ⟨hselects table, getEntry_disable_enabled table⟩
  unfold setOverride
  cases hfirst : overrides.findIdx? (selects canonicalize selector) with
  | some index =>
    obtain ⟨before, table, after, -, hmodify, -⟩ := modify_first hfirst (disableEntry selector)
    exact ⟨disableEntry selector table, by simp [hmodify], hentry table⟩
  | none => exact ⟨disableEntry selector [], by simp, hentry []⟩

theorem other_entries
    (hselects : ∀ table, selects canonicalize selector (disableEntry selector table) = true) :
    ((setOverride canonicalize selector enabled overrides).2.filter fun table =>
      !selects canonicalize selector table) =
    overrides.filter fun table => !selects canonicalize selector table := by
  unfold setOverride
  cases hfirst : overrides.findIdx? (selects canonicalize selector) with
  | some index =>
    cases enabled with
    | true => exact filter_eraseIdx_first hfirst
    | false => exact filter_modify_first hfirst fun table _ => hselects table
  | none =>
    cases enabled with
    | true => rfl
    | false => simp [hselects]

/-! ## Edits that report nothing -/

/-- Something is in the place of the skills that is not a table of any form. -/
def BareSkills (doc : TomlTable) : Prop :=
  ∃ v, getEntry skillsKey doc = some (.value v) ∧ v.IsLeaf

theorem setSkillConfig_bare (hname : selector.normalized canonicalize ≠ .name [])
    (h : BareSkills doc) : setSkillConfig canonicalize selector true doc =
      (false, setEntry skillsKey (.table newImplicitTable) doc) := by
  obtain ⟨v, hget, hleaf⟩ := h
  have hskills : skillsTable true doc = some newImplicitTable := by
    unfold skillsTable
    rw [hget]
    cases v with
    | table inline => exact absurd rfl (hleaf inline)
    | scalar value | array items => rfl
  unfold setSkillConfig
  rw [if_neg hname, hskills]
  rfl

theorem plain_bare (h : BareSkills doc) :
    plainTable (setEntry skillsKey (.table newImplicitTable) doc) ≠ plainTable doc := by
  obtain ⟨v, hget, hleaf⟩ := h
  intro heq
  have hread := getEntry_plain skillsKey (setEntry skillsKey (.table newImplicitTable) doc)
  rw [heq, getEntry_plain, hget, getEntry_set_self] at hread
  exact hleaf [] (Option.some.inj hread)

theorem plain_skillsTable (hbare : ¬ BareSkills doc) {skills : TomlTable}
    (h : skillsTable true doc = some skills) :
    plainTable (setEntry skillsKey (.table skills) doc) = plainTable doc := by
  unfold skillsTable at h
  cases hget : getEntry skillsKey doc with
  | none =>
    rw [hget] at h
    cases h
  | some item =>
    refine plainTable_set_same (v := item.plain) (by rw [getEntry_plain, hget]; rfl) ?_
    rw [hget] at h
    cases item with
    | table t =>
      rw [← Option.some.inj h]
    | arrayOfTables tables => cases h
    | value v =>
      cases v with
      | table inline =>
        rw [← Option.some.inj h]
        exact plain_tableFromInline inline
      | scalar value | array items => exact absurd ⟨_, hget, fun _ => by simp⟩ hbare

theorem setOverride_unreported
    (h : (setOverride canonicalize selector enabled overrides).1 = false) :
    setOverride canonicalize selector enabled overrides = (false, overrides) := by
  unfold setOverride at h ⊢
  split at h
  · cases h
  · rfl
  · cases h
  · cases h

theorem plain_unreported (hbare : ¬ BareSkills doc)
    (h : (setSkillConfig canonicalize selector true doc).1 = false) :
    plainTable (setSkillConfig canonicalize selector true doc).2 = plainTable doc := by
  by_cases hname : selector.normalized canonicalize = .name []
  · unfold setSkillConfig
    rw [if_pos hname]
  · have hreport := (@setSkillConfig_entries canonicalize _ true doc hname).1
    rw [h] at hreport
    have hsame := setOverride_unreported hreport.symm
    unfold setSkillConfig
    rw [if_neg hname]
    cases hskills : skillsTable true doc with
    | none => rfl
    | some skills =>
      have hplain := plain_skillsTable hbare hskills
      rw [← entriesOf_skillsTable hskills] at hsame
      cases hoverrides : skillOverrides true skills with
      | none => simpa [hoverrides] using hplain
      | some overrides =>
        rw [← skillOverrides_some hoverrides] at hsame
        -- the entries are put back as they were
        have hback : setEntry configKey (.arrayOfTables overrides) skills = skills := by
          unfold skillOverrides at hoverrides
          split at hoverrides
          · next hget => exact set_getEntry (by rw [hget, Option.some.inj hoverrides])
          · cases hoverrides
        simpa [hoverrides, hsame, hback] using hplain

theorem disabled_reports (hname : selector.normalized canonicalize ≠ .name []) :
    (setSkillConfig canonicalize selector false doc).1 = true := by
  rw [(setSkillConfig_entries hname).1]
  unfold setOverride
  cases (skillEntries doc).findIdx? (selects canonicalize (selector.normalized canonicalize)) <;> rfl

end Codex.Config.Edit
