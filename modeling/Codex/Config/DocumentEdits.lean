import Codex.Config.SkillConfig

/-!
# Edits of the config document

Most edits set or clear values at fixed paths, some of them under the active profile. They
leave what they are not about, and an edit that reports no change has made none, but for
the edit that enables a skill.
-/

namespace Codex.Config.Edit

open Foundation

/-! ## Edits -/

inductive ReasoningEffort | none | minimal | low | medium | high | xHigh

def ReasoningEffort.text : ReasoningEffort → Text
  | .none => "none".toList
  | .minimal => "minimal".toList
  | .low => "low".toList
  | .medium => "medium".toList
  | .high => "high".toList
  | .xHigh => "xhigh".toList

inductive ServiceTier | fast | flex

def ServiceTier.text : ServiceTier → Text
  | .fast => "fast".toList
  | .flex => "flex".toList

inductive Personality | none | friendly | pragmatic

def Personality.text : Personality → Text
  | .none => "none".toList
  | .friendly => "friendly".toList
  | .pragmatic => "pragmatic".toList

inductive TrustLevel | trusted | untrusted

def TrustLevel.text : TrustLevel → Text
  | .trusted => "trusted".toList
  | .untrusted => "untrusted".toList

inductive ConfigEdit
  | setModel (model : Option Text) (effort : Option ReasoningEffort)
  | setServiceTier (serviceTier : Option ServiceTier)
  | setModelPersonality (personality : Option Personality)
  | setNoticeHideFullAccessWarning (acknowledged : Bool)
  | setNoticeHideWorldWritableWarning (acknowledged : Bool)
  | setNoticeFastDefaultOptOut (optedOut : Bool)
  | setNoticeHideRateLimitModelNudge (acknowledged : Bool)
  | setWindowsWslSetupAcknowledged (acknowledged : Bool)
  | setNoticeHideModelMigrationPrompt (migrationConfig : Text) (acknowledged : Bool)
  | setNoticeHideExternalConfigMigrationPromptHome (acknowledged : Bool)
  | setNoticeExternalConfigMigrationPromptHomeLastPromptedAt (timestamp : ℤ)
  | setNoticeHideExternalConfigMigrationPromptProject (project : Text) (acknowledged : Bool)
  | setNoticeExternalConfigMigrationPromptProjectLastPromptedAt (project : Text) (timestamp : ℤ)
  | recordModelMigrationSeen (migratedFrom migratedTo : Text)
  | replaceMcpServers (servers : Entries McpServerConfig)
  | setSkillConfig (path : Text) (enabled : Bool)
  | setSkillConfigByName (name : Text) (enabled : Bool)
  | setProjectTrustLevel (path : Text) (level : TrustLevel)
  | setPath (segments : List Text) (value : TomlItem)
  | clearPath (segments : List Text)

structure ConfigDocument where
  doc : TomlTable
  profile : Option Text

inductive Scope | globally | profile

/-! ## Applying -/

/-- What the edits ask the file system for: the resolved form of a path, and the key of a
project. -/
structure PathNames where
  canonicalize : Text → Option Text
  projectTrustKey : Text → Text

def projectsKey : Text := "projects".toList

def migrateProjects (existing : Option TomlItem) : TomlTable :=
  match existing with
  | some (.value (.table inline)) => inline.foldl (fun projects e =>
      match e.2 with
      | .table inner => setEntry e.1 (.table (tableFromInline inner)) projects
      | _ => projects) newImplicitTable
  | _ => newImplicitTable

def setProjectTrustLevelInner (projectKey : Text) (level : TrustLevel) (doc : TomlTable) :
    Except Text TomlTable :=
  let doc : TomlTable := match getEntry projectsKey doc with
    | some (.table _) => doc
    | existing => setEntry projectsKey (.table (migrateProjects existing)) doc
  match getEntry projectsKey doc with
  | some (.table projects) =>
    let projects : TomlTable := match getEntry projectKey projects with
      | some (.table _) => projects
      | _ => setEntry projectKey (.table []) projects
    match getEntry projectKey projects with
    | some (.table project) =>
      let project := setEntry "trust_level".toList (stringItem level.text) project
      .ok (setEntry projectsKey (.table (setEntry projectKey (.table project) projects)) doc)
    | _ => .error ("project table missing for ".toList ++ projectKey)
  | _ => .error "projects table missing after initialization".toList

namespace ConfigDocument

def scopedSegments (document : ConfigDocument) (scope : Scope) (segments : List Text) :
    List Text :=
  match scope, document.profile with
  | .profile, some profile =>
    if segments.head? = some "profiles".toList then segments
    else "profiles".toList :: profile :: segments
  | _, _ => segments

def edited (document : ConfigDocument) (result : Bool × TomlTable) : Bool × ConfigDocument :=
  (result.1, { document with doc := result.2 })

def writeValue (document : ConfigDocument) (scope : Scope) (segments : List Text)
    (value : TomlItem) : Bool × ConfigDocument :=
  document.edited (insert (document.scopedSegments scope segments) value document.doc)

def clear (document : ConfigDocument) (scope : Scope) (segments : List Text) :
    Bool × ConfigDocument :=
  document.edited (remove (document.scopedSegments scope segments) document.doc)

def writeProfileValue (document : ConfigDocument) (segments : List Text)
    (value : Option TomlItem) : Bool × ConfigDocument :=
  match value with
  | some item => document.writeValue .profile segments item
  | none => document.clear .profile segments

end ConfigDocument

def integerItem (n : ℤ) : TomlItem := .value (.scalar (.integer n))

def keys (segments : List String) : List Text := segments.map String.toList

def notice (segments : List String) : List Text := keys ("notice" :: segments)

def migrationPrompts (segments : List String) : List Text :=
  notice ("external_config_migration_prompts" :: segments)

section
variable (names : PathNames)

def ConfigDocument.apply (document : ConfigDocument) :
    ConfigEdit → Except Text (Bool × ConfigDocument)
  | .setModel model effort =>
    let first := document.writeProfileValue (keys ["model"]) (model.map stringItem)
    let second := first.2.writeProfileValue (keys ["model_reasoning_effort"])
      (effort.map fun e => stringItem e.text)
    .ok (first.1 || second.1, second.2)
  | .setServiceTier serviceTier =>
    .ok (document.writeProfileValue (keys ["service_tier"])
      (serviceTier.map fun tier => stringItem tier.text))
  | .setModelPersonality personality =>
    .ok (document.writeProfileValue (keys ["personality"])
      (personality.map fun p => stringItem p.text))
  | .setNoticeHideFullAccessWarning acknowledged =>
    .ok (document.writeValue .globally (notice ["hide_full_access_warning"])
      (boolItem acknowledged))
  | .setNoticeHideWorldWritableWarning acknowledged =>
    .ok (document.writeValue .globally (notice ["hide_world_writable_warning"])
      (boolItem acknowledged))
  | .setNoticeFastDefaultOptOut optedOut =>
    .ok (document.writeValue .globally (notice ["fast_default_opt_out"]) (boolItem optedOut))
  | .setNoticeHideRateLimitModelNudge acknowledged =>
    .ok (document.writeValue .globally (notice ["hide_rate_limit_model_nudge"])
      (boolItem acknowledged))
  | .setNoticeHideModelMigrationPrompt migrationConfig acknowledged =>
    .ok (document.writeValue .globally (notice [] ++ [migrationConfig]) (boolItem acknowledged))
  | .setNoticeHideExternalConfigMigrationPromptHome acknowledged =>
    .ok (document.writeValue .globally (migrationPrompts ["home"]) (boolItem acknowledged))
  | .setNoticeExternalConfigMigrationPromptHomeLastPromptedAt timestamp =>
    .ok (document.writeValue .globally (migrationPrompts ["home_last_prompted_at"])
      (integerItem timestamp))
  | .setNoticeHideExternalConfigMigrationPromptProject project acknowledged =>
    .ok (document.writeValue .globally (migrationPrompts ["projects"] ++ [project])
      (boolItem acknowledged))
  | .setNoticeExternalConfigMigrationPromptProjectLastPromptedAt project timestamp =>
    .ok (document.writeValue .globally (migrationPrompts ["project_last_prompted_at"] ++ [project])
      (integerItem timestamp))
  | .recordModelMigrationSeen migratedFrom migratedTo =>
    .ok (document.writeValue .globally (notice ["model_migrations"] ++ [migratedFrom])
      (stringItem migratedTo))
  | .setWindowsWslSetupAcknowledged acknowledged =>
    .ok (document.writeValue .globally (keys ["windows_wsl_setup_acknowledged"])
      (boolItem acknowledged))
  | .replaceMcpServers servers => .ok (document.edited (replaceMcpServers servers document.doc))
  | .setSkillConfig path enabled =>
    .ok (document.edited (setSkillConfig names.canonicalize (.path path) enabled document.doc))
  | .setSkillConfigByName name enabled =>
    .ok (document.edited (setSkillConfig names.canonicalize (.name name) enabled document.doc))
  | .setPath segments value => .ok (document.edited (insert segments value document.doc))
  | .clearPath segments => .ok (document.edited (remove segments document.doc))
  | .setProjectTrustLevel path level =>
    match setProjectTrustLevelInner (names.projectTrustKey path) level document.doc with
    | .ok doc => .ok (true, { document with doc })
    | .error err => .error err

end

section
variable {document : ConfigDocument}

def Reported (document : ConfigDocument) (result : Bool × ConfigDocument) : Prop :=
  result.1 = false → plainTable result.2.doc = plainTable document.doc

theorem reported_edited {result : Bool × TomlTable}
    (h : result.1 = false → plainTable result.2 = plainTable document.doc) :
    Reported document (document.edited result) := h

variable (segments : List Text)

theorem reported_writeValue (scope : Scope) (value : TomlItem) :
    Reported document (document.writeValue scope segments value) := plain_insert_failed

theorem reported_clear (scope : Scope) :
    Reported document (document.clear scope segments) := plain_remove_failed

theorem reported_writeProfileValue (value : Option TomlItem) :
    Reported document (document.writeProfileValue segments value) := by
  cases value with
  | some item => exact reported_writeValue _ _ _
  | none => exact reported_clear _ _

theorem reported_replaceMcpServers (servers : Entries McpServerConfig) :
    Reported document (document.edited (replaceMcpServers servers document.doc)) := by
  apply reported_edited
  unfold replaceMcpServers
  split
  · exact plain_remove_failed
  · simp

end

/-! ## Frames -/

def InsertFramed (doc : TomlTable) (p : List Text) (v : TomlItem) : Prop :=
  (insert p v doc).1 = true →
    (plainTable (insert p v doc).2).readAt (keySteps p) = some v.plain ∧
    ∀ q, Incomparable (keySteps p) q → TablesAbove (plainTable doc) p →
      (plainTable (insert p v doc).2).readAt q = (plainTable doc).readAt q

def RemoveFramed (doc : TomlTable) (p : List Text) : Prop :=
  (remove p doc).1 = true →
    (plainTable (remove p doc).2).readAt (keySteps p) = none ∧
    ∀ q w, w.IsLeaf → ¬ keySteps p <+: q →
      ((plainTable (remove p doc).2).readAt q = some w ↔ (plainTable doc).readAt q = some w)

theorem insertFramed (doc : TomlTable) (p : List Text) (v : TomlItem) : InsertFramed doc p v := by
  intro h
  rw [plain_insert h]
  exact ⟨readAt_setAt _ _ _, fun q hq htables => readAt_setAt_elsewhere _ htables hq⟩

theorem removeFramed (doc : TomlTable) (p : List Text) : RemoveFramed doc p := by
  intro h
  have hne : p ≠ [] := fun hp => by simp [hp, remove_nil] at h
  rw [plain_remove]
  exact ⟨readAt_removeAt hne _, fun q w hw hq => readAt_removeAt_leaf hq hw⟩

def ConfigEdit.skill : ConfigEdit → Option (SkillConfigSelector × Bool)
  | .setSkillConfig path enabled => some (.path path, enabled)
  | .setSkillConfigByName name enabled => some (.name name, enabled)
  | _ => none

section
variable (canonicalize : Text → Option Text)

structure SkillFramed (selector : SkillConfigSelector) (enabled reported : Bool)
    (before after : TomlTable) : Prop where
  gone : enabled = true → ∀ entry ∈ skillEntries after, selects canonicalize selector entry = false
  disabled : enabled = false → reported = true → ∃ entry ∈ skillEntries after,
    selects canonicalize selector entry = true ∧ getEntry enabledKey entry = some (boolItem false)
  others : ((skillEntries after).filter fun entry => !selects canonicalize selector entry) =
    (skillEntries before).filter fun entry => !selects canonicalize selector entry

variable {canonicalize} {selector : SkillConfigSelector} {enabled : Bool} {doc : TomlTable}

theorem setSkillConfig_unnamed (hname : selector.normalized canonicalize = .name []) :
    setSkillConfig canonicalize selector enabled doc = (false, doc) := by
  unfold setSkillConfig
  rw [if_pos hname]

theorem skillFramed_iff (hresolved : Resolved canonicalize) :
    SkillFramed canonicalize (selector.normalized canonicalize) enabled
      (setSkillConfig canonicalize selector enabled doc).1 doc
      (setSkillConfig canonicalize selector enabled doc).2 ↔
    (enabled = true →
      (skillEntries doc).countP (selects canonicalize (selector.normalized canonicalize)) ≤ 1) := by
  by_cases hname : selector.normalized canonicalize = .name []
  · rw [setSkillConfig_unnamed hname, hname]
    have hcount : (skillEntries doc).countP (selects canonicalize (.name [])) = 0 :=
      List.countP_eq_zero.mpr fun entry _ => by simp [selects_empty]
    refine ⟨fun _ _ => by omega, fun _ => ⟨fun _ entry _ => selects_empty entry, ?_, rfl⟩⟩
    exact fun _ h => absurd h Bool.false_ne_true
  · obtain ⟨-, hentries⟩ := @setSkillConfig_entries canonicalize selector enabled doc hname
    have hselects := selects_disable hresolved hname
    constructor
    · intro hframed henabled
      have hgone := hframed.gone henabled
      rw [hentries, henabled] at hgone
      exact enabled_none_left.mp hgone
    · intro hcount
      refine ⟨fun henabled => ?_, fun hdisabled _ => ?_, ?_⟩
      · rw [hentries, henabled]
        exact enabled_none_left.mpr (hcount henabled)
      · rw [hentries, hdisabled]
        exact disabled_entry hselects
      · rw [hentries]
        exact other_entries hselects

theorem unreported_iff : ((setSkillConfig canonicalize selector enabled doc).1 = false →
      plainTable (setSkillConfig canonicalize selector enabled doc).2 = plainTable doc) ↔
    (enabled = true → BareSkills doc → selector.normalized canonicalize = .name []) := by
  by_cases hname : selector.normalized canonicalize = .name []
  · rw [setSkillConfig_unnamed hname]
    simp [hname]
  · cases enabled with
    | false => simp [disabled_reports hname]
    | true =>
      by_cases hbare : BareSkills doc
      · simp [setSkillConfig_bare hname hbare, plain_bare hbare, hbare, hname]
      · simp only [hbare, false_implies, implies_true, iff_true]
        exact plain_unreported hbare

end

/-! ## Framed edits -/

section
variable {names : PathNames} {document : ConfigDocument} {edit : ConfigEdit}

/-- What holds of the document's insertions, its removals and an edit of it. -/
structure DocumentFramed (names : PathNames) (document : ConfigDocument) (edit : ConfigEdit) :
    Prop where
  inserted : ∀ p v, InsertFramed document.doc p v
  removed : ∀ p, RemoveFramed document.doc p
  unreported : ∀ after, document.apply names edit = .ok (false, after) →
    plainTable after.doc = plainTable document.doc
  skills : ∀ selector enabled, edit.skill = some (selector, enabled) →
    ∀ reported after, document.apply names edit = .ok (reported, after) →
      SkillFramed names.canonicalize (selector.normalized names.canonicalize) enabled reported
        document.doc after.doc

/-- An edit that enables a skill finds a table or nothing in the place of the skills, and at
most one entry for the skill. -/
def EnablesPlainly (names : PathNames) (document : ConfigDocument) (edit : ConfigEdit) : Prop :=
  ∀ selector, edit.skill = some (selector, true) →
    (BareSkills document.doc → selector.normalized names.canonicalize = .name []) ∧
    (skillEntries document.doc).countP
      (selects names.canonicalize (selector.normalized names.canonicalize)) ≤ 1

theorem apply_skill {selector : SkillConfigSelector} {enabled : Bool}
    (h : edit.skill = some (selector, enabled)) : document.apply names edit =
      .ok (document.edited (setSkillConfig names.canonicalize selector enabled document.doc)) := by
  cases edit <;> cases h <;> rfl

theorem unreported_other (h : edit.skill = none) {after : ConfigDocument}
    (happly : document.apply names edit = .ok (false, after)) :
    plainTable after.doc = plainTable document.doc := by
  have hreported : ∀ {result : Bool × ConfigDocument}, Reported document result →
      (Except.ok result : Except Text (Bool × ConfigDocument)) = .ok (false, after) →
      plainTable after.doc = plainTable document.doc := by
    intro result hresult heq
    obtain rfl := Except.ok.inj heq
    exact hresult rfl
  cases edit with
  | setModel model effort =>
    refine hreported (fun hnone => ?_) happly
    obtain ⟨hfirst, hsecond⟩ := Bool.or_eq_false_iff.mp hnone
    exact (reported_writeProfileValue _ _ hsecond).trans (reported_writeProfileValue _ _ hfirst)
  | setServiceTier serviceTier
  | setModelPersonality personality => exact hreported (reported_writeProfileValue _ _) happly
  | replaceMcpServers servers => exact hreported (reported_replaceMcpServers servers) happly
  | setPath segments value => exact hreported (reported_edited plain_insert_failed) happly
  | clearPath segments => exact hreported (reported_edited plain_remove_failed) happly
  | setSkillConfig path enabled | setSkillConfigByName name enabled => cases h
  | setProjectTrustLevel path level =>
    rw [ConfigDocument.apply] at happly
    split at happly
    · simp at happly
    · cases happly
  | _ => exact hreported (reported_writeValue _ _ _) happly

end

def linkedNames : PathNames where
  canonicalize path :=
    if path = "/tmp/demo".toList ∨ path = "/private/tmp/demo".toList then
      some "/private/tmp/demo".toList
    else none
  projectTrustKey path := path

def documentOf (skills : TomlItem) : ConfigDocument := ⟨[(skillsKey, skills)], none⟩

def demoEntry : TomlTable := [(nameKey, stringItem "demo".toList), (enabledKey, boolItem false)]

end Codex.Config.Edit
