import Codex.Config.ValueEdits

/-!
# The config document and its MCP servers

The document of a config file tells tables from inline tables, and arrays of tables from
arrays. An edit walks down to a table and rewrites on its way what is in place of a table.
By its plain value an insertion is `setAt` and a removal is `removeAt`; an edit that fails
leaves the plain value alone. Decor does not count, nor does the order of new keys.

All servers are written at once. A server that is an inline table stays one, and servers
that are not named go. A map is its entries in key order, a duration is the text of its
seconds.
-/

namespace Codex.Config.Edit

open Foundation List

inductive TomlItem where
  | value (v : TomlValue)
  | table (entries : List (Text × TomlItem))
  | arrayOfTables (tables : List (List (Text × TomlItem)))

abbrev TomlTable := List (Text × TomlItem)

mutual

def TomlItem.plain : TomlItem → TomlValue
  | .value v => v
  | .table entries => .table (plainEntries entries)
  | .arrayOfTables tables => .array (plainTables tables)

def plainEntries : List (Text × TomlItem) → List (Text × TomlValue)
  | [] => []
  | (k, item) :: entries => (k, item.plain) :: plainEntries entries

def plainTables : List (List (Text × TomlItem)) → List TomlValue
  | [] => []
  | entries :: tables => .table (plainEntries entries) :: plainTables tables

end

def plainTable (t : TomlTable) : TomlValue := (TomlItem.table t).plain

def tableFromInline (inline : List (Text × TomlValue)) : TomlTable := mapEntries .value inline

def newImplicitTable : TomlTable := []

def ensureTableForWrite : TomlItem → Option TomlTable
  | .table table => some table
  | .value (.table inline) => some (tableFromInline inline)
  | .value _ => some newImplicitTable
  | .arrayOfTables _ => none

def ensureTableForRead : TomlItem → Option TomlTable
  | .table table => some table
  | .value (.table inline) => some (tableFromInline inline)
  | .value _ => none
  | .arrayOfTables _ => none

inductive TraversalMode | create | existing

def ensureTable : TraversalMode → TomlItem → Option TomlTable
  | .create => ensureTableForWrite
  | .existing => ensureTableForRead

/-- `descend`, with what its caller does to the table and reports. A walk that fails has
rewritten what it passed. -/
def descend (mode : TraversalMode) (edit : TomlTable → Bool × TomlTable) :
    List Text → TomlTable → Bool × TomlTable
  | [], current => edit current
  | segment :: segments, current =>
    let current := match mode with
      | .create => if (getEntry segment current).isSome then current
          else setEntry segment (.table newImplicitTable) current
      | .existing => current
    match (getEntry segment current).bind (ensureTable mode) with
    | some child =>
      let result := descend mode edit segments child
      (result.1, setEntry segment (.table result.2) current)
    | none => (false, current)

def insertLast (last : Text) (value : TomlItem) (parent : TomlTable) : Bool × TomlTable :=
  (true, setEntry last value parent)

def removeLast (last : Text) (parent : TomlTable) : Bool × TomlTable :=
  ((getEntry last parent).isSome, removeEntry last parent)

def insert (segments : List Text) (value : TomlItem) (doc : TomlTable) : Bool × TomlTable :=
  match segments.getLast? with
  | none => (false, doc)
  | some last => descend .create (insertLast last value) segments.dropLast doc

def remove (segments : List Text) (doc : TomlTable) : Bool × TomlTable :=
  match segments.getLast? with
  | none => (false, doc)
  | some last => descend .existing (removeLast last) segments.dropLast doc

/-! ## Plain values -/

theorem plainEntries_eq (entries : List (Text × TomlItem)) :
    plainEntries entries = mapEntries TomlItem.plain entries := by
  induction entries with
  | nil => rfl
  | cons e entries ih =>
    rw [plainEntries, ih, mapEntries_cons]

theorem plainTable_eq (t : TomlTable) : plainTable t = .table (mapEntries TomlItem.plain t) := by
  rw [← plainEntries_eq]
  rfl

@[simp] theorem plain_table (t : TomlTable) : (TomlItem.table t).plain = plainTable t := rfl

theorem getEntry_plain (k : Text) (t : TomlTable) :
    getEntry k (plainTable t).entries = (getEntry k t).map TomlItem.plain := by
  rw [plainTable_eq, TomlValue.entries_table, getEntry_map]

theorem plainTable_set (k : Text) (item : TomlItem) (t : TomlTable) :
    plainTable (setEntry k item t) = .table (setEntry k item.plain (plainTable t).entries) := by
  rw [plainTable_eq, plainTable_eq, mapEntries_set]
  rfl

variable {item : TomlItem} {t : TomlTable}

theorem plainTable_set_same {k : Text} {v : TomlValue}
    (hk : getEntry k (plainTable t).entries = some v) (h : item.plain = v) :
    plainTable (setEntry k item t) = plainTable t := by
  rw [plainTable_set, h, set_getEntry hk, plainTable_eq, TomlValue.entries_table]

theorem plain_tableFromInline (inline : List (Text × TomlValue)) :
    plainTable (tableFromInline inline) = .table inline := by
  rw [plainTable_eq, tableFromInline, mapEntries, mapEntries, map_map]
  congr 1
  exact map_id inline

theorem plain_ensureTableForRead (h : ensureTableForRead item = some t) :
    plainTable t = item.plain := by
  unfold ensureTableForRead at h
  split at h
  · cases h
    rfl
  · cases h
    exact plain_tableFromInline _
  · cases h
  · cases h

theorem isLeaf_of_ensureTableForRead (h : ensureTableForRead item = none) : item.plain.IsLeaf := by
  intro entries heq
  cases item with
  | table entries => cases h
  | arrayOfTables tables => cases heq
  | value v =>
    obtain rfl : v = .table entries := heq
    cases h

theorem plain_ensureTableForWrite (h : ensureTableForWrite item = some t) :
    plainTable t = .table item.plain.entries := by
  unfold ensureTableForWrite at h
  split at h
  · cases h
    rfl
  · cases h
    exact plain_tableFromInline _
  · next v hnot =>
    cases h
    cases v with
    | table inline => exact absurd rfl (hnot inline)
    | scalar _ | array _ => rfl
  · cases h

theorem plain_or_new (h : ensureTableForWrite item = some t) :
    plainTable t = item.plain ∨ t = newImplicitTable := by
  unfold ensureTableForWrite at h
  split at h
  · exact .inl (by rw [← Option.some.inj h]; rfl)
  · exact .inl (by rw [← Option.some.inj h]; exact plain_tableFromInline _)
  · exact .inr (Option.some.inj h).symm
  · cases h

def childForWrite (segment : Text) (t : TomlTable) : Option TomlTable :=
  match getEntry segment t with
  | some item => ensureTableForWrite item
  | none => some newImplicitTable

theorem descend_create (edit : TomlTable → Bool × TomlTable) (segment : Text)
    (segments : List Text) (t : TomlTable) :
    descend .create edit (segment :: segments) t = match childForWrite segment t with
      | some child => ((descend .create edit segments child).1,
          setEntry segment (.table (descend .create edit segments child).2) t)
      | none => (false, t) := by
  rw [descend]
  unfold childForWrite ensureTable
  cases hget : getEntry segment t with
  | some item => simp [hget]
  | none => simp [ensureTableForWrite, setEntry_set]

theorem descend_existing (edit : TomlTable → Bool × TomlTable) (segment : Text)
    (segments : List Text) (t : TomlTable) : descend .existing edit (segment :: segments) t =
      match (getEntry segment t).bind ensureTableForRead with
      | some child => ((descend .existing edit segments child).1,
          setEntry segment (.table (descend .existing edit segments child).2) t)
      | none => (false, t) := rfl

theorem plain_childForWrite {segment : Text} {child : TomlTable}
    (h : childForWrite segment t = some child) : plainTable child =
      .table ((getEntry segment (plainTable t).entries).getD (.table [])).entries := by
  unfold childForWrite at h
  rw [getEntry_plain]
  cases hget : getEntry segment t with
  | some item =>
    rw [hget] at h
    exact plain_ensureTableForWrite h
  | none =>
    rw [hget] at h
    cases h
    rfl

/-! ## Insertions -/

section
variable {last : Text} {value : TomlItem}

theorem descend_new (segments : List Text) :
    (descend .create (insertLast last value) segments newImplicitTable).1 = true := by
  induction segments with
  | nil => rfl
  | cons segment segments ih =>
    rw [descend_create]
    exact ih

theorem setAt_entries (v : TomlValue) (k : Text) (p : List Text) (current : TomlValue) :
    setAt v (k :: p) (.table current.entries) = setAt v (k :: p) current := rfl

theorem plain_insertBelow (segments : List Text) (t : TomlTable)
    (h : (descend .create (insertLast last value) segments t).1 = true) :
    plainTable (descend .create (insertLast last value) segments t).2 =
      setAt value.plain (segments ++ [last]) (plainTable t) := by
  induction segments generalizing t with
  | nil => exact plainTable_set last value t
  | cons segment segments ih =>
    rw [descend_create] at h ⊢
    cases hchild : childForWrite segment t with
    | none => simp [hchild] at h
    | some child =>
      rw [hchild] at h
      have hbelow := ih child h
      obtain ⟨k, p, hp⟩ := exists_cons_of_ne_nil
        (append_ne_nil_of_right_ne_nil segments (cons_ne_nil last []))
      rw [plainTable_set, plain_table, hbelow, plain_childForWrite hchild, cons_append, setAt,
        hp, setAt_entries]

theorem plain_insertBelow_failed (segments : List Text) (t : TomlTable)
    (h : (descend .create (insertLast last value) segments t).1 = false) :
    plainTable (descend .create (insertLast last value) segments t).2 = plainTable t := by
  induction segments generalizing t with
  | nil => cases h
  | cons segment segments ih =>
    rw [descend_create] at h ⊢
    cases hchild : childForWrite segment t with
    | none => rfl
    | some child =>
      rw [hchild] at h
      have hbelow := ih child h
      -- the child is not new, so it reads as its item did
      have hread : ∃ item, getEntry segment t = some item ∧ plainTable child = item.plain := by
        have hold : child ≠ newImplicitTable := fun hnew => by
          rw [hnew] at h
          exact absurd (descend_new segments) (Bool.eq_false_iff.mp h)
        unfold childForWrite at hchild
        cases hget : getEntry segment t with
        | none =>
          rw [hget] at hchild
          exact absurd (Option.some.inj hchild).symm hold
        | some item =>
          rw [hget] at hchild
          exact ⟨item, rfl, (plain_or_new hchild).resolve_right hold⟩
      obtain ⟨item, hget, hplain⟩ := hread
      refine plainTable_set_same (v := item.plain) ?_ ?_
      · rw [getEntry_plain, hget, Option.map_some]
      · rw [plain_table, hbelow, hplain]

end

/-! ## Removals -/

section
variable {last : Text}

theorem plain_removeBelow (segments : List Text) (t : TomlTable) :
    plainTable (descend .existing (removeLast last) segments t).2 =
      removeAt (segments ++ [last]) (plainTable t) := by
  induction segments generalizing t with
  | nil =>
    rw [nil_append, plainTable_eq t, removeAt, ← mapEntries_remove, ← plainTable_eq]
    rfl
  | cons segment segments ih =>
    rw [descend_existing, cons_append, plainTable_eq t,
      removeAt_cons (append_ne_nil_of_right_ne_nil segments (cons_ne_nil last [])),
      getEntry_map]
    cases hget : getEntry segment t with
    | none => exact plainTable_eq t
    | some item =>
      cases hchild : ensureTableForRead item with
      | some child =>
        have hbelow := ih child
        rw [plain_ensureTableForRead hchild] at hbelow
        simp only [Option.bind_some, Option.map_some, hchild, plainTable_eq, mapEntries_set]
        rw [plain_table, hbelow]
      | none =>
        have hleaf := isLeaf_of_ensureTableForRead hchild
        have hplain : getEntry segment (mapEntries TomlItem.plain t) = some item.plain := by
          rw [getEntry_map, hget, Option.map_some]
        simp only [Option.bind_some, Option.map_some, hchild, plainTable_eq]
        rw [removeAt_leaf hleaf, set_getEntry hplain]

theorem removeBelow_reports (segments : List Text) (t : TomlTable) :
    (descend .existing (removeLast last) segments t).1 =
      ((plainTable t).readAt (keySteps (segments ++ [last]))).isSome := by
  induction segments generalizing t with
  | nil =>
    simp [descend, removeLast, plainTable_eq, getEntry_map]
  | cons segment segments ih =>
    rw [descend_existing, plainTable_eq, cons_append, keySteps_cons, TomlValue.readAt_cons,
      TomlValue.step_table_key, getEntry_map]
    cases hget : getEntry segment t with
    | none => rfl
    | some item =>
      cases hchild : ensureTableForRead item with
      | some child =>
        have hbelow := ih child
        rw [plain_ensureTableForRead hchild] at hbelow
        simp only [Option.bind_some, Option.map_some, hchild, hbelow]
      | none =>
        have hleaf := isLeaf_of_ensureTableForRead hchild
        have hnone := readAt_leaf hleaf
          (append_ne_nil_of_right_ne_nil segments (cons_ne_nil last []))
        simp only [Option.bind_some, Option.map_some, hchild, hnone, Option.isSome_none]

end

/-! ## Whole edits -/

section
variable {segments : List Text} {value : TomlItem} {doc : TomlTable}

theorem dropLast_append_last {last : Text} (h : segments.getLast? = some last) :
    segments.dropLast ++ [last] = segments :=
  dropLast_append_getLast? last h

theorem plain_insert (h : (insert segments value doc).1 = true) :
    plainTable (insert segments value doc).2 = setAt value.plain segments (plainTable doc) := by
  unfold insert at h ⊢
  split at h
  · cases h
  · next last hlast =>
    have hplain := plain_insertBelow segments.dropLast doc h
    rw [dropLast_append_last hlast] at hplain
    exact hplain

theorem plain_insert_failed (h : (insert segments value doc).1 = false) :
    plainTable (insert segments value doc).2 = plainTable doc := by
  unfold insert at h ⊢
  split at h
  · rfl
  · exact plain_insertBelow_failed _ doc h

theorem plain_remove : plainTable (remove segments doc).2 = removeAt segments (plainTable doc) := by
  unfold remove
  split
  · next hnone =>
    rw [List.getLast?_eq_none_iff.mp hnone]
    rfl
  · next last hlast =>
    have hplain := @plain_removeBelow last segments.dropLast doc
    rw [dropLast_append_last hlast] at hplain
    exact hplain

theorem remove_reports (hne : segments ≠ []) :
    (remove segments doc).1 = ((plainTable doc).readAt (keySteps segments)).isSome := by
  unfold remove
  split
  · next hnone => exact absurd (List.getLast?_eq_none_iff.mp hnone) hne
  · next last hlast =>
    have hreports := @removeBelow_reports last segments.dropLast doc
    rw [dropLast_append_last hlast] at hreports
    exact hreports

theorem remove_nil : remove [] doc = (false, doc) := rfl

theorem plain_remove_failed (h : (remove segments doc).1 = false) :
    plainTable (remove segments doc).2 = plainTable doc := by
  rcases eq_nil_or_concat segments with rfl | ⟨front, last, hsegments⟩
  · rw [remove_nil]
  · have hne : segments ≠ [] := by simp [hsegments]
    rw [remove_reports hne, Option.isSome_eq_false_iff, Option.isNone_iff_eq_none] at h
    rw [plain_remove, removeAt_absent h]

end

def stringItem (s : Text) : TomlItem := .value (.scalar (.string s))

def boolItem (b : Bool) : TomlItem := .value (.scalar (.boolean b))

def floatItem (text : Text) : TomlItem := .value (.scalar (.float text))

inductive AppToolApproval | auto | prompt | approve

def AppToolApproval.text : AppToolApproval → Text
  | .auto => "auto".toList
  | .prompt => "prompt".toList
  | .approve => "approve".toList

structure McpServerToolConfig where
  approvalMode : Option AppToolApproval

inductive McpServerEnvVar
  | name (name : Text)
  | config (name : Text) (source : Option Text)

inductive McpServerTransportConfig
  | stdio (command : Text) (args : List Text) (env : Option (Entries Text))
      (envVars : List McpServerEnvVar) (cwd : Option Text)
  | streamableHttp (url : Text) (bearerTokenEnvVar : Option Text)
      (httpHeaders envHttpHeaders : Option (Entries Text))

structure McpServerConfig where
  transport : McpServerTransportConfig
  experimentalEnvironment : Option Text
  enabled : Bool
  required : Bool
  supportsParallelToolCalls : Bool
  startupTimeoutSec : Option Text
  toolTimeoutSec : Option Text
  defaultToolsApprovalMode : Option AppToolApproval
  enabledTools : Option (List Text)
  disabledTools : Option (List Text)
  scopes : Option (List Text)
  oauthResource : Option Text
  tools : Entries McpServerToolConfig

/-! ## Serialising -/

def fieldsTable (fields : List (String × Option TomlItem)) : TomlTable :=
  fields.foldl (fun entry field =>
    match field.2 with
    | some item => setEntry field.1.toList item entry
    | none => entry) []

def unlessEmpty {α β : Type} (f : List α → β) (items : List α) : Option β :=
  if items.isEmpty then none else some (f items)

def arrayFromIter (items : List Text) : TomlItem :=
  .value (.array (items.map fun item => .scalar (.string item)))

def envVarValue : McpServerEnvVar → TomlValue
  | .name n => .scalar (.string n)
  | .config n source => .table (("name".toList, .scalar (.string n)) ::
      (source.map fun s => ("source".toList, TomlValue.scalar (.string s))).toList)

def arrayFromEnvVars (envVars : List McpServerEnvVar) : TomlItem :=
  .value (.array (envVars.map envVarValue))

def tableFromPairs (pairs : Entries Text) : TomlItem := .table (mapEntries stringItem pairs)

def transportFields : McpServerTransportConfig → List (String × Option TomlItem)
  | .stdio command args env envVars cwd =>
    [("command", some (stringItem command)), ("args", unlessEmpty arrayFromIter args),
      ("env", env.bind (unlessEmpty tableFromPairs)),
      ("env_vars", unlessEmpty arrayFromEnvVars envVars), ("cwd", cwd.map stringItem)]
  | .streamableHttp url bearerTokenEnvVar httpHeaders envHttpHeaders =>
    [("url", some (stringItem url)),
      ("bearer_token_env_var", bearerTokenEnvVar.map stringItem),
      ("http_headers", httpHeaders.bind (unlessEmpty tableFromPairs)),
      ("env_http_headers", envHttpHeaders.bind (unlessEmpty tableFromPairs))]

def serializeMcpServerTool (config : McpServerToolConfig) : TomlItem :=
  .table (fieldsTable [("approval_mode", config.approvalMode.map fun mode =>
    stringItem mode.text)])

def serializeMcpServerTable (config : McpServerConfig) : TomlTable :=
  fieldsTable (transportFields config.transport ++
    [("enabled", if config.enabled then none else some (boolItem false)),
      ("experimental_environment", config.experimentalEnvironment.map stringItem),
      ("required", if config.required then some (boolItem true) else none),
      ("supports_parallel_tool_calls",
        if config.supportsParallelToolCalls then some (boolItem true) else none),
      ("startup_timeout_sec", config.startupTimeoutSec.map floatItem),
      ("tool_timeout_sec", config.toolTimeoutSec.map floatItem),
      ("default_tools_approval_mode", config.defaultToolsApprovalMode.map fun mode =>
        stringItem mode.text),
      ("enabled_tools", config.enabledTools.bind (unlessEmpty arrayFromIter)),
      ("disabled_tools", config.disabledTools.bind (unlessEmpty arrayFromIter)),
      ("scopes", config.scopes.bind (unlessEmpty arrayFromIter)),
      ("oauth_resource", config.oauthResource.bind (unlessEmpty stringItem)),
      ("tools", unlessEmpty (fun tools => .table (mapEntries serializeMcpServerTool tools))
        config.tools)])

def serializeMcpServer (config : McpServerConfig) : TomlItem :=
  .table (serializeMcpServerTable config)

def serializeMcpServerInline (config : McpServerConfig) : List (Text × TomlValue) :=
  plainEntries (serializeMcpServerTable config)

def mergeInlineTable (existing replacement : List (Text × TomlValue)) : List (Text × TomlValue) :=
  replacement.foldl (fun inline e => setEntry e.1 e.2 inline)
    (existing.filter fun e => (getEntry e.1 replacement).isSome)

def writeMcpServer (table : TomlTable) (server : Text × McpServerConfig) : TomlTable :=
  let item := match getEntry server.1 table with
    | some (.value (.table inline)) =>
      .value (.table (mergeInlineTable inline (serializeMcpServerInline server.2)))
    | _ => serializeMcpServer server.2
  setEntry server.1 item table

def mcpServersKey : Text := "mcp_servers".toList

def replaceMcpServers (servers : Entries McpServerConfig) (doc : TomlTable) : Bool × TomlTable :=
  if servers.isEmpty then remove [mcpServersKey] doc
  else
    let table := ((getEntry mcpServersKey doc).bind ensureTableForWrite).getD newImplicitTable
    let kept := table.filter fun e => (getEntry e.1 servers).isSome
    (true, setEntry mcpServersKey (.table (servers.foldl writeMcpServer kept)) doc)

end Codex.Config.Edit
