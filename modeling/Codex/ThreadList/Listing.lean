import Codex.Foundation.Decimal
import Codex.Foundation.TagScan
import Mathlib.Data.List.Sort
import Mathlib.Data.Prod.Lex

/-!
# Rollout files and pages of threads

Their names carry a time and an id, and the first lines of a file say what a listing shows of
it. In the nested layout they stand in directories by year, month and day, which are walked
from the newest one.

A page is filled from the newest file on, with the files that pass the filters. Its cursor is
the time of the last item alone: the next page begins with the first file that is older.
-/

namespace Codex.ThreadList

open Foundation

/-! ## Rollout files -/

abbrev OffsetDateTime := ℤ

abbrev Uuid := Fin (2 ^ 128)

abbrev ThreadId := Uuid

abbrev PathBuf := List Text

inductive SubAgentSource where
  | review
  | compact
  | threadSpawn (parentThreadId : ThreadId) (depth : ℤ) (agentPath : Option Text)
      (agentNickname agentRole : Option Text)
  | memoryConsolidation
  | other (name : Text)
deriving DecidableEq

inductive InternalSessionSource where
  | memoryConsolidation
deriving DecidableEq

inductive SessionSource where
  | cli
  | vscode
  | exec
  | mcp
  | custom (name : Text)
  | internal (source : InternalSessionSource)
  | subAgent (source : SubAgentSource)
  | unknown
deriving DecidableEq

structure GitInfo where
  commitHash : Option Text
  branch : Option Text
  repositoryUrl : Option Text

structure SessionMetaLine where
  id : ThreadId
  timestamp : Text
  cwd : Text
  cliVersion : Text
  source : SessionSource
  agentNickname : Option Text
  agentRole : Option Text
  modelProvider : Option Text
  git : Option GitInfo

inductive RolloutItem where
  | sessionMeta (line : SessionMetaLine)
  | responseItem
  | turnContext
  | compacted
  | userMessage (message : Text)
  | otherEvent

structure RolloutLine where
  timestamp : Text
  item : RolloutItem

/-- What is called of other libraries, and the comparison of paths, which asks the disk. -/
structure Env where
  parseUuid : Text → Option Uuid
  /-- With the format of the file names, in UTC. -/
  parseDateTime : Text → Option OffsetDateTime
  formatRfc3339 : OffsetDateTime → Option Text
  parseRfc3339 : Text → Option OffsetDateTime
  parseLine : Text → Option RolloutLine
  pathsMatchAfterNormalization : Text → Text → Bool

/-- No lines where the file cannot be opened, and no line where reading fails. -/
structure FileData where
  modified : Option OffsetDateTime
  lines : Option (List (Option Text))

structure RolloutFile where
  ts : OffsetDateTime
  id : Uuid
  path : PathBuf
  data : FileData

/-! ## The head of a file -/

structure HeadTailSummary where
  sawSessionMeta : Bool
  sawUserEvent : Bool
  threadId : Option ThreadId
  firstUserMessage : Option Text
  cwd : Option Text
  gitBranch : Option Text
  gitSha : Option Text
  gitOriginUrl : Option Text
  source : Option SessionSource
  agentNickname : Option Text
  agentRole : Option Text
  modelProvider : Option Text
  cliVersion : Option Text
  createdAt : Option Text
  updatedAt : Option Text

def HeadTailSummary.empty : HeadTailSummary :=
  ⟨false, false, none, none, none, none, none, none, none, none, none, none, none, none, none⟩

def maxScanFiles : ℕ := 10000

def headRecordLimit : ℕ := 10

def userEventScanLimit : ℕ := 200

def userMessageBegin : Text := "## My request for Codex:".toList

def stripUserMessagePrefix (text : Text) : Text :=
  match findFirst userMessageBegin text with
  | some idx => trim (text.drop (idx + userMessageBegin.length))
  | none => trim text

def HeadTailSummary.record (summary : HeadTailSummary) (line : RolloutLine) : HeadTailSummary :=
  match line.item with
  | .sessionMeta metaLine =>
    if summary.sawSessionMeta then summary
    else
      { summary with
        source := some metaLine.source
        agentNickname := metaLine.agentNickname
        agentRole := metaLine.agentRole
        modelProvider := metaLine.modelProvider
        threadId := some metaLine.id
        cwd := some metaLine.cwd
        gitBranch := metaLine.git.bind GitInfo.branch
        gitSha := metaLine.git.bind GitInfo.commitHash
        gitOriginUrl := metaLine.git.bind GitInfo.repositoryUrl
        cliVersion := some metaLine.cliVersion
        createdAt := some metaLine.timestamp
        sawSessionMeta := true }
  | .responseItem => { summary with createdAt := summary.createdAt.or (some line.timestamp) }
  | .turnContext => summary
  | .compacted => summary
  | .userMessage message =>
    let summary := { summary with sawUserEvent := true }
    if summary.firstUserMessage.isNone then
      let message := stripUserMessagePrefix message
      if message.isEmpty then summary else { summary with firstUserMessage := some message }
    else summary
  | .otherEvent => summary

section
variable (env : Env)

def readHeadLines (headLimit : ℕ) :
    List (Option Text) → ℕ → HeadTailSummary → Option HeadTailSummary
  | [], _, summary => some summary
  | line :: lines, linesScanned, summary =>
    if linesScanned < headLimit ∨ summary.sawSessionMeta = true ∧ summary.sawUserEvent = false ∧
        linesScanned < headLimit + userEventScanLimit then
      match line with
      | none => none
      | some line =>
        let trimmed := trim line
        if trimmed.isEmpty then readHeadLines headLimit lines linesScanned summary
        else
          match env.parseLine trimmed with
          | none => readHeadLines headLimit lines (linesScanned + 1) summary
          | some rolloutLine =>
            let summary := summary.record rolloutLine
            if summary.sawSessionMeta && summary.sawUserEvent then some summary
            else readHeadLines headLimit lines (linesScanned + 1) summary
    else some summary

def readHeadSummary (file : FileData) (headLimit : ℕ) : Option HeadTailSummary :=
  file.lines.bind fun lines => readHeadLines env headLimit lines 0 .empty

def splitUuid : Text → Option (Text × Uuid)
  | [] => none
  | c :: core =>
    match splitUuid core with
    | some (ts, id) => some (c :: ts, id)
    | none => if c = '-' then (env.parseUuid core).map fun id => ([], id) else none

def stripSuffix (suffix s : Text) : Option Text :=
  (stripPrefix suffix.reverse s.reverse).map List.reverse

def parseTimestampUuidFromFilename (name : Text) : Option (OffsetDateTime × Uuid) := do
  let core ← stripSuffix ".jsonl".toList (← stripPrefix "rollout-".toList name)
  let (tsStr, uuid) ← splitUuid env core
  let ts ← env.parseDateTime tsStr
  return (ts, uuid)

def isRolloutName (name : Text) : Bool :=
  "rollout-".toList.isPrefixOf name && ".jsonl".toList.isSuffixOf name

end

/-! ## Directories -/

inductive Entry (δ : Type) where
  | dir (entries : δ)
  | file (data : FileData)
  | other

/-- The names are texts. Those that are not are passed over by every reader. -/
structure Dir (δ : Type) where
  entries : List (Text × Entry δ)
  distinct : (entries.map Prod.fst).Nodup

abbrev DayDir := Dir Unit

abbrev MonthDir := Dir DayDir

abbrev YearDir := Dir MonthDir

abbrev RootDir := Dir YearDir

/-- Sorted in decreasing order, with items of one key in the order they had. -/
def sortByKeyDesc {α κ : Type} [LinearOrder κ] (key : α → κ) (l : List α) : List α :=
  l.insertionSort fun a b => key b ≤ key a

def parseUnsigned (size : ℕ) (s : Text) : Option ℕ := (parseUsize s).filter (· < size)

def directory? {δ : Type} (parse : Text → Option ℕ) : Text × Entry δ → Option (ℕ × Text × δ)
  | (name, .dir entries) => (parse name).map fun v => (v, name, entries)
  | _ => none

def collectDirsDesc {δ : Type} (parent : Dir δ) (parse : Text → Option ℕ) : List (ℕ × Text × δ) :=
  sortByKeyDesc (fun d => d.1) (parent.entries.filterMap (directory? parse))

section
variable (env : Env)

def rolloutFile? {δ : Type} (parent : PathBuf) : Text × Entry δ → Option RolloutFile
  | (name, .file data) =>
    if isRolloutName name then
      (parseTimestampUuidFromFilename env name).map fun (ts, id) => ⟨ts, id, parent ++ [name], data⟩
    else none
  | _ => none

/-- Timestamp, then id. -/
def RolloutFile.created (file : RolloutFile) : OffsetDateTime ×ₗ Uuid := toLex (file.ts, file.id)

def collectRolloutDayFiles (dayPath : PathBuf) (day : DayDir) : List RolloutFile :=
  sortByKeyDesc RolloutFile.created (day.entries.filterMap (rolloutFile? env dayPath))

structure Walk (σ : Type) where
  scannedFiles : ℕ
  visitor : σ
  stopped : Bool

variable {σ : Type} (visit : σ → RolloutFile → ℕ → σ × Bool)

def visitFiles : List RolloutFile → Walk σ → Walk σ
  | [], w => w
  | file :: files, w =>
    let scannedFiles := w.scannedFiles + 1
    if maxScanFiles < scannedFiles then ⟨scannedFiles, w.visitor, true⟩
    else
      let (visitor, stopped) := visit w.visitor file scannedFiles
      if stopped then ⟨scannedFiles, visitor, true⟩
      else visitFiles files ⟨scannedFiles, visitor, false⟩

def walkDirs {δ : Type} (inside : ℕ × Text × δ → Walk σ → Walk σ) :
    List (ℕ × Text × δ) → Walk σ → Walk σ
  | [], w => w
  | d :: ds, w =>
    if maxScanFiles ≤ w.scannedFiles then { w with stopped := true }
    else
      let w := inside d w
      if w.stopped then w else walkDirs inside ds w

def walkRolloutFiles (root : RootDir) (visitor : σ) : Walk σ :=
  walkDirs (fun year => walkDirs (fun month => walkDirs (fun day =>
      visitFiles visit (collectRolloutDayFiles env [year.2.1, month.2.1, day.2.1] day.2.2))
    (collectDirsDesc month.2.2 (parseUnsigned UInt8.size)))
    (collectDirsDesc year.2.2 (parseUnsigned UInt8.size)))
    (collectDirsDesc root (parseUnsigned UInt16.size)) ⟨0, visitor, false⟩

end

inductive ThreadSortKey where
  | createdAt
  | updatedAt
deriving DecidableEq

inductive ThreadListLayout where
  | nestedByDate
  | flat
deriving DecidableEq

structure ThreadListConfig where
  allowedSources : List SessionSource
  modelProviders : Option (List Text)
  cwdFilters : Option (List Text)
  defaultProvider : Text
  layout : ThreadListLayout

structure ThreadItem where
  path : PathBuf
  threadId : Option ThreadId
  firstUserMessage : Option Text
  cwd : Option Text
  gitBranch : Option Text
  gitSha : Option Text
  gitOriginUrl : Option Text
  source : Option SessionSource
  agentNickname : Option Text
  agentRole : Option Text
  modelProvider : Option Text
  cliVersion : Option Text
  createdAt : Option Text
  updatedAt : Option Text
deriving DecidableEq

structure Cursor where
  ts : OffsetDateTime
deriving DecidableEq

structure ThreadsPage where
  items : List ThreadItem
  nextCursor : Option Cursor
  numScannedFiles : ℕ
  reachedScanCap : Bool

/-! ## Filters -/

structure ProviderMatcher where
  filters : List Text
  matchesDefaultProvider : Bool

def ProviderMatcher.new (filters : List Text) (defaultProvider : Text) : Option ProviderMatcher :=
  if filters.isEmpty then none else some ⟨filters, filters.any (· = defaultProvider)⟩

def ProviderMatcher.matches (matcher : ProviderMatcher) : Option Text → Bool
  | some provider => matcher.filters.any (· = provider)
  | none => matcher.matchesDefaultProvider

variable (env : Env)

def buildThreadItem (path : PathBuf) (data : FileData) (allowedSources : List SessionSource)
    (providerMatcher : Option ProviderMatcher) (cwdFilters : Option (List Text))
    (updatedAt : Option Text) : Option ThreadItem :=
  let summary := (readHeadSummary env data headRecordLimit).getD .empty
  if !allowedSources.isEmpty && !summary.source.any (allowedSources.contains ·) then none
  else if providerMatcher.any fun matcher => !matcher.matches summary.modelProvider then none
  else if cwdFilters.any fun cwdFilters => !summary.cwd.any fun cwd =>
      cwdFilters.any (env.pathsMatchAfterNormalization cwd) then none
  else if summary.sawSessionMeta && summary.sawUserEvent then
    some
      { path
        threadId := summary.threadId
        firstUserMessage := summary.firstUserMessage
        cwd := summary.cwd
        gitBranch := summary.gitBranch
        gitSha := summary.gitSha
        gitOriginUrl := summary.gitOriginUrl
        source := summary.source
        agentNickname := summary.agentNickname
        agentRole := summary.agentRole
        modelProvider := summary.modelProvider
        cliVersion := summary.cliVersion
        createdAt := summary.createdAt
        updatedAt := summary.updatedAt.or (updatedAt.or summary.createdAt) }
  else none

def truncateToMillis (dt : OffsetDateTime) : OffsetDateTime := dt - dt % 1000000

def fileModifiedTime (data : FileData) : Option OffsetDateTime := data.modified.map truncateToMillis

structure AnchorState where
  ts : OffsetDateTime
  passed : Bool

def AnchorState.new : Option Cursor → AnchorState
  | some cursor => ⟨cursor.ts, false⟩
  | none => ⟨0, true⟩

def AnchorState.shouldSkip (anchor : AnchorState) (ts : OffsetDateTime) : Bool × AnchorState :=
  if anchor.passed then (false, anchor)
  else if ts < anchor.ts then (false, { anchor with passed := true })
  else (true, anchor)

def buildNextCursor (items : List ThreadItem) (sortKey : ThreadSortKey) : Option Cursor := do
  let last ← items.getLast?
  let fileName ← last.path.getLast?
  let (createdTs, _) ← parseTimestampUuidFromFilename env fileName
  let ts ← match sortKey with
    | .createdAt => some createdTs
    | .updatedAt => last.updatedAt.bind env.parseRfc3339
  return ⟨ts⟩

/-! ## In the order of creation -/

structure Filters where
  allowedSources : List SessionSource
  providerMatcher : Option ProviderMatcher
  cwdFilters : Option (List Text)

def buildItem (filters : Filters) (path : PathBuf) (data : FileData) : Option ThreadItem :=
  buildThreadItem env path data filters.allowedSources filters.providerMatcher filters.cwdFilters
    ((fileModifiedTime data).bind env.formatRfc3339)

structure FilesByCreatedAtVisitor where
  items : List ThreadItem
  anchorState : AnchorState
  moreMatchesAvailable : Bool

def FilesByCreatedAtVisitor.visit (pageSize : ℕ) (filters : Filters) (v : FilesByCreatedAtVisitor)
    (file : RolloutFile) (scanned : ℕ) : FilesByCreatedAtVisitor × Bool :=
  if maxScanFiles ≤ scanned ∧ pageSize ≤ v.items.length then
    ({ v with moreMatchesAvailable := true }, true)
  else
    let (skipped, anchorState) := v.anchorState.shouldSkip file.ts
    if skipped then ({ v with anchorState }, false)
    else if v.items.length = pageSize then
      ({ v with anchorState, moreMatchesAvailable := true }, true)
    else
      ({ v with
        anchorState
        items := v.items ++ (buildItem env filters file.path file.data).toList }, false)

def threadsPage (items : List ThreadItem) (moreMatchesAvailable : Bool) (scannedFiles : ℕ)
    (sortKey : ThreadSortKey) : ThreadsPage :=
  let reachedScanCap : Bool := maxScanFiles ≤ scannedFiles
  let moreMatchesAvailable := moreMatchesAvailable || reachedScanCap && !items.isEmpty
  { items
    nextCursor := if moreMatchesAvailable then buildNextCursor env items sortKey else none
    numScannedFiles := scannedFiles
    reachedScanCap }

def traverseDirectoriesForPathsCreated (root : RootDir) (pageSize : ℕ) (anchor : Option Cursor)
    (filters : Filters) : ThreadsPage :=
  let walk := walkRolloutFiles env (FilesByCreatedAtVisitor.visit env pageSize filters) root
    ⟨[], .new anchor, false⟩
  threadsPage env walk.visitor.items walk.visitor.moreMatchesAvailable walk.scannedFiles .createdAt

/-- The loop over the files that are left: the items, and if there may be more. -/
def fillPage (pageSize : ℕ) (filters : Filters) (ts : RolloutFile → OffsetDateTime) :
    List RolloutFile → AnchorState → List ThreadItem → List ThreadItem × Bool
  | [], _, items => (items, false)
  | file :: files, anchorState, items =>
    let (skipped, anchorState) := anchorState.shouldSkip (ts file)
    if skipped then fillPage pageSize filters ts files anchorState items
    else if items.length = pageSize then (items, true)
    else
      fillPage pageSize filters ts files anchorState
        (items ++ (buildItem env filters file.path file.data).toList)

def scanFlat : List (Text × Entry YearDir) → ℕ → List RolloutFile → List RolloutFile × ℕ
  | [], scannedFiles, collected => (collected, scannedFiles)
  | entry :: entries, scannedFiles, collected =>
    if maxScanFiles ≤ scannedFiles then (collected, scannedFiles)
    else
      match rolloutFile? env [] entry with
      | none => scanFlat entries scannedFiles collected
      | some file =>
        if maxScanFiles < scannedFiles + 1 then (collected, scannedFiles + 1)
        else scanFlat entries (scannedFiles + 1) (collected ++ [file])

def collectFlatRolloutFiles (root : RootDir) : List RolloutFile × ℕ :=
  let (collected, scannedFiles) := scanFlat env root.entries 0 []
  (sortByKeyDesc RolloutFile.created collected, scannedFiles)

def traverseFlatPathsCreated (root : RootDir) (pageSize : ℕ) (anchor : Option Cursor)
    (filters : Filters) : ThreadsPage :=
  let (files, scannedFiles) := collectFlatRolloutFiles env root
  let (items, more) := fillPage env pageSize filters RolloutFile.ts files (.new anchor) []
  threadsPage env items more scannedFiles .createdAt

def updatedTs (file : RolloutFile) : OffsetDateTime := (fileModifiedTime file.data).getD 0

def RolloutFile.updated (file : RolloutFile) : OffsetDateTime ×ₗ Uuid :=
  toLex (updatedTs file, file.id)

def collectFilesByUpdatedAt (root : RootDir) : List RolloutFile × ℕ :=
  let walk := walkRolloutFiles env (fun candidates file _ => (candidates ++ [file], false)) root []
  (walk.visitor, walk.scannedFiles)

def collectFlatFilesByUpdatedAt (root : RootDir) : List RolloutFile × ℕ :=
  scanFlat env root.entries 0 []

def pageByUpdatedAt (candidates : List RolloutFile × ℕ) (pageSize : ℕ) (anchor : Option Cursor)
    (filters : Filters) : ThreadsPage :=
  let (items, more) := fillPage env pageSize filters updatedTs
    (sortByKeyDesc RolloutFile.updated candidates.1) (.new anchor) []
  threadsPage env items more candidates.2 .updatedAt

def traverseDirectoriesForPathsUpdated (root : RootDir) (pageSize : ℕ) (anchor : Option Cursor)
    (filters : Filters) : ThreadsPage :=
  pageByUpdatedAt env (collectFilesByUpdatedAt env root) pageSize anchor filters

def traverseFlatPathsUpdated (root : RootDir) (pageSize : ℕ) (anchor : Option Cursor)
    (filters : Filters) : ThreadsPage :=
  pageByUpdatedAt env (collectFlatFilesByUpdatedAt env root) pageSize anchor filters

def traverseDirectoriesForPaths (root : RootDir) (pageSize : ℕ) (anchor : Option Cursor)
    (sortKey : ThreadSortKey) (filters : Filters) : ThreadsPage :=
  match sortKey with
  | .createdAt => traverseDirectoriesForPathsCreated env root pageSize anchor filters
  | .updatedAt => traverseDirectoriesForPathsUpdated env root pageSize anchor filters

def traverseFlatPaths (root : RootDir) (pageSize : ℕ) (anchor : Option Cursor)
    (sortKey : ThreadSortKey) (filters : Filters) : ThreadsPage :=
  match sortKey with
  | .createdAt => traverseFlatPathsCreated env root pageSize anchor filters
  | .updatedAt => traverseFlatPathsUpdated env root pageSize anchor filters

def ThreadListConfig.filters (config : ThreadListConfig) : Filters where
  allowedSources := config.allowedSources
  providerMatcher :=
    config.modelProviders.bind fun filters => ProviderMatcher.new filters config.defaultProvider
  cwdFilters := config.cwdFilters

def getThreadsInRoot (root : Option RootDir) (pageSize : ℕ) (sortKey : ThreadSortKey)
    (config : ThreadListConfig) (cursor : Option Cursor) : ThreadsPage :=
  match root with
  | none => ⟨[], none, 0, false⟩
  | some root =>
    match config.layout with
    | .nestedByDate =>
      traverseDirectoriesForPaths env root pageSize cursor sortKey config.filters
    | .flat => traverseFlatPaths env root pageSize cursor sortKey config.filters

end Codex.ThreadList
