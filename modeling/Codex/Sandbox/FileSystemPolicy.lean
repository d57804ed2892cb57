import Codex.Foundation.MostSpecific
import Codex.Path

/-!
# The file system sandbox policy

A policy is a list of entries, each giving an access mode to a path, a special path
or a glob. Access to a path is what its most specific entry gives; writing is denied
besides below the metadata directories of a writable entry, unless an entry there
allows it.
-/

namespace Codex

open Foundation

/-! ## The host -/

/-- What the policy code reads from the process and the file system. -/
structure Host where
  paths : ProcessPaths
  tmpdirVar : Option Text
  isDir : AbsolutePathBuf → Bool
  isFile : AbsolutePathBuf → Bool
  pathExists : AbsolutePathBuf → Bool
  readToString : AbsolutePathBuf → Option Text
  symlinkMetadata : AbsolutePathBuf → Option Bool
  canonicalize : AbsolutePathBuf → Option AbsolutePathBuf

def Host.NoSymlinks (host : Host) : Prop := ∀ p q, host.canonicalize p = some q → q = p

namespace AbsolutePathBuf

def startsWith (p base : AbsolutePathBuf) : Bool := base.comps <+: p.comps

def componentBelow (p base : AbsolutePathBuf) : Option Text :=
  if p.startsWith base then (p.comps.drop base.comps.length).head? else none

def suffixText (p base : AbsolutePathBuf) : Text :=
  List.intercalate ['/'] (p.comps.drop base.comps.length)

def rebase (p base onto : AbsolutePathBuf) : AbsolutePathBuf :=
  ⟨onto.comps ++ p.comps.drop base.comps.length, fun c hc =>
    (List.mem_append.mp hc).elim (onto.wf c) fun h => p.wf c (List.mem_of_mem_drop h)⟩

end AbsolutePathBuf

section
variable (host : Host)

def shouldPreserveLogicalPath (logical : AbsolutePathBuf) : Bool :=
  logical.ancestors.any fun ancestor =>
    host.symlinkMetadata ancestor = some true && (ancestor.parent.bind (·.parent)).isSome

def canonicalizePreservingSymlinks (logical : AbsolutePathBuf) : AbsolutePathBuf :=
  match host.canonicalize logical with
  | some canonical =>
    if shouldPreserveLogicalPath host logical && canonical ≠ logical then logical else canonical
  | none => logical

/-- The nearest ancestor that is there is canonicalized, and the rest kept behind it. -/
def normalizeEffectiveAbsolutePath (path : AbsolutePathBuf) : AbsolutePathBuf :=
  match path.ancestors.reverse.find? fun ancestor => (host.symlinkMetadata ancestor).isSome with
  | some ancestor => path.rebase ancestor (canonicalizePreservingSymlinks host ancestor)
  | none => path

end

/-! ## Policies -/

/-- In conflict precedence: `none` beats `write`, and `write` beats `read`. -/
inductive FileSystemAccessMode where
  | read
  | write
  | none
deriving DecidableEq

namespace FileSystemAccessMode

def rank : FileSystemAccessMode → Nat
  | .read => 0
  | .write => 1
  | .none => 2

theorem rank_injective : Function.Injective rank := by
  intro a b h
  cases a <;> cases b <;> first | rfl | exact absurd h (by decide)

instance instLinearOrder : LinearOrder FileSystemAccessMode := LinearOrder.lift' rank rank_injective

def canRead (mode : FileSystemAccessMode) : Bool := mode ≠ .none

def canWrite (mode : FileSystemAccessMode) : Bool := mode = .write

end FileSystemAccessMode

/-- A path as it is compared, by its components: a root or a `.` in front, then names
and `..`. -/
structure Subpath where
  front : Text
  comps : List Text
  wf : ∀ c ∈ comps, c ≠ [] ∧ c ≠ ['.'] ∧ '/' ∉ c
deriving DecidableEq

namespace Subpath

def ofText (path : Text) : Subpath :=
  ⟨if isAbsolute path then ['/']
    else if (path.splitOn '/').head? = some ['.'] then ['.', '/']
    else [], components path, by
    intro c hc
    obtain ⟨hm, hne⟩ := List.mem_filter.mp hc
    have hne' : c ≠ [] ∧ c ≠ ['.'] := by simpa using hne
    exact ⟨hne'.1, hne'.2, not_mem_of_mem_splitOn hm⟩⟩

def text (path : Subpath) : Text := path.front ++ List.intercalate ['/'] path.comps

end Subpath

inductive FileSystemSpecialPath where
  | root
  | minimal
  | projectRoots (subpath : Option Subpath)
  | tmpdir
  | slashTmp
  | unknown (path : Text) (subpath : Option Subpath)
deriving DecidableEq

inductive FileSystemPath where
  | path (path : AbsolutePathBuf)
  | globPattern (pattern : Text)
  | special (value : FileSystemSpecialPath)
deriving DecidableEq

structure FileSystemSandboxEntry where
  path : FileSystemPath
  access : FileSystemAccessMode
deriving DecidableEq

inductive FileSystemSandboxKind where
  | restricted
  | unrestricted
  | externalSandbox
deriving DecidableEq

structure FileSystemSandboxPolicy where
  kind : FileSystemSandboxKind
  globScanMaxDepth : Option Nat
  entries : List FileSystemSandboxEntry
deriving DecidableEq

def FileSystemSandboxPolicy.ofRestricted (entries : List FileSystemSandboxEntry) :
    FileSystemSandboxPolicy := ⟨.restricted, none, entries⟩

structure ResolvedFileSystemEntry where
  path : AbsolutePathBuf
  access : FileSystemAccessMode
deriving DecidableEq

/-! ## Targets of entries -/

def slashTmpPath : AbsolutePathBuf := ⟨[['t', 'm', 'p']], by decide⟩

def specialPathsShareTarget (left right : FileSystemSpecialPath) : Bool := left = right

def specialPathMatchesAbsolutePath (value : FileSystemSpecialPath) (path : AbsolutePathBuf) :
    Bool :=
  match value with
  | .root => path.parent.isNone
  | .slashTmp => path = slashTmpPath
  | _ => false

def fileSystemPathsShareTarget : FileSystemPath → FileSystemPath → Bool
  | .path left, .path right => left = right
  | .special left, .special right => specialPathsShareTarget left right
  | .path path, .special value => specialPathMatchesAbsolutePath value path
  | .special value, .path path => specialPathMatchesAbsolutePath value path
  | .globPattern left, .globPattern right => left = right
  | _, _ => false

section
variable (host : Host)

def resolveFileSystemSpecialPath (value : FileSystemSpecialPath) (cwd : Option AbsolutePathBuf) :
    Option AbsolutePathBuf :=
  match value with
  | .root => none
  | .minimal => none
  | .unknown _ _ => none
  | .projectRoots subpath => cwd.map fun cwd =>
    match subpath with
    | some subpath => resolvePathAgainstBase host.paths.homeDir subpath.text cwd
    | none => cwd
  | .tmpdir => host.tmpdirVar.bind fun tmpdir =>
    if tmpdir = [] then none else host.paths.absolutePath tmpdir
  | .slashTmp => if host.isDir slashTmpPath then some slashTmpPath else none

def resolveFileSystemPath (path : FileSystemPath) (cwd : Option AbsolutePathBuf) :
    Option AbsolutePathBuf :=
  match path with
  | .path path => some path
  | .globPattern _ => none
  | .special value => resolveFileSystemSpecialPath host value cwd

def resolveEntryPath (path : FileSystemPath) (cwd : Option AbsolutePathBuf) :
    Option AbsolutePathBuf :=
  match path with
  | .special .root => cwd.map fun _ => .root
  | path => resolveFileSystemPath host path cwd

def resolveCandidatePath (path cwd : Text) : Option AbsolutePathBuf :=
  if isAbsolute path then host.paths.absolutePath path
  else (host.paths.absolutePath cwd).map fun cwd => cwd.join host.paths.homeDir path

end

def dotGit : Text := ['.', 'g', 'i', 't']

def dotAgents : Text := ['.', 'a', 'g', 'e', 'n', 't', 's']

def dotCodex : Text := ['.', 'c', 'o', 'd', 'e', 'x']

def protectedMetadataPathNames : List Text := [dotGit, dotAgents, dotCodex]

def metadataPathName (name : Text) : Option Text :=
  protectedMetadataPathNames.find? fun metadataName => name = metadataName

namespace FileSystemSandboxPolicy

variable (policy : FileSystemSandboxPolicy)

def hasRootAccess (predicate : FileSystemAccessMode → Bool) : Bool :=
  policy.kind = .restricted &&
    policy.entries.any fun entry => entry.path = .special .root && predicate entry.access

def hasDeniedReadRestrictions : Bool :=
  policy.kind = .restricted && policy.entries.any fun entry => entry.access = .none

def hasSameTargetWriteOverride (entry : FileSystemSandboxEntry) : Bool :=
  policy.entries.any fun candidate =>
    candidate.access.canWrite && entry.access < candidate.access &&
      fileSystemPathsShareTarget candidate.path entry.path

def narrowsWrite (entry : FileSystemSandboxEntry) : Bool :=
  if entry.access.canWrite then false
  else
    match entry.path with
    | .path _ => !policy.hasSameTargetWriteOverride entry
    | .globPattern _ => true
    | .special .root => entry.access = .none
    | .special .minimal => false
    | .special (.unknown _ _) => false
    | .special _ => !policy.hasSameTargetWriteOverride entry

def hasWriteNarrowingEntries : Bool :=
  policy.kind = .restricted && policy.entries.any policy.narrowsWrite

def hasFullDiskReadAccess : Bool :=
  match policy.kind with
  | .restricted => policy.hasRootAccess (·.canRead) && !policy.hasDeniedReadRestrictions
  | _ => true

def hasFullDiskWriteAccess : Bool :=
  match policy.kind with
  | .restricted => policy.hasRootAccess (·.canWrite) && !policy.hasWriteNarrowingEntries
  | _ => true

def includePlatformDefaults : Bool :=
  !policy.hasFullDiskReadAccess && policy.kind = .restricted &&
    policy.entries.any fun entry => entry.path = .special .minimal && entry.access.canRead

/-! ## Access to a path -/

variable (host : Host)

def resolvedEntriesWithCwd (cwd : Text) : List ResolvedFileSystemEntry :=
  let cwdAbsolute := host.paths.absolutePath cwd
  policy.entries.filterMap fun entry =>
    (resolveEntryPath host entry.path cwdAbsolute).map fun path => ⟨path, entry.access⟩

def resolvedEntryPrecedence (entry : ResolvedFileSystemEntry) : ℕ ×ₗ FileSystemAccessMode :=
  toLex (entry.path.comps.length, entry.access)

def resolveAccessWithCwd (path cwd : Text) : FileSystemAccessMode :=
  match policy.kind with
  | .restricted =>
    match resolveCandidatePath host path cwd with
    | none => .none
    | some path =>
      ((maxByKey resolvedEntryPrecedence
        ((policy.resolvedEntriesWithCwd host cwd).filter (path.startsWith ·.path))).map
          (·.access)).getD .none
  | _ => .write

def canReadPathWithCwd (path cwd : Text) : Bool :=
  (policy.resolveAccessWithCwd host path cwd).canRead

/-- The first write entry, in order, that has the target below one of its metadata
directories. -/
def metadataChildOfWritableRoot (target : AbsolutePathBuf) (cwd : Text) :
    Option (AbsolutePathBuf × Text) :=
  (((policy.resolvedEntriesWithCwd host cwd).filter (·.access.canWrite)).filterMap fun entry =>
    ((target.componentBelow entry.path).bind metadataPathName).map fun metadataName =>
      (entry.path.join host.paths.homeDir metadataName, metadataName)).head?

def hasExplicitWriteEntryForMetadataPath (protectedMetadataPath target : AbsolutePathBuf)
    (cwd : Text) : Bool :=
  (policy.resolvedEntriesWithCwd host cwd).any fun entry =>
    entry.access.canWrite && target.startsWith entry.path &&
      entry.path.startsWith protectedMetadataPath

def isMetadataWriteDenied (path cwd : Text) : Bool :=
  if policy.kind ≠ .restricted then false
  else
    match resolveCandidatePath host path cwd with
    | none => true
    | some target =>
      match policy.metadataChildOfWritableRoot host target cwd with
      | none => false
      | some (protectedMetadataPath, _) =>
        !policy.hasExplicitWriteEntryForMetadataPath host protectedMetadataPath target cwd

def canWritePathWithCwd (path cwd : Text) : Bool :=
  if !(policy.resolveAccessWithCwd host path cwd).canWrite then false
  else if policy.hasFullDiskWriteAccess then true
  else !policy.isMetadataWriteDenied host path cwd

end FileSystemSandboxPolicy

end Codex
