import Mathlib.Data.List.Destutter
import Mathlib.Data.List.Sort
import Codex.Sandbox.FileSystemPolicy

/-!
# Roots of a policy

The platform sandboxes do not ask the policy about a path. They are given lists of
roots: readable ones, unreadable ones, and writable ones with the subpaths that stay
read only and the metadata names that stay protected. Two policies count as
equivalent when their sorted lists are equal.
-/

namespace Codex

open Foundation

def textLe : Text → Text → Bool
  | [], _ => true
  | _ :: _, [] => false
  | c :: s, d :: t => if c = d then textLe s t else c.toNat < d.toNat

def compsLe : List Text → List Text → Bool
  | [], _ => true
  | _ :: _, [] => false
  | c :: cs, d :: ds => if c = d then compsLe cs ds else textLe c d

def sortedTexts (texts : List Text) : List Text := texts.insertionSort fun s t => textLe s t

structure WritableRoot where
  root : AbsolutePathBuf
  readOnlySubpaths : List AbsolutePathBuf
  protectedMetadataNames : List Text
deriving DecidableEq

def textStartsWith (path : Text) (base : AbsolutePathBuf) : Bool :=
  isAbsolute path && base.comps <+: components path

namespace WritableRoot

def pathContainsProtectedMetadataName (writableRoot : WritableRoot) (path : Text) : Bool :=
  if textStartsWith path writableRoot.root then
    match ((components path).drop writableRoot.root.comps.length).head? with
    | none => false
    | some first => writableRoot.protectedMetadataNames.any fun name => first = name
  else false

def isPathWritable (writableRoot : WritableRoot) (path : Text) : Bool :=
  if !textStartsWith path writableRoot.root then false
  else if writableRoot.readOnlySubpaths.any (textStartsWith path) then false
  else !writableRoot.pathContainsProtectedMetadataName path

end WritableRoot

section
variable (host : Host)

def resolveGlob (pattern cwd : Text) : Text :=
  (resolvePathAgainstBase host.paths.homeDir pattern
    (resolvePathAgainstBase none cwd .root)).display

def dedupAbsolutePaths (paths : List AbsolutePathBuf) (normalizeEffectivePaths : Bool) :
    List AbsolutePathBuf :=
  (if normalizeEffectivePaths then paths.map (normalizeEffectiveAbsolutePath host)
    else paths).eraseDups

/-! ## Default read-only subpaths -/

def isGitPointerFile (path : AbsolutePathBuf) : Bool :=
  host.isFile path && path.comps.getLast? = some dotGit

def resolveGitdirFromFile (dotGitFile : AbsolutePathBuf) : Option AbsolutePathBuf :=
  match host.readToString dotGitFile with
  | none => none
  | some contents =>
    match splitOnce ':' (trim contents) with
    | none => none
    | some (label, gitdirRaw) =>
      if trim label ≠ ['g', 'i', 't', 'd', 'i', 'r'] then none
      else if trim gitdirRaw = [] then none
      else
        match dotGitFile.parent with
        | none => none
        | some base =>
          let gitdirPath := resolvePathAgainstBase host.paths.homeDir (trim gitdirRaw) base
          if host.pathExists gitdirPath then some gitdirPath else none

def defaultReadOnlySubpathsForWritableRoot (writableRoot : AbsolutePathBuf)
    (protectMissingDotCodex : Bool) : List AbsolutePathBuf :=
  let topLevelGit := writableRoot.join host.paths.homeDir dotGit
  let gitSubpaths :=
    if host.isDir topLevelGit || host.isFile topLevelGit then
      (if host.isFile topLevelGit && isGitPointerFile host topLevelGit then
        (resolveGitdirFromFile host topLevelGit).toList else []) ++ [topLevelGit]
    else []
  let topLevelAgents := writableRoot.join host.paths.homeDir dotAgents
  let agentsSubpaths := if host.isDir topLevelAgents then [topLevelAgents] else []
  let topLevelCodex := writableRoot.join host.paths.homeDir dotCodex
  let codexSubpaths :=
    if protectMissingDotCodex || host.isDir topLevelCodex then [topLevelCodex] else []
  dedupAbsolutePaths host (gitSubpaths ++ agentsSubpaths ++ codexSubpaths) false

end

def hasExplicitResolvedPathEntry (entries : List ResolvedFileSystemEntry)
    (path : AbsolutePathBuf) : Bool :=
  entries.any fun entry => entry.path = path

namespace FileSystemSandboxPolicy

section
variable (policy : FileSystemSandboxPolicy) (host : Host)

def getReadableRootsWithCwd (cwd : Text) : List AbsolutePathBuf :=
  if policy.hasFullDiskReadAccess then []
  else
    dedupAbsolutePaths host
      ((((policy.resolvedEntriesWithCwd host cwd).filter (·.access.canRead)).filter fun entry =>
        policy.canReadPathWithCwd host entry.path.display cwd).map (·.path)) true

/-- The names none of whose paths can be written, below the root and its spellings. -/
def protectedMetadataNamesForWritableRoot (root : AbsolutePathBuf)
    (rawWritableRoots : List AbsolutePathBuf) (cwd : Text) : List Text :=
  protectedMetadataPathNames.filter fun metadataName =>
    (root :: rawWritableRoots).all fun rawRoot =>
      !policy.canWritePathWithCwd host (rawRoot.join host.paths.homeDir metadataName).display cwd

/-- Where a non-write entry carves into a writable root: at its own path if that is
below the root or below another spelling of it, else at the path it resolves to. -/
def carveout (root : AbsolutePathBuf) (rawWritableRoots : List AbsolutePathBuf)
    (entry : ResolvedFileSystemEntry) : Option AbsolutePathBuf :=
  let effectivePath := normalizeEffectiveAbsolutePath host entry.path
  let rawCarveoutPath :=
    -- a policy for the whole disk keeps its effective form
    if root.parent.isSome then
      if entry.path = root then none
      else if entry.path.startsWith root then some entry.path
      else
        rawWritableRoots.findSome? fun rawRoot =>
          if entry.path.startsWith rawRoot && entry.path ≠ rawRoot then
            some (root.join host.paths.homeDir (entry.path.suffixText rawRoot))
          else none
    else none
  match rawCarveoutPath with
  | some path => some path
  | none =>
    if effectivePath = root || !effectivePath.startsWith root then none else some effectivePath

def writableEntries (cwd : Text) : List AbsolutePathBuf :=
  (((policy.resolvedEntriesWithCwd host cwd).filter (·.access.canWrite)).filter fun entry =>
    policy.canWritePathWithCwd host entry.path.display cwd).map (·.path)

def writableRoot (cwd : Text) (root : AbsolutePathBuf) : WritableRoot :=
  let resolvedEntries := policy.resolvedEntriesWithCwd host cwd
  let rawWritableRoots := (policy.writableEntries host cwd).filter fun path =>
    normalizeEffectiveAbsolutePath host path = root
  let protectMissingDotCodex := (host.paths.absolutePath cwd).any fun cwd =>
    normalizeEffectiveAbsolutePath host cwd = root
  let defaults := (defaultReadOnlySubpathsForWritableRoot host root protectMissingDotCodex).filter
    fun path => !hasExplicitResolvedPathEntry resolvedEntries path
  let carveouts := ((resolvedEntries.filter fun entry => !entry.access.canWrite).filter
    fun entry => !policy.canWritePathWithCwd host entry.path.display cwd).filterMap
      (carveout host root rawWritableRoots)
  { root := root
    readOnlySubpaths := dedupAbsolutePaths host (defaults ++ carveouts) false
    protectedMetadataNames :=
      policy.protectedMetadataNamesForWritableRoot host root rawWritableRoots cwd }

def getWritableRootsWithCwd (cwd : Text) : List WritableRoot :=
  if policy.hasFullDiskWriteAccess then []
  else (dedupAbsolutePaths host (policy.writableEntries host cwd) true).map
    (policy.writableRoot host cwd)

/-- The root of the disk is left out: what no entry allows is denied anyway. -/
def getUnreadableRootsWithCwd (cwd : Text) : List AbsolutePathBuf :=
  if policy.kind ≠ .restricted then []
  else
    let root := (host.paths.absolutePath cwd).map fun _ => AbsolutePathBuf.root
    dedupAbsolutePaths host
      (((((policy.resolvedEntriesWithCwd host cwd).filter (·.access = .none)).filter fun entry =>
        !policy.canReadPathWithCwd host entry.path.display cwd).filter fun entry =>
          root ≠ some entry.path).map (·.path)) true

def getUnreadableGlobsWithCwd (cwd : Text) : List Text :=
  if policy.kind ≠ .restricted then []
  else
    (sortedTexts ((policy.entries.filter (·.access = .none)).filterMap fun entry =>
      match entry.path with
      | .globPattern pattern => some (resolveGlob host pattern cwd)
      | _ => none)).destutter (· ≠ ·)

end

structure SemanticSignature where
  hasFullDiskReadAccess : Bool
  hasFullDiskWriteAccess : Bool
  includePlatformDefaults : Bool
  readableRoots : List AbsolutePathBuf
  writableRoots : List WritableRoot
  unreadableRoots : List AbsolutePathBuf
  unreadableGlobs : List Text
deriving DecidableEq

def sortedAbsolutePaths (paths : List AbsolutePathBuf) : List AbsolutePathBuf :=
  paths.insertionSort fun left right => compsLe left.comps right.comps

def sortedWritableRoots (roots : List WritableRoot) : List WritableRoot :=
  (roots.map fun root =>
    { root with
      readOnlySubpaths := sortedAbsolutePaths root.readOnlySubpaths
      protectedMetadataNames :=
        (sortedTexts root.protectedMetadataNames).destutter (· ≠ ·) }).insertionSort
          fun left right => compsLe left.root.comps right.root.comps

variable (policy : FileSystemSandboxPolicy) (host : Host)

def semanticSignature (cwd : Text) : SemanticSignature :=
  { hasFullDiskReadAccess := policy.hasFullDiskReadAccess
    hasFullDiskWriteAccess := policy.hasFullDiskWriteAccess
    includePlatformDefaults := policy.includePlatformDefaults
    readableRoots := sortedAbsolutePaths (policy.getReadableRootsWithCwd host cwd)
    writableRoots := sortedWritableRoots (policy.getWritableRootsWithCwd host cwd)
    unreadableRoots := sortedAbsolutePaths (policy.getUnreadableRootsWithCwd host cwd)
    unreadableGlobs := policy.getUnreadableGlobsWithCwd host cwd }

def isSemanticallyEquivalentTo (other : FileSystemSandboxPolicy) (cwd : Text) : Bool :=
  policy.semanticSignature host cwd = other.semanticSignature host cwd

end FileSystemSandboxPolicy

end Codex
