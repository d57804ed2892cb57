import Codex.Sandbox.Roots

/-!
# Intersecting permission profiles

A grant is kept if the request covers it at the grant's own path. The denials of both
sides that overlap a kept grant are kept too; narrower read entries are not.
-/

namespace Codex

open Foundation

abbrev NonZeroUsize := {n : Nat // n ≠ 0}

def NonZeroUsize.ofNat (n : Nat) : Option NonZeroUsize := if h : n ≠ 0 then some ⟨n, h⟩ else none

structure FileSystemPermissions where
  entries : List FileSystemSandboxEntry
  globScanMaxDepth : Option NonZeroUsize
deriving DecidableEq

structure NetworkPermissions where
  enabled : Option Bool
deriving DecidableEq

structure AdditionalPermissionProfile where
  network : Option NetworkPermissions
  fileSystem : Option FileSystemPermissions
deriving DecidableEq

namespace FileSystemPermissions

def empty : FileSystemPermissions := ⟨[], none⟩

def isEmpty (permissions : FileSystemPermissions) : Bool := permissions.entries.isEmpty

def toPolicy (permissions : FileSystemPermissions) : FileSystemSandboxPolicy :=
  { FileSystemSandboxPolicy.ofRestricted permissions.entries with
    globScanMaxDepth := permissions.globScanMaxDepth.map (·.val) }

end FileSystemPermissions

namespace AdditionalPermissionProfile

def policy (profile : AdditionalPermissionProfile) : FileSystemSandboxPolicy :=
  (profile.fileSystem.getD .empty).toPolicy

def networkEnabled (profile : AdditionalPermissionProfile) : Bool :=
  (profile.network.bind (·.enabled)).getD false

end AdditionalPermissionProfile

/-! ## Paths of entries -/

section
variable (host : Host)

def normalizedAndCanonicalCandidates (path : AbsolutePathBuf) : List AbsolutePathBuf :=
  (path :: (host.canonicalize path).toList).eraseDups

def resolvePermissionPath (path : FileSystemPath) (cwd : Text) : Option AbsolutePathBuf :=
  match path with
  | .path path => some path
  | .globPattern _ => none
  | .special .root => host.paths.absolutePath (if isAbsolute cwd then ['/'] else [])
  | .special (.projectRoots subpath) => (host.paths.absolutePath cwd).map fun cwd =>
    match subpath with
    | some subpath => resolvePathAgainstBase host.paths.homeDir subpath.text cwd
    | none => cwd
  | .special .tmpdir => host.tmpdirVar.bind fun tmpdir =>
    if tmpdir = [] then none else host.paths.absolutePath tmpdir
  | .special .slashTmp => if host.isDir slashTmpPath then some slashTmpPath else none
  | .special .minimal => none
  | .special (.unknown _ _) => none

/-- Entries that depend on the working directory get the path they have now. -/
def materializeCwdDependentEntry (entry : FileSystemSandboxEntry) (cwd : Text) :
    FileSystemSandboxEntry :=
  match entry.path with
  | .special (.projectRoots _) =>
    match resolvePermissionPath host entry.path cwd with
    | some path => ⟨.path path, entry.access⟩
    | none => entry
  | .globPattern pattern => ⟨.globPattern (resolveGlob host pattern cwd), entry.access⟩
  | _ => entry

end

def pathsOverlap (left right : AbsolutePathBuf) : Bool :=
  left.startsWith right || right.startsWith left

def isGlobCharacter (c : Char) : Bool := c = '*' || c = '?' || c = '[' || c = ']'

def globStaticPrefixPath (host : Host) (pattern cwd : Text) : Option AbsolutePathBuf :=
  let resolved := resolveGlob host pattern cwd
  let before := resolved.takeWhile fun c => !isGlobCharacter c
  if before.length = resolved.length then host.paths.absolutePath resolved
  else if before = [] then none
  else if before.getLast? = some '/' || before.getLast? = some '\\' then
    host.paths.absolutePath before
  else (parentText before).bind host.paths.absolutePath

structure ReadDenyMatcher where
  deniedCandidates : List (List AbsolutePathBuf)
  denyReadMatchers : List (Text → Bool)
  invalidPattern : Bool

variable (host : Host) (buildGlobMatcher : Text → Option (Text → Bool))

def ReadDenyMatcher.new (policy : FileSystemSandboxPolicy) (cwd : Text) :
    Option ReadDenyMatcher :=
  if !policy.hasDeniedReadRestrictions then none
  else
    let globs := policy.getUnreadableGlobsWithCwd host cwd
    some
      { deniedCandidates :=
          (policy.getUnreadableRootsWithCwd host cwd).map (normalizedAndCanonicalCandidates host)
        denyReadMatchers := globs.filterMap buildGlobMatcher
        invalidPattern := globs.any fun pattern => (buildGlobMatcher pattern).isNone }

def ReadDenyMatcher.isReadDenied (matcher : ReadDenyMatcher) (path : AbsolutePathBuf) : Bool :=
  -- a malformed pattern denies everything
  if matcher.invalidPattern then true
  else
    let pathCandidates := normalizedAndCanonicalCandidates host path
    if matcher.deniedCandidates.any fun deniedCandidates =>
        pathCandidates.any fun candidate => deniedCandidates.any (candidate.startsWith ·) then true
    else
      matcher.denyReadMatchers.any fun isMatch =>
        pathCandidates.any fun candidate => isMatch candidate.display

/-! ## The intersection -/

inductive GlobScanDepth where
  | bounded (depth : Nat)
  | unbounded
deriving DecidableEq

def effectiveGlobScanDepth (entries : List FileSystemSandboxEntry) (depth : Option Nat) :
    Option GlobScanDepth :=
  if entries.any fun entry => entry.access = .none &&
      (match entry.path with | .globPattern _ => true | _ => false) then
    some (match depth with | some depth => .bounded depth | none => .unbounded)
  else none

def mergeGlobScanMaxDepth (leftEntries : List FileSystemSandboxEntry) (leftDepth : Option Nat)
    (rightEntries : List FileSystemSandboxEntry) (rightDepth : Option Nat) : Option Nat :=
  match effectiveGlobScanDepth leftEntries leftDepth,
    effectiveGlobScanDepth rightEntries rightDepth with
  | some .unbounded, _ => none
  | _, some .unbounded => none
  | some (.bounded left), some (.bounded right) => some (max left right)
  | some (.bounded depth), none => some depth
  | none, some (.bounded depth) => some depth
  | none, none => none

def accessCovers (requested granted : FileSystemAccessMode) : Bool :=
  match granted with
  | .read => requested.canRead
  | .write => requested.canWrite
  | .none => false

def grantedFileSystemEntryWithinRequest (requested : FileSystemPermissions)
    (requestedPolicy : FileSystemSandboxPolicy) (requestedReadDenyMatcher : Option ReadDenyMatcher)
    (grantedEntry : FileSystemSandboxEntry) (cwd : Text) : Bool :=
  if !grantedEntry.access.canRead then false
  else
    match resolvePermissionPath host grantedEntry.path cwd with
    | some path =>
      if requestedReadDenyMatcher.any (·.isReadDenied host path) then false
      else
        accessCovers (requestedPolicy.resolveAccessWithCwd host path.display cwd)
          grantedEntry.access
    | none =>
      requested.entries.any fun requestedEntry =>
        accessCovers requestedEntry.access grantedEntry.access &&
          requestedEntry.path = grantedEntry.path

def denyEntryOverlapsGrantPath (denyEntry : FileSystemSandboxEntry) (grantPath : AbsolutePathBuf)
    (cwd : Text) : Bool :=
  match denyEntry.path with
  | .globPattern pattern => (globStaticPrefixPath host pattern cwd).any (pathsOverlap · grantPath)
  | path => (resolvePermissionPath host path cwd).any (pathsOverlap · grantPath)

def denyEntryConstrainsAcceptedGrant (denyEntry : FileSystemSandboxEntry)
    (acceptedEntries : List FileSystemSandboxEntry) (cwd : Text) : Bool :=
  (acceptedEntries.filter (·.access.canRead)).any fun entry =>
    match resolvePermissionPath host entry.path cwd with
    | none => false
    | some grantPath => denyEntryOverlapsGrantPath host denyEntry grantPath cwd

def pushNew (entries : List FileSystemSandboxEntry) (entry : FileSystemSandboxEntry) :
    List FileSystemSandboxEntry :=
  if entry ∈ entries then entries else entries ++ [entry]

theorem mem_foldl_pushNew {entry : FileSystemSandboxEntry} (news : List FileSystemSandboxEntry)
    (olds : List FileSystemSandboxEntry) :
    entry ∈ news.foldl pushNew olds ↔ entry ∈ olds ∨ entry ∈ news := by
  induction news generalizing olds with
  | nil => simp
  | cons new news ih =>
    have hpush : entry ∈ pushNew olds new ↔ entry ∈ olds ∨ entry = new := by
      unfold pushNew
      split
      · rename_i hin
        constructor
        · exact .inl
        · rintro (h | rfl)
          · exact h
          · exact hin
      · rw [List.mem_append, List.mem_singleton]
    rw [List.foldl_cons, ih, hpush, List.mem_cons, or_assoc]

theorem foldl_pushNew_of_mem {news olds : List FileSystemSandboxEntry}
    (h : ∀ entry ∈ news, entry ∈ olds) : news.foldl pushNew olds = olds := by
  induction news with
  | nil => rfl
  | cons new news ih =>
    rw [List.foldl_cons, pushNew, if_pos (h new List.mem_cons_self)]
    exact ih fun entry hentry => h entry (List.mem_cons_of_mem new hentry)

def retainedDenyEntries (sourceEntries acceptedEntries : List FileSystemSandboxEntry)
    (cwd : Text) : List FileSystemSandboxEntry :=
  ((sourceEntries.filter (·.access = .none)).filter fun entry =>
    denyEntryConstrainsAcceptedGrant host entry acceptedEntries cwd).map
      (materializeCwdDependentEntry host · cwd)

def retainConstrainingDenyEntries (sourceEntries acceptedEntries : List FileSystemSandboxEntry)
    (cwd : Text) (outputEntries : List FileSystemSandboxEntry) :
    List FileSystemSandboxEntry × List FileSystemSandboxEntry :=
  let retainedEntries := retainedDenyEntries host sourceEntries acceptedEntries cwd
  (retainedEntries.foldl pushNew outputEntries, retainedEntries)

def acceptedEntries (requested granted : FileSystemPermissions) (cwd : Text) :
    List FileSystemSandboxEntry :=
  let requestedPolicy := FileSystemSandboxPolicy.ofRestricted requested.entries
  let matcher := ReadDenyMatcher.new host buildGlobMatcher requestedPolicy cwd
  ((granted.entries.filter fun entry =>
    grantedFileSystemEntryWithinRequest host requested requestedPolicy matcher entry cwd).map
      (materializeCwdDependentEntry host · cwd)).foldl pushNew []

def intersectFileSystem (requested granted : FileSystemPermissions) (cwd : Text) :
    FileSystemPermissions :=
  let accepted := acceptedEntries host buildGlobMatcher requested granted cwd
  let (entries, requestedRetained) :=
    retainConstrainingDenyEntries host requested.entries accepted cwd accepted
  let (entries, grantedRetained) :=
    retainConstrainingDenyEntries host granted.entries accepted cwd entries
  { entries := entries
    globScanMaxDepth :=
      (mergeGlobScanMaxDepth requestedRetained (requested.globScanMaxDepth.map (·.val))
        grantedRetained (granted.globScanMaxDepth.map (·.val))).bind NonZeroUsize.ofNat }

def intersectPermissionProfiles (requested granted : AdditionalPermissionProfile) (cwd : Text) :
    AdditionalPermissionProfile :=
  { fileSystem :=
      (requested.fileSystem.map fun requestedFileSystem =>
        intersectFileSystem host buildGlobMatcher requestedFileSystem
          (granted.fileSystem.getD .empty) cwd).filter fun fileSystem => !fileSystem.isEmpty
    network :=
      if requested.network = some ⟨some true⟩ ∧ granted.network = some ⟨some true⟩ then
        some ⟨some true⟩
      else none }

end Codex
