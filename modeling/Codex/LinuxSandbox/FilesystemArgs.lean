import Codex.Sandbox.Roots

/-!
# Mount arguments for bubblewrap

The Linux sandbox runs a command in a view of the file system that bubblewrap builds
from its arguments, in their order. The arguments start from the whole disk read only
or from an empty root with the readable roots. Then the denied directories above the
writable roots are masked, the writable roots are bound one by one with what stays
read only or denied inside them, and last the other denied paths are masked.
-/

namespace Codex.LinuxSandbox

open Foundation

/-! ## Arguments -/

inductive MountOp where
  | roBind (source target : AbsolutePathBuf)
  | bind (source target : AbsolutePathBuf)
  | dev (target : AbsolutePathBuf)
  | tmpfs (perms : Option Text) (target : AbsolutePathBuf)
  | dir (target : AbsolutePathBuf)
  | remountRo (target : AbsolutePathBuf)
  | roBindData (perms : Text) (fd : ℕ) (target : AbsolutePathBuf)
deriving DecidableEq

def MountOp.args : MountOp → List Text
  | .roBind source target => ["--ro-bind".toList, source.display, target.display]
  | .bind source target => ["--bind".toList, source.display, target.display]
  | .dev target => ["--dev".toList, target.display]
  | .tmpfs none target => ["--tmpfs".toList, target.display]
  | .tmpfs (some perms) target => ["--perms".toList, perms, "--tmpfs".toList, target.display]
  | .dir target => ["--dir".toList, target.display]
  | .remountRo target => ["--remount-ro".toList, target.display]
  | .roBindData perms fd target =>
    ["--perms".toList, perms, "--ro-bind-data".toList, (toString fd).toList, target.display]

/-- The operations whose texts are the arguments, and the files kept open for them. -/
structure BwrapArgs where
  ops : List MountOp
  preservedFiles : List ℕ
deriving DecidableEq

def BwrapArgs.args (args : BwrapArgs) : List Text := args.ops.flatMap MountOp.args

def BwrapArgs.push (args : BwrapArgs) (ops : List MountOp) : BwrapArgs :=
  { args with ops := args.ops ++ ops }

def devPath : AbsolutePathBuf := ⟨[['d', 'e', 'v']], by decide⟩

def devNullPath : AbsolutePathBuf := ⟨[['d', 'e', 'v'], ['n', 'u', 'l', 'l']], by decide⟩

def linuxPlatformDefaultReadRoots : List AbsolutePathBuf :=
  [⟨[['b', 'i', 'n']], by decide⟩,
    ⟨[['s', 'b', 'i', 'n']], by decide⟩,
    ⟨[['u', 's', 'r']], by decide⟩,
    ⟨[['e', 't', 'c']], by decide⟩,
    ⟨[['l', 'i', 'b']], by decide⟩,
    ⟨[['l', 'i', 'b', '6', '4']], by decide⟩,
    ⟨[['n', 'i', 'x'], ['s', 't', 'o', 'r', 'e']], by decide⟩,
    ⟨[['r', 'u', 'n'], "current-system".toList, ['s', 'w']], by decide⟩]

def pathDepth (path : AbsolutePathBuf) : ℕ := path.comps.length + 1

def sortByDepth {α : Type} (path : α → AbsolutePathBuf) (l : List α) : List α :=
  l.insertionSort fun left right => pathDepth (path left) ≤ pathDepth (path right)

def sortedPathSet (paths : List AbsolutePathBuf) : List AbsolutePathBuf :=
  (FileSystemSandboxPolicy.sortedAbsolutePaths paths).destutter (· ≠ ·)

variable (host : Host)

def canonicalTargetIfSymlinkedPath (path : AbsolutePathBuf) : Option AbsolutePathBuf :=
  match path.ancestors.tail.find? fun current => host.symlinkMetadata current ≠ some false with
  | none => none
  | some current =>
    if host.symlinkMetadata current = some true then
      (host.canonicalize path).filter fun target => target ≠ path
    else none

def remapPathsForSymlinkTarget (paths : List AbsolutePathBuf) (root target : AbsolutePathBuf) :
    List AbsolutePathBuf :=
  paths.map fun path => if path.startsWith root then path.rebase root target else path

def isWithinAllowedWritePaths (path : AbsolutePathBuf)
    (allowedWritePaths : List AbsolutePathBuf) : Bool :=
  allowedWritePaths.any fun root => path.startsWith root

def firstWritableSymlinkComponentInPath (targetPath : AbsolutePathBuf)
    (allowedWritePaths : List AbsolutePathBuf) : Option AbsolutePathBuf :=
  (targetPath.ancestors.tail.takeWhile fun current =>
    (host.symlinkMetadata current).isSome).find? fun current =>
      host.symlinkMetadata current = some true &&
        isWithinAllowedWritePaths current allowedWritePaths

def findFirstNonExistentComponent (targetPath : AbsolutePathBuf) : Option AbsolutePathBuf :=
  targetPath.ancestors.tail.find? fun current => !host.pathExists current

/-! ## Parts of the view -/

/-- The directories to be made below the anchor for something mounted at the target. -/
def mountTargetDirs (mountTarget anchor : AbsolutePathBuf) : List AbsolutePathBuf :=
  let mountTargetDir := if host.isDir mountTarget then some mountTarget else mountTarget.parent
  match mountTargetDir with
  | none => []
  | some mountTargetDir =>
    (mountTargetDir.ancestors.reverse.takeWhile fun path => path ≠ anchor).reverse

def appendMountTargetParentDirArgs (args : BwrapArgs) (mountTarget anchor : AbsolutePathBuf) :
    BwrapArgs := args.push ((mountTargetDirs host mountTarget anchor).map .dir)

/-- The directories made again below the nearest denied path above a writable root. -/
def appendMaskedRootDirArgs (args : BwrapArgs) (unreadableRoots : List AbsolutePathBuf)
    (root : AbsolutePathBuf) : BwrapArgs :=
  match Foundation.maxByKey pathDepth (unreadableRoots.filter fun path => root.startsWith path) with
  | some maskingRoot => appendMountTargetParentDirArgs host args root maskingRoot
  | none => args

def appendMissingPathArgs (args : BwrapArgs) (path : AbsolutePathBuf)
    (allowedWritePaths : List AbsolutePathBuf) : BwrapArgs :=
  match findFirstNonExistentComponent host path with
  | some firstMissingComponent =>
    if isWithinAllowedWritePaths firstMissingComponent allowedWritePaths then
      args.push [.roBind devNullPath firstMissingComponent]
    else args
  | none => args

def appendReadOnlySubpathArgs (args : BwrapArgs) (subpath : AbsolutePathBuf)
    (allowedWritePaths : List AbsolutePathBuf) : Except Text BwrapArgs :=
  match firstWritableSymlinkComponentInPath host subpath allowedWritePaths with
  | some symlink =>
    .error ("cannot enforce sandbox read-only path ".toList ++ subpath.display ++
      " because it crosses writable symlink ".toList ++ symlink.display)
  | none =>
    if !host.pathExists subpath then .ok (appendMissingPathArgs host args subpath allowedWritePaths)
    else if isWithinAllowedWritePaths subpath allowedWritePaths then
      .ok (args.push [.roBind subpath subpath])
    else .ok args

def writableDescendants (unreadableRoot : AbsolutePathBuf)
    (allowedWritePaths : List AbsolutePathBuf) : List AbsolutePathBuf :=
  allowedWritePaths.filter fun path => path ≠ unreadableRoot && path.startsWith unreadableRoot

variable (openDevNull : Except Text ℕ)

def appendExistingUnreadablePathArgs (args : BwrapArgs) (unreadableRoot : AbsolutePathBuf)
    (allowedWritePaths : List AbsolutePathBuf) : Except Text BwrapArgs :=
  if host.isDir unreadableRoot then
    let descendants := writableDescendants unreadableRoot allowedWritePaths
    let perms := if descendants = [] then ['0', '0', '0'] else ['1', '1', '1']
    let masked := args.push [.tmpfs (some perms) unreadableRoot]
    let opened := (sortByDepth id descendants).foldl (fun args writableDescendant =>
      appendMountTargetParentDirArgs host args writableDescendant unreadableRoot) masked
    .ok (opened.push [.remountRo unreadableRoot])
  else
    match args.preservedFiles with
    | nullFd :: _ => .ok (args.push [.roBindData ['0', '0', '0'] nullFd unreadableRoot])
    | [] => do
      let nullFd ← openDevNull
      return { args.push [.roBindData ['0', '0', '0'] nullFd unreadableRoot] with
        preservedFiles := [nullFd] }

def appendUnreadableRootArgs (args : BwrapArgs) (unreadableRoot : AbsolutePathBuf)
    (allowedWritePaths : List AbsolutePathBuf) : Except Text BwrapArgs :=
  match firstWritableSymlinkComponentInPath host unreadableRoot allowedWritePaths with
  | some symlink =>
    .error ("cannot enforce sandbox deny-read path ".toList ++ unreadableRoot.display ++
      " because it crosses writable symlink ".toList ++ symlink.display)
  | none =>
    if !host.pathExists unreadableRoot then
      .ok (appendMissingPathArgs host args unreadableRoot allowedWritePaths)
    else appendExistingUnreadablePathArgs host openDevNull args unreadableRoot allowedWritePaths

/-! ## The paths of a policy -/

variable (policy : FileSystemSandboxPolicy) (cwd : Text)

/-- The writable roots that are there. Full write access has none, but gets the disk as its
root where globs are denied. -/
def mountedWritableRoots : List WritableRoot :=
  let writableRoots := (policy.getWritableRootsWithCwd host cwd).filter fun writableRoot =>
    host.pathExists writableRoot.root
  if writableRoots = [] ∧ policy.hasFullDiskWriteAccess = true ∧
      policy.getUnreadableGlobsWithCwd host cwd ≠ [] then [⟨.root, [], []⟩]
  else writableRoots

def missingAutoMetadataReadOnlyProjectRootSubpaths : List AbsolutePathBuf :=
  (policy.entries.filter fun entry => entry.access = .read).filterMap fun entry =>
    match entry.path with
    | .special (.projectRoots (some subpath)) =>
      if subpath ≠ .ofText dotGit ∧ subpath ≠ .ofText dotAgents then none
      else
        let resolved := resolvePathAgainstBase host.paths.homeDir subpath.text
          (resolvePathAgainstBase none cwd .root)
        if !host.pathExists resolved then some resolved else none
    | _ => none

def maskedRoots (expanded : List AbsolutePathBuf) : List AbsolutePathBuf :=
  sortedPathSet (policy.getUnreadableRootsWithCwd host cwd ++ expanded)

def readableRootsToMount : List AbsolutePathBuf :=
  let platformDefaults := if policy.includePlatformDefaults then
    linuxPlatformDefaultReadRoots.filter host.pathExists else []
  sortedPathSet (policy.getReadableRootsWithCwd host cwd ++ platformDefaults)

def wholeDiskOps : List MountOp := [.roBind .root .root, .dev devPath]

def bootstrapOps (writableRoots : List WritableRoot) : List MountOp :=
  if policy.hasFullDiskReadAccess then wholeDiskOps
  else
    let readableRoots := readableRootsToMount host policy cwd
    if .root ∈ readableRoots then wholeDiskOps
    else
      [.tmpfs none .root, .dev devPath] ++
        (readableRoots.filter host.pathExists).map fun root =>
          let mountRoot :=
            if writableRoots.any fun writableRoot => root.startsWith writableRoot.root then
              (canonicalTargetIfSymlinkedPath host root).getD root
            else root
          .roBind mountRoot mountRoot

def allowedWritePaths (writableRoots : List WritableRoot) : List AbsolutePathBuf :=
  writableRoots.flatMap fun writableRoot =>
    writableRoot.root :: (canonicalTargetIfSymlinkedPath host writableRoot.root).toList

def mountedReadOnlySubpaths (unreadableRoots : List AbsolutePathBuf)
    (writableRoot : WritableRoot) : List AbsolutePathBuf :=
  (writableRoot.readOnlySubpaths.filter (· ∉ unreadableRoots)).filter
    (· ∉ missingAutoMetadataReadOnlyProjectRootSubpaths host policy cwd)

def appendWritableRootArgs (unreadableRoots allowedWritePaths : List AbsolutePathBuf)
    (args : BwrapArgs) (writableRoot : WritableRoot) : Except Text BwrapArgs := do
  let root := writableRoot.root
  let symlinkTarget := canonicalTargetIfSymlinkedPath host root
  let args := appendMaskedRootDirArgs host args unreadableRoots root
  let mountRoot := symlinkTarget.getD root
  let args := args.push [.bind mountRoot mountRoot]
  let remap := fun paths : List AbsolutePathBuf => match symlinkTarget with
    | some target => remapPathsForSymlinkTarget paths root target
    | none => paths
  let readOnlySubpaths := remap (mountedReadOnlySubpaths host policy cwd unreadableRoots writableRoot)
  let args ← (sortByDepth id readOnlySubpaths).foldlM (fun args subpath =>
    appendReadOnlySubpathArgs host args subpath allowedWritePaths) args
  let nestedUnreadableRoots := remap (unreadableRoots.filter fun path => path.startsWith root)
  (sortByDepth id nestedUnreadableRoots).foldlM (fun args unreadableRoot =>
    appendUnreadableRootArgs host openDevNull args unreadableRoot allowedWritePaths) args

def createFilesystemArgs
    (expandUnreadableGlobs : List Text → Text → Option ℕ → Except Text (List AbsolutePathBuf))
    (globScanMaxDepth : Option ℕ) : Except Text BwrapArgs := do
  let unreadableGlobs := policy.getUnreadableGlobsWithCwd host cwd
  let writableRoots := mountedWritableRoots host policy cwd
  let expanded ← expandUnreadableGlobs unreadableGlobs cwd globScanMaxDepth
  let unreadableRoots := maskedRoots host policy cwd expanded
  let args : BwrapArgs := ⟨bootstrapOps host policy cwd writableRoots, []⟩
  let allowed := allowedWritePaths host writableRoots
  let unreadableAncestorsOfWritableRoots := unreadableRoots.filter fun unreadableRoot =>
    !(allowed.any fun root => unreadableRoot.startsWith root) &&
      allowed.any fun root => root.startsWith unreadableRoot
  let args ← (sortByDepth id unreadableAncestorsOfWritableRoots).foldlM
    (fun args unreadableRoot =>
      appendUnreadableRootArgs host openDevNull args unreadableRoot allowed) args
  let args ← (sortByDepth WritableRoot.root writableRoots).foldlM
    (appendWritableRootArgs host openDevNull policy cwd unreadableRoots allowed) args
  let rootlessUnreadableRoots := unreadableRoots.filter fun unreadableRoot =>
    !(allowed.any fun root => unreadableRoot.startsWith root || root.startsWith unreadableRoot)
  (sortByDepth id rootlessUnreadableRoots).foldlM (fun args unreadableRoot =>
    appendUnreadableRootArgs host openDevNull args unreadableRoot allowed) args

end Codex.LinuxSandbox
