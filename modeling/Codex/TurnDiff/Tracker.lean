import Codex.Foundation.Table
import Codex.Foundation.Utf8
import Codex.Path

/-!
# The tracker of a turn's changes

Before a patch is applied, the files it names are looked at: what is seen first is kept as
the baseline of the file, under an internal name that follows the file when it is moved.
-/

namespace Codex.TurnDiff

open Foundation

inductive FileMode where
  | regular
  | executable
  | symlink
deriving DecidableEq

structure DiskFile where
  content : List UInt8
  mode : FileMode
deriving DecidableEq

abbrev Disk := AbsolutePathBuf → Option DiskFile

inductive FileChange where
  | add (content : Text)
  | delete (content : Text)
  | update (unifiedDiff : Text) (movePath : Option AbsolutePathBuf)
deriving DecidableEq

/-- `oid` is `none` for the zero id, which no blob has. -/
structure BaselineFileInfo where
  path : AbsolutePathBuf
  content : List UInt8
  mode : FileMode
  oid : Option Text
deriving DecidableEq

/-! ## The tracker -/

/-- Internal names are drawn at random and none is drawn twice: `drawn` counts them. -/
structure TurnDiffTracker where
  externalToTempName : Table AbsolutePathBuf ℕ
  baselineFileInfo : Table ℕ BaselineFileInfo
  tempNameToCurrentPath : Table ℕ AbsolutePathBuf
  drawn : ℕ

namespace TurnDiffTracker

def new : TurnDiffTracker := ⟨∅, ∅, ∅, 0⟩

variable (blobOid : AbsolutePathBuf → DiskFile → Text) (disk : Disk)

def absentInfo (path : AbsolutePathBuf) : BaselineFileInfo := ⟨path, [], .regular, none⟩

def presentInfo (path : AbsolutePathBuf) (file : DiskFile) : BaselineFileInfo :=
  ⟨path, file.content, file.mode, some (blobOid path file)⟩

def baselineInfo (path : AbsolutePathBuf) : BaselineFileInfo :=
  match disk path with
  | some file => presentInfo blobOid path file
  | none => absentInfo path

def ensureTracked (t : TurnDiffTracker) (path : AbsolutePathBuf) : TurnDiffTracker :=
  match t.externalToTempName.lookup path with
  | some _ => t
  | none =>
    { externalToTempName := t.externalToTempName.insert path t.drawn
      baselineFileInfo := t.baselineFileInfo.insert t.drawn (baselineInfo blobOid disk path)
      tempNameToCurrentPath := t.tempNameToCurrentPath.insert t.drawn path
      drawn := t.drawn + 1 }

/-- The name follows the file; a source without a name gets one with no baseline. -/
def trackMove (t : TurnDiffTracker) (path dest : AbsolutePathBuf) : TurnDiffTracker :=
  let (t, uuidFilename) :=
    match t.externalToTempName.lookup path with
    | some i => (t, i)
    | none =>
      ({ t with
          baselineFileInfo := t.baselineFileInfo.insert t.drawn (absentInfo path)
          drawn := t.drawn + 1 }, t.drawn)
  { t with
    tempNameToCurrentPath := t.tempNameToCurrentPath.insert uuidFilename dest
    externalToTempName := (t.externalToTempName.erase path).insert dest uuidFilename }

def trackChange (t : TurnDiffTracker) (change : AbsolutePathBuf × FileChange) :
    TurnDiffTracker :=
  let t := ensureTracked blobOid disk t change.1
  match change.2 with
  | .update _ (some dest) => t.trackMove change.1 dest
  | _ => t

/-- `changes` in the order in which the map is walked. -/
def onPatchBegin (t : TurnDiffTracker) (changes : List (AbsolutePathBuf × FileChange)) :
    TurnDiffTracker :=
  changes.foldl (trackChange blobOid disk) t

end TurnDiffTracker

section
variable (patched : Text → List UInt8 → List UInt8)

def Disk.write (disk : Disk) (path : AbsolutePathBuf) (content : List UInt8) : Disk :=
  Function.update disk path (some ⟨content, ((disk path).map DiskFile.mode).getD .regular⟩)

def Disk.remove (disk : Disk) (path : AbsolutePathBuf) : Disk := Function.update disk path none

/-- A moved file is written at its new place before it is removed from the old one. -/
def applyChange (disk : Disk) (change : AbsolutePathBuf × FileChange) : Disk :=
  match change.2 with
  | .add content => disk.write change.1 (utf8 content)
  | .delete _ => disk.remove change.1
  | .update unifiedDiff movePath =>
    match disk change.1 with
    | some file =>
      match movePath with
      | some dest => (disk.write dest (patched unifiedDiff file.content)).remove change.1
      | none => disk.write change.1 (patched unifiedDiff file.content)
    | none => disk

def applyPatch (disk : Disk) (changes : List (AbsolutePathBuf × FileChange)) : Disk :=
  changes.foldl (applyChange patched) disk

end

structure PatchEvent where
  changes : List (AbsolutePathBuf × FileChange)
  visited : List (AbsolutePathBuf × FileChange)
  nodup : (changes.map Prod.fst).Nodup
  perm : visited.Perm changes

structure TurnState where
  tracker : TurnDiffTracker
  disk : Disk

namespace TurnState

variable (blobOid : AbsolutePathBuf → DiskFile → Text) (patched : Text → List UInt8 → List UInt8)

def step (s : TurnState) (e : PatchEvent) : TurnState where
  tracker := TurnDiffTracker.onPatchBegin blobOid s.disk s.tracker e.visited
  disk := applyPatch patched s.disk e.changes

def run (before : Disk) (events : List PatchEvent) : TurnState :=
  events.foldl (step blobOid patched) ⟨.new, before⟩

end TurnState

end Codex.TurnDiff
