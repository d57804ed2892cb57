import Codex.ApplyPatch.Apply

/-!
# Verified patch invocations

`maybeParseApplyPatchVerified` decides whether an argument vector invokes
`apply_patch` and, if so, previews the file changes: every hunk is computed
against the file system as it is now. The extraction of a here-document from a
shell script and the unified diff are parameters.
-/

namespace Codex

open Foundation

def APPLY_PATCH_COMMANDS : List Text := ["apply_patch".toList, "applypatch".toList]

inductive ApplyPatchShell where
  | unix
  | powerShell
  | cmd
deriving DecidableEq, Repr

inductive ExtractHeredocError where
  | commandDidNotStartWithApplyPatch
  | failedToLoadBashGrammar (message : Text)
  | heredocNotUtf8 (message : Text)
  | failedToParsePatchIntoAst
  | failedToFindHeredocBody
deriving DecidableEq, Repr

inductive MaybeApplyPatch where
  | body (args : ApplyPatchArgs)
  | shellParseError (error : ExtractHeredocError)
  | patchParseError (error : ParseError)
  | notApplyPatch
deriving DecidableEq, Repr

/-! ## Shell scripts -/

def classifyShellName (shell : Text) : Option Text := (fileStem shell).map toAsciiLowercase

def classifyShell (shell flag : Text) : Option ApplyPatchShell :=
  match classifyShellName shell with
  | none => none
  | some name =>
    if name ∈ ["bash".toList, "zsh".toList, "sh".toList] ∧
        flag ∈ ["-lc".toList, "-c".toList] then some .unix
    else if name ∈ ["pwsh".toList, "powershell".toList] ∧
        eqIgnoreAsciiCase flag "-command".toList then some .powerShell
    else if name = "cmd".toList ∧ eqIgnoreAsciiCase flag "/c".toList then some .cmd
    else none

def canSkipFlag (shell flag : Text) : Bool :=
  match classifyShellName shell with
  | none => false
  | some name => name ∈ ["pwsh".toList, "powershell".toList] ∧
      eqIgnoreAsciiCase flag "-noprofile".toList

def parseShellScript (argv : List Text) : Option (ApplyPatchShell × Text) :=
  match argv with
  | [shell, flag, script] => (classifyShell shell flag).map fun shellType => (shellType, script)
  | [shell, skipFlag, flag, script] =>
    if canSkipFlag shell skipFlag then
      (classifyShell shell flag).map fun shellType => (shellType, script)
    else none
  | _ => none

/-- The here-document body and the directory of a `cd` before it. -/
abbrev HeredocExtractor : Type := Text → Except ExtractHeredocError (Text × Option Text)

section
variable (extractApplyPatchFromBash : HeredocExtractor)

def extractApplyPatchFromShell (shell : ApplyPatchShell) : HeredocExtractor :=
  match shell with
  | .unix | .powerShell | .cmd => extractApplyPatchFromBash

def maybeParseShellPatch (argv : List Text) : MaybeApplyPatch :=
  match parseShellScript argv with
  | some (shell, script) =>
    match extractApplyPatchFromShell extractApplyPatchFromBash shell script with
    | .ok (body, workdir) =>
      match parsePatch body with
      | .ok source => .body { source with workdir := workdir }
      | .error e => .patchParseError e
    | .error .commandDidNotStartWithApplyPatch => .notApplyPatch
    | .error e => .shellParseError e
  | none => .notApplyPatch

def maybeParseApplyPatch (argv : List Text) : MaybeApplyPatch :=
  match argv with
  | [cmd, body] =>
    if cmd ∈ APPLY_PATCH_COMMANDS then
      match parsePatch body with
      | .ok source => .body source
      | .error e => .patchParseError e
    else maybeParseShellPatch extractApplyPatchFromBash argv
  | argv => maybeParseShellPatch extractApplyPatchFromBash argv

end

/-! ## File changes -/

inductive ApplyPatchFileChange where
  | add (content : Text)
  | delete (content : Text)
  | update (unifiedDiff : Text) (movePath : Option AbsolutePathBuf) (newContent : Text)
deriving DecidableEq

abbrev ChangeMap : Type := AbsolutePathBuf → Option ApplyPatchFileChange

def ChangeMap.insert (changes : ChangeMap) (path : AbsolutePathBuf)
    (change : ApplyPatchFileChange) : ChangeMap := Function.update changes path (some change)

structure ApplyPatchAction where
  changes : ChangeMap
  patch : Text
  cwd : AbsolutePathBuf

inductive MaybeApplyPatchVerified where
  | body (action : ApplyPatchAction)
  | shellParseError (error : ExtractHeredocError)
  | correctnessError (error : ApplyPatchError)
  | notApplyPatch

structure ApplyPatchFileUpdate where
  unifiedDiff : Text
  content : Text
deriving DecidableEq, Repr

variable {σ : Type} (fs : ExecutorFileSystem σ) (homeDir : Option Text)

abbrev UnifiedDiff : Type := Text → Text → Nat → Text

variable (unifiedDiff : UnifiedDiff)

def unifiedDiffFromChunks (pathAbs : AbsolutePathBuf) (chunks : List UpdateFileChunk) :
    Eff σ ApplyPatchError ApplyPatchFileUpdate := do
  let patch ← deriveNewContentsFromChunks fs pathAbs chunks
  pure ⟨unifiedDiff patch.originalContents patch.newContents 1, patch.newContents⟩

def previewReadFailure (path : AbsolutePathBuf) (err : IoError) : ApplyPatchError :=
  .ioError ("Failed to read ".toList ++ path.display) err

def previewHunk (effectiveCwd : AbsolutePathBuf) (hunk : Hunk) :
    Eff σ ApplyPatchError ApplyPatchFileChange :=
  let path := hunk.resolvePath homeDir effectiveCwd
  match hunk with
  | .addFile _ contents => pure (.add contents)
  | .deleteFile _ => do
    let content ← (fs.readFileText path).mapError (previewReadFailure path)
    pure (.delete content)
  | .updateFile _ movePath chunks => do
    let update ← unifiedDiffFromChunks fs unifiedDiff path chunks
    pure (.update update.unifiedDiff (movePath.map (effectiveCwd.join homeDir)) update.content)

def previewChanges (effectiveCwd : AbsolutePathBuf) :
    List Hunk → ChangeMap → Eff σ ApplyPatchError ChangeMap
  | [], changes => pure changes
  | hunk :: hunks, changes => do
    let change ← previewHunk fs homeDir unifiedDiff effectiveCwd hunk
    previewChanges effectiveCwd hunks
      (changes.insert (hunk.resolvePath homeDir effectiveCwd) change)

def isImplicitInvocation (argv : List Text) : Bool :=
  (match argv with
    | [body] => (parsePatch body).isOk
    | _ => false) ||
  (match parseShellScript argv with
    | some (_, script) => (parsePatch script).isOk
    | none => false)

def maybeParseApplyPatchVerified (extractApplyPatchFromBash : HeredocExtractor)
    (argv : List Text) (cwd : AbsolutePathBuf) (s : σ) : MaybeApplyPatchVerified × σ :=
  if isImplicitInvocation argv then (.correctnessError .implicitInvocation, s)
  else match maybeParseApplyPatch extractApplyPatchFromBash argv with
    | .body args =>
      let effectiveCwd := match args.workdir with
        | some dir => cwd.join homeDir dir
        | none => cwd
      match previewChanges fs homeDir unifiedDiff effectiveCwd args.hunks (fun _ => none) s with
      | (.ok changes, s) => (.body ⟨changes, args.patch, effectiveCwd⟩, s)
      | (.error e, s) => (.correctnessError e, s)
    | .shellParseError e => (.shellParseError e, s)
    | .patchParseError e => (.correctnessError (.parseError e), s)
    | .notApplyPatch => (.notApplyPatch, s)

end Codex
