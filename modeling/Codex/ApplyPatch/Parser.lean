import Codex.Foundation.Lines

/-!
# The patch parser

`parsePatchText` is the parser of the apply-patch format. It splits the trimmed
text into lines, checks the begin and end markers for the parse mode, and reads
hunks from the remaining lines until none is left. Positions are line counts, as
in the source, which slices the line list by the number of lines a hunk took.
-/

namespace Codex

open Foundation

abbrev PathBuf := Text

def BEGIN_PATCH_MARKER : Text := "*** Begin Patch".toList
def END_PATCH_MARKER : Text := "*** End Patch".toList
def ADD_FILE_MARKER : Text := "*** Add File: ".toList
def DELETE_FILE_MARKER : Text := "*** Delete File: ".toList
def UPDATE_FILE_MARKER : Text := "*** Update File: ".toList
def MOVE_TO_MARKER : Text := "*** Move to: ".toList
def EOF_MARKER : Text := "*** End of File".toList
def CHANGE_CONTEXT_MARKER : Text := "@@ ".toList
def EMPTY_CHANGE_CONTEXT_MARKER : Text := "@@".toList

def PARSE_IN_STRICT_MODE : Bool := false

inductive ParseError where
  | invalidPatchError (message : Text)
  | invalidHunkError (message : Text) (lineNumber : Nat)
deriving DecidableEq, Repr

structure UpdateFileChunk where
  changeContext : Option Text
  oldLines : List Text
  newLines : List Text
  isEndOfFile : Bool
deriving DecidableEq, Repr

inductive Hunk where
  | addFile (path : PathBuf) (contents : Text)
  | deleteFile (path : PathBuf)
  | updateFile (path : PathBuf) (movePath : Option PathBuf) (chunks : List UpdateFileChunk)
deriving DecidableEq, Repr

def Hunk.path : Hunk → PathBuf
  | .addFile path _ => path
  | .deleteFile path => path
  | .updateFile _ (some path) _ => path
  | .updateFile path none _ => path

structure ApplyPatchArgs where
  patch : Text
  hunks : List Hunk
  workdir : Option Text
deriving DecidableEq, Repr

inductive ParseMode where
  | strict
  | lenient
  | streaming
deriving DecidableEq, Repr

/-! ## Chunks of an update hunk -/

def noLinesMessage : Text := "Update hunk does not contain any lines".toList

def unexpectedLineMessage (line : Text) : Text :=
  "Unexpected line found in update hunk: '".toList ++ line ++
    "'. Every line should start with ' ' (context line), '+' (added line), or '-' (removed line)".toList

def expectedContextMessage (line : Text) : Text :=
  "Expected update hunk to start with a @@ context marker, got: '".toList ++ line ++ "'".toList

def emptyUpdateMessage (path : Text) : Text :=
  "Update file hunk for path '".toList ++ path ++ "' is empty".toList

/-- The lines of one chunk: how the loop over `lines[start_index..]` ends, with the
chunk built so far and the number of lines it took. -/
def parseChunkLines (lineNumber : Nat) :
    UpdateFileChunk → Nat → List Text → Except ParseError (UpdateFileChunk × Nat)
  | chunk, parsedLines, [] => .ok (chunk, parsedLines)
  | chunk, parsedLines, line :: lines =>
    if line = EOF_MARKER then
      if parsedLines = 0 then .error (.invalidHunkError noLinesMessage (lineNumber + 1))
      else .ok ({ chunk with isEndOfFile := true }, parsedLines + 1)
    else match line with
      -- an empty line is an empty context line
      | [] => parseChunkLines lineNumber { chunk with
          oldLines := chunk.oldLines ++ [[]], newLines := chunk.newLines ++ [[]] }
          (parsedLines + 1) lines
      | ' ' :: text => parseChunkLines lineNumber { chunk with
          oldLines := chunk.oldLines ++ [text], newLines := chunk.newLines ++ [text] }
          (parsedLines + 1) lines
      | '+' :: text => parseChunkLines lineNumber
          { chunk with newLines := chunk.newLines ++ [text] } (parsedLines + 1) lines
      | '-' :: text => parseChunkLines lineNumber
          { chunk with oldLines := chunk.oldLines ++ [text] } (parsedLines + 1) lines
      | _ =>
        if parsedLines = 0 then
          .error (.invalidHunkError (unexpectedLineMessage line) (lineNumber + 1))
        -- the line starts the next hunk or chunk
        else .ok (chunk, parsedLines)

def UpdateFileChunk.empty (changeContext : Option Text) : UpdateFileChunk :=
  ⟨changeContext, [], [], false⟩

def parseUpdateFileChunk (lines : List Text) (lineNumber : Nat) (allowMissingContext : Bool) :
    Except ParseError (UpdateFileChunk × Nat) :=
  match lines with
  | [] => .error (.invalidHunkError noLinesMessage lineNumber)
  | first :: rest => do
    let (changeContext, startIndex) ←
      if first = EMPTY_CHANGE_CONTEXT_MARKER then .ok (none, 1)
      else match stripPrefix CHANGE_CONTEXT_MARKER first with
        | some context => .ok (some context, 1)
        | none =>
          if allowMissingContext then .ok (none, 0)
          else .error (.invalidHunkError (expectedContextMessage first) lineNumber)
    if startIndex ≥ (first :: rest).length then
      .error (.invalidHunkError noLinesMessage (lineNumber + 1))
    else
      let (chunk, parsedLines) ← parseChunkLines lineNumber (.empty changeContext) 0
        ((first :: rest).drop startIndex)
      .ok (chunk, parsedLines + startIndex)

/-! ## Hunks -/

def parseAddLines : List Text → Text × Nat
  | ('+' :: lineToAdd) :: lines =>
    let (contents, parsedLines) := parseAddLines lines
    (lineToAdd ++ '\n' :: contents, parsedLines + 1)
  | _ => ([], 0)

/-- The chunk loop of an update hunk. The fuel is the number of lines left, which
every turn of the loop lowers. -/
def parseUpdateChunks (lineNumber : Nat) (allowIncomplete : Bool) :
    Nat → List Text → Nat → List UpdateFileChunk → Except ParseError (List UpdateFileChunk × Nat)
  | 0, _, parsedLines, chunks => .ok (chunks, parsedLines)
  | _ + 1, [], parsedLines, chunks => .ok (chunks, parsedLines)
  | fuel + 1, line :: lines, parsedLines, chunks =>
    -- blank lines may separate chunks
    if trim line = [] then
      parseUpdateChunks lineNumber allowIncomplete fuel lines (parsedLines + 1) chunks
    else if line.head? = some '*' then .ok (chunks, parsedLines)
    else if allowIncomplete ∧ line = ['@'] then .ok (chunks, parsedLines)
    else match parseUpdateFileChunk (line :: lines) (lineNumber + parsedLines) chunks.isEmpty with
      | .ok (chunk, chunkLines) =>
        parseUpdateChunks lineNumber allowIncomplete fuel ((line :: lines).drop chunkLines)
          (parsedLines + chunkLines) (chunks ++ [chunk])
      | .error (.invalidHunkError message errorLine) =>
        if allowIncomplete ∧ chunks ≠ [] then .ok (chunks, parsedLines)
        else .error (.invalidHunkError message errorLine)
      | .error err => .error err

def parseMoveLine : List Text → Option PathBuf × List Text × Nat
  | [] => (none, [], 1)
  | line :: lines =>
    match stripPrefix MOVE_TO_MARKER line with
    | some dest => (some dest, lines, 2)
    | none => (none, line :: lines, 1)

def invalidHeaderMessage (firstLine : Text) : Text :=
  "'".toList ++ firstLine ++ "' is not a valid hunk header. Valid hunk headers: '*** Add File: \x7bpath\x7d', '*** Delete File: \x7bpath\x7d', '*** Update File: \x7bpath\x7d'".toList

def parseOneHunk (first : Text) (rest : List Text) (lineNumber : Nat) (allowIncomplete : Bool) :
    Except ParseError (Hunk × Nat) :=
  let firstLine := trim first
  match stripPrefix ADD_FILE_MARKER firstLine with
  | some path =>
    let (contents, addLines) := parseAddLines rest
    .ok (.addFile path contents, 1 + addLines)
  | none => match stripPrefix DELETE_FILE_MARKER firstLine with
    | some path => .ok (.deleteFile path, 1)
    | none => match stripPrefix UPDATE_FILE_MARKER firstLine with
      | some path => do
        let (movePath, remainingLines, parsedLines) := parseMoveLine rest
        let (chunks, parsedLines) ← parseUpdateChunks lineNumber allowIncomplete
          remainingLines.length remainingLines parsedLines []
        if chunks = [] then
          .error (.invalidHunkError (emptyUpdateMessage path) lineNumber)
        else .ok (.updateFile path movePath chunks, parsedLines)
      | none => .error (.invalidHunkError (invalidHeaderMessage firstLine) lineNumber)

/-! ## Patch boundaries -/

def checkStartAndEndLinesStrict (firstLine lastLine : Option Text) : Except ParseError Unit :=
  match firstLine.map trim, lastLine.map trim with
  | some first, some last =>
    if first = BEGIN_PATCH_MARKER ∧ last = END_PATCH_MARKER then .ok ()
    else if first ≠ BEGIN_PATCH_MARKER then
      .error (.invalidPatchError "The first line of the patch must be '*** Begin Patch'".toList)
    else .error (.invalidPatchError "The last line of the patch must be '*** End Patch'".toList)
  | some first, none =>
    if first ≠ BEGIN_PATCH_MARKER then
      .error (.invalidPatchError "The first line of the patch must be '*** Begin Patch'".toList)
    else .error (.invalidPatchError "The last line of the patch must be '*** End Patch'".toList)
  | none, _ => .error (.invalidPatchError "The last line of the patch must be '*** End Patch'".toList)

def innerLines (lines : List Text) : List Text := lines.tail.dropLast

def checkPatchBoundariesStrict (lines : List Text) :
    Except ParseError (List Text × List Text) := do
  checkStartAndEndLinesStrict lines.head? lines.getLast?
  .ok (lines, innerLines lines)

def heredocOpeners : List Text := ["<<EOF".toList, "<<'EOF'".toList, "<<\"EOF\"".toList]

def checkPatchBoundariesLenient (originalLines : List Text) :
    Except ParseError (List Text × List Text) :=
  match checkPatchBoundariesStrict originalLines with
  | .ok lines => .ok lines
  | .error originalParseError =>
    match originalLines, originalLines.getLast? with
    | first :: _ :: _, some last =>
      if first ∈ heredocOpeners ∧ "EOF".toList <:+ last ∧ 4 ≤ originalLines.length then
        checkPatchBoundariesStrict (innerLines originalLines)
      else .error originalParseError
    | _, _ => .error originalParseError

def checkPatchBoundariesStreaming (originalLines : List Text) :
    Except ParseError (List Text × List Text) :=
  match originalLines with
  | first :: rest =>
    if trim first = BEGIN_PATCH_MARKER then
      if (first :: rest).getLast?.map trim = some END_PATCH_MARKER then
        .ok (first :: rest, innerLines (first :: rest))
      else .ok (first :: rest, rest)
    else checkPatchBoundariesStrict (first :: rest)
  | [] => checkPatchBoundariesStrict []

def checkPatchBoundaries (mode : ParseMode) (lines : List Text) :
    Except ParseError (List Text × List Text) :=
  match mode with
  | .strict => checkPatchBoundariesStrict lines
  | .lenient => checkPatchBoundariesLenient lines
  | .streaming => checkPatchBoundariesStreaming lines

/-- The hunk loop, with the number of lines left as fuel. -/
def parseHunks (allowIncomplete : Bool) :
    Nat → List Text → Nat → List Hunk → Except ParseError (List Hunk)
  | 0, _, _, hunks => .ok hunks
  | _ + 1, [], _, hunks => .ok hunks
  | fuel + 1, first :: rest, lineNumber, hunks => do
    let (hunk, hunkLines) ← parseOneHunk first rest lineNumber allowIncomplete
    parseHunks allowIncomplete fuel ((first :: rest).drop hunkLines) (lineNumber + hunkLines)
      (hunks ++ [hunk])

def parsePatchText (patch : Text) (mode : ParseMode) : Except ParseError ApplyPatchArgs := do
  let (patchLines, hunkLines) ← checkPatchBoundaries mode (lines (trim patch))
  let hunks ← parseHunks (mode = .streaming) hunkLines.length hunkLines 2 []
  .ok { patch := joinLines patchLines, hunks := hunks, workdir := none }

def parsePatch (patch : Text) : Except ParseError ApplyPatchArgs :=
  parsePatchText patch (if PARSE_IN_STRICT_MODE then .strict else .lenient)

def parsePatchStreaming (patch : Text) : Except ParseError ApplyPatchArgs :=
  parsePatchText patch .streaming

end Codex
