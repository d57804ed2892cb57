import Codex.ApplyPatch.Parser
import Codex.Path
import Mathlib.Data.List.Sort

/-!
# New contents from chunks

What an update hunk makes of a file: the old lines of each chunk are sought in
the file from the position the previous chunk ended at, the replacements are
sorted by position and applied from the last one to the first. All of it is a
function of the file's text and the chunks.
-/

namespace Codex

open Foundation

inductive IoErrorKind where
  | notFound
  | invalidInput
  | other
deriving DecidableEq, Repr

structure IoError where
  kind : IoErrorKind
  message : Text
deriving DecidableEq, Repr

inductive ApplyPatchError where
  | parseError (error : ParseError)
  | ioError (context : Text) (source : IoError)
  | computeReplacements (message : Text)
  | implicitInvocation
deriving DecidableEq, Repr

def normaliseChar (c : Char) : Char :=
  let n := c.toNat
  if (0x2010 ≤ n ∧ n ≤ 0x2015) ∨ n = 0x2212 then '-'
  else if 0x2018 ≤ n ∧ n ≤ 0x201B then '\''
  else if 0x201C ≤ n ∧ n ≤ 0x201F then '"'
  else if n = 0xA0 ∨ (0x2002 ≤ n ∧ n ≤ 0x200A) ∨ n = 0x202F ∨ n = 0x205F ∨ n = 0x3000 then ' '
  else c

def normalise (s : Text) : Text := (trim s).map normaliseChar

def matchesAt (view : Text → Text) (lines pattern : List Text) (i : Nat) : Bool :=
  (List.zipWith (fun l p => decide (view l = view p)) (lines.drop i) pattern).all id

def seekPass (view : Text → Text) (lines pattern : List Text) (searchStart : Nat) : Option Nat :=
  (List.range' searchStart (lines.length - pattern.length + 1 - searchStart)).find?
    (matchesAt view lines pattern)

def seekSequence (lines pattern : List Text) (start : Nat) (eof : Bool) : Option Nat :=
  if pattern = [] then some start
  else if lines.length < pattern.length then none
  else
    let searchStart := if eof then lines.length - pattern.length else start
    (seekPass id lines pattern searchStart).orElse fun _ =>
      (seekPass trimEnd lines pattern searchStart).orElse fun _ =>
        (seekPass trim lines pattern searchStart).orElse fun _ =>
          seekPass normalise lines pattern searchStart

/-! ## Replacements -/

abbrev Replacement := Nat × Nat × List Text

def lastIsEmpty (lines : List Text) : Bool := lines.getLast? = some []

def computeReplacementsLoop (originalLines : List Text) (path : AbsolutePathBuf) :
    List UpdateFileChunk → Nat → List Replacement → Except ApplyPatchError (List Replacement)
  | [], _, replacements => .ok replacements
  | chunk :: chunks, lineIndex, replacements => do
    let lineIndex ← match chunk.changeContext with
      | some ctxLine =>
        match seekSequence originalLines [ctxLine] lineIndex false with
        | some idx => .ok (idx + 1)
        | none => .error (.computeReplacements
            ("Failed to find context '".toList ++ ctxLine ++ "' in ".toList ++ path.display))
      | none => .ok lineIndex
    if chunk.oldLines = [] then
      let insertionIdx :=
        if lastIsEmpty originalLines then originalLines.length - 1 else originalLines.length
      computeReplacementsLoop originalLines path chunks lineIndex
        (replacements ++ [(insertionIdx, 0, chunk.newLines)])
    else
      let (found, pattern, newSlice) :=
        match seekSequence originalLines chunk.oldLines lineIndex chunk.isEndOfFile with
        | some idx => (some idx, chunk.oldLines, chunk.newLines)
        | none =>
          if lastIsEmpty chunk.oldLines then
            -- the empty last line stands for the final newline of the region
            let pattern := chunk.oldLines.dropLast
            let newSlice :=
              if lastIsEmpty chunk.newLines then chunk.newLines.dropLast else chunk.newLines
            (seekSequence originalLines pattern lineIndex chunk.isEndOfFile, pattern, newSlice)
          else (none, chunk.oldLines, chunk.newLines)
      match found with
      | some startIdx =>
        computeReplacementsLoop originalLines path chunks (startIdx + pattern.length)
          (replacements ++ [(startIdx, pattern.length, newSlice)])
      | none => .error (.computeReplacements
          ("Failed to find expected lines in ".toList ++ path.display ++ ":\n".toList ++
            joinLines chunk.oldLines))

def computeReplacements (originalLines : List Text) (path : AbsolutePathBuf)
    (chunks : List UpdateFileChunk) : Except ApplyPatchError (List Replacement) := do
  let replacements ← computeReplacementsLoop originalLines path chunks 0 []
  .ok (replacements.insertionSort fun lhs rhs => lhs.1 ≤ rhs.1)

def removeLines (startIdx : Nat) : Nat → List Text → List Text
  | 0, lines => lines
  | oldLen + 1, lines =>
    removeLines startIdx oldLen (if startIdx < lines.length then lines.eraseIdx startIdx else lines)

def insertLines (startIdx : Nat) (newSegment : List Text) (lines : List Text) : List Text :=
  newSegment.zipIdx.foldl (fun ls p => ls.insertIdx (startIdx + p.2) p.1) lines

def applyReplacements (lines : List Text) (replacements : List Replacement) : List Text :=
  replacements.reverse.foldl (fun ls r => insertLines r.1 r.2.2 (removeLines r.1 r.2.1 ls)) lines

structure AppliedPatch where
  originalContents : Text
  newContents : Text
deriving DecidableEq, Repr

def deriveFromText (originalContents : Text) (path : AbsolutePathBuf)
    (chunks : List UpdateFileChunk) : Except ApplyPatchError AppliedPatch := do
  let split := originalContents.splitOn '\n'
  -- the piece behind a final newline is no line
  let originalLines := if lastIsEmpty split then split.dropLast else split
  let replacements ← computeReplacements originalLines path chunks
  let newLines := applyReplacements originalLines replacements
  let newLines := if lastIsEmpty newLines then newLines else newLines ++ [[]]
  .ok ⟨originalContents, joinLines newLines⟩

end Codex
