import Codex.ApplyPatch.Derive
import Codex.Foundation.Run

/-!
# Applying hunks to a file system

`ExecutorFileSystem` is the interface the code calls. A `LawfulFileSystem`
comes with the map from paths to texts that its operations read and change; the
results about applied patches hold for every one of them. `mapFileSystem` is
the plain map, `treeFileSystem` also has directories.

`applyHunksToFiles` runs the hunks one after another on the file system and
stops at the first failure, keeping what was done before it. `applyHunk_files`
says once what a hunk that succeeds does to the files of a lawful file system;
`moveSafe_iff` is what this means for a move.
-/

namespace Codex

open Foundation Function

structure FileMetadata where
  isDirectory : Bool
deriving DecidableEq, Repr

structure ExecutorFileSystem (σ : Type) where
  readFileText : AbsolutePathBuf → Eff σ IoError Text
  writeFile : AbsolutePathBuf → Text → Eff σ IoError Unit
  createDirectory : AbsolutePathBuf → (recursive : Bool) → Eff σ IoError Unit
  getMetadata : AbsolutePathBuf → Eff σ IoError FileMetadata
  remove : AbsolutePathBuf → (recursive force : Bool) → Eff σ IoError Unit

abbrev FileMap : Type := AbsolutePathBuf → Option Text

/-- A file system whose operations act on the files as they say: a read changes
nothing, a write or a removal changes the one file it names, a directory is no
file, and a failed write leaves the files alone. -/
structure LawfulFileSystem (σ : Type) extends ExecutorFileSystem σ where
  files : σ → FileMap
  read_ok : ∀ {p s t s'}, readFileText p s = (.ok t, s') → s' = s ∧ files s p = some t
  write_ok : ∀ {p t s s'}, writeFile p t s = (.ok (), s') →
    files s' = Function.update (files s) p (some t)
  write_notFound : ∀ {p t s e s'}, writeFile p t s = (.error e, s') → e.kind = .notFound →
    files s' = files s
  create_ok : ∀ {p r s s'}, createDirectory p r s = (.ok (), s') → files s' = files s
  metadata_ok : ∀ {p s m s'}, getMetadata p s = (.ok m, s') → files s' = files s
  remove_ok : ∀ {p s s'}, remove p false false s = (.ok (), s') →
    files s' = Function.update (files s) p none

/-! ## The plain map -/

def notFoundError : IoError := ⟨.notFound, "No such file or directory (os error 2)".toList⟩

/-- A map from paths to texts: only what is absent fails. -/
def mapFileSystem : LawfulFileSystem FileMap where
  readFileText p := fun s => match s p with
    | some t => (.ok t, s)
    | none => (.error notFoundError, s)
  writeFile p t := fun s => (.ok (), Function.update s p (some t))
  createDirectory _ _ := fun s => (.ok (), s)
  getMetadata p := fun s => match s p with
    | some _ => (.ok ⟨false⟩, s)
    | none => (.error notFoundError, s)
  remove p _ force := fun s => match s p with
    | some _ => (.ok (), Function.update s p none)
    | none => (if force then .ok () else .error notFoundError, s)
  files s := s
  read_ok := by
    intro p s t s' h
    cases hp : s p with
    | none => simp [hp] at h
    | some u => simp [hp] at h; simp [h]
  write_ok := by
    intro p t s s' h
    simpa using h.symm
  write_notFound := by
    intro p t s e s' h
    simp at h
  create_ok := by
    intro p r s s' h
    simpa using h.symm
  metadata_ok := by
    intro p s m s' h
    cases hp : s p with
    | none => simp [hp] at h
    | some u => simp [hp] at h; simp [h]
  remove_ok := by
    intro p s s' h
    cases hp : s p with
    | none => simp [hp] at h
    | some u => simp [hp] at h; simp [h]

section
variable (s : FileMap) (p : AbsolutePathBuf)

theorem map_read {t : Text} (h : s p = some t) :
    mapFileSystem.readFileText p s = (.ok t, s) := by
  simp [mapFileSystem, h]

@[simp] theorem map_write (t : Text) :
    mapFileSystem.writeFile p t s = (.ok (), Function.update s p (some t)) := rfl

theorem map_metadata {t : Text} (h : s p = some t) :
    mapFileSystem.getMetadata p s = (.ok ⟨false⟩, s) := by
  simp [mapFileSystem, h]

theorem map_remove {t : Text} (h : s p = some t) :
    mapFileSystem.remove p false false s = (.ok (), Function.update s p none) := by
  simp [mapFileSystem, h]

end

/-! ## Files and directories -/

inductive Entry where
  | file (text : Text)
  | directory
deriving DecidableEq, Repr

abbrev Tree : Type := AbsolutePathBuf → Option Entry

def Tree.files (s : Tree) : FileMap := fun p =>
  match s p with
  | some (.file t) => some t
  | _ => none

def Tree.isDirectory (s : Tree) (p : AbsolutePathBuf) : Bool :=
  p.comps = [] || s p = some .directory

def otherError (message : Text) : IoError := ⟨.other, message⟩

def createMissing (s : Tree) (ps : List AbsolutePathBuf) : Tree := fun p =>
  if s p = none ∧ p ∈ ps then some .directory else s p

theorem createMissing_files (s : Tree) (ps : List AbsolutePathBuf) :
    (createMissing s ps).files = s.files := by
  funext p
  unfold Tree.files createMissing
  by_cases h : s p = none ∧ p ∈ ps
  · simp [h.1, h.2]
  · rw [if_neg h]

theorem files_update_file (s : Tree) (p : AbsolutePathBuf) (t : Text) :
    (Tree.files (Function.update s p (some (.file t)))) =
      Function.update s.files p (some t) := by
  funext q
  unfold Tree.files
  by_cases h : q = p
  · subst h; simp
  · simp [h]

theorem files_update_none (s : Tree) (p : AbsolutePathBuf) :
    (Tree.files (Function.update s p none)) = Function.update s.files p none := by
  funext q
  unfold Tree.files
  by_cases h : q = p
  · subst h; simp
  · simp [h]

/-- Files in directories: a write needs its parent directory, and a removal a
file. -/
def treeFileSystem : LawfulFileSystem Tree where
  readFileText p := fun s => match s p with
    | some (.file t) => (.ok t, s)
    | some .directory => (.error (otherError "Is a directory (os error 21)".toList), s)
    | none => (.error notFoundError, s)
  writeFile p t := fun s =>
    if s.isDirectory p then (.error (otherError "Is a directory (os error 21)".toList), s)
    else match p.parent with
      | some parent =>
        if s.isDirectory parent then (.ok (), Function.update s p (some (.file t)))
        else (.error notFoundError, s)
      | none => (.error notFoundError, s)
  createDirectory p recursive := fun s =>
    if recursive then
      if p.ancestors.any fun q => (s.files q).isSome then
        (.error (otherError "Not a directory (os error 20)".toList), s)
      else (.ok (), createMissing s p.ancestors)
    else (.ok (), createMissing s [p])
  getMetadata p := fun s =>
    if s.isDirectory p then (.ok ⟨true⟩, s)
    else match s p with
      | some _ => (.ok ⟨false⟩, s)
      | none => (.error notFoundError, s)
  remove p _ force := fun s => match s p with
    | some (.file _) => (.ok (), Function.update s p none)
    | some .directory => (.error (otherError "Is a directory (os error 21)".toList), s)
    | none => (if force then .ok () else .error notFoundError, s)
  files := Tree.files
  read_ok := by
    intro p s t s' h
    cases hp : s p with
    | none => simp [hp] at h
    | some e =>
      cases e with
      | directory => simp [hp] at h
      | file u =>
        obtain ⟨rfl, rfl⟩ : u = t ∧ s = s' := by simpa [hp] using h
        simp [Tree.files, hp]
  write_ok := by
    intro p t s s' h
    by_cases hd : s.isDirectory p = true
    · simp [hd] at h
    · cases hp : p.parent with
      | none => simp [hd, hp] at h
      | some parent =>
        by_cases hpar : s.isDirectory parent = true
        · simp only [hd, hp, hpar, Bool.false_eq_true, if_false, if_true, Prod.mk.injEq,
            true_and] at h
          rw [← h, files_update_file]
        · simp [hd, hp, hpar] at h
  write_notFound := by
    intro p t s e s' h _
    by_cases hd : s.isDirectory p = true
    · simp [hd] at h; rw [h.2]
    · cases hp : p.parent with
      | none => simp [hd, hp] at h; rw [h.2]
      | some parent =>
        by_cases hpar : s.isDirectory parent = true
        · simp [hd, hp, hpar] at h
        · simp [hd, hp, hpar] at h; rw [h.2]
  create_ok := by
    intro p r s s' h
    cases r with
    | false =>
      simp at h
      rw [← h, createMissing_files]
    | true =>
      by_cases ha : (p.ancestors.any fun q => (s.files q).isSome) = true
      · simp only [ha, if_true, Prod.mk.injEq, reduceCtorEq, false_and] at h
      · simp only [ha, if_true, Bool.false_eq_true, if_false, Prod.mk.injEq, true_and] at h
        rw [← h, createMissing_files]
  metadata_ok := by
    intro p s m s' h
    by_cases hd : s.isDirectory p = true
    · simp [hd] at h; rw [h.2]
    · cases hp : s p with
      | none => simp [hd, hp] at h
      | some e => simp [hd, hp] at h; rw [h.2]
  remove_ok := by
    intro p s s' h
    cases hp : s p with
    | none => simp [hp] at h
    | some e =>
      cases e with
      | directory => simp [hp] at h
      | file u =>
        simp [hp] at h
        rw [← h, files_update_none]

/-! ## Failures and results -/

inductive ApplyFailure where
  | noFilesModified
  | io (context : Text) (source : IoError)
  | derive (error : ApplyPatchError)
deriving DecidableEq, Repr

def ApplyFailure.message : ApplyFailure → Option Text
  | .noFilesModified => some "No files were modified.".toList
  | .io context _ => some context
  | .derive (.ioError context source) => some (context ++ ": ".toList ++ source.message)
  | .derive (.computeReplacements message) => some message
  | .derive _ => none

section
variable (pathAbs : AbsolutePathBuf) (err : IoError)

def writeFailure : ApplyFailure := .io ("Failed to write file ".toList ++ pathAbs.display) err

def createParentFailure : ApplyFailure :=
  .io ("Failed to create parent directories for ".toList ++ pathAbs.display) err

def deleteFailure : ApplyFailure := .io ("Failed to delete file ".toList ++ pathAbs.display) err

def removeOriginalFailure : ApplyFailure :=
  .io ("Failed to remove original ".toList ++ pathAbs.display) err

def readFailure : ApplyPatchError :=
  .ioError ("Failed to read file to update ".toList ++ pathAbs.display) err

end

def pathIsDirectoryError : IoError := ⟨.invalidInput, "path is a directory".toList⟩

structure AffectedPaths where
  added : List PathBuf
  modified : List PathBuf
  deleted : List PathBuf
deriving DecidableEq, Repr

/-- The path a hunk reads: its source, also where it has a move destination. -/
def Hunk.resolvePath (homeDir : Option Text) (cwd : AbsolutePathBuf) : Hunk → AbsolutePathBuf
  | .updateFile path _ _ => resolvePathAgainstBase homeDir path cwd
  | hunk => resolvePathAgainstBase homeDir hunk.path cwd

section
variable {σ : Type} (fs : ExecutorFileSystem σ)

def createParent (pathAbs : AbsolutePathBuf) : Eff σ ApplyFailure Unit :=
  match pathAbs.parent with
  | some parentAbs => (fs.createDirectory parentAbs true).mapError (createParentFailure pathAbs)
  | none => pure ()

def writeFileWithMissingParentRetry (pathAbs : AbsolutePathBuf) (contents : Text) :
    Eff σ ApplyFailure Unit := fun s =>
  match fs.writeFile pathAbs contents s with
  | (.ok (), s) => (.ok (), s)
  | (.error err, s) =>
    if err.kind = .notFound then
      (do createParent fs pathAbs
          (fs.writeFile pathAbs contents).mapError (writeFailure pathAbs)) s
    else (.error (writeFailure pathAbs err), s)

def removeFile (pathAbs : AbsolutePathBuf) : Eff σ IoError Unit := do
  let metadata ← fs.getMetadata pathAbs
  if metadata.isDirectory then Eff.fail pathIsDirectoryError
  else fs.remove pathAbs false false

def deriveNewContentsFromChunks (pathAbs : AbsolutePathBuf) (chunks : List UpdateFileChunk) :
    Eff σ ApplyPatchError AppliedPatch := do
  let originalContents ← (fs.readFileText pathAbs).mapError (readFailure pathAbs)
  match deriveFromText originalContents pathAbs chunks with
  | .ok patch => pure patch
  | .error err => Eff.fail err

variable (homeDir : Option Text) (cwd : AbsolutePathBuf)

def applyHunk (affected : AffectedPaths) (hunk : Hunk) : Eff σ ApplyFailure AffectedPaths :=
  let affectedPath := hunk.path
  let pathAbs := hunk.resolvePath homeDir cwd
  match hunk with
  | .addFile _ contents => do
    writeFileWithMissingParentRetry fs pathAbs contents
    pure { affected with added := affected.added ++ [affectedPath] }
  | .deleteFile _ => do
    (removeFile fs pathAbs).mapError (deleteFailure pathAbs)
    pure { affected with deleted := affected.deleted ++ [affectedPath] }
  | .updateFile _ movePath chunks => do
    let patch ← (deriveNewContentsFromChunks fs pathAbs chunks).mapError .derive
    match movePath with
    | some dest => do
      writeFileWithMissingParentRetry fs (resolvePathAgainstBase homeDir dest cwd)
        patch.newContents
      (removeFile fs pathAbs).mapError (removeOriginalFailure pathAbs)
      pure { affected with modified := affected.modified ++ [affectedPath] }
    | none => do
      (fs.writeFile pathAbs patch.newContents).mapError (writeFailure pathAbs)
      pure { affected with modified := affected.modified ++ [affectedPath] }

def applyHunksLoop : List Hunk → AffectedPaths → Eff σ ApplyFailure AffectedPaths
  | [], affected => pure affected
  | hunk :: hunks, affected => do
    let affected ← applyHunk fs homeDir cwd affected hunk
    applyHunksLoop hunks affected

def applyHunksToFiles (hunks : List Hunk) : Eff σ ApplyFailure AffectedPaths :=
  if hunks = [] then Eff.fail .noFilesModified
  else applyHunksLoop fs homeDir cwd hunks ⟨[], [], []⟩

end

/-! ## Effects on the files -/

section
variable {σ : Type} (L : LawfulFileSystem σ) {p : AbsolutePathBuf} {t : Text} {s s' : σ}

theorem writeFileWithMissingParentRetry_files
    (h : writeFileWithMissingParentRetry L.toExecutorFileSystem p t s = (.ok (), s')) :
    L.files s' = Function.update (L.files s) p (some t) := by
  unfold writeFileWithMissingParentRetry at h
  rcases hw : L.writeFile p t s with ⟨r, s₁⟩
  rw [hw] at h
  cases r with
  | ok u =>
    obtain rfl : s₁ = s' := by simpa using h
    exact L.write_ok hw
  | error err =>
    by_cases hk : err.kind = .notFound
    · simp only [if_pos hk] at h
      obtain ⟨_, s₂, h1, h2⟩ := Eff.bind_eq_ok.mp h
      have hfiles : L.files s₂ = L.files s := by
        rw [← L.write_notFound hw hk]
        unfold createParent at h1
        cases hp : p.parent with
        | none =>
          rw [hp] at h1
          obtain rfl : s₁ = s₂ := (Prod.mk.inj h1).2
          rfl
        | some parent =>
          rw [hp] at h1
          exact L.create_ok (Eff.mapError_eq_ok.mp h1)
      rw [L.write_ok (Eff.mapError_eq_ok.mp h2), hfiles]
    · simp [if_neg hk] at h

theorem removeFile_files (h : removeFile L.toExecutorFileSystem p s = (.ok (), s')) :
    L.files s' = Function.update (L.files s) p none := by
  obtain ⟨m, s₁, h1, h2⟩ := Eff.bind_eq_ok.mp h
  by_cases hd : m.isDirectory = true
  · simp [hd] at h2
  · simp only [hd, Bool.false_eq_true, if_false] at h2
    rw [L.remove_ok h2, L.metadata_ok h1]

theorem deriveNewContentsFromChunks_ok {chunks : List UpdateFileChunk} {patch : AppliedPatch}
    (h : deriveNewContentsFromChunks L.toExecutorFileSystem p chunks s = (.ok patch, s')) :
    s' = s ∧ ∃ t, L.files s p = some t ∧ deriveFromText t p chunks = .ok patch := by
  obtain ⟨t, s₁, h1, h2⟩ := Eff.bind_eq_ok.mp h
  obtain ⟨rfl, ht⟩ := L.read_ok (Eff.mapError_eq_ok.mp h1)
  cases hd : deriveFromText t p chunks with
  | error e => simp [hd] at h2
  | ok q =>
    simp only [hd, Eff.pure_run, Prod.mk.injEq, Except.ok.injEq] at h2
    obtain ⟨rfl, rfl⟩ := h2
    exact ⟨rfl, t, ht, hd⟩

variable (homeDir : Option Text) (cwd : AbsolutePathBuf)

inductive HunkEffect (F : FileMap) : Hunk → FileMap → Prop
  | add (path contents) :
    HunkEffect F (.addFile path contents)
      (Function.update F (resolvePathAgainstBase homeDir path cwd) (some contents))
  | delete (path) :
    HunkEffect F (.deleteFile path)
      (Function.update F (resolvePathAgainstBase homeDir path cwd) none)
  | update (path chunks t patch) (read : F (resolvePathAgainstBase homeDir path cwd) = some t)
    (derived : deriveFromText t (resolvePathAgainstBase homeDir path cwd) chunks = .ok patch) :
    HunkEffect F (.updateFile path none chunks)
      (Function.update F (resolvePathAgainstBase homeDir path cwd) (some patch.newContents))
  | move (path dest chunks t patch) (read : F (resolvePathAgainstBase homeDir path cwd) = some t)
    (derived : deriveFromText t (resolvePathAgainstBase homeDir path cwd) chunks = .ok patch) :
    HunkEffect F (.updateFile path (some dest) chunks)
      (Function.update
        (Function.update F (resolvePathAgainstBase homeDir dest cwd) (some patch.newContents))
        (resolvePathAgainstBase homeDir path cwd) none)

theorem applyHunk_files {affected affected' : AffectedPaths} {hunk : Hunk}
    (h : applyHunk L.toExecutorFileSystem homeDir cwd affected hunk s = (.ok affected', s')) :
    HunkEffect homeDir cwd (L.files s) hunk (L.files s') := by
  cases hunk with
  | addFile path contents =>
    obtain ⟨_, s₁, h1, h2⟩ := Eff.bind_eq_ok.mp h
    obtain rfl : s₁ = s' := (Prod.mk.inj h2).2
    rw [writeFileWithMissingParentRetry_files L h1]
    exact .add path contents
  | deleteFile path =>
    obtain ⟨_, s₁, h1, h2⟩ := Eff.bind_eq_ok.mp h
    obtain rfl : s₁ = s' := (Prod.mk.inj h2).2
    rw [removeFile_files L (Eff.mapError_eq_ok.mp h1)]
    exact .delete path
  | updateFile path movePath chunks =>
    obtain ⟨patch, s₁, h1, h2⟩ := Eff.bind_eq_ok.mp h
    obtain ⟨rfl, t, ht, hd⟩ := deriveNewContentsFromChunks_ok L (Eff.mapError_eq_ok.mp h1)
    cases movePath with
    | none =>
      obtain ⟨_, s₂, h3, h4⟩ := Eff.bind_eq_ok.mp h2
      obtain rfl : s₂ = s' := (Prod.mk.inj h4).2
      rw [L.write_ok (Eff.mapError_eq_ok.mp h3)]
      exact .update path chunks t patch ht hd
    | some dest =>
      obtain ⟨_, s₂, h3, h4⟩ := Eff.bind_eq_ok.mp h2
      obtain ⟨_, s₃, h5, h6⟩ := Eff.bind_eq_ok.mp h4
      obtain rfl : s₃ = s' := (Prod.mk.inj h6).2
      rw [removeFile_files L (Eff.mapError_eq_ok.mp h5),
        writeFileWithMissingParentRetry_files L h3]
      exact .move path dest chunks t patch ht hd

/-! ## Moves -/

/-- The outcome a move promises: its destination holds the derived contents, and
no third path has changed. -/
def MoveSafe (path dest : PathBuf) (chunks : List UpdateFileChunk) (s s' : σ) : Prop :=
  let source := resolvePathAgainstBase homeDir path cwd
  let target := resolvePathAgainstBase homeDir dest cwd
  (∃ patch, (deriveNewContentsFromChunks L.toExecutorFileSystem source chunks s).1 = .ok patch ∧
    L.files s' target = some patch.newContents) ∧
  ∀ q, q ≠ source → q ≠ target → L.files s' q = L.files s q

theorem applyHunksToFiles_singleton {hunk : Hunk} {affected : AffectedPaths}
    (h : applyHunksToFiles L.toExecutorFileSystem homeDir cwd [hunk] s = (.ok affected, s')) :
    applyHunk L.toExecutorFileSystem homeDir cwd ⟨[], [], []⟩ hunk s = (.ok affected, s') := by
  obtain ⟨a, s₁, h1, h2⟩ := Eff.bind_eq_ok.mp h
  obtain ⟨h3, rfl⟩ := Prod.mk.inj h2
  obtain rfl := Except.ok.inj h3
  exact h1

/-- A move that is reported as successful is safe exactly when its destination does
not resolve to its source: the source is removed after the destination is written. -/
theorem moveSafe_iff {path dest : PathBuf} {chunks : List UpdateFileChunk}
    {affected : AffectedPaths}
    (h : applyHunksToFiles L.toExecutorFileSystem homeDir cwd
      [.updateFile path (some dest) chunks] s = (.ok affected, s')) :
    MoveSafe L homeDir cwd path dest chunks s s' ↔
      resolvePathAgainstBase homeDir dest cwd ≠ resolvePathAgainstBase homeDir path cwd := by
  have h1 := applyHunksToFiles_singleton L homeDir cwd h
  have heff := applyHunk_files L homeDir cwd h1
  obtain ⟨patch, s₁, h2, -⟩ := Eff.bind_eq_ok.mp h1
  have hderive := Eff.mapError_eq_ok.mp h2
  obtain ⟨-, t, ht, hd⟩ := deriveNewContentsFromChunks_ok L hderive
  change deriveNewContentsFromChunks L.toExecutorFileSystem
    (resolvePathAgainstBase homeDir path cwd) chunks s = _ at hderive
  generalize hF : L.files s' = F' at heff
  cases heff with
  | move _ _ _ t' patch' ht' hd' =>
    unfold MoveSafe
    simp only [hF, hderive]
    constructor
    · rintro ⟨⟨_, -, htarget⟩, -⟩ heq
      rw [heq, update_self] at htarget
      simp at htarget
    · intro hne
      obtain rfl : t = t' := Option.some.inj (ht.symm.trans ht')
      obtain rfl : patch = patch' := Except.ok.inj (hd.symm.trans hd')
      refine ⟨⟨patch, rfl, ?_⟩, ?_⟩
      · rw [update_of_ne hne, update_self]
      · intro q hq1 hq2
        rw [update_of_ne hq1, update_of_ne hq2]

end

def workDir : AbsolutePathBuf := ⟨["w".toList], by decide⟩

def fileA : AbsolutePathBuf := ⟨["w".toList, "a".toList], by decide⟩

def oneFileTree : Tree := fun p =>
  if p = workDir then some .directory
  else if p = fileA then some (.file "old\n".toList)
  else none

def oneLineChunk : UpdateFileChunk := ⟨none, ["old".toList], ["new".toList], false⟩

/-- Moving `a` to `./a` is reported as a modification and deletes the file. -/
theorem move_onto_itself_deletes :
    (applyHunksToFiles treeFileSystem.toExecutorFileSystem none workDir
      [.updateFile "a".toList (some "./a".toList) [oneLineChunk]] oneFileTree).1 =
        .ok ⟨[], ["./a".toList], []⟩ ∧
    ¬ MoveSafe treeFileSystem none workDir "a".toList "./a".toList [oneLineChunk] oneFileTree
      (applyHunksToFiles treeFileSystem.toExecutorFileSystem none workDir
        [.updateFile "a".toList (some "./a".toList) [oneLineChunk]] oneFileTree).2 := by
  refine ⟨by decide, ?_⟩
  rintro ⟨⟨patch, -, h⟩, -⟩
  have hgone : treeFileSystem.files (applyHunksToFiles treeFileSystem.toExecutorFileSystem none
      workDir [.updateFile "a".toList (some "./a".toList) [oneLineChunk]] oneFileTree).2
        (resolvePathAgainstBase none "./a".toList workDir) = none := by decide
  rw [hgone] at h
  simp at h

theorem moveSafe_iff_new_directory :
    MoveSafe treeFileSystem none workDir "a".toList "sub/b".toList [oneLineChunk] oneFileTree
      (applyHunksToFiles treeFileSystem.toExecutorFileSystem none workDir
        [.updateFile "a".toList (some "sub/b".toList) [oneLineChunk]] oneFileTree).2 ↔
    resolvePathAgainstBase none "sub/b".toList workDir ≠
      resolvePathAgainstBase none "a".toList workDir := by
  have h : applyHunksToFiles treeFileSystem.toExecutorFileSystem none workDir
      [.updateFile "a".toList (some "sub/b".toList) [oneLineChunk]] oneFileTree =
        (.ok ⟨[], ["sub/b".toList], []⟩, _) := Prod.ext (by decide) rfl
  exact moveSafe_iff treeFileSystem none workDir h

end Codex
