import Codex.LinuxSandbox.Executable

/-!
# Carrying out the arguments of a policy

The arguments made for a policy on a tree without symbolic links can be carried out
exactly if the paths of the policy do not get in each other's way. A denied directory
inside another one does: it is gone when its own mask is mounted.
-/

namespace Codex.LinuxSandbox

open Foundation List

def Compatible (policy : FileSystemSandboxPolicy) (host : Host) (cwd : Text)
    (expanded : List AbsolutePathBuf) : Prop :=
  let unreadable := maskedRoots host policy cwd expanded
  let roots := mountedWritableRoots host policy cwd
  Executable host (roots.map WritableRoot.root) unreadable
    (mountedReadOnlySubpaths host policy cwd unreadable) (sortByDepth WritableRoot.root roots)

section
variable {host : Host} {policy : FileSystemSandboxPolicy} {cwd : Text}
  {unreadable expanded : List AbsolutePathBuf} {w : WritableRoot} {q : AbsolutePathBuf}

theorem restricted_of_notFullWrite (hfull : policy.hasFullDiskWriteAccess = false) :
    policy.kind = .restricted := by
  unfold FileSystemSandboxPolicy.hasFullDiskWriteAccess at hfull
  split at hfull
  · assumption
  · cases hfull

theorem mem_mountedWritableRoots (h : w ∈ mountedWritableRoots host policy cwd) :
    w = ⟨.root, [], []⟩ ∨ policy.hasFullDiskWriteAccess = false ∧
      w ∈ policy.getWritableRootsWithCwd host cwd ∧ host.pathExists w.root = true := by
  unfold mountedWritableRoots at h
  dsimp only at h
  split at h
  · exact .inl (mem_singleton.mp h)
  · obtain ⟨hmem, hthere⟩ := mem_filter.mp h
    refine .inr ⟨?_, hmem, hthere⟩
    by_contra hfull
    unfold FileSystemSandboxPolicy.getWritableRootsWithCwd at hmem
    rw [if_pos (by simpa using hfull)] at hmem
    exact absurd hmem not_mem_nil

theorem mountedRoot_exists (htree : host.IsTree) (h : w ∈ mountedWritableRoots host policy cwd) :
    host.pathExists w.root = true := by
  rcases mem_mountedWritableRoots h with rfl | ⟨-, -, hthere⟩
  · exact htree.exists_of_isDir _ htree.root
  · exact hthere

theorem gitdir_exists {dotGitFile : AbsolutePathBuf}
    (h : resolveGitdirFromFile host dotGitFile = some q) : host.pathExists q = true := by
  unfold resolveGitdirFromFile at h
  repeat' (split at h)
  all_goals try cases h
  dsimp only at h
  split at h
  · rename_i hthere
    cases h
    exact hthere
  · cases h

theorem gitPointer_exists {r : AbsolutePathBuf} (h : gitPointer host r = some q) :
    host.pathExists q = true := by
  unfold gitPointer at h
  split at h
  · exact gitdir_exists h
  · cases h

theorem missing_inside (htree : host.IsTree) (hw : w ∈ mountedWritableRoots host policy cwd)
    (hq : q ∈ mountedReadOnlySubpaths host policy cwd unreadable w)
    (hmissing : host.pathExists q = false) : w.root.comps <+: q.comps := by
  have hsub : q ∈ w.readOnlySubpaths := (mem_filter.mp (mem_filter.mp hq).1).1
  rcases mem_mountedWritableRoots hw with rfl | ⟨hfull, hmem, -⟩
  · exact absurd hsub not_mem_nil
  · have hkind := restricted_of_notFullWrite hfull
    obtain ⟨r, -, rfl⟩ :=
      (FileSystemSandboxPolicy.mem_getWritableRoots hkind hfull htree.noSymlinks).mp hmem
    rcases (FileSystemSandboxPolicy.mem_readOnlySubpaths hkind hfull htree.noSymlinks).mp hsub with
      ⟨hptr | ⟨m, hdef, rfl⟩, -⟩ | ⟨-, -, habove⟩
    · rw [gitPointer_exists hptr] at hmissing
      cases hmissing
    · exact (above_join_metadata host r hdef.mem).1
    · exact habove.1

theorem writePaths_exist (htree : host.IsTree) :
    ∀ root ∈ (mountedWritableRoots host policy cwd).map WritableRoot.root,
      host.pathExists root = true := by
  intro root hroot
  obtain ⟨w, hw, rfl⟩ := mem_map.mp hroot
  exact mountedRoot_exists htree hw

theorem planMounts_valid (htree : host.IsTree) {fd : ℕ} (policy : FileSystemSandboxPolicy)
    (cwd : Text) (unreadable : List AbsolutePathBuf) :
    ∀ m ∈ planMounts host fd ((mountedWritableRoots host policy cwd).map WritableRoot.root)
      unreadable policy cwd (mountedWritableRoots host policy cwd)
      (mountedReadOnlySubpaths host policy cwd unreadable), m.Valid host := by
  intro m hm
  unfold planMounts at hm
  simp only [mem_append, mem_flatMap, mem_sortByDepth] at hm
  rcases hm with hm | ⟨u, -, hm⟩ | ⟨w, hw, hm⟩ | ⟨u, -, hm⟩
  · exact (opens_bootstrap htree policy cwd m hm).valid
  · exact valid_denied htree m hm
  · exact valid_root htree (writePaths_exist htree) (mem_map.mpr ⟨w, hw, rfl⟩) m hm
  · exact valid_denied htree m hm

end

/-- The arguments made for a policy can be carried out in order exactly if its paths are
compatible. -/
theorem filesystemArgs_run_iff {host : Host} (htree : host.IsTree)
    {openDevNull : Except Text ℕ} {policy : FileSystemSandboxPolicy} {cwd : Text}
    {expandUnreadableGlobs : List Text → Text → Option ℕ → Except Text (List AbsolutePathBuf)}
    {globScanMaxDepth : Option ℕ} {expanded : List AbsolutePathBuf}
    (hexpand : expandUnreadableGlobs (policy.getUnreadableGlobsWithCwd host cwd) cwd
      globScanMaxDepth = .ok expanded) {out : BwrapArgs}
    (hok : createFilesystemArgs host openDevNull policy cwd expandUnreadableGlobs globScanMaxDepth =
      .ok out) :
    (∃ view, buildView host out.ops = .ok view) ↔ Compatible policy host cwd expanded := by
  obtain ⟨expanded', fd, hexpand', hops⟩ := createFilesystemArgs_ok htree hok
  rw [hexpand] at hexpand'
  cases hexpand'
  have hroots : ∀ r, r ∈ (mountedWritableRoots host policy cwd).map WritableRoot.root ↔
      ∃ w ∈ mountedWritableRoots host policy cwd, w.root = r := fun r => mem_map
  unfold buildView
  rw [hops, buildView_mounts,
    applyMounts_ok_iff htree (planMounts_valid htree policy cwd (maskedRoots host policy cwd expanded))]
  refine goes_iff.symm.trans ?_
  exact goes_plan htree (writePaths_exist htree) hroots fun w hw q hq hmissing =>
    missing_inside htree hw hq hmissing

/-! ## Small trees -/

def treeHost (dirs files : List AbsolutePathBuf) : Host :=
  { paths := ⟨none, none⟩
    tmpdirVar := none
    isDir := fun p => p ∈ dirs
    isFile := fun p => p ∈ files
    pathExists := fun p => p ∈ dirs ++ files
    readToString := fun _ => none
    symlinkMetadata := fun p => if p ∈ dirs ++ files then some false else none
    canonicalize := fun p => if p ∈ dirs ++ files then some p else none }

theorem treeHost_isTree {dirs files : List AbsolutePathBuf} (hroot : .root ∈ dirs)
    (habove : ∀ q ∈ dirs ++ files, ∀ p ∈ q.ancestors, p = q ∨ p ∈ dirs) :
    (treeHost dirs files).IsTree where
  root := decide_eq_true hroot
  exists_of_isDir := fun _ hp =>
    decide_eq_true (mem_append_left _ (of_decide_eq_true hp))
  isDir_above := fun p q hpq hq => decide_eq_true <|
    (habove q (of_decide_eq_true hq) p (AbsolutePathBuf.mem_ancestors.mpr hpq.1)).resolve_left hpq.2
  noSymlinks := by
    intro p q hq
    unfold treeHost at hq
    dsimp only at hq
    split at hq
    · exact (Option.some.inj hq).symm
    · cases hq
  notSymlink := by
    intro p
    unfold treeHost
    dsimp only
    split <;> simp

def deniedDir : AbsolutePathBuf := ⟨[['a']], by decide⟩

def deniedInside : AbsolutePathBuf := ⟨[['a'], ['b']], by decide⟩

def deepRoot : AbsolutePathBuf := ⟨[['a'], ['b'], ['c']], by decide⟩

def smallHost : Host := treeHost [.root, devPath, deniedDir, deniedInside, deepRoot] []

theorem smallHost_isTree : smallHost.IsTree := treeHost_isTree (by decide) (by decide)

/-- A writable root with a denied directory in which another root is writable. -/
def reopenedInside : FileSystemSandboxPolicy :=
  .ofRestricted [⟨.path deniedDir, .write⟩, ⟨.path deniedInside, .none⟩, ⟨.path deepRoot, .write⟩]

def noGlobs (_patterns : List Text) (_cwd : Text) (_depth : Option ℕ) :
    Except Text (List AbsolutePathBuf) := .ok []

def reopenedArgs : BwrapArgs :=
  ⟨[.tmpfs none .root, .dev devPath, .roBind deniedDir deniedDir, .roBind deepRoot deepRoot,
    .bind deniedDir deniedDir, .tmpfs (some ['1', '1', '1']) deniedInside, .dir deepRoot,
    .remountRo deniedInside, .dir deepRoot, .bind deepRoot deepRoot], []⟩

theorem filesystemArgs_run_iff_reopened :
    (∃ view, buildView smallHost reopenedArgs.ops = .ok view) ↔
      Compatible reopenedInside smallHost ['/'] [] :=
  have hok : createFilesystemArgs smallHost (.ok 9) reopenedInside ['/'] noGlobs none =
      .ok reopenedArgs := by decide +kernel
  filesystemArgs_run_iff smallHost_isTree rfl hok

/-- Both a directory and one inside it are denied: the inner mask has nowhere to go. -/
def deniedTwice : FileSystemSandboxPolicy :=
  .ofRestricted [⟨.special .root, .read⟩, ⟨.path deniedDir, .none⟩, ⟨.path deniedInside, .none⟩]

def deniedTwiceArgs : BwrapArgs :=
  ⟨wholeDiskOps ++ [.tmpfs (some ['0', '0', '0']) deniedDir, .remountRo deniedDir,
    .tmpfs (some ['0', '0', '0']) deniedInside, .remountRo deniedInside], []⟩

theorem nested_denied_not_mounted : smallHost.IsTree ∧
      createFilesystemArgs smallHost (.ok 9) deniedTwice ['/'] noGlobs none = .ok deniedTwiceArgs ∧
        ∀ view, buildView smallHost deniedTwiceArgs.ops ≠ .ok view := by
  refine ⟨smallHost_isTree, by decide +kernel, fun view hview => ?_⟩
  have hfails : (buildView smallHost deniedTwiceArgs.ops).isOk = false := by decide +kernel
  rw [hview] at hfails
  cases hfails

end Codex.LinuxSandbox
