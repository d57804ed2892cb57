import Codex.LinuxSandbox.Mounts

/-!
# The mounts of a policy

On a tree without symbolic links the arguments of a policy are those of a list of
mounts: the start of the view, the denied directories above the writable roots, each
writable root with what is read only or denied inside it, and the other denied paths.
-/

namespace Codex.LinuxSandbox

open Foundation List

section
variable (host : Host) (fd : ℕ) (allowed unreadable : List AbsolutePathBuf)

def missingMounts (path : AbsolutePathBuf) : List Mount :=
  match findFirstNonExistentComponent host path with
  | some c => if isWithinAllowedWritePaths c allowed then [.forbid c] else []
  | none => []

def readOnlyMounts (subpath : AbsolutePathBuf) : List Mount :=
  if !host.pathExists subpath then missingMounts host allowed subpath
  else if isWithinAllowedWritePaths subpath allowed then [.expose false subpath]
  else []

def waysFrom (path : AbsolutePathBuf) : List AbsolutePathBuf :=
  (sortByDepth id (writableDescendants path allowed)).flatMap fun root =>
    mountTargetDirs host root path

def maskPerms (path : AbsolutePathBuf) : Text :=
  if writableDescendants path allowed = [] then ['0', '0', '0'] else ['1', '1', '1']

def deniedMounts (path : AbsolutePathBuf) : List Mount :=
  if !host.pathExists path then missingMounts host allowed path
  else if host.isDir path then [.mask (maskPerms allowed path) path (waysFrom host allowed path)]
  else [.maskFile fd path]

def rootDirs (root : AbsolutePathBuf) : List AbsolutePathBuf :=
  match Foundation.maxByKey pathDepth (unreadable.filter fun path => root.startsWith path) with
  | some maskingRoot => mountTargetDirs host root maskingRoot
  | none => []

def rootMounts (readOnly : WritableRoot → List AbsolutePathBuf) (writableRoot : WritableRoot) :
    List Mount :=
  (rootDirs host unreadable writableRoot.root).map .dir ++
    (.expose true writableRoot.root ::
      ((sortByDepth id (readOnly writableRoot)).flatMap (readOnlyMounts host allowed) ++
        (sortByDepth id (unreadable.filter fun path => path.startsWith writableRoot.root)).flatMap
          (deniedMounts host fd allowed)))

def wholeDiskMounts : List Mount := [.expose false .root, .dev devPath]

variable (policy : FileSystemSandboxPolicy) (cwd : Text)

def bootstrapMounts : List Mount :=
  if policy.hasFullDiskReadAccess then wholeDiskMounts
  else if .root ∈ readableRootsToMount host policy cwd then wholeDiskMounts
  else
    [.empty .root, .dev devPath] ++
      ((readableRootsToMount host policy cwd).filter host.pathExists).map (.expose false)

/-- The denied paths above a writable root and outside all of them. -/
def deniedAncestors : List AbsolutePathBuf :=
  unreadable.filter fun path =>
    !(allowed.any fun root => path.startsWith root) && allowed.any fun root => root.startsWith path

def deniedElsewhere : List AbsolutePathBuf :=
  unreadable.filter fun path =>
    !(allowed.any fun root => path.startsWith root || root.startsWith path)

def planMounts (roots : List WritableRoot) (readOnly : WritableRoot → List AbsolutePathBuf) :
    List Mount :=
  bootstrapMounts host policy cwd ++
    ((sortByDepth id (deniedAncestors allowed unreadable)).flatMap (deniedMounts host fd allowed) ++
      ((sortByDepth WritableRoot.root roots).flatMap
          (rootMounts host fd allowed unreadable readOnly) ++
        (sortByDepth id (deniedElsewhere allowed unreadable)).flatMap
          (deniedMounts host fd allowed)))

end

def HasNull (openDevNull : Except Text ℕ) (fd : ℕ) (args : BwrapArgs) : Prop :=
  openDevNull = .ok fd ∧ args.preservedFiles = [fd] ∨ args.preservedFiles = []

def Extends (openDevNull : Except Text ℕ) (fd : ℕ) (ms : List Mount) (args args' : BwrapArgs) :
    Prop := HasNull openDevNull fd args' ∧ args'.ops = args.ops ++ ms.flatMap Mount.ops

variable {openDevNull : Except Text ℕ} {fd : ℕ} {args args' : BwrapArgs} {ms : List Mount}

theorem extends_push (h : HasNull openDevNull fd args) (ms : List Mount) :
    Extends openDevNull fd ms args (args.push (ms.flatMap Mount.ops)) := ⟨h, rfl⟩

theorem Extends.trans {args'' : BwrapArgs} {ms' : List Mount}
    (h : Extends openDevNull fd ms args args') (h' : Extends openDevNull fd ms' args' args'') :
    Extends openDevNull fd (ms ++ ms') args args'' := by
  refine ⟨h'.1, ?_⟩
  rw [h'.2, h.2, flatMap_append, List.append_assoc]

theorem extends_foldlM {α : Type} {step : BwrapArgs → α → Except Text BwrapArgs}
    {mounts : α → List Mount} (hstep : ∀ args a args', HasNull openDevNull fd args →
      step args a = .ok args' → Extends openDevNull fd (mounts a) args args')
    (hargs : HasNull openDevNull fd args) {l : List α} (h : l.foldlM step args = .ok args') :
    Extends openDevNull fd (l.flatMap mounts) args args' := by
  induction l using List.reverseRecOn generalizing args' with
  | nil =>
    cases h
    exact ⟨hargs, by simp⟩
  | append_singleton l a ih =>
    obtain ⟨mid, hmid, hlast⟩ := run_snoc.mp h
    have hfirst := ih hmid
    rw [flatMap_append, flatMap_singleton]
    exact hfirst.trans (hstep mid a args' hfirst.1 hlast)

/-! ## Trees without symbolic links -/

variable {host : Host} {allowed : List AbsolutePathBuf} {path : AbsolutePathBuf}

theorem canonicalTarget_eq_none (htree : host.IsTree) (path : AbsolutePathBuf) :
    canonicalTargetIfSymlinkedPath host path = none := by
  unfold canonicalTargetIfSymlinkedPath
  split
  · rfl
  · rw [if_neg (htree.notSymlink _)]

theorem firstWritableSymlink_eq_none (htree : host.IsTree) (path : AbsolutePathBuf)
    (allowed : List AbsolutePathBuf) :
    firstWritableSymlinkComponentInPath host path allowed = none := by
  refine List.find?_eq_none.mpr fun current _ => ?_
  rw [decide_eq_false (htree.notSymlink current)]
  simp

theorem allowedWritePaths_eq (htree : host.IsTree) (roots : List WritableRoot) :
    allowedWritePaths host roots = roots.map WritableRoot.root := by
  unfold allowedWritePaths
  simp only [canonicalTarget_eq_none htree, Option.toList_none]
  rw [← map_eq_flatMap]

theorem missing_extends (h : HasNull openDevNull fd args) :
    Extends openDevNull fd (missingMounts host allowed path) args
      (appendMissingPathArgs host args path allowed) := by
  unfold missingMounts appendMissingPathArgs
  cases findFirstNonExistentComponent host path with
  | none => exact ⟨h, by simp⟩
  | some c =>
    dsimp only
    split
    · exact extends_push h [.forbid c]
    · exact ⟨h, by simp⟩

theorem readOnly_extends (htree : host.IsTree) (h : HasNull openDevNull fd args)
    (hok : appendReadOnlySubpathArgs host args path allowed = .ok args') :
    Extends openDevNull fd (readOnlyMounts host allowed path) args args' := by
  unfold appendReadOnlySubpathArgs at hok
  rw [firstWritableSymlink_eq_none htree] at hok
  unfold readOnlyMounts
  dsimp only at hok
  split at hok
  · rename_i hmissing
    cases hok
    rw [if_pos hmissing]
    exact missing_extends h
  · rename_i hthere
    rw [if_neg hthere]
    split at hok
    · rename_i hwithin
      cases hok
      rw [if_pos hwithin]
      exact extends_push h [.expose false path]
    · rename_i hwithin
      cases hok
      rw [if_neg hwithin]
      exact ⟨h, by simp⟩

theorem foldl_dirs (dirs : AbsolutePathBuf → List AbsolutePathBuf) (l : List AbsolutePathBuf)
    (args : BwrapArgs) : l.foldl (fun args root => args.push ((dirs root).map .dir)) args =
      args.push ((l.flatMap dirs).map .dir) := by
  induction l generalizing args with
  | nil =>
    unfold BwrapArgs.push
    simp
  | cons root l ih =>
    rw [foldl_cons, ih, flatMap_cons, map_append]
    unfold BwrapArgs.push
    simp

theorem denied_extends (htree : host.IsTree) (h : HasNull openDevNull fd args)
    (hfd : ∀ n, openDevNull = .ok n → n = fd)
    (hok : appendUnreadableRootArgs host openDevNull args path allowed = .ok args') :
    Extends openDevNull fd (deniedMounts host fd allowed path) args args' := by
  unfold appendUnreadableRootArgs at hok
  rw [firstWritableSymlink_eq_none htree] at hok
  unfold deniedMounts
  dsimp only at hok
  split at hok
  · rename_i hmissing
    cases hok
    rw [if_pos hmissing]
    exact missing_extends h
  · rename_i hthere
    rw [if_neg hthere]
    unfold appendExistingUnreadablePathArgs at hok
    split at hok
    · rename_i hdir
      rw [if_pos hdir]
      cases hok
      unfold appendMountTargetParentDirArgs
      rw [foldl_dirs]
      refine ⟨h, ?_⟩
      unfold BwrapArgs.push Mount.ops maskPerms waysFrom
      simp
    · rename_i hdir
      rw [if_neg hdir]
      split at hok
      · rename_i nullFd rest hfiles
        cases hok
        have hnull : nullFd = fd := by
          rcases h with ⟨-, hkept⟩ | hkept
          · rw [hkept] at hfiles
            exact (List.cons.inj hfiles).1.symm
          · rw [hkept] at hfiles
            cases hfiles
        subst hnull
        exact extends_push h [.maskFile nullFd path]
      · obtain ⟨nullFd, hopen, hok⟩ := bind_ok_iff.mp hok
        obtain rfl := hfd nullFd hopen
        cases hok
        exact ⟨.inl ⟨hopen, rfl⟩, by simp [BwrapArgs.push, Mount.ops]⟩

theorem rootDirs_push (host : Host) (unreadable : List AbsolutePathBuf) (root : AbsolutePathBuf)
    (args : BwrapArgs) : appendMaskedRootDirArgs host args unreadable root =
      args.push ((rootDirs host unreadable root).map .dir) := by
  unfold rootDirs appendMaskedRootDirArgs
  cases Foundation.maxByKey pathDepth (unreadable.filter fun path => root.startsWith path) with
  | none => simp [BwrapArgs.push]
  | some maskingRoot => rfl

theorem root_extends (htree : host.IsTree) {policy : FileSystemSandboxPolicy} {cwd : Text}
    {unreadable : List AbsolutePathBuf} {writableRoot : WritableRoot}
    (h : HasNull openDevNull fd args) (hfd : ∀ n, openDevNull = .ok n → n = fd)
    (hok : appendWritableRootArgs host openDevNull policy cwd unreadable allowed args writableRoot =
      .ok args') : Extends openDevNull fd (rootMounts host fd allowed unreadable
      (mountedReadOnlySubpaths host policy cwd unreadable) writableRoot) args args' := by
  unfold appendWritableRootArgs at hok
  simp only [canonicalTarget_eq_none htree, rootDirs_push, Option.getD_none] at hok
  obtain ⟨mid, hmid, hlast⟩ := bind_ok_iff.mp hok
  have hdirs := extends_push h ((rootDirs host unreadable writableRoot.root).map .dir)
  have hops : ((rootDirs host unreadable writableRoot.root).map Mount.dir).flatMap Mount.ops =
      (rootDirs host unreadable writableRoot.root).map .dir := by
    rw [flatMap_map]
    exact (map_eq_flatMap).symm
  rw [hops] at hdirs
  have hbind := extends_push hdirs.1 [.expose true writableRoot.root]
  have hread := extends_foldlM (fun args q args' hargs hq => readOnly_extends htree hargs hq)
    hbind.1 hmid
  have hdeny := extends_foldlM (fun args q args' hargs hq => denied_extends htree hargs hfd hq)
    hread.1 hlast
  exact hdirs.trans (hbind.trans (hread.trans hdeny))

theorem bootstrap_ops (htree : host.IsTree) (policy : FileSystemSandboxPolicy) (cwd : Text)
    (roots : List WritableRoot) :
    bootstrapOps host policy cwd roots = (bootstrapMounts host policy cwd).flatMap Mount.ops := by
  unfold bootstrapOps bootstrapMounts
  dsimp only
  split
  · rfl
  · split
    · rfl
    · rw [flatMap_append, flatMap_map]
      refine congrArg₂ (· ++ ·) rfl ?_
      rw [map_eq_flatMap]
      refine congrArg (List.flatMap · _) (funext fun root => ?_)
      rw [canonicalTarget_eq_none htree, Option.getD_none, ite_self]
      rfl

theorem createFilesystemArgs_ok (htree : host.IsTree) {policy : FileSystemSandboxPolicy}
    {cwd : Text} {expand : List Text → Text → Option ℕ → Except Text (List AbsolutePathBuf)}
    {depth : Option ℕ} {out : BwrapArgs}
    (h : createFilesystemArgs host openDevNull policy cwd expand depth = .ok out) :
    ∃ expanded fd, expand (policy.getUnreadableGlobsWithCwd host cwd) cwd depth = .ok expanded ∧
      out.ops = (planMounts host fd ((mountedWritableRoots host policy cwd).map WritableRoot.root)
        (maskedRoots host policy cwd expanded) policy cwd (mountedWritableRoots host policy cwd)
        (mountedReadOnlySubpaths host policy cwd
          (maskedRoots host policy cwd expanded))).flatMap Mount.ops := by
  obtain ⟨fd, hfd⟩ : ∃ fd, ∀ n, openDevNull = .ok n → n = fd := by
    cases openDevNull with
    | error e => exact ⟨0, fun n hn => nomatch hn⟩
    | ok fd => exact ⟨fd, fun n hn => (Except.ok.inj hn).symm⟩
  obtain ⟨expanded, hexpand, h⟩ := bind_ok_iff.mp h
  simp only [allowedWritePaths_eq htree] at h
  obtain ⟨masked, hmasked, h⟩ := bind_ok_iff.mp h
  obtain ⟨opened, hopened, hlast⟩ := bind_ok_iff.mp h
  have hnull : HasNull openDevNull fd
      ⟨bootstrapOps host policy cwd (mountedWritableRoots host policy cwd), []⟩ := .inr rfl
  have hfirst := extends_foldlM (fun args q args' hargs hq => denied_extends htree hargs hfd hq)
    hnull hmasked
  have hmid := extends_foldlM (fun args w args' hargs hw => root_extends htree hargs hfd hw)
    hfirst.1 hopened
  have hrest := extends_foldlM (fun args q args' hargs hq => denied_extends htree hargs hfd hq)
    hmid.1 hlast
  refine ⟨expanded, fd, hexpand, ?_⟩
  have hall := (hfirst.trans (hmid.trans hrest)).2
  unfold planMounts
  rw [flatMap_append, ← bootstrap_ops htree policy cwd (mountedWritableRoots host policy cwd)]
  exact hall

end Codex.LinuxSandbox
