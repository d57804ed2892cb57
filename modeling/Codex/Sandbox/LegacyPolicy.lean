import Codex.Sandbox.ModeRequirements

/-!
# Legacy sandbox policies

A legacy policy is one of four modes. It is encoded as a file system policy, with entries
that keep metadata read only, and decoded again from the entries that may be written. The
round trip gives the policy back, without repeated roots and without the workspace among
its roots (`legacy_round_trip`).
-/

namespace Codex

open Foundation Requirements List

inductive NetworkAccess where
  | restricted
  | enabled
deriving DecidableEq

def NetworkAccess.isEnabled (access : NetworkAccess) : Bool := access = .enabled

inductive SandboxPolicy where
  | dangerFullAccess
  | readOnly (networkAccess : Bool)
  | externalSandbox (networkAccess : NetworkAccess)
  | workspaceWrite (writableRoots : List AbsolutePathBuf)
      (networkAccess excludeTmpdirEnvVar excludeSlashTmp : Bool)
deriving DecidableEq

def SandboxPolicy.hasFullNetworkAccess : SandboxPolicy → Bool
  | .dangerFullAccess => true
  | .externalSandbox networkAccess => networkAccess.isEnabled
  | .readOnly networkAccess => networkAccess
  | .workspaceWrite _ networkAccess _ _ => networkAccess

def SandboxPolicy.networkSandboxPolicy (policy : SandboxPolicy) : NetworkSandboxPolicy :=
  if policy.hasFullNetworkAccess then .enabled else .restricted

def networkIsEnabled (policy : NetworkSandboxPolicy) : Bool := policy = .enabled

/-! ## Encoding -/

def appendDefaultReadOnlyEntryIfNoExplicitRule (entries : List FileSystemSandboxEntry)
    (path : FileSystemPath) : List FileSystemSandboxEntry :=
  if entries.any fun entry => fileSystemPathsShareTarget entry.path path then entries
  else entries ++ [⟨path, .read⟩]

def appendDefaultReadOnlyProjectRootSubpathIfNoExplicitRule
    (entries : List FileSystemSandboxEntry) (subpath : Text) : List FileSystemSandboxEntry :=
  appendDefaultReadOnlyEntryIfNoExplicitRule entries
    (.special (.projectRoots (some (.ofText subpath))))

def appendDefaultReadOnlyPathIfNoExplicitRule (entries : List FileSystemSandboxEntry)
    (path : AbsolutePathBuf) : List FileSystemSandboxEntry :=
  appendDefaultReadOnlyEntryIfNoExplicitRule entries (.path path)

section
variable (host : Host)

def protectSubpaths (protectMissingDotCodex : Bool) (entries : List FileSystemSandboxEntry)
    (writableRoot : AbsolutePathBuf) : List FileSystemSandboxEntry :=
  (defaultReadOnlySubpathsForWritableRoot host writableRoot protectMissingDotCodex).foldl
    appendDefaultReadOnlyPathIfNoExplicitRule entries

namespace FileSystemSandboxPolicy

def workspaceEntries (writableRoots : List AbsolutePathBuf)
    (excludeTmpdirEnvVar excludeSlashTmp : Bool) : List FileSystemSandboxEntry :=
  [⟨.special .root, .read⟩, ⟨.special (.projectRoots none), .write⟩] ++
    (if excludeSlashTmp then [] else [⟨.special .slashTmp, .write⟩]) ++
    (if excludeTmpdirEnvVar then [] else [⟨.special .tmpdir, .write⟩]) ++
    writableRoots.map fun path => ⟨.path path, .write⟩

def workspaceWrite (writableRoots : List AbsolutePathBuf)
    (excludeTmpdirEnvVar excludeSlashTmp : Bool) : FileSystemSandboxPolicy :=
  let entries := protectedMetadataPathNames.foldl
    appendDefaultReadOnlyProjectRootSubpathIfNoExplicitRule
    (workspaceEntries writableRoots excludeTmpdirEnvVar excludeSlashTmp)
  .ofRestricted (writableRoots.foldl (protectSubpaths host false) entries)

def ofSandboxPolicy : SandboxPolicy → FileSystemSandboxPolicy
  | .dangerFullAccess => .unrestricted
  | .externalSandbox _ => .externalSandbox
  | .readOnly _ => .ofRestricted [⟨.special .root, .read⟩]
  | .workspaceWrite writableRoots _ excludeTmpdirEnvVar excludeSlashTmp =>
    workspaceWrite host writableRoots excludeTmpdirEnvVar excludeSlashTmp

def fromLegacySandboxPolicyForCwd (sandboxPolicy : SandboxPolicy) (cwd : Text) :
    FileSystemSandboxPolicy :=
  let fileSystemPolicy := ofSandboxPolicy host sandboxPolicy
  match sandboxPolicy with
  | .workspaceWrite writableRoots _ _ _ =>
    let entries :=
      match host.paths.absolutePath cwd with
      | some cwdRoot => protectSubpaths host true fileSystemPolicy.entries cwdRoot
      | none => fileSystemPolicy.entries
    { fileSystemPolicy with entries := writableRoots.foldl (protectSubpaths host false) entries }
  | _ => fileSystemPolicy

/-! ## Decoding -/

structure LegacyScan where
  workspaceRootWritable : Bool := false
  writableRoots : List AbsolutePathBuf := []
  tmpdirWritable : Bool := false
  slashTmpWritable : Bool := false
  unbridgeableRootWrite : Bool := false

def LegacyScan.visit (cwdAbsolute : Option AbsolutePathBuf) (scan : LegacyScan)
    (entry : FileSystemSandboxEntry) : LegacyScan :=
  match entry.path with
  | .globPattern _ => scan
  | .path path =>
    if entry.access.canWrite then
      if cwdAbsolute = some path then { scan with workspaceRootWritable := true }
      else { scan with writableRoots := scan.writableRoots ++ [path] }
    else scan
  | .special value =>
    match value with
    | .root =>
      match entry.access with
      | .none => scan
      | .read => scan
      | .write => { scan with unbridgeableRootWrite := true }
    | .minimal => scan
    | .projectRoots subpath =>
      if subpath.isNone && entry.access.canWrite then { scan with workspaceRootWritable := true }
      else
        match resolveFileSystemSpecialPath host value cwdAbsolute with
        | some path =>
          if entry.access.canWrite then
            { scan with writableRoots := scan.writableRoots ++ [path] }
          else scan
        | none => scan
    | .tmpdir => if entry.access.canWrite then { scan with tmpdirWritable := true } else scan
    | .slashTmp => if entry.access.canWrite then { scan with slashTmpWritable := true } else scan
    | .unknown _ _ => scan

def outsideWorkspaceRoot : Text :=
  ("permissions profile requests filesystem writes outside the workspace root, which is not " ++
    "supported until the runtime enforces FileSystemSandboxPolicy directly").toList

def toLegacySandboxPolicy (policy : FileSystemSandboxPolicy) (networkPolicy : NetworkSandboxPolicy)
    (cwd : Text) : Except Text SandboxPolicy :=
  match policy.kind with
  | .externalSandbox =>
    .ok (.externalSandbox (if networkIsEnabled networkPolicy then .enabled else .restricted))
  | .unrestricted =>
    if networkIsEnabled networkPolicy then .ok .dangerFullAccess
    else .ok (.externalSandbox .restricted)
  | .restricted =>
    let cwdAbsolute := host.paths.absolutePath cwd
    let scan := policy.entries.foldl (LegacyScan.visit host cwdAbsolute) {}
    if policy.hasFullDiskWriteAccess then
      if networkIsEnabled networkPolicy then .ok .dangerFullAccess
      else .ok (.externalSandbox .restricted)
    else if scan.workspaceRootWritable then
      .ok (.workspaceWrite (dedupAbsolutePaths host scan.writableRoots false)
        (networkIsEnabled networkPolicy) (!scan.tmpdirWritable) (!scan.slashTmpWritable))
    else if scan.unbridgeableRootWrite || scan.writableRoots ≠ [] || scan.tmpdirWritable ||
        scan.slashTmpWritable then .error outsideWorkspaceRoot
    else .ok (.readOnly (networkIsEnabled networkPolicy))

end FileSystemSandboxPolicy

end

def SandboxPolicy.normalizedRoots (cwd : Option AbsolutePathBuf) : SandboxPolicy → SandboxPolicy
  | .workspaceWrite writableRoots networkAccess excludeTmpdirEnvVar excludeSlashTmp =>
    .workspaceWrite (writableRoots.filter fun root => cwd ≠ some root).eraseDups networkAccess
      excludeTmpdirEnvVar excludeSlashTmp
  | policy => policy

/-! ## Carve-outs -/

def ReadsBehind (entries entries' : List FileSystemSandboxEntry) : Prop :=
  ∃ reads, entries' = entries ++ reads ∧ ∀ entry ∈ reads, entry.access = .read

theorem ReadsBehind.refl (entries : List FileSystemSandboxEntry) : ReadsBehind entries entries :=
  ⟨[], (append_nil entries).symm, by simp⟩

theorem ReadsBehind.trans {a b c : List FileSystemSandboxEntry} (h : ReadsBehind a b)
    (h' : ReadsBehind b c) : ReadsBehind a c := by
  obtain ⟨reads, rfl, hreads⟩ := h
  obtain ⟨more, rfl, hmore⟩ := h'
  refine ⟨reads ++ more, List.append_assoc a reads more, fun entry he => ?_⟩
  exact (mem_append.mp he).elim (hreads entry) (hmore entry)

theorem readsBehind_append (entries : List FileSystemSandboxEntry) (path : FileSystemPath) :
    ReadsBehind entries (appendDefaultReadOnlyEntryIfNoExplicitRule entries path) := by
  unfold appendDefaultReadOnlyEntryIfNoExplicitRule
  split
  · exact ReadsBehind.refl entries
  · exact ⟨[⟨path, .read⟩], rfl, by simp⟩

theorem readsBehind_foldl {α : Type}
    {append : List FileSystemSandboxEntry → α → List FileSystemSandboxEntry}
    (happend : ∀ entries a, ReadsBehind entries (append entries a)) (l : List α)
    (entries : List FileSystemSandboxEntry) : ReadsBehind entries (l.foldl append entries) := by
  induction l generalizing entries with
  | nil => exact ReadsBehind.refl entries
  | cons a l ih => exact (happend entries a).trans (ih _)

namespace FileSystemSandboxPolicy

section
variable (host : Host)

theorem readsBehind_protectSubpaths (protectMissingDotCodex : Bool)
    (entries : List FileSystemSandboxEntry) (root : AbsolutePathBuf) :
    ReadsBehind entries (protectSubpaths host protectMissingDotCodex entries root) :=
  readsBehind_foldl (fun entries path => readsBehind_append entries (.path path)) _ entries

theorem workspaceWrite_entries (roots : List AbsolutePathBuf) (tmpdir slashTmp : Bool) :
    ReadsBehind (workspaceEntries roots tmpdir slashTmp)
      (workspaceWrite host roots tmpdir slashTmp).entries :=
  (readsBehind_foldl (fun entries _ => readsBehind_append entries _) _ _).trans
    (readsBehind_foldl (readsBehind_protectSubpaths host false) roots _)

theorem fromLegacy_workspace (roots : List AbsolutePathBuf) (network tmpdir slashTmp : Bool)
    (cwd : Text) : ∃ reads, (∀ entry ∈ reads, entry.access = .read) ∧
      fromLegacySandboxPolicyForCwd host (.workspaceWrite roots network tmpdir slashTmp) cwd =
        .ofRestricted (workspaceEntries roots tmpdir slashTmp ++ reads) := by
  have hbehind : ReadsBehind (workspaceEntries roots tmpdir slashTmp)
      (fromLegacySandboxPolicyForCwd host (.workspaceWrite roots network tmpdir slashTmp)
        cwd).entries := by
    refine (workspaceWrite_entries host roots tmpdir slashTmp).trans ?_
    refine ReadsBehind.trans ?_ (readsBehind_foldl (readsBehind_protectSubpaths host false) roots _)
    cases host.paths.absolutePath cwd with
    | none => exact ReadsBehind.refl _
    | some cwdRoot => exact readsBehind_protectSubpaths host true _ cwdRoot
  obtain ⟨reads, hentries, hreads⟩ := hbehind
  refine ⟨reads, hreads, ?_⟩
  rw [← hentries]
  rfl

/-! ## What the decoder sees -/

variable (cwd : Option AbsolutePathBuf) (scan : LegacyScan)

theorem visit_read {entry : FileSystemSandboxEntry} (h : entry.access = .read) :
    scan.visit host cwd entry = scan := by
  have hwrite : entry.access.canWrite = false := by rw [h]; rfl
  unfold LegacyScan.visit
  cases entry.path with
  | globPattern pattern => rfl
  | path path => simp [hwrite]
  | special value =>
    cases value with
    | root => simp only [h]
    | minimal => rfl
    | projectRoots subpath =>
      simp only [hwrite, Bool.and_false, Bool.false_eq_true, if_false]
      split <;> rfl
    | tmpdir | slashTmp => simp [hwrite]
    | unknown path subpath => rfl

variable {reads : List FileSystemSandboxEntry}

theorem foldl_visit_reads (h : ∀ entry ∈ reads, entry.access = .read) :
    reads.foldl (LegacyScan.visit host cwd) scan = scan := by
  induction reads generalizing scan with
  | nil => rfl
  | cons entry reads ih =>
    rw [foldl_cons, visit_read host cwd scan (h entry mem_cons_self)]
    exact ih scan fun other ho => h other (mem_cons_of_mem _ ho)

theorem foldl_visit_roots (hworkspace : scan.workspaceRootWritable = true)
    (roots : List AbsolutePathBuf) :
    (roots.map fun path => (⟨.path path, .write⟩ : FileSystemSandboxEntry)).foldl
        (LegacyScan.visit host cwd) scan =
      { scan with writableRoots := scan.writableRoots ++ roots.filter fun root => cwd ≠ some root } := by
  induction roots generalizing scan with
  | nil => simp
  | cons root roots ih =>
    by_cases hcwd : cwd = some root
    · have hvisit : scan.visit host cwd ⟨.path root, .write⟩ = scan := by
        cases scan
        simp only at hworkspace
        simp [LegacyScan.visit, FileSystemAccessMode.canWrite, hcwd, hworkspace]
      rw [map_cons, foldl_cons, hvisit, ih scan hworkspace]
      simp [hcwd]
    · have hvisit : scan.visit host cwd ⟨.path root, .write⟩ =
          { scan with writableRoots := scan.writableRoots ++ [root] } := by
        simp [LegacyScan.visit, FileSystemAccessMode.canWrite, hcwd]
      rw [map_cons, foldl_cons, hvisit,
        ih { scan with writableRoots := scan.writableRoots ++ [root] } hworkspace]
      simp [hcwd]

theorem foldl_visit_workspace (roots : List AbsolutePathBuf) (tmpdir slashTmp : Bool)
    (h : ∀ entry ∈ reads, entry.access = .read) :
    (workspaceEntries roots tmpdir slashTmp ++ reads).foldl (LegacyScan.visit host cwd) {} =
      { workspaceRootWritable := true
        writableRoots := roots.filter fun root => cwd ≠ some root
        tmpdirWritable := !tmpdir
        slashTmpWritable := !slashTmp
        unbridgeableRootWrite := false } := by
  unfold workspaceEntries
  rw [foldl_append, foldl_visit_reads host cwd _ h, foldl_append, foldl_visit_roots host cwd]
  · cases tmpdir <;> cases slashTmp <;> rfl
  · cases tmpdir <;> cases slashTmp <;> rfl

theorem access_of_root {roots : List AbsolutePathBuf} {tmpdir slashTmp : Bool}
    {entry : FileSystemSandboxEntry} (he : entry ∈ workspaceEntries roots tmpdir slashTmp)
    (hpath : entry.path = .special .root) : entry.access = .read := by
  obtain ⟨path, access⟩ := entry
  obtain rfl : path = .special .root := hpath
  cases tmpdir <;> cases slashTmp <;> simpa [workspaceEntries] using he

theorem workspace_not_fullDisk (roots : List AbsolutePathBuf) (tmpdir slashTmp : Bool)
    (h : ∀ entry ∈ reads, entry.access = .read) :
    (ofRestricted (workspaceEntries roots tmpdir slashTmp ++ reads)).hasFullDiskWriteAccess =
      false := by
  have hroot : (ofRestricted (workspaceEntries roots tmpdir slashTmp ++ reads)).hasRootAccess
      (·.canWrite) = false := by
    refine Bool.eq_false_iff.mpr fun htrue => ?_
    obtain ⟨entry, he, hentry⟩ := any_eq_true.mp (Bool.and_eq_true_iff.mp htrue).2
    obtain ⟨hpath, hwrite⟩ : entry.path = .special .root ∧ entry.access = .write := by
      simpa [FileSystemAccessMode.canWrite] using hentry
    rcases mem_append.mp he with he | he
    · rw [access_of_root he hpath] at hwrite
      cases hwrite
    · rw [h entry he] at hwrite
      cases hwrite
  show ((_ : Bool) && _) = false
  rw [hroot]
  rfl

end

/-- A legacy policy is decoded from its encoding, up to repeated roots and roots that are
the working directory. -/
theorem legacy_round_trip (host : Host) (policy : SandboxPolicy) (cwd : Text) :
    toLegacySandboxPolicy host (fromLegacySandboxPolicyForCwd host policy cwd)
        policy.networkSandboxPolicy cwd =
      .ok (policy.normalizedRoots (host.paths.absolutePath cwd)) := by
  cases policy with
  | dangerFullAccess => rfl
  | readOnly networkAccess | externalSandbox networkAccess => cases networkAccess <;> rfl
  | workspaceWrite roots networkAccess tmpdir slashTmp =>
    obtain ⟨reads, hreads, hencoded⟩ :=
      fromLegacy_workspace host roots networkAccess tmpdir slashTmp cwd
    have hnetwork : networkIsEnabled (SandboxPolicy.workspaceWrite roots networkAccess tmpdir
        slashTmp).networkSandboxPolicy = networkAccess := by
      cases networkAccess <;> rfl
    have hscan := foldl_visit_workspace host (host.paths.absolutePath cwd) roots tmpdir slashTmp
      hreads
    rw [hencoded]
    unfold toLegacySandboxPolicy
    simp only [workspace_not_fullDisk roots tmpdir slashTmp hreads, hnetwork]
    unfold ofRestricted
    simp only [hscan, Bool.false_eq_true, if_false, if_true, Bool.not_not]
    rfl

end FileSystemSandboxPolicy

end Codex
