import Codex.Sandbox.SemanticSignature

/-!
# Allowed sandbox modes

Managed requirements list the sandbox modes a permission profile may have. A profile is
put into one of the modes by what its policy says in summary. No profile in the read-only
mode can write anywhere. A profile in the workspace mode that has no entry to write the
root itself can write the root only where its workspace or its temporary directory is the
root.
-/

namespace Codex

open Foundation

/-! ## Policies -/

namespace FileSystemSandboxPolicy

def unrestricted : FileSystemSandboxPolicy := ⟨.unrestricted, none, []⟩

def externalSandbox : FileSystemSandboxPolicy := ⟨.externalSandbox, none, []⟩

variable {policy : FileSystemSandboxPolicy} {host : Host} {cwd : Text}

theorem canWrite_false_of_no_write (hkind : policy.kind = .restricted)
    (hno : ∀ entry ∈ policy.entries, entry.access ≠ .write) (path : Text) :
    policy.canWritePathWithCwd host path cwd = false := by
  have haccess : (policy.resolveAccessWithCwd host path cwd).canWrite = false := by
    cases hpath : resolveCandidatePath host path cwd with
    | none => simp [resolveAccessWithCwd, hkind, hpath, FileSystemAccessMode.canWrite]
    | some p =>
      refine Bool.eq_false_iff.mpr fun h => ?_
      obtain ⟨d, -, ⟨entry, he, -, hwrite⟩, -⟩ := (canWrite_resolveAccess hkind hpath).mp h
      obtain ⟨source, hs, -, hacc⟩ := mem_resolvedEntries.mp he
      exact hno source hs (hacc.trans hwrite)
  simp [canWritePathWithCwd, haccess]

theorem canWrite_root_iff (hfull : policy.hasFullDiskWriteAccess = false) :
    policy.canWritePathWithCwd host AbsolutePathBuf.root.display cwd = true ↔
      policy.WritesAt host cwd .root := by
  have hkind := restricted_of_not_fullDisk hfull
  constructor
  · intro h
    obtain ⟨d, hn, hw, -⟩ := (canWrite_iff hkind hfull).mp h
    obtain rfl : d = .root := AbsolutePathBuf.ext (List.prefix_nil.mp hn.covers)
    exact hw
  · intro h
    exact (canWrite_entry hkind hfull h.hasEntryAt).mpr h

theorem writesAt_iff {d : AbsolutePathBuf} : policy.WritesAt host cwd d ↔
    (∃ entry ∈ policy.entries, entry.access = .write ∧
        resolveEntryPath host entry.path (host.paths.absolutePath cwd) = some d) ∧
      ∀ entry ∈ policy.entries,
        resolveEntryPath host entry.path (host.paths.absolutePath cwd) = some d →
          entry.access ≠ .none := by
  constructor
  · rintro ⟨⟨entry, he, rfl, hwrite⟩, hno⟩
    obtain ⟨source, hs, hpath, hacc⟩ := mem_resolvedEntries.mp he
    refine ⟨⟨source, hs, hacc.trans hwrite, hpath⟩, fun other ho hres => ?_⟩
    exact hno ⟨entry.path, other.access⟩ (mem_resolvedEntries.mpr ⟨other, ho, hres, rfl⟩) rfl
  · rintro ⟨⟨source, hs, hwrite, hpath⟩, hno⟩
    refine ⟨⟨⟨d, .write⟩, mem_resolvedEntries.mpr ⟨source, hs, hpath, hwrite⟩, rfl, rfl⟩, ?_⟩
    rintro entry he rfl
    obtain ⟨other, ho, hres, hacc⟩ := mem_resolvedEntries.mp he
    rw [← hacc]
    exact hno other ho hres

end FileSystemSandboxPolicy

theorem slashTmp_not_root (host : Host) (cwd : Option AbsolutePathBuf) :
    resolveEntryPath host (.special .slashTmp) cwd ≠ some .root := by
  show (if host.isDir slashTmpPath then some slashTmpPath else none) ≠ some .root
  split
  · exact fun h => absurd (Option.some.inj h) (by decide)
  · exact nofun

namespace Requirements

/-! ## Constrained values -/

inductive RequirementSource where
  | unknown
  | mdmManagedPreferences (domain key : String)
  | cloudRequirements
  | systemRequirementsToml (file : AbsolutePathBuf)
  | legacyManagedConfigTomlFromFile (file : AbsolutePathBuf)
  | legacyManagedConfigTomlFromMdm
deriving DecidableEq

inductive ConstraintError where
  | invalidValue (fieldName candidate allowed : String) (requirementSource : RequirementSource)
deriving DecidableEq

abbrev ConstraintResult (α : Type) := Except ConstraintError α

structure Sourced (α : Type) where
  value : α
  source : RequirementSource

structure Constrained (α : Type) where
  value : α
  validator : α → ConstraintResult Unit
  valid : validator value = .ok ()

namespace Constrained

variable {α : Type}

def new (initialValue : α) (validator : α → ConstraintResult Unit) :
    ConstraintResult (Constrained α) :=
  match h : validator initialValue with
  | .ok () => .ok ⟨initialValue, validator, h⟩
  | .error e => .error e

def allowAny (initialValue : α) : Constrained α := ⟨initialValue, fun _ => .ok (), rfl⟩

def canSet (c : Constrained α) (candidate : α) : ConstraintResult Unit := c.validator candidate

def set (c : Constrained α) (value : α) : ConstraintResult (Constrained α) :=
  new value c.validator

theorem new_eq_ok {initialValue : α} {validator : α → ConstraintResult Unit}
    {c : Constrained α} (h : new initialValue validator = .ok c) :
    c.value = initialValue ∧ c.validator = validator := by
  unfold new at h
  split at h
  · cases h
    exact ⟨rfl, rfl⟩
  · cases h

end Constrained

structure ConstrainedWithSource (α : Type) where
  value : Constrained α
  source : Option RequirementSource

inductive NetworkSandboxPolicy where
  | restricted
  | enabled
deriving DecidableEq

inductive ManagedFileSystemPermissions where
  | restricted (entries : List FileSystemSandboxEntry)
      (globScanMaxDepth : Option { n : ℕ // n ≠ 0 })
  | unrestricted
deriving DecidableEq

inductive PermissionProfile where
  | managed (fileSystem : ManagedFileSystemPermissions) (network : NetworkSandboxPolicy)
  | disabled
  | external (network : NetworkSandboxPolicy)
deriving DecidableEq

def ManagedFileSystemPermissions.toSandboxPolicy :
    ManagedFileSystemPermissions → FileSystemSandboxPolicy
  | .restricted entries globScanMaxDepth =>
    ⟨.restricted, globScanMaxDepth.map Subtype.val, entries⟩
  | .unrestricted => .unrestricted

namespace PermissionProfile

def fileSystemSandboxPolicy : PermissionProfile → FileSystemSandboxPolicy
  | .managed fileSystem _ => fileSystem.toSandboxPolicy
  | .disabled => .unrestricted
  | .external _ => .externalSandbox

def readOnly : PermissionProfile :=
  .managed (.restricted [⟨.special .root, .read⟩] none) .restricted

end PermissionProfile

/-! ## The modes -/

inductive SandboxModeRequirement where
  | readOnly
  | workspaceWrite
  | dangerFullAccess
  | externalSandbox
deriving DecidableEq

namespace SandboxModeRequirement

def debug : SandboxModeRequirement → String
  | .readOnly => "ReadOnly"
  | .workspaceWrite => "WorkspaceWrite"
  | .dangerFullAccess => "DangerFullAccess"
  | .externalSandbox => "ExternalSandbox"

def debugList (modes : List SandboxModeRequirement) : String :=
  "[" ++ ", ".intercalate (modes.map debug) ++ "]"

end SandboxModeRequirement

def sandboxModeRequirementForPermissionProfile (permissionProfile : PermissionProfile) :
    SandboxModeRequirement :=
  match permissionProfile with
  | .disabled => .dangerFullAccess
  | .external _ => .externalSandbox
  | .managed _ _ =>
    let fileSystemPolicy := permissionProfile.fileSystemSandboxPolicy
    if fileSystemPolicy.hasFullDiskWriteAccess then .dangerFullAccess
    else if fileSystemPolicy.entries.any (·.access.canWrite) then .workspaceWrite
    else .readOnly

def validateSandboxMode (modes : Sourced (List SandboxModeRequirement))
    (candidate : PermissionProfile) : ConstraintResult Unit :=
  let mode := sandboxModeRequirementForPermissionProfile candidate
  if mode ∈ modes.value then .ok ()
  else .error (.invalidValue "sandbox_mode" mode.debug
    (SandboxModeRequirement.debugList modes.value) modes.source)

def permissionProfileRequirement
    (allowedSandboxModes : Option (Sourced (List SandboxModeRequirement))) :
    ConstraintResult (ConstrainedWithSource PermissionProfile) :=
  match allowedSandboxModes with
  | some modes =>
    if SandboxModeRequirement.readOnly ∉ modes.value then
      .error (.invalidValue "allowed_sandbox_modes"
        (SandboxModeRequirement.debugList modes.value)
        "must include 'read-only' to allow any PermissionProfile" modes.source)
    else do
      let constrained ← Constrained.new .readOnly (validateSandboxMode modes)
      return ⟨constrained, some modes.source⟩
  | none => .ok ⟨.allowAny .readOnly, none⟩

theorem canSet_iff_mode {modes : Sourced (List SandboxModeRequirement)}
    {c : ConstrainedWithSource PermissionProfile}
    (hc : permissionProfileRequirement (some modes) = .ok c) (profile : PermissionProfile) :
    c.value.canSet profile = .ok () ↔
      sandboxModeRequirementForPermissionProfile profile ∈ modes.value := by
  simp only [permissionProfileRequirement] at hc
  split at hc
  · cases hc
  · cases hnew : Constrained.new .readOnly (validateSandboxMode modes) with
    | error e =>
      rw [hnew] at hc
      cases hc
    | ok constrained =>
      rw [hnew] at hc
      cases hc
      show constrained.validator profile = .ok () ↔ _
      rw [(Constrained.new_eq_ok hnew).2]
      simp [validateSandboxMode]

theorem mode_of_readOnly : sandboxModeRequirementForPermissionProfile .readOnly = .readOnly := by
  decide

theorem permissionProfileRequirement_isOk (modes : Sourced (List SandboxModeRequirement)) :
    (∃ c, permissionProfileRequirement (some modes) = .ok c) ↔
      SandboxModeRequirement.readOnly ∈ modes.value := by
  simp only [permissionProfileRequirement]
  split
  · next hno =>
    refine ⟨?_, fun h => absurd h hno⟩
    rintro ⟨c, hc⟩
    cases hc
  · next hin =>
    have hvalid : validateSandboxMode modes .readOnly = .ok () := by
      simpa [validateSandboxMode, mode_of_readOnly] using not_not.mp hin
    refine ⟨fun _ => not_not.mp hin, fun _ => ?_⟩
    cases hnew : Constrained.new .readOnly (validateSandboxMode modes) with
    | error e =>
      unfold Constrained.new at hnew
      split at hnew
      · cases hnew
      · next h =>
        rw [hvalid] at h
        cases h
    | ok constrained => exact ⟨_, rfl⟩

section
variable {profile : PermissionProfile}

theorem mode_not_full (hdanger : sandboxModeRequirementForPermissionProfile profile ≠
    .dangerFullAccess) (hexternal : sandboxModeRequirementForPermissionProfile profile ≠
    .externalSandbox) : profile.fileSystemSandboxPolicy.hasFullDiskWriteAccess = false := by
  cases profile with
  | disabled => exact absurd rfl hdanger
  | external network => exact absurd rfl hexternal
  | managed fileSystem network =>
    refine Bool.eq_false_iff.mpr fun hfull => hdanger ?_
    simp only [sandboxModeRequirementForPermissionProfile, hfull]
    rfl

theorem mode_readOnly (h : sandboxModeRequirementForPermissionProfile profile = .readOnly) :
    ∀ entry ∈ profile.fileSystemSandboxPolicy.entries, entry.access ≠ .write := by
  cases profile with
  | disabled | external network => cases h
  | managed fileSystem network =>
    simp only [sandboxModeRequirementForPermissionProfile] at h
    split at h
    · cases h
    · split at h
      · cases h
      · next hno =>
        intro entry he hwrite
        exact hno (List.any_eq_true.mpr ⟨entry, he, decide_eq_true hwrite⟩)

end

/-! ## The guarantees -/

namespace PermissionProfile

def NamesRootForWrite (profile : PermissionProfile) : Prop :=
  ∃ entry ∈ profile.fileSystemSandboxPolicy.entries, entry.access = .write ∧
    (entry.path = .special .root ∨ entry.path = .path .root)

def WritableDirIsRoot (profile : PermissionProfile) (host : Host) (cwd : Text) : Prop :=
  ∃ entry ∈ profile.fileSystemSandboxPolicy.entries, entry.access = .write ∧
    ((∃ subpath, entry.path = .special (.projectRoots subpath)) ∨ entry.path = .special .tmpdir) ∧
    resolveEntryPath host entry.path (host.paths.absolutePath cwd) = some .root

def DeniesRoot (profile : PermissionProfile) (host : Host) (cwd : Text) : Prop :=
  ∃ entry ∈ profile.fileSystemSandboxPolicy.entries, entry.access = .none ∧
    resolveEntryPath host entry.path (host.paths.absolutePath cwd) = some .root

end PermissionProfile

theorem writableDir_of_root {profile : PermissionProfile} {host : Host} {cwd : Text}
    (hnames : ¬profile.NamesRootForWrite) {entry : FileSystemSandboxEntry}
    (he : entry ∈ profile.fileSystemSandboxPolicy.entries) (hwrite : entry.access = .write)
    (hres : resolveEntryPath host entry.path (host.paths.absolutePath cwd) = some .root) :
    profile.WritableDirIsRoot host cwd := by
  refine ⟨entry, he, hwrite, ?_, hres⟩
  cases hpath : entry.path with
  | path q =>
    rw [hpath] at hres
    cases hres
    exact absurd ⟨entry, he, hwrite, .inr hpath⟩ hnames
  | globPattern pattern =>
    rw [hpath] at hres
    cases hres
  | special value =>
    rw [hpath] at hres
    cases value with
    | root => exact absurd ⟨entry, he, hwrite, .inl hpath⟩ hnames
    | minimal => cases hres
    | projectRoots subpath => exact .inl ⟨subpath, rfl⟩
    | tmpdir => exact .inr rfl
    | slashTmp => exact absurd hres (slashTmp_not_root host _)
    | unknown path subpath => cases hres

theorem sandboxModes_enforced {modes : Sourced (List SandboxModeRequirement)}
    {c : ConstrainedWithSource PermissionProfile}
    (hc : permissionProfileRequirement (some modes) = .ok c) {profile : PermissionProfile}
    (hset : c.value.canSet profile = .ok ()) (host : Host) :
    ((∀ mode ∈ modes.value, mode = .readOnly) → ∀ path cwd,
      profile.fileSystemSandboxPolicy.canWritePathWithCwd host path cwd = false) ∧
    (.dangerFullAccess ∉ modes.value → .externalSandbox ∉ modes.value →
      ¬profile.NamesRootForWrite → ∀ cwd,
        (profile.fileSystemSandboxPolicy.canWritePathWithCwd host AbsolutePathBuf.root.display
            cwd = true ↔
          profile.WritableDirIsRoot host cwd ∧ ¬profile.DeniesRoot host cwd)) := by
  have hmode := (canSet_iff_mode hc profile).mp hset
  refine ⟨fun honly path cwd => ?_, fun hdanger hexternal hnames cwd => ?_⟩
  · have hreadOnly := honly _ hmode
    have hfull := mode_not_full (by rw [hreadOnly]; decide) (by rw [hreadOnly]; decide)
    exact FileSystemSandboxPolicy.canWrite_false_of_no_write
      (FileSystemSandboxPolicy.restricted_of_not_fullDisk hfull) (mode_readOnly hreadOnly) path
  · have hfull := mode_not_full (fun h => hdanger (h ▸ hmode)) (fun h => hexternal (h ▸ hmode))
    rw [FileSystemSandboxPolicy.canWrite_root_iff hfull, FileSystemSandboxPolicy.writesAt_iff]
    constructor
    · rintro ⟨⟨entry, he, hwrite, hres⟩, hno⟩
      refine ⟨writableDir_of_root hnames he hwrite hres, ?_⟩
      rintro ⟨other, ho, hnone, hother⟩
      exact hno other ho hother hnone
    · rintro ⟨⟨entry, he, hwrite, -, hres⟩, hno⟩
      exact ⟨⟨entry, he, hwrite, hres⟩, fun other ho hother hnone =>
        hno ⟨other, ho, hnone, hother⟩⟩

/-- The workspace mode's own profile, with no writable roots besides the workspace. -/
def PermissionProfile.workspaceWrite : PermissionProfile :=
  .managed (.restricted [⟨.special .root, .read⟩, ⟨.special (.projectRoots none), .write⟩,
    ⟨.special .slashTmp, .write⟩, ⟨.special .tmpdir, .write⟩,
    ⟨.special (.projectRoots (some (.ofText dotGit))), .read⟩,
    ⟨.special (.projectRoots (some (.ofText dotAgents))), .read⟩,
    ⟨.special (.projectRoots (some (.ofText dotCodex))), .read⟩] none) .restricted

def workspaceModes : Sourced (List SandboxModeRequirement) :=
  ⟨[.readOnly, .workspaceWrite], .cloudRequirements⟩

theorem workspaceModes_requirement : ∃ c, permissionProfileRequirement (some workspaceModes) =
    .ok c ∧ c.value.canSet .workspaceWrite = .ok () := by
  obtain ⟨c, hc⟩ := (permissionProfileRequirement_isOk workspaceModes).mpr (by decide)
  exact ⟨c, hc, (canSet_iff_mode hc _).mpr (by decide)⟩

theorem sandboxModes_enforced_workspace : ∃ c,
    permissionProfileRequirement (some workspaceModes) = .ok c ∧
      ¬PermissionProfile.workspaceWrite.NamesRootForWrite ∧ ∀ cwd,
        (PermissionProfile.workspaceWrite.fileSystemSandboxPolicy.canWritePathWithCwd emptyHost
            AbsolutePathBuf.root.display cwd = true ↔
          PermissionProfile.workspaceWrite.WritableDirIsRoot emptyHost cwd ∧
            ¬PermissionProfile.workspaceWrite.DeniesRoot emptyHost cwd) := by
  obtain ⟨c, hc, hset⟩ := workspaceModes_requirement
  have hnames : ¬PermissionProfile.workspaceWrite.NamesRootForWrite := by
    unfold PermissionProfile.NamesRootForWrite
    decide
  exact ⟨c, hc, hnames, (sandboxModes_enforced hc hset emptyHost).2 (by decide) (by decide) hnames⟩

/-- The workspace profile writes the root where the workspace is the root. -/
theorem workspace_at_root_writes_root : ∃ c,
    permissionProfileRequirement (some workspaceModes) = .ok c ∧
      c.value.canSet .workspaceWrite = .ok () ∧
      .dangerFullAccess ∉ workspaceModes.value ∧ .externalSandbox ∉ workspaceModes.value ∧
      PermissionProfile.workspaceWrite.fileSystemSandboxPolicy.canWritePathWithCwd emptyHost
        AbsolutePathBuf.root.display ['/'] = true := by
  obtain ⟨c, hc, hset⟩ := workspaceModes_requirement
  exact ⟨c, hc, hset, by decide, by decide, by decide +kernel⟩

end Requirements

end Codex
