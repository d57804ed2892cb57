import Codex.Sandbox.PolicyTransforms
import Codex.Sandbox.RootFacts

/-!
# What an intersection grants

The intersection reads no path that one of the sides does not read. It writes more than
a side does exactly where a write grant is kept and that side has a narrower read entry
below it: denials are kept beside the grant, read entries are not.
-/

namespace Codex

open Foundation List

section
variable {host : Host} {cwd : Text}

/-! ## Resolution -/

theorem resolvePermissionPath_eq (hcwd : isAbsolute cwd = true) (path : FileSystemPath) :
    resolvePermissionPath host path cwd =
      resolveEntryPath host path (host.paths.absolutePath cwd) := by
  obtain ⟨c, hc⟩ := absolutePath_of_isAbsolute host hcwd
  cases path with
  | path q | globPattern pattern => rfl
  | special value =>
    cases value with
    | root =>
      unfold resolvePermissionPath resolveEntryPath
      rw [if_pos hcwd, hc]
      exact ProcessPaths.absolutePath_display host.paths .root
    | minimal | projectRoots subpath | tmpdir | slashTmp | unknown path subpath => rfl

theorem materialize_resolves (entry : FileSystemSandboxEntry) :
    resolveEntryPath host (materializeCwdDependentEntry host entry cwd).path
        (host.paths.absolutePath cwd) =
      resolveEntryPath host entry.path (host.paths.absolutePath cwd) := by
  obtain ⟨target, access⟩ := entry
  cases target with
  | path q | globPattern pattern => rfl
  | special value =>
    cases value with
    | projectRoots subpath =>
      unfold materializeCwdDependentEntry
      cases hres : resolvePermissionPath host (.special (.projectRoots subpath)) cwd with
      | none => rfl
      | some q =>
        exact hres.symm
    | root | minimal | tmpdir | slashTmp | unknown path subpath => rfl

theorem materialize_access (entry : FileSystemSandboxEntry) :
    (materializeCwdDependentEntry host entry cwd).access = entry.access := by
  unfold materializeCwdDependentEntry
  split
  · split <;> rfl
  · rfl
  · rfl

theorem materialize_stands (source : FileSystemSandboxEntry) (entry : ResolvedFileSystemEntry) :
    (resolveEntryPath host (materializeCwdDependentEntry host source cwd).path
          (host.paths.absolutePath cwd) = some entry.path ∧
        (materializeCwdDependentEntry host source cwd).access = entry.access) ↔
      resolveEntryPath host source.path (host.paths.absolutePath cwd) = some entry.path ∧
        source.access = entry.access := by
  rw [materialize_resolves, materialize_access]

theorem pathsOverlap_iff {p q : AbsolutePathBuf} :
    pathsOverlap p q = true ↔ q.comps <+: p.comps ∨ p.comps <+: q.comps := by
  unfold pathsOverlap
  rw [Bool.or_eq_true, AbsolutePathBuf.startsWith_iff, AbsolutePathBuf.startsWith_iff]

end

/-! ## Entries of the intersection -/

section
variable (host : Host) (buildGlobMatcher : Text → Option (Text → Bool))
  (requested granted : AdditionalPermissionProfile) (cwd : Text)

def requestAdmits (entry : FileSystemSandboxEntry) : Bool :=
  let requestedFileSystem := requested.fileSystem.getD .empty
  let requestedPolicy := FileSystemSandboxPolicy.ofRestricted requestedFileSystem.entries
  grantedFileSystemEntryWithinRequest host requestedFileSystem requestedPolicy
    (ReadDenyMatcher.new host buildGlobMatcher requestedPolicy cwd) entry cwd

def admittedPolicy : FileSystemSandboxPolicy :=
  .ofRestricted (granted.policy.entries.filter (requestAdmits host buildGlobMatcher requested cwd))

variable {host buildGlobMatcher requested granted cwd}

variable {entry : FileSystemSandboxEntry}

theorem requestAdmits_canRead (h : requestAdmits host buildGlobMatcher requested cwd entry = true) :
    entry.access.canRead = true := by
  unfold requestAdmits grantedFileSystemEntryWithinRequest at h
  cases hread : entry.access.canRead with
  | true => rfl
  | false =>
    rw [hread] at h
    cases h

theorem requestAdmits_covers (hcwd : isAbsolute cwd = true)
    (h : requestAdmits host buildGlobMatcher requested cwd entry = true) {q : AbsolutePathBuf}
    (hres : resolveEntryPath host entry.path (host.paths.absolutePath cwd) = some q) :
    accessCovers (requested.policy.resolveAccessWithCwd host q.display cwd) entry.access = true := by
  have hread := requestAdmits_canRead h
  unfold requestAdmits grantedFileSystemEntryWithinRequest at h
  simp only [hread, resolvePermissionPath_eq hcwd, hres] at h
  rw [if_neg (by decide)] at h
  split at h
  · cases h
  · exact h

theorem requestAdmits_of_no_entries (hnone : requested.fileSystem = none) :
    requestAdmits host buildGlobMatcher requested cwd entry = false := by
  refine Bool.eq_false_iff.mpr fun h => ?_
  have hread := requestAdmits_canRead h
  have haccess : ∀ path, (FileSystemSandboxPolicy.ofRestricted []).resolveAccessWithCwd host path
      cwd = .none := by
    intro path
    unfold FileSystemSandboxPolicy.resolveAccessWithCwd
    simp only [FileSystemSandboxPolicy.ofRestricted]
    split <;> rfl
  unfold requestAdmits grantedFileSystemEntryWithinRequest at h
  rw [hnone] at h
  simp only [Option.getD_none, FileSystemPermissions.empty, hread, haccess, any_nil,
    Bool.not_true, Bool.false_eq_true, if_false] at h
  split at h
  · split at h
    · cases h
    · cases hacc : entry.access <;> rw [hacc] at h <;> cases h
  · cases h

theorem mem_acceptedEntries :
    entry ∈ acceptedEntries host buildGlobMatcher (requested.fileSystem.getD .empty)
        (granted.fileSystem.getD .empty) cwd ↔
      ∃ source ∈ granted.policy.entries,
        requestAdmits host buildGlobMatcher requested cwd source = true ∧
          materializeCwdDependentEntry host source cwd = entry := by
  unfold acceptedEntries
  simp only [mem_foldl_pushNew, not_mem_nil, false_or, mem_map, mem_filter]
  constructor
  · rintro ⟨source, ⟨hs, had⟩, rfl⟩
    exact ⟨source, hs, had, rfl⟩
  · rintro ⟨source, hs, had, rfl⟩
    exact ⟨source, ⟨hs, had⟩, rfl⟩

theorem intersect_policy_entries :
    (intersectPermissionProfiles host buildGlobMatcher requested granted cwd).policy.entries =
      (intersectFileSystem host buildGlobMatcher (requested.fileSystem.getD .empty)
        (granted.fileSystem.getD .empty) cwd).entries := by
  unfold intersectPermissionProfiles AdditionalPermissionProfile.policy
    FileSystemPermissions.toPolicy FileSystemSandboxPolicy.ofRestricted
  cases hreq : requested.fileSystem with
  | none =>
    have hacc : acceptedEntries host buildGlobMatcher (requested.fileSystem.getD .empty)
        (granted.fileSystem.getD .empty) cwd = [] := by
      refine eq_nil_iff_forall_not_mem.mpr fun entry hmem => ?_
      obtain ⟨source, -, had, -⟩ := mem_acceptedEntries.mp hmem
      rw [requestAdmits_of_no_entries hreq] at had
      cases had
    have hretained : ∀ sources, retainedDenyEntries host sources [] cwd = [] := by
      intro sources
      unfold retainedDenyEntries denyEntryConstrainsAcceptedGrant
      simp
    rw [hreq] at hacc
    unfold intersectFileSystem retainConstrainingDenyEntries
    simp only [hacc, hretained]
    rfl
  | some fileSystem =>
    simp only [Option.map_some, Option.getD_some, Option.filter_some]
    split
    · rfl
    · rename_i hempty
      unfold FileSystemPermissions.isEmpty at hempty
      rw [Bool.not_eq_true, Bool.not_eq_false', List.isEmpty_iff] at hempty
      exact hempty.symm

theorem mem_admittedPolicy {entry : ResolvedFileSystemEntry} :
    entry ∈ (admittedPolicy host buildGlobMatcher requested granted cwd).resolvedEntriesWithCwd
        host cwd ↔
      ∃ source ∈ granted.policy.entries,
        requestAdmits host buildGlobMatcher requested cwd source = true ∧
        resolveEntryPath host source.path (host.paths.absolutePath cwd) = some entry.path ∧
        source.access = entry.access := by
  rw [FileSystemSandboxPolicy.mem_resolvedEntries]
  unfold admittedPolicy FileSystemSandboxPolicy.ofRestricted
  simp only [mem_filter]
  constructor
  · rintro ⟨source, ⟨hs, had⟩, hres⟩
    exact ⟨source, hs, had, hres⟩
  · rintro ⟨source, hs, had, hres⟩
    exact ⟨source, ⟨hs, had⟩, hres⟩

theorem resolved_accepted {entry : ResolvedFileSystemEntry} :
    (∃ kept ∈ acceptedEntries host buildGlobMatcher (requested.fileSystem.getD .empty)
        (granted.fileSystem.getD .empty) cwd,
      resolveEntryPath host kept.path (host.paths.absolutePath cwd) = some entry.path ∧
        kept.access = entry.access) ↔
      entry ∈ (admittedPolicy host buildGlobMatcher requested granted
        cwd).resolvedEntriesWithCwd host cwd := by
  rw [mem_admittedPolicy]
  constructor
  · rintro ⟨kept, hkept, hstands⟩
    obtain ⟨source, hs, had, rfl⟩ := mem_acceptedEntries.mp hkept
    exact ⟨source, hs, had, (materialize_stands source entry).mp hstands⟩
  · rintro ⟨source, hs, had, hstands⟩
    exact ⟨_, mem_acceptedEntries.mpr ⟨source, hs, had, rfl⟩,
      (materialize_stands source entry).mpr hstands⟩

variable (hcwd : isAbsolute cwd = true)
include hcwd

theorem denyEntry_constrains_iff {deny : FileSystemSandboxEntry} {q : AbsolutePathBuf}
    (hres : resolveEntryPath host deny.path (host.paths.absolutePath cwd) = some q) :
    denyEntryConstrainsAcceptedGrant host deny (acceptedEntries host buildGlobMatcher
        (requested.fileSystem.getD .empty) (granted.fileSystem.getD .empty) cwd) cwd = true ↔
      ∃ grant ∈ (admittedPolicy host buildGlobMatcher requested granted
        cwd).resolvedEntriesWithCwd host cwd, pathsOverlap q grant.path = true := by
  have hmatch : ∀ grantPath,
      denyEntryOverlapsGrantPath host deny grantPath cwd = pathsOverlap q grantPath := by
    intro grantPath
    have hperm := (resolvePermissionPath_eq hcwd deny.path).trans hres
    unfold denyEntryOverlapsGrantPath
    cases hp : deny.path with
    | globPattern pattern =>
      rw [hp] at hres
      cases hres
    | path r | special value =>
      rw [hp] at hperm
      simp only [hperm, Option.any_some]
  unfold denyEntryConstrainsAcceptedGrant
  rw [any_eq_true]
  constructor
  · rintro ⟨entry, hmem, hover⟩
    obtain ⟨source, hs, had, rfl⟩ := mem_acceptedEntries.mp (mem_filter.mp hmem).1
    rw [resolvePermissionPath_eq hcwd, materialize_resolves] at hover
    cases hsource : resolveEntryPath host source.path (host.paths.absolutePath cwd) with
    | none =>
      rw [hsource] at hover
      cases hover
    | some grantPath =>
      rw [hsource] at hover
      refine ⟨⟨grantPath, source.access⟩, mem_admittedPolicy.mpr ⟨source, hs, had, hsource, rfl⟩, ?_⟩
      exact (hmatch grantPath).symm.trans hover
  · rintro ⟨grant, hgrant, hover⟩
    obtain ⟨source, hs, had, hsource, -⟩ := mem_admittedPolicy.mp hgrant
    refine ⟨materializeCwdDependentEntry host source cwd, mem_filter.mpr
      ⟨mem_acceptedEntries.mpr ⟨source, hs, had, rfl⟩, ?_⟩, ?_⟩
    · rw [materialize_access]
      exact requestAdmits_canRead had
    · rw [resolvePermissionPath_eq hcwd, materialize_resolves, hsource]
      exact (hmatch grant.path).trans hover

theorem resolved_retained {entry : ResolvedFileSystemEntry}
    (sources : List FileSystemSandboxEntry) :
    (∃ kept ∈ retainedDenyEntries host sources (acceptedEntries host buildGlobMatcher
        (requested.fileSystem.getD .empty) (granted.fileSystem.getD .empty) cwd) cwd,
      resolveEntryPath host kept.path (host.paths.absolutePath cwd) = some entry.path ∧
        kept.access = entry.access) ↔
      entry.access = .none ∧ (∃ source ∈ sources,
        resolveEntryPath host source.path (host.paths.absolutePath cwd) = some entry.path ∧
          source.access = entry.access) ∧
        ∃ grant ∈ (admittedPolicy host buildGlobMatcher requested granted
          cwd).resolvedEntriesWithCwd host cwd, pathsOverlap entry.path grant.path = true := by
  unfold retainedDenyEntries
  simp only [mem_map, mem_filter, decide_eq_true_eq]
  constructor
  · rintro ⟨kept, ⟨source, ⟨⟨hs, hdeny⟩, hover⟩, rfl⟩, hstands⟩
    obtain ⟨hres, hacc⟩ := (materialize_stands source entry).mp hstands
    exact ⟨hacc.symm.trans hdeny, ⟨source, hs, hres, hacc⟩,
      (denyEntry_constrains_iff hcwd hres).mp hover⟩
  · rintro ⟨hnone, ⟨source, hs, hres, hacc⟩, hover⟩
    exact ⟨_, ⟨source, ⟨⟨hs, hacc.trans hnone⟩,
      (denyEntry_constrains_iff hcwd hres).mpr hover⟩, rfl⟩,
      (materialize_stands source entry).mpr ⟨hres, hacc⟩⟩

theorem mem_intersect {entry : ResolvedFileSystemEntry} :
    entry ∈ (intersectPermissionProfiles host buildGlobMatcher requested granted
        cwd).policy.resolvedEntriesWithCwd host cwd ↔
      entry ∈ (admittedPolicy host buildGlobMatcher requested granted
        cwd).resolvedEntriesWithCwd host cwd ∨
      entry.access = .none ∧
        (entry ∈ requested.policy.resolvedEntriesWithCwd host cwd ∨
          entry ∈ granted.policy.resolvedEntriesWithCwd host cwd) ∧
        ∃ grant ∈ (admittedPolicy host buildGlobMatcher requested granted
          cwd).resolvedEntriesWithCwd host cwd, pathsOverlap entry.path grant.path = true := by
  have hside : ∀ profile : AdditionalPermissionProfile,
      entry ∈ profile.policy.resolvedEntriesWithCwd host cwd ↔
        ∃ source ∈ profile.policy.entries,
          resolveEntryPath host source.path (host.paths.absolutePath cwd) = some entry.path ∧
            source.access = entry.access := fun _ => FileSystemSandboxPolicy.mem_resolvedEntries
  rw [hside (intersectPermissionProfiles host buildGlobMatcher requested granted cwd),
    intersect_policy_entries, hside requested, hside granted]
  unfold intersectFileSystem retainConstrainingDenyEntries
  simp only [mem_foldl_pushNew, or_and_right, exists_or, resolved_retained hcwd,
    resolved_accepted]
  rw [or_assoc]
  refine or_congr_right ?_
  constructor
  · rintro (⟨hnone, hsource, hover⟩ | ⟨hnone, hsource, hover⟩)
    · exact ⟨hnone, .inl ⟨hsource, hover⟩⟩
    · exact ⟨hnone, .inr ⟨hsource, hover⟩⟩
  · rintro ⟨hnone, ⟨hsource, hover⟩ | ⟨hsource, hover⟩⟩
    · exact .inl ⟨hnone, hsource, hover⟩
    · exact .inr ⟨hnone, hsource, hover⟩

end

/-! ## Access under the intersection -/

section
variable (host : Host) (buildGlobMatcher : Text → Option (Text → Bool))
  (requested granted : AdditionalPermissionProfile) (cwd : Text)

def AdditionalPermissionProfile.GrantsRead (profile : AdditionalPermissionProfile) (host : Host)
    (cwd : Text) (p : AbsolutePathBuf) : Prop :=
  (profile.policy.resolveAccessWithCwd host p.display cwd).canRead = true

def AdditionalPermissionProfile.GrantsWrite (profile : AdditionalPermissionProfile) (host : Host)
    (cwd : Text) (p : AbsolutePathBuf) : Prop :=
  (profile.policy.resolveAccessWithCwd host p.display cwd).canWrite = true

/-- The most specific admitted grant for `p` is a write grant, no denial stands between it
and `p`, and one of the sides has a more specific entry there that does not allow writing. -/
def LosesReadOnlyEntry (p : AbsolutePathBuf) : Prop :=
  ∃ d, (admittedPolicy host buildGlobMatcher requested granted cwd).NearestEntry host cwd p d ∧
    (admittedPolicy host buildGlobMatcher requested granted cwd).WritesAt host cwd d ∧
    (∀ side ∈ [requested, granted], ∀ entry ∈ side.policy.resolvedEntriesWithCwd host cwd,
      entry.access = .none → d.comps <+: entry.path.comps → ¬ entry.path.comps <+: p.comps) ∧
    ∃ side ∈ [requested, granted], ∃ q, side.policy.NearestEntry host cwd p q ∧ d.Above q ∧
      ¬ side.policy.WritesAt host cwd q

variable {host buildGlobMatcher requested granted cwd} {p d : AbsolutePathBuf}

theorem admitted_covered (hcwd : isAbsolute cwd = true) {grant : ResolvedFileSystemEntry}
    (hgrant : grant ∈ (admittedPolicy host buildGlobMatcher requested granted
      cwd).resolvedEntriesWithCwd host cwd) :
    grant ∈ granted.policy.resolvedEntriesWithCwd host cwd ∧ grant.access ≠ .none ∧
      ∃ e, requested.policy.NearestEntry host cwd grant.path e ∧
        requested.policy.ReadsAt host cwd e ∧
        (grant.access = .write → requested.policy.WritesAt host cwd e) := by
  obtain ⟨source, hs, had, hres, hacc⟩ := mem_admittedPolicy.mp hgrant
  have hread := requestAdmits_canRead had
  have hcov := requestAdmits_covers hcwd had hres
  rw [hacc] at hread hcov
  refine ⟨FileSystemSandboxPolicy.mem_resolvedEntries.mpr ⟨source, hs, hres, hacc⟩,
    of_decide_eq_true hread, ?_⟩
  have hpath := resolveCandidatePath_display host grant.path cwd
  cases ha : grant.access with
  | none =>
    rw [ha] at hread
    cases hread
  | read =>
    rw [ha] at hcov
    obtain ⟨e, hn, hr⟩ := (FileSystemSandboxPolicy.canRead_resolveAccess rfl hpath).mp hcov
    exact ⟨e, hn, hr, nofun⟩
  | write =>
    rw [ha] at hcov
    obtain ⟨e, hn, hw⟩ := (FileSystemSandboxPolicy.canWrite_resolveAccess rfl hpath).mp hcov
    exact ⟨e, hn, hw.readsAt, fun _ => hw⟩

theorem intersect_grant (hcwd : isAbsolute cwd = true)
    (hr : (intersectPermissionProfiles host buildGlobMatcher requested granted
      cwd).policy.ReadsAt host cwd d) :
    (∃ grant ∈ (admittedPolicy host buildGlobMatcher requested granted
        cwd).resolvedEntriesWithCwd host cwd, grant.path = d) ∧
      ∀ side ∈ [requested, granted], ∃ e, side.policy.NearestEntry host cwd d e ∧
        side.policy.ReadsAt host cwd e := by
  obtain ⟨⟨grant, hin, rfl⟩, hno⟩ := hr
  have hgrant := ((mem_intersect hcwd).mp hin).resolve_right fun h => hno grant hin rfl h.1
  obtain ⟨hside, -, e, hn, hreads, -⟩ := admitted_covered hcwd hgrant
  refine ⟨⟨grant, hgrant, rfl⟩, fun side hmem => ?_⟩
  rcases mem_cons.mp hmem with rfl | hmem
  · exact ⟨e, hn, hreads⟩
  · obtain rfl := mem_singleton.mp hmem
    refine ⟨grant.path, FileSystemSandboxPolicy.HasEntryAt.nearest_self ⟨grant, hside, rfl⟩,
      ⟨grant, hside, rfl⟩, fun entry he hpath hnone => ?_⟩
    -- a denial at the grant's own path would have been kept
    refine hno entry ((mem_intersect hcwd).mpr (.inr ⟨hnone, .inr he, grant, hgrant, ?_⟩))
      hpath hnone
    rw [hpath]
    exact pathsOverlap_iff.mpr (.inl prefix_rfl)

section
variable {side : AdditionalPermissionProfile} (hcwd : isAbsolute cwd = true)
include hcwd

theorem intersect_keeps_denials (hmem : side ∈ [requested, granted])
    {entry grant : ResolvedFileSystemEntry}
    (he : entry ∈ side.policy.resolvedEntriesWithCwd host cwd) (hnone : entry.access = .none)
    (hgrant : grant ∈ (admittedPolicy host buildGlobMatcher requested granted
      cwd).resolvedEntriesWithCwd host cwd) (hep : entry.path.comps <+: p.comps)
    (hgp : grant.path.comps <+: p.comps) :
    entry ∈ (intersectPermissionProfiles host buildGlobMatcher requested granted
      cwd).policy.resolvedEntriesWithCwd host cwd := by
  refine (mem_intersect hcwd).mpr (.inr ⟨hnone, ?_, grant, hgrant, ?_⟩)
  · rcases mem_cons.mp hmem with rfl | hmem
    · exact .inl he
    · obtain rfl := mem_singleton.mp hmem
      exact .inr he
  · exact pathsOverlap_iff.mpr <| prefix_or_prefix_of_prefix hgp hep

theorem side_reads (hn : (intersectPermissionProfiles host buildGlobMatcher requested granted
      cwd).policy.NearestEntry host cwd p d)
    (hr : (intersectPermissionProfiles host buildGlobMatcher requested granted
      cwd).policy.ReadsAt host cwd d) (hmem : side ∈ [requested, granted]) :
    ∃ e, side.policy.NearestEntry host cwd p e ∧ side.policy.ReadsAt host cwd e := by
  obtain ⟨⟨grant, hgrant, rfl⟩, hsides⟩ := intersect_grant hcwd hr
  obtain ⟨e, hne, hre⟩ := hsides side hmem
  obtain ⟨d', hn', hle⟩ := hne.hasEntryAt.exists_nearest (hne.covers.trans hn.covers)
  refine ⟨d', hn', hn'.hasEntryAt, fun entry he hpath hnone => ?_⟩
  have hep : entry.path.comps <+: p.comps := by
    rw [hpath]
    exact hn'.covers
  have hin := intersect_keeps_denials hcwd hmem he hnone hgrant hep hn.covers
  have hback := hn.longest ⟨entry, hin, rfl⟩ hep
  -- then it stands where the side's nearest entry of the grant stands
  have heq : entry.path = e := by
    rw [hpath] at hback ⊢
    exact AbsolutePathBuf.eq_of_le_of_le (hne.longest hn'.hasEntryAt hback) hle
  exact hre.2 entry he heq hnone

theorem intersect_reads (h : (intersectPermissionProfiles host buildGlobMatcher requested granted
      cwd).GrantsRead host cwd p) :
    requested.GrantsRead host cwd p ∧ granted.GrantsRead host cwd p := by
  have hpath := resolveCandidatePath_display host p cwd
  obtain ⟨d, hn, hr⟩ := (FileSystemSandboxPolicy.canRead_resolveAccess rfl hpath).mp h
  have hside : ∀ side ∈ [requested, granted], side.GrantsRead host cwd p := fun side hmem =>
    (FileSystemSandboxPolicy.canRead_resolveAccess rfl hpath).mpr (side_reads hcwd hn hr hmem)
  exact ⟨hside requested (by simp), hside granted (by simp)⟩

theorem side_writes (hn : (intersectPermissionProfiles host buildGlobMatcher requested granted
      cwd).policy.NearestEntry host cwd p d)
    (hw : (intersectPermissionProfiles host buildGlobMatcher requested granted
      cwd).policy.WritesAt host cwd d) (hmem : side ∈ [requested, granted]) :
    ∃ e, side.policy.NearestEntry host cwd p e ∧ (side.policy.WritesAt host cwd e ∨ d.Above e) := by
  obtain ⟨⟨grant, hin, rfl, hwrite⟩, hno⟩ := hw
  have hgrant := ((mem_intersect hcwd).mp hin).resolve_right fun h => hno grant hin rfl h.1
  obtain ⟨hside, -, e, hne, -, hreq⟩ := admitted_covered hcwd hgrant
  have hat : ∃ e, side.policy.NearestEntry host cwd grant.path e ∧
      side.policy.WritesAt host cwd e := by
    rcases mem_cons.mp hmem with rfl | hmem'
    · exact ⟨e, hne, hreq hwrite⟩
    · obtain rfl := mem_singleton.mp hmem'
      refine ⟨grant.path, FileSystemSandboxPolicy.HasEntryAt.nearest_self ⟨grant, hside, rfl⟩,
        ⟨grant, hside, rfl, hwrite⟩, fun entry he hpath hnone => ?_⟩
      have hep : entry.path.comps <+: grant.path.comps := by rw [hpath]
      exact hno entry (intersect_keeps_denials hcwd hmem he hnone hgrant hep prefix_rfl) hpath hnone
  obtain ⟨e, hne, hwe⟩ := hat
  obtain ⟨d', hn', hle⟩ := hne.hasEntryAt.exists_nearest (hne.covers.trans hn.covers)
  refine ⟨d', hn', ?_⟩
  rcases prefix_or_prefix_of_prefix hn'.covers hn.covers with hup | hdown
  · have heq := AbsolutePathBuf.eq_of_le_of_le (hne.longest hn'.hasEntryAt hup) hle
    exact .inl (heq ▸ hwe)
  · by_cases heq : grant.path = d'
    · have hself : e = d' := by
        refine AbsolutePathBuf.eq_of_le_of_le hle (hne.longest hn'.hasEntryAt ?_)
        rw [heq]
      exact .inl (hself ▸ hwe)
    · exact .inr ⟨hdown, heq⟩

theorem LosesReadOnlyEntry.writes
    (h : LosesReadOnlyEntry host buildGlobMatcher requested granted cwd p) :
    (intersectPermissionProfiles host buildGlobMatcher requested granted
      cwd).GrantsWrite host cwd p := by
  obtain ⟨d, hn, hw, hno, -⟩ := h
  have hpath := resolveCandidatePath_display host p cwd
  have hat : ∀ entry ∈ (intersectPermissionProfiles host buildGlobMatcher requested granted
      cwd).policy.resolvedEntriesWithCwd host cwd, entry.path.comps <+: p.comps →
      entry.path.comps <+: d.comps ∧ (entry.path = d → entry.access ≠ .none) := by
    intro entry he hep
    rcases (mem_intersect hcwd).mp he with hgrant | ⟨hnone, hsource, -⟩
    · exact ⟨hn.longest ⟨entry, hgrant, rfl⟩ hep, fun _ => (admitted_covered hcwd hgrant).2.1⟩
    · have hside : ¬ d.comps <+: entry.path.comps := by
        intro hde
        rcases hsource with he' | he'
        · exact hno requested (by simp) entry he' hnone hde hep
        · exact hno granted (by simp) entry he' hnone hde hep
      have hcomparable := prefix_or_prefix_of_prefix hep hn.covers
      refine ⟨hcomparable.resolve_right hside, fun heq => ?_⟩
      exact absurd (heq ▸ prefix_rfl) hside
  obtain ⟨⟨grant, hgrant, rfl, hwrite⟩, -⟩ := hw
  have hin := (mem_intersect hcwd).mpr (.inl hgrant)
  refine (FileSystemSandboxPolicy.canWrite_resolveAccess rfl hpath).mpr ⟨grant.path, ?_, ?_⟩
  · exact ⟨⟨grant, hin, rfl⟩, hn.covers, fun entry he hep => (hat entry he hep).1⟩
  · refine ⟨⟨grant, hin, rfl, hwrite⟩, fun entry he heq => (hat entry he ?_).2 heq⟩
    rw [heq]
    exact hn.covers

theorem losesReadOnlyEntry_of_writes
    (h : (intersectPermissionProfiles host buildGlobMatcher requested granted
      cwd).GrantsWrite host cwd p) (hmem : side ∈ [requested, granted])
    (hnot : ¬ side.GrantsWrite host cwd p) :
    LosesReadOnlyEntry host buildGlobMatcher requested granted cwd p := by
  have hpath := resolveCandidatePath_display host p cwd
  obtain ⟨d, hn, hw⟩ := (FileSystemSandboxPolicy.canWrite_resolveAccess rfl hpath).mp h
  obtain ⟨e, hne, hwe⟩ := side_writes hcwd hn hw hmem
  have hnoe : ¬ side.policy.WritesAt host cwd e := fun hwe =>
    hnot ((FileSystemSandboxPolicy.canWrite_resolveAccess rfl hpath).mpr ⟨e, hne, hwe⟩)
  obtain ⟨⟨grant, hin, rfl, hwrite⟩, hno⟩ := hw
  have hgrant := ((mem_intersect hcwd).mp hin).resolve_right fun h => hno grant hin rfl h.1
  refine ⟨grant.path, ⟨⟨grant, hgrant, rfl⟩, hn.covers, fun entry he hep => ?_⟩,
    ⟨⟨grant, hgrant, rfl, hwrite⟩, fun entry he _ => (admitted_covered hcwd he).2.1⟩, ?_,
    side, hmem, e, hne, hwe.resolve_left hnoe, hnoe⟩
  · exact hn.longest ⟨entry, (mem_intersect hcwd).mpr (.inl he), rfl⟩ hep
  · intro other hother entry he hnone hde hep
    have hkept := intersect_keeps_denials hcwd hother he hnone hgrant hep hn.covers
    have hback := hn.longest ⟨entry, hkept, rfl⟩ hep
    exact hno entry hkept (AbsolutePathBuf.eq_of_le_of_le hback hde) hnone

end

/-- The intersection stays within both sides at a path exactly unless it loses a narrower
read-only entry of one of them. -/
theorem intersection_within_iff (hcwd : isAbsolute cwd = true) (p : AbsolutePathBuf) :
    (((intersectPermissionProfiles host buildGlobMatcher requested granted
          cwd).GrantsRead host cwd p →
        requested.GrantsRead host cwd p ∧ granted.GrantsRead host cwd p) ∧
      ((intersectPermissionProfiles host buildGlobMatcher requested granted
          cwd).GrantsWrite host cwd p →
        requested.GrantsWrite host cwd p ∧ granted.GrantsWrite host cwd p) ∧
      ((intersectPermissionProfiles host buildGlobMatcher requested granted
          cwd).networkEnabled = true →
        requested.networkEnabled = true ∧ granted.networkEnabled = true)) ↔
      ¬ LosesReadOnlyEntry host buildGlobMatcher requested granted cwd p := by
  have hpath := resolveCandidatePath_display host p cwd
  have hnetwork : (intersectPermissionProfiles host buildGlobMatcher requested granted
      cwd).networkEnabled = true →
        requested.networkEnabled = true ∧ granted.networkEnabled = true := by
    unfold intersectPermissionProfiles AdditionalPermissionProfile.networkEnabled
    split
    · rename_i hboth
      rw [hboth.1, hboth.2]
      exact fun _ => ⟨rfl, rfl⟩
    · intro h
      cases h
  constructor
  · rintro ⟨-, hwithin, -⟩ hloses
    obtain ⟨hreq, hgra⟩ := hwithin (hloses.writes hcwd)
    obtain ⟨-, -, -, -, side, hmem, q, hn, -, hno⟩ := hloses
    have hside : side.GrantsWrite host cwd p := by
      rcases mem_cons.mp hmem with rfl | hmem
      · exact hreq
      · exact mem_singleton.mp hmem ▸ hgra
    obtain ⟨e, hne, hwe⟩ := (FileSystemSandboxPolicy.canWrite_resolveAccess rfl hpath).mp hside
    exact hno (hne.unique hn ▸ hwe)
  · intro hno
    refine ⟨intersect_reads hcwd, fun h => ⟨?_, ?_⟩, hnetwork⟩
    · by_contra hnot
      exact hno (losesReadOnlyEntry_of_writes hcwd h (by simp) hnot)
    · by_contra hnot
      exact hno (losesReadOnlyEntry_of_writes hcwd h (mem_cons_of_mem _ (by simp)) hnot)

end

def readOnlyInside : AbsolutePathBuf := ⟨[['w'], ['r', 'o']], by decide⟩

def requestedReadOnlyInside : AdditionalPermissionProfile :=
  ⟨none, some ⟨[⟨.path workspacePath, .write⟩, ⟨.path readOnlyInside, .read⟩], none⟩⟩

def grantedWorkspace : AdditionalPermissionProfile :=
  ⟨none, some ⟨[⟨.path workspacePath, .write⟩], none⟩⟩

def insideReadOnly : AbsolutePathBuf := ⟨[['w'], ['r', 'o'], ['x']], by decide⟩

theorem intersection_within_iff_readOnlyInside :
    (((intersectPermissionProfiles emptyHost (fun _ => none) requestedReadOnlyInside
          grantedWorkspace ['/']).GrantsRead emptyHost ['/'] insideReadOnly →
        requestedReadOnlyInside.GrantsRead emptyHost ['/'] insideReadOnly ∧
          grantedWorkspace.GrantsRead emptyHost ['/'] insideReadOnly) ∧
      ((intersectPermissionProfiles emptyHost (fun _ => none) requestedReadOnlyInside
          grantedWorkspace ['/']).GrantsWrite emptyHost ['/'] insideReadOnly →
        requestedReadOnlyInside.GrantsWrite emptyHost ['/'] insideReadOnly ∧
          grantedWorkspace.GrantsWrite emptyHost ['/'] insideReadOnly) ∧
      ((intersectPermissionProfiles emptyHost (fun _ => none) requestedReadOnlyInside
          grantedWorkspace ['/']).networkEnabled = true →
        requestedReadOnlyInside.networkEnabled = true ∧ grantedWorkspace.networkEnabled = true)) ↔
      ¬ LosesReadOnlyEntry emptyHost (fun _ => none) requestedReadOnlyInside grantedWorkspace
        ['/'] insideReadOnly :=
  intersection_within_iff rfl insideReadOnly

/-- The intersection lets the read-only directory of the request be written. -/
theorem intersection_exceeds_request : emptyHost.NoSymlinks ∧ isAbsolute ['/'] = true ∧
      (intersectPermissionProfiles emptyHost (fun _ => none) requestedReadOnlyInside
        grantedWorkspace ['/']).GrantsWrite emptyHost ['/'] insideReadOnly ∧
      ¬ requestedReadOnlyInside.GrantsWrite emptyHost ['/'] insideReadOnly :=
  ⟨emptyHost_noSymlinks, rfl, by unfold AdditionalPermissionProfile.GrantsWrite; decide +kernel,
    by unfold AdditionalPermissionProfile.GrantsWrite; decide +kernel⟩

end Codex
