import Codex.Sandbox.SemanticSignature

/-!
# Full-disk access and the order of the entries

A policy that counts as full-disk gives the access it says to every path. There is one
exception: a write entry for `/tmp` that is special names no path while `/tmp` is not a
directory, and yet it counts against the read entries there.

The most specific entry decides wherever it stands in the list. Only protected metadata
depends on the order: the first write entry that has the path below one of its metadata
directories tells whether it is protected.
-/

namespace Codex.FileSystemSandboxPolicy

open Foundation List

section
variable {policy : FileSystemSandboxPolicy} {host : Host} {cwd path : Text} {p : AbsolutePathBuf}

section
variable (h : resolveCandidatePath host path cwd = some p)
include h

theorem resolveAccess_candidate :
    policy.resolveAccessWithCwd host path cwd = policy.resolveAccessWithCwd host p.display cwd := by
  unfold resolveAccessWithCwd
  rw [h, resolveCandidatePath_display]

theorem canRead_candidate :
    policy.canReadPathWithCwd host path cwd = policy.canReadPathWithCwd host p.display cwd := by
  unfold canReadPathWithCwd
  rw [resolveAccess_candidate h]

theorem canWrite_candidate :
    policy.canWritePathWithCwd host path cwd = policy.canWritePathWithCwd host p.display cwd := by
  unfold canWritePathWithCwd isMetadataWriteDenied
  rw [resolveAccess_candidate h, h, resolveCandidatePath_display]

end

theorem candidate_of_cwd (host : Host) (path : Text) (hcwd : isAbsolute cwd = true) :
    ∃ p, resolveCandidatePath host path cwd = some p := by
  unfold resolveCandidatePath
  split
  · next habs => exact absolutePath_of_isAbsolute host habs
  · obtain ⟨c, hc⟩ := absolutePath_of_isAbsolute host hcwd
    exact ⟨c.join host.paths.homeDir path, by rw [hc]; rfl⟩

end

/-! ## Sound predicates -/

section
variable (policy : FileSystemSandboxPolicy) (host : Host)

structure FullAccessSound : Prop where
  write : policy.hasFullDiskWriteAccess = true →
    ∀ cwd path, isAbsolute cwd = true → isAbsolute path = true →
      policy.resolveAccessWithCwd host path cwd = .write ∧
        policy.canWritePathWithCwd host path cwd = true
  read : policy.hasFullDiskReadAccess = true →
    ∀ cwd path, isAbsolute cwd = true → isAbsolute path = true →
      policy.canReadPathWithCwd host path cwd = true

/-- Where an entry names `/tmp`, a write entry does. -/
def TmpWritable : Prop :=
  ∀ cwd, isAbsolute cwd = true → policy.HasEntryAt host cwd slashTmpPath →
    ∃ entry ∈ policy.resolvedEntriesWithCwd host cwd,
      entry.path = slashTmpPath ∧ entry.access = .write

end

section
variable {policy : FileSystemSandboxPolicy} {host : Host} {cwd : Text}

theorem access_of_kind (hkind : policy.kind ≠ .restricted) (path cwd : Text) :
    policy.resolveAccessWithCwd host path cwd = .write := by
  unfold resolveAccessWithCwd
  cases hk : policy.kind with
  | restricted => exact absurd hk hkind
  | unrestricted | externalSandbox => rfl

theorem canWrite_of_fullDisk (hfull : policy.hasFullDiskWriteAccess = true) {path cwd : Text}
    (haccess : policy.resolveAccessWithCwd host path cwd = .write) :
    policy.canWritePathWithCwd host path cwd = true := by
  unfold canWritePathWithCwd
  rw [haccess, hfull]
  rfl

theorem fullDiskWrite_access (hcwd : isAbsolute cwd = true) (hkind : policy.kind = .restricted)
    (hfull : policy.hasFullDiskWriteAccess = true) (htmp : policy.TmpWritable host)
    (p : AbsolutePathBuf) : policy.resolveAccessWithCwd host p.display cwd = .write := by
  have hwrite : policy.canWritePathWithCwd host p.display cwd = true := by
    rw [fullDiskWrite_canWrite_iff hcwd hfull]
    rintro ⟨-, -, hn, hno⟩
    have hreads := (fullDiskWrite_writesAt hkind hcwd hfull hn.hasEntryAt).1
    exact hno ⟨htmp cwd hcwd hn.hasEntryAt, hreads.2⟩
  unfold canWritePathWithCwd at hwrite
  split at hwrite
  · cases hwrite
  · next hcan =>
    rw [Bool.not_eq_true', Bool.not_eq_false] at hcan
    exact of_decide_eq_true hcan

theorem fullAccessSound_iff : policy.FullAccessSound host ↔
    (policy.kind = .restricted → policy.hasFullDiskWriteAccess = true →
      policy.TmpWritable host) := by
  constructor
  · intro hsound hkind hfull cwd hcwd hentry
    have haccess := (hsound.write hfull cwd slashTmpPath.display hcwd (isAbsolute_display _)).1
    obtain ⟨d, hn, hentryAt, -⟩ := (resolveAccess_eq_iff hkind
      (resolveCandidatePath_display host slashTmpPath cwd) (by decide)).mp haccess
    rw [hentry.nearest_self.unique hn]
    exact hentryAt
  · intro htmp
    refine ⟨fun hfull cwd path hcwd hpath => ?_, fun hfull cwd path hcwd hpath => ?_⟩
    · obtain ⟨p, hp⟩ := candidate_of_cwd host path hcwd
      have haccess : policy.resolveAccessWithCwd host path cwd = .write := by
        by_cases hkind : policy.kind = .restricted
        · rw [resolveAccess_candidate hp]
          exact fullDiskWrite_access hcwd hkind hfull (htmp hkind hfull) p
        · exact access_of_kind hkind path cwd
      exact ⟨haccess, canWrite_of_fullDisk hfull haccess⟩
    · obtain ⟨p, hp⟩ := candidate_of_cwd host path hcwd
      by_cases hkind : policy.kind = .restricted
      · rw [canRead_candidate hp]
        exact fullDiskRead_canRead hkind hcwd hfull p
      · unfold canReadPathWithCwd
        rw [access_of_kind hkind]
        rfl

end

/-- The read entry for `/tmp` counts as overridden. -/
def tmpReadOverridden : FileSystemSandboxPolicy :=
  .ofRestricted [⟨.special .root, .write⟩, ⟨.path slashTmpPath, .read⟩, ⟨.special .slashTmp, .write⟩]

theorem tmpReadOverridden_unsound : ¬ tmpReadOverridden.FullAccessSound emptyHost := by
  intro h
  have haccess := (h.write (by decide) ['/'] ['/', 't', 'm', 'p'] (by decide) (by decide)).1
  revert haccess
  decide +kernel

section
variable {policy other : FileSystemSandboxPolicy} {host : Host} {cwd : Text}
  {p d r : AbsolutePathBuf}

/-- The same entries in another order. -/
structure Reordered (policy other : FileSystemSandboxPolicy) : Prop where
  kind : other.kind = policy.kind
  entries : other.entries.Perm policy.entries

/-! ## What the order leaves alone -/

section
variable (h : policy.Reordered other)
include h

theorem Reordered.mem_resolved (entry : ResolvedFileSystemEntry) :
    entry ∈ other.resolvedEntriesWithCwd host cwd ↔
      entry ∈ policy.resolvedEntriesWithCwd host cwd :=
  (h.entries.filterMap _).mem_iff

theorem Reordered.nearest : other.NearestEntry host cwd p d ↔ policy.NearestEntry host cwd p d :=
  Nearest.congr h.mem_resolved

theorem Reordered.writesAt : other.WritesAt host cwd d ↔ policy.WritesAt host cwd d := by
  unfold WritesAt
  simp only [h.mem_resolved]

theorem Reordered.hasEntryAt : other.HasEntryAt host cwd d ↔ policy.HasEntryAt host cwd d := by
  unfold HasEntryAt
  simp only [h.mem_resolved]

theorem Reordered.any (q : FileSystemSandboxEntry → Bool) :
    other.entries.any q = policy.entries.any q := by
  rw [Bool.eq_iff_iff, any_eq_true, any_eq_true]
  simp only [h.entries.mem_iff]

theorem Reordered.fullDiskWrite : other.hasFullDiskWriteAccess = policy.hasFullDiskWriteAccess := by
  have hover : other.hasSameTargetWriteOverride = policy.hasSameTargetWriteOverride :=
    funext fun entry => h.any _
  have hnarrows : other.narrowsWrite = policy.narrowsWrite := by
    funext entry
    unfold narrowsWrite
    rw [hover]
  unfold hasFullDiskWriteAccess hasRootAccess hasWriteNarrowingEntries
  rw [h.kind, hnarrows, h.any, h.any]

theorem Reordered.resolveAccess {path : Text}
    (hpath : resolveCandidatePath host path cwd = some p) :
    other.resolveAccessWithCwd host path cwd = policy.resolveAccessWithCwd host path cwd := by
  by_cases hkind : policy.kind = .restricted
  · rw [resolveAccess_ruling (h.kind.trans hkind) hpath, resolveAccess_ruling hkind hpath,
      ruling_congr h.mem_resolved]
  · rw [access_of_kind hkind, access_of_kind (by rw [h.kind]; exact hkind)]

end

/-! ## Protected metadata -/

variable (policy host cwd) in
/-- The write path `d` is in a metadata directory of the write path `r`, and some metadata
of its own has no entry. -/
structure NestedInMetadata (r d : AbsolutePathBuf) : Prop where
  outer : ∃ entry ∈ policy.resolvedEntriesWithCwd host cwd, entry.path = r ∧ entry.access = .write
  inner : policy.WritesAt host cwd d
  inside : ∃ m ∈ protectedMetadataPathNames, r.comps ++ [m] <+: d.comps
  lacking : ∃ m ∈ protectedMetadataPathNames, ¬ policy.HasEntryAt host cwd (d.join host.paths.homeDir m)

theorem metadataRoot_ne_none (hw : policy.WritesAt host cwd d) {m : Text}
    (hm : m ∈ protectedMetadataPathNames) (hbelow : p.componentBelow d = some m) :
    policy.metadataRoot host cwd p ≠ none := by
  obtain ⟨⟨entry, he, rfl, hwrite⟩, -⟩ := hw
  have hname : metadataPathName m = some m := metadataPathName_eq_some.mpr ⟨rfl, hm⟩
  unfold metadataRoot
  rw [ne_eq, Option.map_eq_none_iff, List.find?_eq_none]
  intro h
  refine h entry (mem_filter.mpr ⟨he, decide_eq_true hwrite⟩) ?_
  rw [hbelow, Option.bind_some, hname]
  rfl

theorem metadataRoot_nearest_iff (hn : policy.NearestEntry host cwd p d)
    (hw : policy.WritesAt host cwd d) (hno : ∀ r, ¬ policy.NestedInMetadata host cwd r d) :
    policy.metadataRoot host cwd p = some d ↔
      ∃ m ∈ protectedMetadataPathNames, p.componentBelow d = some m := by
  refine ⟨fun h => (metadataRoot_eq_some h).2, ?_⟩
  rintro ⟨m, hm, hbelow⟩
  cases hroot : policy.metadataRoot host cwd p with
  | none => exact absurd hroot (metadataRoot_ne_none hw hm hbelow)
  | some r =>
    obtain ⟨houter, m', hm', hbelow'⟩ := metadataRoot_eq_some hroot
    have hle := AbsolutePathBuf.componentBelow_eq_some.mp hbelow'
    by_contra hne
    have hrd : r.comps <+: d.comps := by
      obtain ⟨entry, he, hpath, -⟩ := houter
      exact hn.longest ⟨entry, he, hpath⟩ ((prefix_append _ _).trans hle)
    have hlt := AbsolutePathBuf.Above.length_lt ⟨hrd, fun heq => hne (by rw [heq])⟩
    have hinside : r.comps ++ [m'] <+: d.comps := by
      refine prefix_of_prefix_length_le hle hn.covers ?_
      rw [length_append, length_singleton]
      exact hlt
    exact hno r ⟨houter, hw, ⟨m', hm', hinside⟩, m, hm, (metadata_below_nearest hn hm hbelow).1⟩

theorem metadataRoot_cons {source : FileSystemSandboxEntry} {rest : List FileSystemSandboxEntry}
    (hentries : policy.entries = source :: rest)
    (hres : resolveEntryPath host source.path (host.paths.absolutePath cwd) = some r)
    (hwrite : source.access = .write) {m : Text} (hm : m ∈ protectedMetadataPathNames)
    (hbelow : p.componentBelow r = some m) : policy.metadataRoot host cwd p = some r := by
  have hname : metadataPathName m = some m := metadataPathName_eq_some.mpr ⟨rfl, hm⟩
  unfold metadataRoot resolvedEntriesWithCwd
  rw [hentries]
  simp [hres, hwrite, hbelow, hname, FileSystemAccessMode.canWrite]

theorem exists_reordered_root
    (he : ∃ entry ∈ policy.resolvedEntriesWithCwd host cwd, entry.path = r ∧ entry.access = .write)
    {m : Text} (hm : m ∈ protectedMetadataPathNames) (hbelow : p.componentBelow r = some m) :
    ∃ other, policy.Reordered other ∧ other.metadataRoot host cwd p = some r := by
  obtain ⟨entry, he, rfl, hwrite⟩ := he
  obtain ⟨source, hsource, hres, hacc⟩ := mem_resolvedEntries.mp he
  refine ⟨{ policy with entries := source :: policy.entries.erase source },
    ⟨rfl, (perm_cons_erase hsource).symm⟩, ?_⟩
  exact metadataRoot_cons rfl hres (hacc.trans hwrite) hm hbelow

/-! ## Permutations -/

variable (policy host) in
def OrderIndependent : Prop :=
  ∀ other, policy.Reordered other → ∀ cwd path, isAbsolute cwd = true → isAbsolute path = true →
    other.resolveAccessWithCwd host path cwd = policy.resolveAccessWithCwd host path cwd ∧
    other.canReadPathWithCwd host path cwd = policy.canReadPathWithCwd host path cwd ∧
    other.canWritePathWithCwd host path cwd = policy.canWritePathWithCwd host path cwd

theorem Reordered.canWrite (h : policy.Reordered other)
    (hfull : policy.hasFullDiskWriteAccess = false)
    (hno : ∀ r d, ¬ policy.NestedInMetadata host cwd r d) :
    other.canWritePathWithCwd host p.display cwd = policy.canWritePathWithCwd host p.display cwd := by
  have hkind := restricted_of_not_fullDisk hfull
  have hno' : ∀ r d, ¬ other.NestedInMetadata host cwd r d := by
    rintro r d ⟨⟨entry, he, houter⟩, hw, hinside, m, hm, hlacking⟩
    refine hno r d ⟨⟨entry, (h.mem_resolved entry).mp he, houter⟩, h.writesAt.mp hw, hinside,
      m, hm, fun hentry => hlacking (h.hasEntryAt.mpr hentry)⟩
  rw [Bool.eq_iff_iff, canWrite_iff (h.kind.trans hkind) (h.fullDiskWrite.trans hfull),
    canWrite_iff hkind hfull]
  refine exists_congr fun d => ?_
  rw [h.nearest, h.writesAt]
  refine and_congr_right fun hn => and_congr_right fun hw => not_congr ?_
  rw [metadataRoot_nearest_iff (h.nearest.mpr hn) (h.writesAt.mpr hw) (hno' · d),
    metadataRoot_nearest_iff hn hw (hno · d)]

theorem NestedInMetadata.not_orderIndependent (hfull : policy.hasFullDiskWriteAccess = false)
    (hcwd : isAbsolute cwd = true) (h : policy.NestedInMetadata host cwd r d) :
    ¬ policy.OrderIndependent host := by
  intro hall
  obtain ⟨m, hm, hinside⟩ := h.inside
  obtain ⟨m', hm', hlacking⟩ := h.lacking
  have hkind := restricted_of_not_fullDisk hfull
  have hw := h.inner
  have hn := nearest_metadata hw.hasEntryAt hm' hlacking
  have hbelowD : (d.join host.paths.homeDir m').componentBelow d = some m' := by
    rw [AbsolutePathBuf.componentBelow_eq_some, join_metadata_comps host d hm']
  have hbelowR : (d.join host.paths.homeDir m').componentBelow r = some m :=
    AbsolutePathBuf.componentBelow_eq_some.mpr (hinside.trans hn.covers)
  have hne : r ≠ d := by
    rintro rfl
    have hlen := hinside.length_le
    rw [length_append, length_singleton] at hlen
    omega
  obtain ⟨outerFirst, hR, hrootR⟩ := exists_reordered_root h.outer hm hbelowR
  obtain ⟨innerFirst, hD, hrootD⟩ := exists_reordered_root hw.1 hm' hbelowD
  have hpath := isAbsolute_display (d.join host.paths.homeDir m')
  have hsameR := (hall outerFirst hR cwd _ hcwd hpath).2.2
  have hsameD := (hall innerFirst hD cwd _ hcwd hpath).2.2
  have hallowed : outerFirst.canWritePathWithCwd host (d.join host.paths.homeDir m').display cwd =
      true := by
    rw [canWrite_iff (hR.kind.trans hkind) (hR.fullDiskWrite.trans hfull)]
    refine ⟨d, hR.nearest.mpr hn, hR.writesAt.mpr hw, ?_⟩
    rw [hrootR]
    exact fun heq => hne (Option.some.inj heq)
  rw [hsameR, ← hsameD, canWrite_iff (hD.kind.trans hkind) (hD.fullDiskWrite.trans hfull)] at hallowed
  obtain ⟨d', hn', -, hroot⟩ := hallowed
  rw [hn'.unique (hD.nearest.mpr hn)] at hroot
  exact hroot hrootD

theorem orderIndependent_iff : policy.OrderIndependent host ↔
    (policy.hasFullDiskWriteAccess = false →
      ∀ cwd, isAbsolute cwd = true → ∀ r d, ¬ policy.NestedInMetadata host cwd r d) := by
  constructor
  · exact fun hall hfull cwd hcwd r d hnested => hnested.not_orderIndependent hfull hcwd hall
  · intro hno other h cwd path hcwd hpath
    obtain ⟨p, hp⟩ := candidate_of_cwd host path hcwd
    have haccess := h.resolveAccess hp
    refine ⟨haccess, by unfold canReadPathWithCwd; rw [haccess], ?_⟩
    cases hfull : policy.hasFullDiskWriteAccess with
    | false =>
      rw [canWrite_candidate hp, canWrite_candidate hp]
      exact h.canWrite hfull (hno hfull cwd hcwd)
    | true =>
      unfold canWritePathWithCwd
      rw [haccess, h.fullDiskWrite, hfull]
      cases (policy.resolveAccessWithCwd host path cwd).canWrite <;> rfl

end

def innerWritePath : AbsolutePathBuf := ⟨[['w'], dotGit, ['i', 'n']], by decide⟩

def writesInMetadata : FileSystemSandboxPolicy :=
  .ofRestricted [⟨.path workspacePath, .write⟩, ⟨.path innerWritePath, .write⟩]

theorem writesInMetadata_orderDependent : ¬ writesInMetadata.OrderIndependent emptyHost := by
  intro h
  have hswap : writesInMetadata.Reordered
      (.ofRestricted [⟨.path innerWritePath, .write⟩, ⟨.path workspacePath, .write⟩]) :=
    ⟨rfl, List.Perm.swap _ _ []⟩
  have hwrite := (h _ hswap ['/'] (innerWritePath.join none dotCodex).display (by decide)
    (isAbsolute_display _)).2.2
  revert hwrite
  decide +kernel

end Codex.FileSystemSandboxPolicy
