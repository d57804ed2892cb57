import Codex.Sandbox.DenyPreservation

/-!
# Additional roots

Roots are added to a policy one by one, each unless it is accessible already. No access is
lost, a root becomes accessible unless it is denied at its own path, and outside of the
roots every path keeps its access.
-/

namespace Codex.FileSystemSandboxPolicy

open Foundation List

/-- Adds an entry for the path unless the policy has the access already. -/
def addRoot (has : FileSystemSandboxPolicy → AbsolutePathBuf → Bool)
    (access : FileSystemAccessMode) (policy : FileSystemSandboxPolicy) (path : AbsolutePathBuf) :
    FileSystemSandboxPolicy :=
  if has policy path then policy
  else { policy with entries := policy.entries ++ [⟨.path path, access⟩] }

section
variable (policy : FileSystemSandboxPolicy) (host : Host) (cwd : Text)

def withAdditionalReadableRoots (additionalReadableRoots : List AbsolutePathBuf) :
    FileSystemSandboxPolicy :=
  if policy.hasFullDiskReadAccess then policy
  else additionalReadableRoots.foldl
    (addRoot (fun policy path => policy.canReadPathWithCwd host path.display cwd) .read) policy

def withAdditionalWritableRoots (additionalWritableRoots : List AbsolutePathBuf) :
    FileSystemSandboxPolicy :=
  additionalWritableRoots.foldl
    (addRoot (fun policy path => policy.canWritePathWithCwd host path.display cwd) .write) policy

def accessAt (p : AbsolutePathBuf) : FileSystemAccessMode :=
  policy.resolveAccessWithCwd host p.display cwd

def Reads (p : AbsolutePathBuf) : Prop := policy.canReadPathWithCwd host p.display cwd = true

def Writes (p : AbsolutePathBuf) : Prop := policy.canWritePathWithCwd host p.display cwd = true

def materializeEntry (cwd : Option AbsolutePathBuf) (entry : FileSystemSandboxEntry) :
    FileSystemSandboxEntry :=
  match entry.path with
  | .special (.projectRoots subpath) =>
    match resolveFileSystemPath host (.special (.projectRoots subpath)) cwd with
    | some path => { entry with path := .path path }
    | none => entry
  | _ => entry

def materializeProjectRootsWithCwd : FileSystemSandboxPolicy :=
  { policy with entries := policy.entries.map (materializeEntry host (host.paths.absolutePath cwd)) }

end

/-! ## One entry more -/

/-- `policy'` has an entry for `r` behind those of `policy`. -/
structure Extends (policy policy' : FileSystemSandboxPolicy) (r : AbsolutePathBuf)
    (a : FileSystemAccessMode) : Prop where
  kind : policy.kind = .restricted
  kind' : policy'.kind = .restricted
  entries : policy'.entries = policy.entries ++ [⟨.path r, a⟩]
  grants : a ≠ .none

section
variable {policy policy' : FileSystemSandboxPolicy} {host : Host} {cwd : Text}
  {r p d : AbsolutePathBuf} {a : FileSystemAccessMode}

section
variable (h : Extends policy policy' r a)
include h

theorem Extends.resolved (host : Host) (cwd : Text) : policy'.resolvedEntriesWithCwd host cwd =
      policy.resolvedEntriesWithCwd host cwd ++ [⟨r, a⟩] := by
  unfold resolvedEntriesWithCwd
  rw [h.entries, filterMap_append]
  rfl

theorem Extends.mem {entry : ResolvedFileSystemEntry} :
    entry ∈ policy'.resolvedEntriesWithCwd host cwd ↔
      entry ∈ policy.resolvedEntriesWithCwd host cwd ∨ entry = ⟨r, a⟩ := by
  rw [h.resolved, mem_append, mem_singleton]

theorem Extends.access_outside (hr : ¬ r.comps <+: p.comps) :
    policy'.accessAt host cwd p = policy.accessAt host cwd p := by
  have hp := resolveCandidatePath_display host p cwd
  unfold accessAt
  rw [resolveAccess_ruling h.kind' hp, resolveAccess_ruling h.kind hp]
  refine congrArg (Option.getD · _) (ruling_congr_covering fun entry hcov => ?_)
  refine h.mem.trans (or_iff_left ?_)
  rintro rfl
  exact hr hcov

theorem Extends.nearest_new (hn : policy.NearestEntry host cwd p d)
    (hdr : d.comps <+: r.comps) (hrp : r.comps <+: p.comps) :
    policy'.NearestEntry host cwd p r := by
  refine ⟨⟨⟨r, a⟩, h.mem.mpr (.inr rfl), rfl⟩, hrp, fun entry he hcov => ?_⟩
  obtain he | rfl := h.mem.mp he
  · exact (hn.longest ⟨entry, he, rfl⟩ hcov).trans hdr
  · exact prefix_rfl

theorem Extends.nearest_old (hn : policy.NearestEntry host cwd p d)
    (hold : r.comps <+: p.comps → r.comps <+: d.comps) : policy'.NearestEntry host cwd p d := by
  obtain ⟨entry, he, hkey⟩ := hn.isKey
  refine ⟨⟨entry, h.mem.mpr (.inl he), hkey⟩, hn.covers, fun entry he hcov => ?_⟩
  obtain he | rfl := h.mem.mp he
  · exact hn.longest ⟨entry, he, rfl⟩ hcov
  · exact hold hcov

theorem Extends.deniesAt : policy'.DeniesAt host cwd d ↔ policy.DeniesAt host cwd d := by
  constructor
  · rintro ⟨entry, he, hpath, hnone⟩
    obtain he | rfl := h.mem.mp he
    · exact ⟨entry, he, hpath, hnone⟩
    · exact absurd hnone h.grants
  · rintro ⟨entry, he, hpath, hnone⟩
    exact ⟨entry, h.mem.mpr (.inl he), hpath, hnone⟩

end

theorem readsAt_iff : policy.ReadsAt host cwd d ↔
    policy.HasEntryAt host cwd d ∧ ¬ policy.DeniesAt host cwd d := by
  simp only [ReadsAt, DeniesAt, not_exists, not_and, ne_eq]

theorem Extends.readsAt (h : Extends policy policy' r a) (hd : policy.ReadsAt host cwd d) :
    policy'.ReadsAt host cwd d := by
  obtain ⟨⟨entry, he, hpath⟩, hno⟩ := readsAt_iff.mp hd
  exact readsAt_iff.mpr ⟨⟨entry, h.mem.mpr (.inl he), hpath⟩, h.deniesAt.not.mpr hno⟩

theorem Extends.reads_new (h : Extends policy policy' r a) (hno : ¬ policy.DeniesAt host cwd r) :
    policy'.ReadsAt host cwd r :=
  readsAt_iff.mpr ⟨⟨⟨r, a⟩, h.mem.mpr (.inr rfl), rfl⟩, h.deniesAt.not.mpr hno⟩

theorem ReadsAt.not_denies (hd : policy.ReadsAt host cwd d) (hn : policy.NearestEntry host cwd p d)
    (hdr : d.comps <+: r.comps) (hrp : r.comps <+: p.comps) : ¬ policy.DeniesAt host cwd r := by
  rintro ⟨entry, he, rfl, hnone⟩
  have hrd := hn.longest ⟨entry, he, rfl⟩ hrp
  exact hd.2 entry he (AbsolutePathBuf.eq_of_le_of_le hrd hdr) hnone

section
variable (h : Extends policy policy' r a)
include h

theorem Extends.nearest (hn : policy.NearestEntry host cwd p d) (hd : policy.ReadsAt host cwd d) :
    (policy'.NearestEntry host cwd p r ∧ ¬ policy.DeniesAt host cwd r) ∨
      policy'.NearestEntry host cwd p d := by
  by_cases hrp : r.comps <+: p.comps
  · obtain hdr | hrd := prefix_or_prefix_of_prefix hn.covers hrp
    · exact .inl ⟨h.nearest_new hn hdr hrp, hd.not_denies hn hdr hrp⟩
    · exact .inr (h.nearest_old hn fun _ => hrd)
  · exact .inr (h.nearest_old hn fun hcov => absurd hcov hrp)

theorem Extends.reads (hp : policy.Reads host cwd p) : policy'.Reads host cwd p := by
  obtain ⟨d, hn, hd⟩ := (canRead_iff h.kind).mp hp
  obtain ⟨hn', hno⟩ | hn' := h.nearest hn hd
  · exact (canRead_iff h.kind').mpr ⟨r, hn', h.reads_new hno⟩
  · exact (canRead_iff h.kind').mpr ⟨d, hn', h.readsAt hd⟩

theorem Extends.reads_root (hno : ¬ policy.DeniesAt host cwd r) : policy'.Reads host cwd r :=
  (canRead_iff h.kind').mpr ⟨r, (h.reads_new hno).1.nearest_self, h.reads_new hno⟩

end

theorem Extends.write_old (h : Extends policy policy' r .read)
    (hw : policy'.accessAt host cwd p = .write) : policy.accessAt host cwd p = .write := by
  have hp := resolveCandidatePath_display host p cwd
  obtain ⟨d, hn, ⟨e, he, rfl, hwrite⟩, hle⟩ := (resolveAccess_eq_iff h.kind' hp (by decide)).mp hw
  have hold : e ∈ policy.resolvedEntriesWithCwd host cwd := by
    refine (h.mem.mp he).resolve_right ?_
    rintro rfl
    cases hwrite
  exact (resolveAccess_eq_iff h.kind hp (by decide)).mpr ⟨e.path,
    ⟨⟨e, hold, rfl⟩, hn.covers, fun e' he' => Nearest.longest hn e' (h.mem.mpr (.inl he'))⟩,
    ⟨e, hold, rfl, hwrite⟩, fun e' he' => hle e' (h.mem.mpr (.inl he'))⟩

/-! ## A write entry more -/

section
variable (h : Extends policy policy' r .write)
include h

theorem Extends.narrowsWrite {entry : FileSystemSandboxEntry}
    (hno : policy.narrowsWrite entry = false) : policy'.narrowsWrite entry = false := by
  have hoverride : policy.hasSameTargetWriteOverride entry = true →
      policy'.hasSameTargetWriteOverride entry = true := by
    unfold hasSameTargetWriteOverride
    rw [h.entries, any_append]
    exact fun hany => Bool.or_eq_true_iff.mpr (.inl hany)
  unfold FileSystemSandboxPolicy.narrowsWrite at hno ⊢
  split at hno
  · next hwrite => rw [if_pos hwrite]
  · next hwrite =>
    rw [if_neg hwrite]
    split at hno <;> simp_all

theorem Extends.fullDisk
    (hfull : policy.hasFullDiskWriteAccess = true) : policy'.hasFullDiskWriteAccess = true := by
  unfold hasFullDiskWriteAccess at hfull ⊢
  simp only [h.kind, h.kind', hasRootAccess, hasWriteNarrowingEntries, h.entries, decide_true,
    Bool.true_and, Bool.and_eq_true, Bool.not_eq_true', any_append, any_eq_false] at hfull ⊢
  refine ⟨Bool.or_eq_true_iff.mpr (.inl hfull.1), Bool.or_eq_false_iff.mpr ⟨?_, rfl⟩⟩
  exact any_eq_false.mpr fun entry he =>
    Bool.not_eq_true _ ▸ h.narrowsWrite (Bool.not_eq_true _ ▸ hfull.2 entry he)

theorem Extends.not_fullDisk
    (hfull : policy'.hasFullDiskWriteAccess = false) : policy.hasFullDiskWriteAccess = false :=
  Bool.eq_false_iff.mpr fun hold => Bool.eq_false_iff.mp hfull (h.fullDisk hold)

end

theorem writes_of_fullDisk (hkind : policy.kind = .restricted)
    (hfull : policy.hasFullDiskWriteAccess = true) : policy.Writes host cwd p ↔
      ∃ d, policy.NearestEntry host cwd p d ∧ policy.WritesAt host cwd d := by
  rw [← canWrite_resolveAccess hkind (resolveCandidatePath_display host p cwd)]
  simp [Writes, canWritePathWithCwd, hfull]

variable (h : Extends policy policy' r .write)
include h

theorem Extends.writesAt (hd : policy.WritesAt host cwd d) : policy'.WritesAt host cwd d := by
  obtain ⟨entry, he, hpath, hwrite⟩ := hd.1
  exact ⟨⟨entry, h.mem.mpr (.inl he), hpath, hwrite⟩, (h.readsAt hd.readsAt).2⟩

theorem Extends.writes_new (hno : ¬ policy.DeniesAt host cwd r) : policy'.WritesAt host cwd r :=
  ⟨⟨⟨r, .write⟩, h.mem.mpr (.inr rfl), rfl, rfl⟩, (h.reads_new hno).2⟩

theorem Extends.metadataRoot (host : Host) (cwd : Text) (p : AbsolutePathBuf) :
    policy'.metadataRoot host cwd p = policy.metadataRoot host cwd p ∨
      policy'.metadataRoot host cwd p = some r ∧ r.comps <+: p.comps := by
  cases hold : policy.metadataRoot host cwd p with
  | some d =>
    obtain ⟨entry, hfind, rfl⟩ := Option.map_eq_some_iff.mp hold
    unfold FileSystemSandboxPolicy.metadataRoot
    rw [h.resolved, filter_append, find?_append, hfind]
    exact .inl rfl
  | none =>
    cases hnew : policy'.metadataRoot host cwd p with
    | none => exact .inl rfl
    | some d =>
      obtain ⟨entry, hfind, rfl⟩ := Option.map_eq_some_iff.mp hnew
      rw [h.resolved, filter_append, find?_append, Option.map_eq_none_iff.mp hold,
        Option.none_or] at hfind
      obtain rfl := mem_singleton.mp (mem_filter.mp (mem_of_find?_eq_some hfind)).1
      obtain ⟨-, m, -, hbelow⟩ := metadataRoot_eq_some hnew
      exact .inr ⟨rfl, (prefix_append _ _).trans (AbsolutePathBuf.componentBelow_eq_some.mp hbelow)⟩

theorem Extends.writes_root (hno : ¬ policy.DeniesAt host cwd r) : policy'.Writes host cwd r := by
  have hself := (h.reads_new hno).1.nearest_self
  cases hfull : policy'.hasFullDiskWriteAccess with
  | true => exact (writes_of_fullDisk h.kind' hfull).mpr ⟨r, hself, h.writes_new hno⟩
  | false => exact (canWrite_entry h.kind' hfull hself.hasEntryAt).mpr (h.writes_new hno)

theorem Extends.writes (hr : ¬ policy.Writes host cwd r)
    (hp : policy.Writes host cwd p) : policy'.Writes host cwd p := by
  cases hfull' : policy'.hasFullDiskWriteAccess with
  | true =>
    have haccess : ∃ d, policy.NearestEntry host cwd p d ∧ policy.WritesAt host cwd d := by
      cases hfull : policy.hasFullDiskWriteAccess with
      | true => exact (writes_of_fullDisk h.kind hfull).mp hp
      | false =>
        obtain ⟨d, hn, hd, -⟩ := (canWrite_iff h.kind hfull).mp hp
        exact ⟨d, hn, hd⟩
    obtain ⟨d, hn, hd⟩ := haccess
    obtain ⟨hn', hno⟩ | hn' := h.nearest hn hd.readsAt
    · exact (writes_of_fullDisk h.kind' hfull').mpr ⟨r, hn', h.writes_new hno⟩
    · exact (writes_of_fullDisk h.kind' hfull').mpr ⟨d, hn', h.writesAt hd⟩
  | false =>
    have hfull := h.not_fullDisk hfull'
    obtain ⟨d, hn, hd, hroot⟩ := (canWrite_iff h.kind hfull).mp hp
    -- between the nearest entry and the path, `r` would be writable as the path is
    have hblock : r.comps <+: p.comps → ¬ d.comps <+: r.comps := by
      intro hrp hdr
      refine hr ?_
      by_cases heq : d = r
      · exact heq ▸ (canWrite_entry h.kind hfull hn.hasEntryAt).mpr hd
      · have hnr : policy.NearestEntry host cwd r d :=
          ⟨hn.isKey, hdr, fun e he hcov => Nearest.longest hn e he (hcov.trans hrp)⟩
        refine (canWrite_iff h.kind hfull).mpr ⟨d, hnr, hd, ?_⟩
        rwa [← metadataRoot_congr hn ⟨hdr, heq⟩ hrp]
    refine (canWrite_iff h.kind' hfull').mpr ⟨d, h.nearest_old hn fun hrp => ?_, h.writesAt hd, ?_⟩
    · have horder := prefix_or_prefix_of_prefix hn.covers hrp
      exact horder.resolve_left (hblock hrp)
    · obtain hsame | ⟨hnew, hrp⟩ := h.metadataRoot host cwd p
      · rwa [hsame]
      · rw [hnew]
        rintro heq
        cases heq
        exact hblock hrp prefix_rfl

end

/-! ## All roots -/

variable {policy : FileSystemSandboxPolicy} {host : Host} {cwd : Text}
  {has : FileSystemSandboxPolicy → AbsolutePathBuf → Bool} {access : FileSystemAccessMode}
  {roots : List AbsolutePathBuf}

section
variable (hkind : policy.kind = .restricted)
include hkind

variable (ha : access ≠ .none)
include ha

theorem foldl_addRoot
    {P : FileSystemSandboxPolicy → Prop} (hstep : ∀ u v, ∀ r ∈ roots, ¬ has u r = true →
      Extends u v r access → P u → P v) (h : P policy) :
    (roots.foldl (addRoot has access) policy).kind = .restricted ∧
      P (roots.foldl (addRoot has access) policy) := by
  refine List.foldlRecOn (motive := fun u => u.kind = .restricted ∧ P u) roots _ ⟨hkind, h⟩
    fun u hu r hr => ?_
  unfold addRoot
  split
  · exact hu
  · next hno => exact ⟨hu.1, hstep u _ r hr hno ⟨hu.1, hu.1, rfl, ha⟩ hu.2⟩

theorem foldl_addRoot_reads {p : AbsolutePathBuf} (hp : policy.Reads host cwd p) :
    (roots.foldl (addRoot has access) policy).Reads host cwd p :=
  (foldl_addRoot (P := fun u => u.Reads host cwd p) hkind ha
    (fun _ _ _ _ _ hext => hext.reads) hp).2

theorem foldl_addRoot_outside {p : AbsolutePathBuf} (hout : ∀ r ∈ roots, ¬ r.comps <+: p.comps) :
    (roots.foldl (addRoot has access) policy).accessAt host cwd p = policy.accessAt host cwd p :=
  (foldl_addRoot (P := fun u => u.accessAt host cwd p = policy.accessAt host cwd p) hkind ha
    (fun _ _ r hr _ hext hu => (hext.access_outside (hout r hr)).trans hu) rfl).2

theorem foldl_addRoot_root {r : AbsolutePathBuf} (hr : r ∈ roots)
    (hkeeps : ∀ u v r', ¬ has u r' = true → Extends u v r' access → has u r = true →
      has v r = true)
    (hnew : ∀ u v, Extends u v r access → ¬ u.DeniesAt host cwd r → has v r = true)
    (hdenied : ∀ u, u.kind = .restricted → u.DeniesAt host cwd r → ¬ has u r = true) :
    has (roots.foldl (addRoot has access) policy) r = true ↔ ¬ policy.DeniesAt host cwd r := by
  constructor
  · intro h hdenies
    obtain ⟨hkind', hdenies'⟩ := foldl_addRoot (P := fun u => u.DeniesAt host cwd r) hkind ha
      (fun _ _ _ _ _ hext => hext.deniesAt.mpr) hdenies
    exact hdenied _ hkind' hdenies' h
  · intro hno
    obtain ⟨before, after, rfl⟩ := append_of_mem hr
    rw [foldl_append, foldl_cons]
    obtain ⟨hkind', hno'⟩ := @foldl_addRoot policy has access before hkind ha
      (fun u => ¬ u.DeniesAt host cwd r) (fun _ _ _ _ _ hext => hext.deniesAt.not.mpr) hno
    generalize before.foldl (addRoot has access) policy = u at hkind' hno'
    refine (foldl_addRoot (P := fun u => has u r = true) ?_ ha
      (fun u v r' _ hmiss hext => hkeeps u v r' hmiss hext) ?_).2
    · unfold addRoot
      split <;> exact hkind'
    · unfold addRoot
      split
      · assumption
      · exact hnew u _ ⟨hkind', hkind', rfl, ha⟩ hno'

end

theorem DeniesAt.not_writes {r : AbsolutePathBuf} (h : policy.DeniesAt host cwd r)
    (hkind : policy.kind = .restricted) : ¬ policy.Writes host cwd r := by
  have hread := h.not_canRead hkind (resolveCandidatePath_display host r cwd)
  unfold canReadPathWithCwd at hread
  unfold Writes canWritePathWithCwd
  cases ha : policy.resolveAccessWithCwd host r.display cwd with
  | none => simp [FileSystemAccessMode.canWrite]
  | read | write => simp [ha, FileSystemAccessMode.canRead] at hread

variable (policy host cwd)

/-- No access is lost, a root can be written unless it is denied at its own path, and access
outside of the roots stays. -/
theorem additional_writable_roots (hkind : policy.kind = .restricted)
    (roots : List AbsolutePathBuf) :
    let policy' := policy.withAdditionalWritableRoots host cwd roots
    (∀ p, (policy.Reads host cwd p → policy'.Reads host cwd p) ∧
      (policy.Writes host cwd p → policy'.Writes host cwd p)) ∧
    (∀ r ∈ roots, policy'.Writes host cwd r ↔ ¬ policy.DeniesAt host cwd r) ∧
    ∀ p : AbsolutePathBuf, (∀ r ∈ roots, ¬ r.comps <+: p.comps) →
      policy'.accessAt host cwd p = policy.accessAt host cwd p := by
  refine ⟨fun p => ⟨fun hp => ?_, fun hp => ?_⟩, fun r hr => ?_, fun p hout => ?_⟩
  · exact foldl_addRoot_reads hkind (by decide) hp
  · exact (foldl_addRoot (P := fun u => u.Writes host cwd p) hkind (by decide)
      (fun _ _ _ _ hmiss hext => hext.writes hmiss) hp).2
  · exact foldl_addRoot_root hkind (by decide) hr (fun _ _ _ hmiss hext => hext.writes hmiss)
      (fun _ _ hext => hext.writes_root) fun _ hu hdenies => hdenies.not_writes hu
  · exact foldl_addRoot_outside hkind (by decide) hout

def tmpRead : FileSystemSandboxPolicy := .ofRestricted [⟨.path slashTmpPath, .read⟩]

theorem additional_writable_roots_tmp :
    (tmpRead.withAdditionalWritableRoots emptyHost ['/'] [slashTmpPath]).Writes emptyHost ['/']
      slashTmpPath :=
  ((additional_writable_roots tmpRead emptyHost ['/'] rfl [slashTmpPath]).2.1 slashTmpPath
    mem_cons_self).mpr (by unfold DeniesAt; decide +kernel)

/-- No access is lost, nothing becomes writable, a root can be read unless it is denied at
its own path, and access outside of the roots stays. -/
theorem additional_readable_roots (hkind : policy.kind = .restricted)
    (hdisk : policy.hasFullDiskReadAccess = false) (roots : List AbsolutePathBuf) :
    let policy' := policy.withAdditionalReadableRoots host cwd roots
    (∀ p, (policy.Reads host cwd p → policy'.Reads host cwd p) ∧
      (policy'.accessAt host cwd p = .write → policy.accessAt host cwd p = .write)) ∧
    (∀ r ∈ roots, policy'.Reads host cwd r ↔ ¬ policy.DeniesAt host cwd r) ∧
    ∀ p : AbsolutePathBuf, (∀ r ∈ roots, ¬ r.comps <+: p.comps) →
      policy'.accessAt host cwd p = policy.accessAt host cwd p := by
  unfold withAdditionalReadableRoots
  rw [hdisk, if_neg Bool.false_ne_true]
  refine ⟨fun p => ⟨fun hp => ?_, ?_⟩, fun r hr => ?_, fun p hout => ?_⟩
  · exact foldl_addRoot_reads hkind (by decide) hp
  · exact (foldl_addRoot (P := fun u => u.accessAt host cwd p = .write →
      policy.accessAt host cwd p = .write) hkind (by decide)
      (fun _ _ _ _ _ hext hu hw => hu (hext.write_old hw)) id).2
  · refine @foldl_addRoot_root policy host cwd
      (fun u r => u.canReadPathWithCwd host r.display cwd) .read roots hkind (by decide) _ hr
      (fun _ _ _ _ hext => hext.reads) (fun _ _ hext => hext.reads_root) fun _ hu hdenies => ?_
    rw [hdenies.not_canRead hu (resolveCandidatePath_display host r cwd)]
    exact Bool.false_ne_true
  · exact foldl_addRoot_outside hkind (by decide) hout

theorem additional_readable_roots_root :
    (tmpRead.withAdditionalReadableRoots emptyHost ['/'] [.root]).Reads emptyHost ['/'] .root :=
  ((additional_readable_roots tmpRead emptyHost ['/'] rfl (by decide) [.root]).2.1 .root
    mem_cons_self).mpr (by unfold DeniesAt; decide +kernel)

theorem materialize_resolved {cwd cwd' : Text} (hcwd : isAbsolute cwd = true)
    (hcwd' : isAbsolute cwd' = true) :
    (policy.materializeProjectRootsWithCwd host cwd).resolvedEntriesWithCwd host cwd' =
      policy.resolvedEntriesWithCwd host cwd := by
  obtain ⟨c, hc⟩ := absolutePath_of_isAbsolute host hcwd
  obtain ⟨c', hc'⟩ := absolutePath_of_isAbsolute host hcwd'
  unfold resolvedEntriesWithCwd materializeProjectRootsWithCwd
  rw [filterMap_map, hc, hc']
  refine filterMap_congr fun entry _ => ?_
  obtain ⟨path, access⟩ := entry
  cases path with
  | path path | globPattern pattern => rfl
  | special value => cases value <;> rfl

/-- What a policy grants under a working directory, the materialized one grants under any. -/
theorem materialized_rebinds_nothing {cwd cwd' : Text} (hcwd : isAbsolute cwd = true)
    (hcwd' : isAbsolute cwd' = true) (p : AbsolutePathBuf) :
    (policy.materializeProjectRootsWithCwd host cwd).accessAt host cwd' p =
        policy.accessAt host cwd p ∧
      ((policy.materializeProjectRootsWithCwd host cwd).hasFullDiskWriteAccess =
          policy.hasFullDiskWriteAccess →
        ((policy.materializeProjectRootsWithCwd host cwd).Writes host cwd' p ↔
          policy.Writes host cwd p)) := by
  have hresolved := materialize_resolved policy host hcwd hcwd'
  have haccess : (policy.materializeProjectRootsWithCwd host cwd).accessAt host cwd' p =
      policy.accessAt host cwd p := by
    unfold accessAt resolveAccessWithCwd
    rw [hresolved, resolveCandidatePath_display, resolveCandidatePath_display]
    rfl
  refine ⟨haccess, fun hfull => ?_⟩
  unfold accessAt at haccess
  unfold Writes canWritePathWithCwd isMetadataWriteDenied metadataChildOfWritableRoot
    hasExplicitWriteEntryForMetadataPath
  rw [haccess, hfull, hresolved, resolveCandidatePath_display, resolveCandidatePath_display]
  rfl

theorem materialized_rebinds_nothing_moved :
    ((ofRestricted [⟨.special (.projectRoots none), .write⟩]).materializeProjectRootsWithCwd
        emptyHost slashTmpPath.display).accessAt emptyHost ['/'] slashTmpPath = .write :=
  (materialized_rebinds_nothing _ _ (by decide) (by decide) slashTmpPath).1.trans
    (by decide +kernel)

end Codex.FileSystemSandboxPolicy
