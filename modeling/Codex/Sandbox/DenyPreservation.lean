import Codex.Sandbox.EntryOrder
import Codex.Sandbox.PolicyTransforms

/-!
# Preserved denials

The deny entries of an existing policy are added to the one that replaces it. An
unrestricted policy becomes a write entry for the root first, so that they have effect.
-/

namespace Codex.FileSystemSandboxPolicy

open Foundation

section
variable (policy existing : FileSystemSandboxPolicy)

def denyReadEntries : List FileSystemSandboxEntry :=
  existing.entries.filter (·.access = .none)

def replacedUnrestricted : FileSystemSandboxPolicy :=
  if policy.kind = .unrestricted && existing.entries.any (·.access = .none) then
    .ofRestricted [⟨.special .root, .write⟩]
  else policy

def preserveDenyReadRestrictionsFrom : FileSystemSandboxPolicy :=
  let replaced := policy.replacedUnrestricted existing
  if replaced.kind = .restricted then
    { replaced with
      globScanMaxDepth := replaced.globScanMaxDepth <|> existing.globScanMaxDepth
      entries := existing.denyReadEntries.foldl pushNew replaced.entries }
  else replaced

def addedDenyEntries : List FileSystemSandboxEntry :=
  (policy.preserveDenyReadRestrictionsFrom existing).entries.filter
    (· ∉ (policy.replacedUnrestricted existing).entries)

end

section
variable {policy existing : FileSystemSandboxPolicy} {host : Host} {cwd path : Text}
  {p : AbsolutePathBuf}

/-! ## Kinds and entries -/

variable {entry : FileSystemSandboxEntry}

theorem mem_denyReadEntries :
    entry ∈ existing.denyReadEntries ↔ entry ∈ existing.entries ∧ entry.access = .none := by
  unfold denyReadEntries
  rw [List.mem_filter, decide_eq_true_iff]

theorem replaced_of_not_unrestricted (h : policy.kind ≠ .unrestricted) :
    policy.replacedUnrestricted existing = policy := by
  unfold replacedUnrestricted
  rw [decide_eq_false h, Bool.false_and, if_neg (by decide)]

theorem replaced_of_unrestricted (h : policy.kind = .unrestricted)
    (hentry : entry ∈ existing.denyReadEntries) :
    policy.replacedUnrestricted existing = .ofRestricted [⟨.special .root, .write⟩] := by
  obtain ⟨hmem, hdeny⟩ := mem_denyReadEntries.mp hentry
  unfold replacedUnrestricted
  rw [h, List.any_eq_true.mpr ⟨entry, hmem, decide_eq_true hdeny⟩]
  rfl

theorem preserve_of_not_restricted (h : (policy.replacedUnrestricted existing).kind ≠ .restricted) :
    policy.preserveDenyReadRestrictionsFrom existing = policy.replacedUnrestricted existing := by
  unfold preserveDenyReadRestrictionsFrom
  rw [if_neg h]

theorem replaced_cases (policy existing : FileSystemSandboxPolicy) : policy.kind = .unrestricted ∧
        policy.replacedUnrestricted existing = .ofRestricted [⟨.special .root, .write⟩] ∨
      policy.kind ≠ .restricted ∧ policy.replacedUnrestricted existing = policy ∨
      policy.kind = .restricted ∧ policy.replacedUnrestricted existing = policy := by
  cases hkind : policy.kind with
  | restricted =>
    exact .inr (.inr ⟨rfl, replaced_of_not_unrestricted (by rw [hkind]; decide)⟩)
  | externalSandbox =>
    exact .inr (.inl ⟨by decide, replaced_of_not_unrestricted (by rw [hkind]; decide)⟩)
  | unrestricted =>
    unfold replacedUnrestricted
    split
    · exact .inl ⟨rfl, rfl⟩
    · exact .inr (.inl ⟨by decide, rfl⟩)

theorem preserve_kind : (policy.preserveDenyReadRestrictionsFrom existing).kind =
    (policy.replacedUnrestricted existing).kind := by
  unfold preserveDenyReadRestrictionsFrom
  dsimp only
  split <;> rfl

theorem mem_preserve (h : (policy.replacedUnrestricted existing).kind = .restricted) :
    entry ∈ (policy.preserveDenyReadRestrictionsFrom existing).entries ↔
      entry ∈ (policy.replacedUnrestricted existing).entries ∨ entry ∈ existing.denyReadEntries := by
  unfold preserveDenyReadRestrictionsFrom
  rw [if_pos h]
  exact mem_foldl_pushNew _ _

theorem replaced_restricted (hkind : policy.kind ≠ .externalSandbox)
    (hentry : entry ∈ existing.denyReadEntries) :
    (policy.replacedUnrestricted existing).kind = .restricted := by
  cases hk : policy.kind with
  | restricted => rw [replaced_of_not_unrestricted (by rw [hk]; decide), hk]
  | externalSandbox => exact absurd hk hkind
  | unrestricted => rw [replaced_of_unrestricted hk hentry]; rfl

theorem preserve_again (policy existing : FileSystemSandboxPolicy) :
    (policy.preserveDenyReadRestrictionsFrom existing).preserveDenyReadRestrictionsFrom existing =
      policy.preserveDenyReadRestrictionsFrom existing := by
  by_cases hkind : (policy.replacedUnrestricted existing).kind = .restricted
  · have hsame : (policy.preserveDenyReadRestrictionsFrom existing).replacedUnrestricted existing =
        policy.preserveDenyReadRestrictionsFrom existing :=
      replaced_of_not_unrestricted (by rw [preserve_kind, hkind]; decide)
    have hentries := foldl_pushNew_of_mem fun entry (h : entry ∈ existing.denyReadEntries) =>
      (mem_preserve hkind).mpr (.inr h)
    have hdepth : (policy.preserveDenyReadRestrictionsFrom existing).globScanMaxDepth =
        ((policy.replacedUnrestricted existing).globScanMaxDepth <|> existing.globScanMaxDepth) := by
      unfold preserveDenyReadRestrictionsFrom
      rw [if_pos hkind]
    have htwice : ((policy.preserveDenyReadRestrictionsFrom existing).globScanMaxDepth <|>
          existing.globScanMaxDepth) =
        (policy.preserveDenyReadRestrictionsFrom existing).globScanMaxDepth := by
      rw [hdepth]
      cases (policy.replacedUnrestricted existing).globScanMaxDepth with
      | some depth => rfl
      | none => cases existing.globScanMaxDepth <;> rfl
    rw [preserveDenyReadRestrictionsFrom, hsame, if_pos (preserve_kind.trans hkind), hentries,
      htwice]
  · have hreplaced : policy.replacedUnrestricted existing = policy := by
      obtain ⟨-, h⟩ | ⟨-, h⟩ | ⟨-, h⟩ := replaced_cases policy existing
      · exact absurd (congrArg kind h) hkind
      · exact h
      · exact h
    have hsame : policy.preserveDenyReadRestrictionsFrom existing = policy :=
      (preserve_of_not_restricted hkind).trans hreplaced
    rw [hsame, hsame]

/-! ## Access -/

variable (policy host cwd) in
def DeniesAt (d : AbsolutePathBuf) : Prop :=
  ∃ entry ∈ policy.resolvedEntriesWithCwd host cwd, entry.path = d ∧ entry.access = .none

theorem DeniesAt.not_canRead (h : policy.DeniesAt host cwd p) (hkind : policy.kind = .restricted)
    (hp : resolveCandidatePath host path cwd = some p) :
    policy.canReadPathWithCwd host path cwd = false := by
  obtain ⟨entry, he, hpath, hdeny⟩ := h
  rw [← Bool.not_eq_true]
  intro hread
  obtain ⟨d, hn, -, hno⟩ := (canRead_resolveAccess hkind hp).mp hread
  have hentry : policy.HasEntryAt host cwd p := ⟨entry, he, hpath⟩
  rw [← hentry.nearest_self.unique hn] at hno
  exact hno entry he hpath hdeny

theorem preserve_deniesAt (hkind : policy.kind ≠ .externalSandbox)
    (h : existing.DeniesAt host cwd p) :
    (policy.preserveDenyReadRestrictionsFrom existing).kind = .restricted ∧
      (policy.preserveDenyReadRestrictionsFrom existing).DeniesAt host cwd p := by
  obtain ⟨entry, he, hpath, hdeny⟩ := h
  obtain ⟨source, hsource, hres, hacc⟩ := mem_resolvedEntries.mp he
  have hentry : source ∈ existing.denyReadEntries :=
    mem_denyReadEntries.mpr ⟨hsource, hacc.trans hdeny⟩
  have hrestricted := replaced_restricted hkind hentry
  refine ⟨preserve_kind.trans hrestricted, entry, ?_, hpath, hdeny⟩
  exact mem_resolvedEntries.mpr ⟨source, (mem_preserve hrestricted).mpr (.inr hentry), hres, hacc⟩

theorem candidate_of_canRead (hkind : policy.kind = .restricted)
    (h : policy.canReadPathWithCwd host path cwd = true) :
    ∃ p, resolveCandidatePath host path cwd = some p := by
  unfold canReadPathWithCwd resolveAccessWithCwd at h
  rw [hkind] at h
  cases hp : resolveCandidatePath host path cwd with
  | none => rw [hp] at h; cases h
  | some p => exact ⟨p, rfl⟩

theorem preserve_canRead
    (h : (policy.preserveDenyReadRestrictionsFrom existing).canReadPathWithCwd host path cwd = true) :
    policy.canReadPathWithCwd host path cwd = true := by
  by_cases hkind : policy.kind = .restricted
  · have hreplaced : policy.replacedUnrestricted existing = policy :=
      replaced_of_not_unrestricted (by rw [hkind]; decide)
    have hrestricted : (policy.replacedUnrestricted existing).kind = .restricted := by
      rw [hreplaced, hkind]
    have hkind' := preserve_kind.trans hrestricted
    obtain ⟨p, hp⟩ := candidate_of_canRead hkind' h
    obtain ⟨d, hn, hd, hno⟩ := (canRead_resolveAccess hkind' hp).mp h
    have hsub : ∀ entry ∈ policy.resolvedEntriesWithCwd host cwd,
        entry ∈ (policy.preserveDenyReadRestrictionsFrom existing).resolvedEntriesWithCwd host cwd := by
      intro entry he
      obtain ⟨source, hsource, hres, hacc⟩ := mem_resolvedEntries.mp he
      rw [← hreplaced] at hsource
      exact mem_resolvedEntries.mpr ⟨source, (mem_preserve hrestricted).mpr (.inl hsource), hres,
        hacc⟩
    -- the entry that lets the path be read is not one of those that were added
    have hold : policy.HasEntryAt host cwd d := by
      obtain ⟨entry, he, hpath⟩ := hd
      obtain ⟨source, hsource, hres, hacc⟩ := mem_resolvedEntries.mp he
      obtain hsource | hsource := (mem_preserve hrestricted).mp hsource
      · rw [hreplaced] at hsource
        exact ⟨entry, mem_resolvedEntries.mpr ⟨source, hsource, hres, hacc⟩, hpath⟩
      · exact absurd (hacc.symm.trans (mem_denyReadEntries.mp hsource).2) (hno entry he hpath)
    refine (canRead_resolveAccess hkind hp).mpr ⟨d, ?_, hold, fun e he => hno e (hsub e he)⟩
    obtain ⟨entry, he, hpath⟩ := hold
    exact ⟨⟨entry, he, congrArg AbsolutePathBuf.comps hpath⟩, hn.covers,
      fun e he hcov => hn.longest ⟨e, hsub e he, rfl⟩ hcov⟩
  · unfold canReadPathWithCwd
    rw [access_of_kind hkind]
    rfl

theorem rootWrite_access (hcwd : isAbsolute cwd = true)
    (hp : resolveCandidatePath host path cwd = some p) :
    (ofRestricted [⟨.special .root, .write⟩]).resolveAccessWithCwd host path cwd = .write := by
  rw [resolveAccess_candidate hp]
  refine fullDiskWrite_access hcwd rfl (by decide) ?_ p
  rintro cwd - ⟨entry, he, hpath⟩
  obtain ⟨source, hsource, -, hacc⟩ := mem_resolvedEntries.mp he
  rw [List.mem_singleton.mp hsource] at hacc
  exact ⟨entry, he, hpath, hacc.symm⟩

theorem preserve_access (hcwd : isAbsolute cwd = true)
    (hp : resolveCandidatePath host path cwd = some p)
    (houtside : ∀ entry ∈ policy.addedDenyEntries existing, ∀ target,
      resolveEntryPath host entry.path (host.paths.absolutePath cwd) = some target →
        ¬ target.comps <+: p.comps) :
    (policy.preserveDenyReadRestrictionsFrom existing).resolveAccessWithCwd host path cwd =
      policy.resolveAccessWithCwd host path cwd := by
  have hreplaced : (policy.replacedUnrestricted existing).resolveAccessWithCwd host path cwd =
      policy.resolveAccessWithCwd host path cwd := by
    obtain ⟨hkind, h⟩ | ⟨-, h⟩ | ⟨-, h⟩ := replaced_cases policy existing
    · rw [h, rootWrite_access hcwd hp, access_of_kind (by rw [hkind]; decide)]
    · rw [h]
    · rw [h]
  rw [← hreplaced]
  by_cases hkind : (policy.replacedUnrestricted existing).kind = .restricted
  · rw [resolveAccess_ruling (preserve_kind.trans hkind) hp, resolveAccess_ruling hkind hp]
    refine congrArg (Option.getD · _) (ruling_congr_covering fun entry hcov => ?_)
    rw [mem_resolvedEntries, mem_resolvedEntries]
    refine exists_congr fun source => and_congr_left fun ⟨hres, _⟩ => ?_
    refine ⟨fun hsource => ?_, fun hsource => (mem_preserve hkind).mpr (.inl hsource)⟩
    by_contra hnew
    exact houtside source (List.mem_filter.mpr ⟨hsource, decide_eq_true hnew⟩) _ hres hcov
  · rw [preserve_of_not_restricted hkind]

end

variable (policy existing : FileSystemSandboxPolicy) (host : Host)

structure DenialsPreserved : Prop where
  existingDenied : policy.kind ≠ .externalSandbox → ∀ cwd path p,
    resolveCandidatePath host path cwd = some p → existing.DeniesAt host cwd p →
      (policy.preserveDenyReadRestrictionsFrom existing).canReadPathWithCwd host path cwd = false
  unreadable : ∀ cwd path, policy.canReadPathWithCwd host path cwd = false →
    (policy.preserveDenyReadRestrictionsFrom existing).canReadPathWithCwd host path cwd = false
  outside : ∀ cwd path p, isAbsolute cwd = true → resolveCandidatePath host path cwd = some p →
    (∀ entry ∈ policy.addedDenyEntries existing, ∀ target,
      resolveEntryPath host entry.path (host.paths.absolutePath cwd) = some target →
        ¬ target.comps <+: p.comps) →
    (policy.preserveDenyReadRestrictionsFrom existing).resolveAccessWithCwd host path cwd =
      policy.resolveAccessWithCwd host path cwd
  again : (policy.preserveDenyReadRestrictionsFrom existing).preserveDenyReadRestrictionsFrom
      existing = policy.preserveDenyReadRestrictionsFrom existing

theorem denials_preserved : policy.DenialsPreserved existing host := by
  refine ⟨fun hkind cwd path p hp hdenied => ?_, fun cwd path h => ?_,
    fun cwd path p hcwd hp houtside => preserve_access hcwd hp houtside, preserve_again _ _⟩
  · obtain ⟨hrestricted, hdenied'⟩ := preserve_deniesAt hkind hdenied
    exact hdenied'.not_canRead hrestricted hp
  · rw [← Bool.not_eq_true] at h ⊢
    exact fun hread => h (preserve_canRead hread)

end Codex.FileSystemSandboxPolicy
