import Codex.LinuxSandbox.ViewAccess

/-!
# The view stays within the policy

What the view lets be written the policy lets be written, unless it is metadata that is a
plain file, and what it shows the policy lets be read. The other way round the view lets
everything be written the policy does, but for what a glob denies and what stays read
only by default.
-/

namespace Codex.LinuxSandbox

open Foundation

section
variable {policy : FileSystemSandboxPolicy} {host : Host} {cwd : Text} {fd : ℕ}
  {expanded : List AbsolutePathBuf} {p q u r d : AbsolutePathBuf}

variable (policy host cwd) in
/-- Metadata of the nearest writable root that the defaults do not keep, as it is no
directory. -/
def UnprotectedMetadata (p : AbsolutePathBuf) : Prop :=
  ∃ d m, policy.NearestEntry host cwd p d ∧ policy.WritesAt host cwd d ∧
    m ∈ protectedMetadataPathNames ∧ p = d.join host.paths.homeDir m ∧
    ¬ DefaultProtects host cwd d m

variable (policy host cwd) in
/-- The path is at or below metadata the defaults of its nearest entry keep read only. -/
def DefaultKept (p : AbsolutePathBuf) : Prop :=
  ∃ d m, policy.NearestEntry host cwd p d ∧ DefaultProtects host cwd d m ∧
    p.componentBelow d = some m

/-! ## Entries among the denied and the read-only paths -/

theorem Situation.masked_of_denied (hs : Situation policy host cwd expanded) (hne : d ≠ .root)
    (hentry : policy.HasEntryAt host cwd d) (hno : ¬ policy.ReadsAt host cwd d) :
    d ∈ maskedRoots host policy cwd expanded := by
  refine hs.mem_masked.mpr (.inl ⟨hne, ?_⟩)
  by_contra hall
  exact hno ⟨hentry, fun entry he hpath hnone => hall ⟨entry, he, hpath, hnone⟩⟩

theorem ne_root_of_above (h : r.Above d) : d ≠ .root := by
  rintro rfl
  exact absurd h.length_lt (Nat.not_lt_zero _)

theorem Situation.denied_or_kept (hs : Situation policy host cwd expanded)
    (hw : policy.WritesAt host cwd r) (hr : host.pathExists r = true)
    (hentry : policy.HasEntryAt host cwd d) (hno : ¬ policy.WritesAt host cwd d)
    (habove : r.Above d) (hd : host.pathExists d = true) (hdp : d.comps <+: p.comps) :
    Denies (maskedRoots host policy cwd expanded) (policy.writableRoot host cwd r) p ∨
      Keeps host (writePaths host policy cwd) (readOnlyPaths host policy cwd expanded)
        (policy.writableRoot host cwd r) p := by
  by_cases hmask : d ∈ maskedRoots host policy cwd expanded
  · exact .inl ⟨d, hmask, habove.1, hdp⟩
  · have hsub := (FileSystemSandboxPolicy.mem_readOnlySubpaths hs.restricted hs.notFullWrite
      hs.tree.noSymlinks).mpr (.inr ⟨hentry, hno, habove⟩)
    exact .inr ⟨d, ⟨mountedReadOnly_of_mem hsub hmask hd, hd, r,
      hs.within_of_writes hw hr, habove.1⟩, hdp⟩

theorem Situation.denied_or_kept_default (hs : Situation policy host cwd expanded)
    (hw : policy.WritesAt host cwd r) (hr : host.pathExists r = true) {m : Text}
    (hdef : DefaultProtects host cwd r m)
    (hno : ¬ policy.HasEntryAt host cwd (r.join host.paths.homeDir m))
    (hp : host.pathExists p = true) (hle : (r.join host.paths.homeDir m).comps <+: p.comps) :
    Denies (maskedRoots host policy cwd expanded) (policy.writableRoot host cwd r) p ∨
      Keeps host (writePaths host policy cwd) (readOnlyPaths host policy cwd expanded)
        (policy.writableRoot host cwd r) p := by
  have hbelow := (above_join_metadata host r hdef.mem).1
  by_cases hmask : r.join host.paths.homeDir m ∈ maskedRoots host policy cwd expanded
  · exact .inl ⟨_, hmask, hbelow, hle⟩
  · have hsub := (FileSystemSandboxPolicy.mem_readOnlySubpaths hs.restricted hs.notFullWrite
      hs.tree.noSymlinks).mpr (.inl ⟨.inr ⟨m, hdef, rfl⟩, hno⟩)
    have hthere := hs.tree.exists_of_le hle hp
    exact .inr ⟨_, ⟨mountedReadOnly_of_mem hsub hmask hthere, hthere, r,
      hs.within_of_writes hw hr, hbelow⟩, hle⟩

theorem defaultProtects_of_isDir {m : Text} (hm : m ∈ protectedMetadataPathNames)
    (h : host.isDir (r.join host.paths.homeDir m) = true) : DefaultProtects host cwd r m := by
  have hcases : m = dotGit ∨ m = dotAgents ∨ m = dotCodex := by
    revert hm
    simp [protectedMetadataPathNames]
  rcases hcases with rfl | rfl | rfl
  · exact .inl ⟨rfl, .inl h⟩
  · exact .inr (.inl ⟨rfl, h⟩)
  · exact .inr (.inr ⟨rfl, .inr h⟩)

/-! ## Writing -/

theorem Situation.canWrite_of_shown (hs : Situation policy host cwd expanded)
    (hp : host.pathExists p = true) (hmeta : ¬ UnprotectedMetadata policy host cwd p)
    (h : shownAfter (policyMounts host policy cwd fd expanded) p = some true) :
    policy.canWritePathWithCwd host p.display cwd = true := by
  obtain ⟨-, ⟨r, hw, hr, -, hlast, hden, hwrite⟩ | ⟨-, -, hstart⟩⟩ := hs.shown_cases hp h
  · obtain ⟨hle, hkeep⟩ := hwrite rfl
    have hneither : ¬ (Denies (maskedRoots host policy cwd expanded)
        (policy.writableRoot host cwd r) p ∨ Keeps host (writePaths host policy cwd)
          (readOnlyPaths host policy cwd expanded) (policy.writableRoot host cwd r) p) :=
      fun h => h.elim hden hkeep
    obtain ⟨d, hn, hrd⟩ := hw.hasEntryAt.exists_nearest hle
    have hd := hs.tree.exists_of_le hn.covers hp
    by_cases hwd : policy.WritesAt host cwd d
    · -- a deeper root would have had its turn later
      rcases AbsolutePathBuf.le_or_above hrd with rfl | habove
      · refine (FileSystemSandboxPolicy.canWrite_iff hs.restricted hs.notFullWrite).mpr
          ⟨r, hn, hw, fun hroot => ?_⟩
        obtain ⟨-, m, hm, hbelow⟩ := FileSystemSandboxPolicy.metadataRoot_eq_some hroot
        have hno := (FileSystemSandboxPolicy.metadata_below_nearest hn hm hbelow).1
        have hmp : (r.join host.paths.homeDir m).comps <+: p.comps := by
          rw [join_metadata_comps host r hm]
          exact AbsolutePathBuf.componentBelow_eq_some.mp hbelow
        have hdef : ¬ DefaultProtects host cwd r m :=
          fun hdef => hneither (hs.denied_or_kept_default hw hr hdef hno hp hmp)
        rcases AbsolutePathBuf.le_or_above hmp with heq | habove
        · exact hmeta ⟨r, m, hn, hw, hm, heq.symm, hdef⟩
        · exact hdef (defaultProtects_of_isDir hm (hs.tree.isDir_above _ _ habove hp))
      · exact absurd (.inr (.inr hn.covers)) (hlast d hwd hd habove)
    · have habove : r.Above d := by
        refine (AbsolutePathBuf.le_or_above hrd).resolve_left fun heq => hwd ?_
        rwa [← heq]
      exact absurd (hs.denied_or_kept hw hr hn.hasEntryAt hwd habove hd hn.covers) hneither
  · cases (bootstrap_shown hstart).1

theorem Situation.shown_of_canWrite (hs : Situation policy host cwd expanded)
    (hp : host.pathExists p = true) (hptr : OffPointers policy host cwd p) (hglob : p ∉ expanded)
    (hkept : ¬ DefaultKept policy host cwd p)
    (h : policy.canWritePathWithCwd host p.display cwd = true) :
    shownAfter (policyMounts host policy cwd fd expanded) p = some true := by
  obtain ⟨d, hn, hw, -⟩ := (FileSystemSandboxPolicy.canWrite_iff hs.restricted hs.notFullWrite).mp h
  have hd := hs.tree.exists_of_le hn.covers hp
  have hmasked : ∀ u ∈ maskedRoots host policy cwd expanded, u.comps <+: p.comps →
      u.comps <+: d.comps ∧ u ≠ d := by
    intro u hu hup
    rcases hs.mem_masked.mp hu with ⟨-, entry, he, rfl, hnone⟩ | hu
    · refine ⟨hn.longest ⟨entry, he, rfl⟩ hup, fun heq => hw.2 entry he heq hnone⟩
    · exact absurd (hs.glob_eq hu hp hup ▸ hu) hglob
  obtain ⟨S, hplan, -⟩ := hs.shown_plan fd hp
  have helse : ¬ ∃ u ∈ deniedElsewhere (writePaths host policy cwd)
      (maskedRoots host policy cwd expanded), u.comps <+: p.comps := by
    rintro ⟨u, hu, hup⟩
    obtain ⟨hu, -, habove⟩ := mem_deniedElsewhere.mp hu
    exact habove ⟨d, hs.within_of_writes hw hd, (hmasked u hu hup).1⟩
  rw [hplan, overIf_neg helse]
  rcases shown_roots_cases hs.tree hp S (sortByDepth WritableRoot.root
    (mountedWritableRoots host policy cwd)) with
    ⟨pre, w, post, S', hsplit, htouch, hpost, hshown⟩ | ⟨hnone, -⟩
  · have hturn : w ∈ sortByDepth WritableRoot.root (mountedWritableRoots host policy cwd) := by
      rw [hsplit]
      simp
    obtain ⟨r, hwr, hr, rfl⟩ := hs.mem_turns.mp hturn
    have hrd := hn.longest hwr.hasEntryAt (hs.touches_le hptr hwr htouch)
    rcases AbsolutePathBuf.le_or_above hrd with rfl | habove
    · rw [hshown, shown_root hs.tree hp, overIf_neg, overIf_neg]
      · exact overIf_pos hn.covers
      · intro hkeep
        rcases hs.keeps_cases hkeep with ⟨g, hg, hle⟩ | ⟨m, hdef, hbelow⟩ | ⟨q, hq, hno, hrq, hle⟩
        · exact hptr r g hw hg hle
        · exact hkept ⟨r, m, hn, hdef, hbelow⟩
        · exact absurd (hn.longest hq hle).length_le (not_le.mpr hrq.length_lt)
      · rintro ⟨u, hu, hru, hup⟩
        obtain ⟨hur, hne⟩ := hmasked u hu hup
        exact hne (AbsolutePathBuf.eq_of_le_of_le hur hru)
    · have hin := mem_sortByDepth.mp (hs.mem_turns.mpr ⟨d, hw, hd, rfl⟩)
      exact absurd (.inr (.inr hn.covers)) (hpost _ (mem_after hsplit hin habove))
  · exact absurd (.inr (.inr hn.covers)) (hnone _ (hs.mem_turns.mpr ⟨d, hw, hd, rfl⟩))

theorem Situation.canRead_of_shown (hs : Situation policy host cwd expanded)
    (hp : host.pathExists p = true) (hptr : OffPointers policy host cwd p)
    (hplatform : ∀ q ∈ linuxPlatformDefaultReadRoots, ¬ q.comps <+: p.comps) {b : Bool}
    (h : shownAfter (policyMounts host policy cwd fd expanded) p = some b) :
    policy.canReadPathWithCwd host p.display cwd = true := by
  -- below a readable entry the nearest one is readable or masked
  have hnearest : ∀ r : AbsolutePathBuf, policy.ReadsAt host cwd r → r.comps <+: p.comps →
      policy.canReadPathWithCwd host p.display cwd = true ∨
        ∃ d ∈ maskedRoots host policy cwd expanded, r.Above d ∧ d.comps <+: p.comps := by
    intro r hread hle
    obtain ⟨d, hn, hrd⟩ := hread.1.exists_nearest hle
    by_cases hd : policy.ReadsAt host cwd d
    · exact .inl ((FileSystemSandboxPolicy.canRead_iff hs.restricted).mpr ⟨d, hn, hd⟩)
    · have habove : r.Above d := by
        refine (AbsolutePathBuf.le_or_above hrd).resolve_left fun heq => hd ?_
        rwa [← heq]
      exact .inr ⟨d, hs.masked_of_denied (ne_root_of_above habove) hn.hasEntryAt hd, habove,
        hn.covers⟩
  obtain ⟨helse, ⟨r, hw, hr, htouch, -, hden, -⟩ | ⟨hnone, hfirst, hstart⟩⟩ := hs.shown_cases hp h
  · rcases hnearest r hw.readsAt (hs.touches_le hptr hw htouch) with hread | ⟨d, hd, hrd, hdp⟩
    · exact hread
    · exact absurd ⟨d, hd, hrd.1, hdp⟩ hden
  · rcases (bootstrap_shown hstart).2 with hfull | ⟨r, hr, hle⟩
    · exact FileSystemSandboxPolicy.fullDiskRead_canRead hs.restricted hs.absolute hfull p
    · rcases List.mem_append.mp (mem_sortedPathSet.mp hr) with hr | hr
      · rcases hnearest r (mem_getReadableRoots hs.tree hs.restricted hr) hle with
          hread | ⟨d, hd, -, hdp⟩
        · exact hread
        · by_cases hin : ∃ root ∈ writePaths host policy cwd, root.comps <+: d.comps
          · obtain ⟨root, hroot, hle⟩ := hin
            have hthere := hs.tree.exists_of_le (hle.trans hdp) hp
            exact absurd (.inl ⟨d, hd, hle, hdp⟩)
              (hnone root (hs.writes_of_writePath hroot) hthere)
          · by_cases hon : ∃ root ∈ writePaths host policy cwd, d.comps <+: root.comps
            · exact absurd ⟨d, mem_deniedAncestors.mpr ⟨hd, hin, hon⟩, hdp⟩ hfirst
            · exact absurd ⟨d, mem_deniedElsewhere.mpr ⟨hd, hin, hon⟩, hdp⟩ helse
      · split at hr
        · exact absurd hle (hplatform r (List.mem_filter.mp hr).1)
        · exact absurd hr List.not_mem_nil

end

/-! ## The view of the arguments -/

/-- What the arguments of a policy let be seen and written of an existing path outside the
platform's own roots. -/
theorem view_within_policy {host : Host} (htree : host.IsTree) {openDevNull : Except Text ℕ}
    {policy : FileSystemSandboxPolicy} {cwd : Text} (hkind : policy.kind = .restricted)
    (hfull : policy.hasFullDiskWriteAccess = false) (habs : isAbsolute cwd = true)
    {expandUnreadableGlobs : List Text → Text → Option ℕ → Except Text (List AbsolutePathBuf)}
    {globScanMaxDepth : Option ℕ} {expanded : List AbsolutePathBuf}
    (hexpand : expandUnreadableGlobs (policy.getUnreadableGlobsWithCwd host cwd) cwd
      globScanMaxDepth = .ok expanded)
    (hglobs : ∀ q ∈ expanded, host.pathExists q = true ∧ host.isDir q = false) {out : BwrapArgs}
    (hok : createFilesystemArgs host openDevNull policy cwd expandUnreadableGlobs globScanMaxDepth =
      .ok out) {view : View} (hview : buildView host out.ops = .ok view) {p : AbsolutePathBuf}
    (hp : host.pathExists p = true)
    (hplatform : ∀ q ∈ linuxPlatformDefaultReadRoots, ¬ q.comps <+: p.comps) :
    (view.shows p = some true → ¬ UnprotectedMetadata policy host cwd p →
        policy.canWritePathWithCwd host p.display cwd = true) ∧
      (view.shows p ≠ none → OffPointers policy host cwd p →
        policy.canReadPathWithCwd host p.display cwd = true) ∧
      (policy.canWritePathWithCwd host p.display cwd = true → p ∉ expanded →
        OffPointers policy host cwd p → ¬ DefaultKept policy host cwd p →
        view.shows p = some true) := by
  have hs : Situation policy host cwd expanded := ⟨htree, hkind, hfull, habs, hglobs⟩
  obtain ⟨expanded', fd, hexpand', hops⟩ := createFilesystemArgs_ok htree hok
  rw [hexpand] at hexpand'
  cases hexpand'
  have hshows : view.shows p = shownAfter (policyMounts host policy cwd fd expanded) p := by
    unfold buildView at hview
    rw [hops, buildView_mounts] at hview
    exact (applyMounts_ok htree (planMounts_valid htree policy cwd _) hview).2.2 p hp
  rw [hshows]
  refine ⟨fun h hmeta => hs.canWrite_of_shown hp hmeta h, fun h hptr => ?_,
    fun h hglob hptr hkept => hs.shown_of_canWrite hp hptr hglob hkept h⟩
  obtain ⟨b, hb⟩ := Option.ne_none_iff_exists'.mp h
  exact hs.canRead_of_shown hp hptr hplatform hb

theorem view_within_policy_reopened : ∃ view, buildView smallHost reopenedArgs.ops = .ok view ∧
    view.shows deepRoot = some true := by
  have hok : createFilesystemArgs smallHost (.ok 9) reopenedInside ['/'] noGlobs none =
      .ok reopenedArgs := by decide +kernel
  have hcan : reopenedInside.canWritePathWithCwd smallHost deepRoot.display ['/'] = true := by
    decide +kernel
  have hno : ∀ r, gitPointer smallHost r = none := fun r => if_neg (by simp [smallHost, treeHost])
  cases hview : buildView smallHost reopenedArgs.ops with
  | error e =>
    have hgoes : (buildView smallHost reopenedArgs.ops).isOk = true := by decide +kernel
    rw [hview] at hgoes
    cases hgoes
  | ok view =>
    refine ⟨view, rfl, ?_⟩
    refine (view_within_policy smallHost_isTree rfl (by decide +kernel) rfl rfl (by simp) hok hview
      (by decide +kernel) (by decide +kernel)).2.2 hcan (by simp) ?_ ?_
    · intro r g _ hg
      cases hg
    · rintro ⟨d, m, hn, -, hbelow⟩
      have hle := hn.longest (q := deepRoot) ⟨⟨deepRoot, .write⟩, by decide +kernel, rfl⟩
        List.prefix_rfl
      have hlen := (AbsolutePathBuf.componentBelow_eq_some.mp hbelow).length_le
      have := hle.length_le
      simp only [List.length_append, List.length_singleton] at hlen
      omega

/-! ## A view beyond its policy -/

theorem sharedDir_normal : ∀ c ∈ ([['a']] : List Text), IsComponent c := by decide

def sharedDir : AbsolutePathBuf := ⟨[['a']], sharedDir_normal⟩

def gitDir : AbsolutePathBuf := ⟨[['a'], ['g']], by decide⟩

def gitSecret : AbsolutePathBuf := ⟨[['a'], ['g'], ['s']], by decide⟩

def worktree : AbsolutePathBuf := ⟨[['a'], ['w']], by decide⟩

def worktreeGit : AbsolutePathBuf := ⟨[['a'], ['w'], dotGit], by decide⟩

def worktreeAgents : AbsolutePathBuf := ⟨[['a'], ['w'], dotAgents], by decide⟩

def worktreeLog : AbsolutePathBuf := ⟨[['a'], ['w'], ['o']], by decide⟩

def worktreeTree : Host := treeHost [.root, devPath, sharedDir, gitDir, worktree]
  [gitSecret, worktreeGit, worktreeAgents, worktreeLog]

/-- A worktree whose `.git` file points to the directory `/a/g`. -/
def worktreeHost : Host :=
  { worktreeTree with
    readToString := fun p => if p = worktreeGit then some "gitdir: /a/g".toList else none }

theorem worktreeHost_isTree : worktreeHost.IsTree :=
  have htree : worktreeTree.IsTree := treeHost_isTree (by decide) (by decide)
  ⟨htree.root, htree.exists_of_isDir, htree.isDir_above, htree.noSymlinks, htree.notSymlink⟩

def worktreePolicy : FileSystemSandboxPolicy :=
  .ofRestricted [⟨.path sharedDir, .write⟩, ⟨.path worktree, .write⟩, ⟨.path gitSecret, .none⟩,
    ⟨.globPattern "/a/w/[o]".toList, .none⟩]

def matchesLog (_patterns : List Text) (_cwd : Text) (_depth : Option ℕ) :
    Except Text (List AbsolutePathBuf) := .ok [worktreeLog]

def worktreeArgs : BwrapArgs :=
  ⟨[.tmpfs none .root, .dev devPath, .roBind sharedDir sharedDir, .roBind worktree worktree,
    .bind sharedDir sharedDir, .roBindData ['0', '0', '0'] 9 gitSecret,
    .roBindData ['0', '0', '0'] 9 worktreeLog, .bind worktree worktree, .roBind gitDir gitDir,
    .roBind worktreeGit worktreeGit, .roBindData ['0', '0', '0'] 9 worktreeLog], [9]⟩

def worktreeSights (view : View) : List (Option Bool) :=
  [(view .root).map Node.writable, view.shows worktreeAgents, view.shows gitSecret,
    view.shows worktreeLog]

/-- The root of the view and a file among the metadata can be written, and a denied file
can be read where a `.git` file points, against the policy; a file that matches a glob
cannot be written. -/
theorem view_beyond_policy : worktreeHost.IsTree ∧ worktreePolicy.hasFullDiskWriteAccess = false ∧
      createFilesystemArgs worktreeHost (.ok 9) worktreePolicy ['/'] matchesLog none =
        .ok worktreeArgs ∧
      (buildView worktreeHost worktreeArgs.ops).map worktreeSights =
        .ok [some true, some true, some false, none] ∧
      worktreePolicy.canWritePathWithCwd worktreeHost AbsolutePathBuf.root.display ['/'] = false ∧
      worktreePolicy.canWritePathWithCwd worktreeHost worktreeAgents.display ['/'] = false ∧
      worktreePolicy.canReadPathWithCwd worktreeHost gitSecret.display ['/'] = false ∧
      worktreePolicy.canWritePathWithCwd worktreeHost worktreeLog.display ['/'] = true :=
  ⟨worktreeHost_isTree, by decide +kernel, by decide +kernel, by decide +kernel, by decide +kernel,
    by decide +kernel, by decide +kernel, by decide +kernel⟩

end Codex.LinuxSandbox
