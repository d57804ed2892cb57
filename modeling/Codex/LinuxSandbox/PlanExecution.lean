import Codex.LinuxSandbox.MountPlan

/-!
# Plans that can be carried out

A denied directory is frozen empty but for the ways to the writable roots inside it, so
what is mounted below it later fails unless it is on such a way or a writable root
further down has been bound in between. What keeps a missing path from being made needs
a writable directory to be put in.
-/

namespace Codex.LinuxSandbox

open Foundation List

/-! ## Mounts in order -/

noncomputable def after (host : Host) (B : AbsolutePathBuf → Prop) (ms : List Mount) :
    AbsolutePathBuf → Prop := stack B (ms.map (Mount.leaves host))

def Goes (host : Host) : (AbsolutePathBuf → Prop) → List Mount → Prop
  | _, [] => True
  | B, m :: ms => m.Admitted B ∧ Goes host ((m.leaves host).over B) ms

section
variable {host : Host} {B : AbsolutePathBuf → Prop} {ms : List Mount} {p : AbsolutePathBuf}

theorem after_append (B : AbsolutePathBuf → Prop) (ms ms' : List Mount) :
    after host B (ms ++ ms') = after host (after host B ms) ms' := by
  unfold after
  rw [map_append, stack_append]

theorem after_cons (B : AbsolutePathBuf → Prop) (m : Mount) (ms : List Mount) :
    after host B (m :: ms) = after host ((m.leaves host).over B) ms := rfl

theorem goes_append (ms' : List Mount) :
    Goes host B (ms ++ ms') ↔ Goes host B ms ∧ Goes host (after host B ms) ms' := by
  induction ms generalizing B with
  | nil => simp [Goes, after]
  | cons m ms ih =>
    exact (and_congr_right fun _ => ih).trans and_assoc.symm

theorem goes_flatMap {α : Type} {l : List α} {f : α → List Mount} :
    Goes host B (l.flatMap f) ↔ ∀ pre a post, l = pre ++ a :: post →
      Goes host (after host B (pre.flatMap f)) (f a) := by
  induction l using List.reverseRecOn with
  | nil => simp [Goes]
  | append_singleton l b ih =>
    rw [flatMap_append, flatMap_singleton, goes_append, ih]
    constructor
    · rintro ⟨hfirst, hlast⟩ pre a post hsplit
      rcases eq_nil_or_concat post with rfl | ⟨post', c, rfl⟩
      · obtain ⟨rfl, heq⟩ := append_inj' hsplit rfl
        cases heq
        exact hlast
      · rw [concat_eq_append, ← cons_append, ← List.append_assoc] at hsplit
        exact hfirst pre a post' (append_inj' hsplit rfl).1
    · intro h
      refine ⟨fun pre a post hsplit => h pre a (post ++ [b]) ?_, h l b [] rfl⟩
      rw [hsplit, List.append_assoc, cons_append]

theorem goes_iff : Goes host B ms ↔ ∀ pre m post, ms = pre ++ m :: post →
    m.Admitted (after host B pre) := by
  have hflat : Goes host B (ms.flatMap fun m => [m]) ↔ _ := goes_flatMap
  simp only [flatMap_singleton', Goes, and_true] at hflat
  exact hflat

theorem after_flatMap {α : Type} {f : α → List Mount} {C : α → Prop} {V : Prop}
    (hf : ∀ a B, after host B (f a) p ↔ C a ∧ V ∨ ¬ C a ∧ B p) (l : List α) :
    after host B (l.flatMap f) p ↔ (∃ a ∈ l, C a) ∧ V ∨ (¬ ∃ a ∈ l, C a) ∧ B p := by
  induction l generalizing B with
  | nil => simp [after]
  | cons a l ih =>
    rw [flatMap_cons, after_append, ih, hf]
    by_cases ha : C a <;> by_cases hl : ∃ b ∈ l, C b <;> simp [ha, hl]

end

section
variable {α : Type} {path : α → AbsolutePathBuf} {l pre post : List α} {a b : α}

@[simp] theorem mem_sortByDepth : a ∈ sortByDepth path l ↔ a ∈ l := mem_insertionSort _

theorem sortByDepth_pairwise (path : α → AbsolutePathBuf) (l : List α) :
    (sortByDepth path l).Pairwise fun a b => pathDepth (path a) ≤ pathDepth (path b) := by
  exact List.pairwise_insertionSort _ l

theorem mem_before (hsplit : sortByDepth path l = pre ++ a :: post) (hb : b ∈ l)
    (habove : (path b).Above (path a)) : b ∈ pre := by
  have hmem : b ∈ pre ++ a :: post := by
    rw [← hsplit]
    exact mem_sortByDepth.mpr hb
  have hpair := sortByDepth_pairwise path l
  rw [hsplit] at hpair
  have hlt := habove.length_lt
  rcases mem_append.mp hmem with h | h
  · exact h
  · rcases mem_cons.mp h with rfl | h
    · exact absurd hlt (lt_irrefl _)
    · have hle := (pairwise_cons.mp (pairwise_append.mp hpair).2.1).1 b h
      unfold pathDepth at hle
      omega

end

/-! ## What decides about a plan -/

section
variable (host : Host) (allowed unreadable : List AbsolutePathBuf)
  (readOnly : WritableRoot → List AbsolutePathBuf)

def Within (p : AbsolutePathBuf) : Prop := ∃ root ∈ allowed, root.comps <+: p.comps

/-- A directory at or above a writable root, which is made again in a denied directory. -/
def OnTheWay (p : AbsolutePathBuf) : Prop :=
  ∃ root ∈ allowed, p.comps <+: root.comps ∧ (host.isDir root = true ∨ p ≠ root)

def Kept (w : WritableRoot) (q : AbsolutePathBuf) : Prop :=
  q ∈ readOnly w ∧ host.pathExists q = true ∧ Within allowed q

/-- Binding the root, or something read only with it, shows the path again. -/
def Reopens (w : WritableRoot) (p : AbsolutePathBuf) : Prop :=
  w.root.comps <+: p.comps ∨ ∃ q, Kept host allowed readOnly w q ∧ q.comps <+: p.comps

def Masks (w : WritableRoot) (p : AbsolutePathBuf) : Prop :=
  ∃ u ∈ unreadable, w.root.comps <+: u.comps ∧ u.Above p

/-- A denied directory that is masked before the roots is above the path. -/
def MaskedFirst (p : AbsolutePathBuf) : Prop :=
  ∃ u ∈ unreadable, ¬ Within allowed u ∧ (∃ root ∈ allowed, u.comps <+: root.comps) ∧ u.Above p

/-- After these roots the path is gone: a mask above it was not followed by anything that
shows the path again. -/
def Hidden (turns : List WritableRoot) (p : AbsolutePathBuf) : Prop :=
  ¬ OnTheWay host allowed p ∧
    ((∃ pre w post, turns = pre ++ w :: post ∧ Masks unreadable w p ∧
        ∀ w' ∈ post, ¬ Reopens host allowed readOnly w' p) ∨
      MaskedFirst allowed unreadable p ∧ ∀ w ∈ turns, ¬ Reopens host allowed readOnly w p)

variable {host allowed unreadable readOnly}

theorem hidden_nil {p : AbsolutePathBuf} : Hidden host allowed unreadable readOnly [] p ↔
    ¬ OnTheWay host allowed p ∧ MaskedFirst allowed unreadable p := by
  unfold Hidden
  simp

theorem hidden_snoc {turns : List WritableRoot} {w : WritableRoot} {p : AbsolutePathBuf} :
    Hidden host allowed unreadable readOnly (turns ++ [w]) p ↔
      ¬ OnTheWay host allowed p ∧ (Masks unreadable w p ∨
        ¬ Reopens host allowed readOnly w p ∧ Hidden host allowed unreadable readOnly turns p) := by
  constructor
  · rintro ⟨hway, ⟨pre, k, post, hsplit, hmask, hpost⟩ | ⟨hfirst, hall⟩⟩
    · refine ⟨hway, ?_⟩
      rcases eq_nil_or_concat post with rfl | ⟨post', c, rfl⟩
      · obtain ⟨rfl, heq⟩ := append_inj' hsplit rfl
        cases heq
        exact .inl hmask
      · rw [concat_eq_append, ← cons_append, ← List.append_assoc] at hsplit
        obtain ⟨rfl, heq⟩ := append_inj' hsplit rfl
        cases heq
        exact .inr ⟨hpost _ (by simp), hway,
          .inl ⟨pre, k, post', rfl, hmask, fun w' hw' => hpost w' (by simp [hw'])⟩⟩
    · exact ⟨hway, .inr ⟨hall w (by simp), hway,
        .inr ⟨hfirst, fun w' hw' => hall w' (by simp [hw'])⟩⟩⟩
  · rintro ⟨hway, hmask | ⟨hno, -, ⟨pre, k, post, rfl, hmask, hpost⟩ | ⟨hfirst, hall⟩⟩⟩
    · exact ⟨hway, .inl ⟨turns, w, [], rfl, hmask, by simp⟩⟩
    · refine ⟨hway, .inl ⟨pre, k, post ++ [w], by simp, hmask, fun w' hw' => ?_⟩⟩
      rcases mem_append.mp hw' with hw' | hw'
      · exact hpost w' hw'
      · rwa [mem_singleton.mp hw']
    · refine ⟨hway, .inr ⟨hfirst, fun w' hw' => ?_⟩⟩
      rcases mem_append.mp hw' with hw' | hw'
      · exact hall w' hw'
      · rwa [mem_singleton.mp hw']

end

/-! ## What the parts of a plan leave -/

variable {host : Host} {fd : ℕ} {allowed unreadable : List AbsolutePathBuf}
  {readOnly : WritableRoot → List AbsolutePathBuf} {B : AbsolutePathBuf → Prop}
  {p q c u : AbsolutePathBuf}

theorem isWithin_iff : isWithinAllowedWritePaths p allowed = true ↔ Within allowed p := by
  unfold isWithinAllowedWritePaths Within
  simp only [any_eq_true, AbsolutePathBuf.startsWith_iff]

variable {r anchor d : AbsolutePathBuf}

theorem mem_writableDescendants : r ∈ writableDescendants u allowed ↔ r ∈ allowed ∧ u.Above r := by
  unfold writableDescendants AbsolutePathBuf.Above
  simp only [mem_filter, Bool.and_eq_true, decide_eq_true_eq, AbsolutePathBuf.startsWith_iff,
    ne_eq, eq_comm (a := r) (b := u), and_comm (a := ¬ u = r)]

theorem mem_takeWhile_ne {l : List AbsolutePathBuf} (hl : l.Pairwise fun x y => y.Above x) :
    d ∈ l.takeWhile (fun path => path ≠ anchor) ↔ d ∈ l ∧ ¬ (anchor ∈ l ∧ d.comps <+: anchor.comps) := by
  induction l with
  | nil => simp
  | cons x l ih =>
    obtain ⟨hx, hl⟩ := pairwise_cons.mp hl
    by_cases heq : x = anchor
    · subst heq
      rw [takeWhile_cons_of_neg (by simp)]
      simp only [not_mem_nil, mem_cons, true_or, true_and, false_iff, not_and, not_not]
      rintro (rfl | hd)
      · exact prefix_rfl
      · exact (hx d hd).1
    · rw [takeWhile_cons_of_pos (by simp [heq]), mem_cons, mem_cons, ih hl]
      simp only [mem_cons, Ne.symm heq, false_or]
      constructor
      · rintro (rfl | ⟨hd, hno⟩)
        · exact ⟨.inl rfl, fun h => (hx anchor h.1).not_le h.2⟩
        · exact ⟨.inr hd, hno⟩
      · rintro ⟨rfl | hd, hno⟩
        · exact .inl rfl
        · exact .inr ⟨hd, hno⟩

theorem mem_mountTargetDirs_iff : d ∈ mountTargetDirs host r anchor ↔
      (d.comps <+: r.comps ∧ (host.isDir r = true ∨ d ≠ r)) ∧
        ¬ (anchor.comps <+: r.comps ∧ (host.isDir r = true ∨ anchor ≠ r) ∧
          d.comps <+: anchor.comps) := by
  have hlist : ∀ m : AbsolutePathBuf, d ∈ (m.ancestors.reverse.takeWhile fun path => path ≠ anchor).reverse ↔
      d.comps <+: m.comps ∧ ¬ (anchor.comps <+: m.comps ∧ d.comps <+: anchor.comps) := by
    intro m
    rw [mem_reverse, mem_takeWhile_ne (pairwise_reverse.mpr m.ancestors_pairwise)]
    simp only [mem_reverse, AbsolutePathBuf.mem_ancestors]
  have hparent : ∀ a m : AbsolutePathBuf, r.parent = some m →
      (a.comps <+: m.comps ↔ a.comps <+: r.comps ∧ a ≠ r) := by
    intro a m hm
    constructor
    · intro hle
      have habove := AbsolutePathBuf.Above.of_le hle (AbsolutePathBuf.parent_above hm)
      exact ⟨habove.1, habove.2⟩
    · intro hle
      exact AbsolutePathBuf.le_parent hm hle
  unfold mountTargetDirs
  by_cases hdir : host.isDir r = true
  · simp only [hdir, if_true, hlist, true_or, true_and, and_true]
  · simp only [if_neg hdir]
    cases hm : r.parent with
    | none =>
      have hroot : ∀ a : AbsolutePathBuf, ¬ a.Above r := by
        intro a ha
        obtain ⟨m, hm'⟩ := ha.exists_parent
        rw [hm] at hm'
        cases hm'
      simp only [not_mem_nil, false_iff]
      rintro ⟨⟨hle, hno⟩, -⟩
      exact hroot d ⟨hle, hno.resolve_left hdir⟩
    | some m =>
      rw [hlist, hparent d m hm, hparent anchor m hm]
      simp [hdir, and_assoc]

theorem mem_mountTargetDirs (h : anchor.Above r) : d ∈ mountTargetDirs host r anchor ↔
      d.comps <+: r.comps ∧ (host.isDir r = true ∨ d ≠ r) ∧ anchor.Above d := by
  rw [mem_mountTargetDirs_iff, and_assoc]
  refine and_congr_right fun hle => and_congr_right fun _ => ?_
  constructor
  · intro hno
    refine (AbsolutePathBuf.le_or_above_of_le hle h.1).resolve_left fun hda => ?_
    exact hno ⟨h.1, .inr h.2, hda⟩
  · rintro habove ⟨-, -, hda⟩
    exact habove.not_le hda

theorem mem_waysFrom : d ∈ waysFrom host allowed u ↔
    u.Above d ∧ OnTheWay host allowed d := by
  unfold waysFrom OnTheWay
  simp only [mem_flatMap, mem_sortByDepth, mem_writableDescendants]
  constructor
  · rintro ⟨r, ⟨hr, hur⟩, hd⟩
    obtain ⟨hle, hdir, hud⟩ := (mem_mountTargetDirs hur).mp hd
    exact ⟨hud, r, hr, hle, hdir⟩
  · rintro ⟨hud, r, hr, hle, hdir⟩
    have hur := hud.trans_le hle
    exact ⟨r, ⟨hr, hur⟩, (mem_mountTargetDirs hur).mpr ⟨hle, hdir, hud⟩⟩

theorem le_way_iff (h : u.Above p) :
    (∃ d ∈ waysFrom host allowed u, p.comps <+: d.comps) ↔ OnTheWay host allowed p := by
  simp only [mem_waysFrom]
  constructor
  · rintro ⟨d, ⟨-, r, hr, hle, hdir⟩, hpd⟩
    refine ⟨r, hr, hpd.trans hle, hdir.imp_right fun hne heq => hne ?_⟩
    exact AbsolutePathBuf.eq_of_le_of_le hle (heq ▸ hpd)
  · intro hway
    exact ⟨p, ⟨h, hway⟩, prefix_rfl⟩

theorem findFirst_eq_some (htree : host.IsTree) (h : findFirstNonExistentComponent host q = some c) :
    c.comps <+: q.comps ∧ host.pathExists c = false ∧ Placed host c := by
  obtain ⟨hmissing, pre, post, hsplit, hpre⟩ := List.find?_eq_some_iff_append.mp h
  have hmem := AbsolutePathBuf.mem_ancestors_tail (mem_of_find?_eq_some h)
  refine ⟨hmem.1, by simpa using hmissing, fun a ha => ?_⟩
  by_cases hroot : a = .root
  · rw [hroot]
    exact htree.exists_of_isDir _ htree.root
  · have hall := AbsolutePathBuf.mem_ancestors.mpr (ha.1.trans hmem.1)
    have hpair := q.ancestors_pairwise
    rw [AbsolutePathBuf.ancestors_tail, hsplit] at hall hpair
    rcases mem_cons.mp hall with h | hall
    · exact absurd h hroot
    · rcases mem_append.mp hall with hin | hin
      · simpa using hpre a hin
      · have hpost := (pairwise_append.mp (pairwise_cons.mp hpair).2).2.1
        rcases mem_cons.mp hin with rfl | hin
        · exact absurd ha AbsolutePathBuf.Above.irrefl
        · exact absurd ((pairwise_cons.mp hpost).1 a hin).1 ha.not_le

/-! ## What each part leaves -/

section
variable (B : AbsolutePathBuf → Prop)

theorem after_nil : after host B [] = B := rfl

theorem after_singleton (m : Mount) : after host B [m] = (m.leaves host).over B := rfl

theorem after_forbid (c : AbsolutePathBuf) : after host B [.forbid c] = B := Layer.clear_over _

theorem after_missing (q : AbsolutePathBuf) : after host B (missingMounts host allowed q) = B := by
  unfold missingMounts
  split
  · split
    · exact after_forbid B _
    · rfl
  · rfl

theorem after_dirs (dirs : List AbsolutePathBuf) : after host B (dirs.map .dir) = B := by
  induction dirs with
  | nil => rfl
  | cons d dirs ih =>
    rw [map_cons, after_cons, show ((Mount.dir d).leaves host).over B = B from Layer.clear_over _]
    exact ih

end

theorem after_expose (writable : Bool) (x : AbsolutePathBuf) : after host B [.expose writable x] p ↔
      x.comps <+: p.comps ∧ (host.pathExists p = true ∨ writable = true ∧ Mount.canHold host p) ∨
        ¬ x.comps <+: p.comps ∧ B p := by
  rw [after_singleton]
  by_cases h : x.comps <+: p.comps
  · rw [Layer.over_of_covers (show ((Mount.expose writable x).leaves host).covers p from h)]
    simp [h, Mount.leaves]
  · rw [Layer.over_of_not_covers (show ¬ ((Mount.expose writable x).leaves host).covers p from h)]
    simp [h]

theorem over_root (host : Host) (B : AbsolutePathBuf → Prop) (x p : AbsolutePathBuf) :
    ((Mount.expose true x).leaves host).over B p ↔
      x.comps <+: p.comps ∧ (host.pathExists p = true ∨ Mount.canHold host p) ∨
        ¬ x.comps <+: p.comps ∧ B p := by
  rw [← after_singleton, after_expose]
  simp

theorem after_readOnly (B : AbsolutePathBuf → Prop) (q : AbsolutePathBuf) :
    after host B (readOnlyMounts host allowed q) p ↔
      (host.pathExists q = true ∧ Within allowed q ∧ q.comps <+: p.comps) ∧
          host.pathExists p = true ∨
        ¬ (host.pathExists q = true ∧ Within allowed q ∧ q.comps <+: p.comps) ∧ B p := by
  unfold readOnlyMounts
  cases hq : host.pathExists q with
  | false => simp [after_missing]
  | true =>
    by_cases hwithin : Within allowed q
    · simp [isWithin_iff.mpr hwithin, hwithin, after_expose]
    · simp [Bool.eq_false_iff.mpr (mt isWithin_iff.mp hwithin), hwithin, after_nil]

theorem OnTheWay.pathExists (htree : host.IsTree)
    (hallowed : ∀ root ∈ allowed, host.pathExists root = true) (h : OnTheWay host allowed p) :
    host.pathExists p = true := by
  obtain ⟨r, hr, hle, -⟩ := h
  exact htree.exists_of_le hle (hallowed r hr)

theorem after_denied (htree : host.IsTree)
    (hallowed : ∀ root ∈ allowed, host.pathExists root = true) (hp : Placed host p)
    (B : AbsolutePathBuf → Prop) (u : AbsolutePathBuf) :
    after host B (deniedMounts host fd allowed u) p ↔
      u.Above p ∧ OnTheWay host allowed p ∨ ¬ u.Above p ∧ B p := by
  unfold deniedMounts
  by_cases habove : u.Above p
  · rw [hp u habove, Bool.not_true, if_neg Bool.false_ne_true]
    split
    · have hcov : (Mount.leaves host (.mask (maskPerms allowed u) u (waysFrom host allowed u))).covers
          p := habove
      rw [after_singleton, Layer.over_of_covers hcov]
      simp only [habove, true_and, not_true, false_and, or_false]
      exact le_way_iff habove
    · rename_i hdir
      rw [after_singleton, Layer.over_of_covers habove]
      simp only [habove, true_and, not_true, false_and, or_false]
      -- nothing is below a file, so no way leads there
      refine ⟨False.elim, fun hway => hdir ?_⟩
      exact htree.isDir_above u p habove (hway.pathExists htree hallowed)
  · simp only [habove, false_and, not_false_eq_true, true_and, false_or]
    split
    · rw [after_missing]
    · split
      · rw [after_singleton, Layer.over_of_not_covers]
        exact habove
      · rw [after_singleton, Layer.over_of_not_covers]
        exact habove

end Codex.LinuxSandbox
