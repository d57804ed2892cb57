import Codex.LinuxSandbox.MountView

/-!
# Mounts

The arguments of the sandbox come in a few shapes: a subtree of the host shown at its
own place, an empty directory, a denied directory with the ways to the writable roots
inside it, a denied file, and a path that is kept from being made. Each lays one layer
over what can be mounted where, and one over what is shown of the host.
-/

namespace Codex.LinuxSandbox

open Foundation List

inductive Mount where
  | expose (writable : Bool) (target : AbsolutePathBuf)
  | empty (target : AbsolutePathBuf)
  | dev (target : AbsolutePathBuf)
  | dir (target : AbsolutePathBuf)
  | mask (perms : Text) (target : AbsolutePathBuf) (dirs : List AbsolutePathBuf)
  | maskFile (fd : ℕ) (target : AbsolutePathBuf)
  | forbid (target : AbsolutePathBuf)

namespace Mount

def ops : Mount → List MountOp
  | expose true target => [.bind target target]
  | expose false target => [.roBind target target]
  | empty target => [.tmpfs none target]
  | dev target => [.dev target]
  | dir target => [.dir target]
  | mask perms target dirs => .tmpfs (some perms) target :: (dirs.map .dir ++ [.remountRo target])
  | maskFile fd target => [.roBindData ['0', '0', '0'] fd target]
  | forbid target => [.roBind devNullPath target]

def target : Mount → AbsolutePathBuf
  | expose _ target => target
  | empty target => target
  | dev target => target
  | dir target => target
  | mask _ target _ => target
  | maskFile _ target => target
  | forbid target => target

end Mount

def Placed (host : Host) (p : AbsolutePathBuf) : Prop :=
  ∀ a : AbsolutePathBuf, a.Above p → host.pathExists a = true

namespace Mount

/-- The host has what the mount takes from it, and the directories it makes are its own. -/
def Valid (host : Host) : Mount → Prop
  | expose _ target => host.pathExists target = true
  | empty target => target = .root
  | dev target => target = devPath
  | dir target => host.pathExists target = true
  | mask _ target dirs => host.pathExists target = true ∧ ∀ d ∈ dirs, target.Above d
  | maskFile _ target => host.pathExists target = true
  | forbid target => Placed host target ∧ host.pathExists target = false

/-- The target is there or can be made; nothing is asked of `--dev`. -/
def Admitted (admits : AbsolutePathBuf → Prop) : Mount → Prop
  | dev _ => True
  | m => admits m.target

def canHold (host : Host) (p : AbsolutePathBuf) : Prop :=
  ∃ a, p.parent = some a ∧ host.isDir a = true

def leaves (host : Host) : Mount → Layer AbsolutePathBuf Prop
  | expose writable target =>
    ⟨fun p => target.comps <+: p.comps,
      fun p => host.pathExists p = true ∨ writable = true ∧ canHold host p⟩
  | empty target => ⟨fun p => target.comps <+: p.comps, fun _ => True⟩
  | dev target => ⟨fun p => target.comps <+: p.comps, fun _ => True⟩
  | dir _ => .clear fun _ => True
  | mask _ target dirs => ⟨fun p => target.Above p, fun p => ∃ d ∈ dirs, p.comps <+: d.comps⟩
  | maskFile _ target => ⟨fun p => target.Above p, fun _ => False⟩
  | forbid _ => .clear fun _ => True

/-- What is shown of the host after this mount, and whether it can be written. -/
def displays : Mount → Layer AbsolutePathBuf (Option Bool)
  | expose writable target => ⟨fun p => target.comps <+: p.comps, fun _ => some writable⟩
  | empty target => ⟨fun p => target.comps <+: p.comps, fun _ => none⟩
  | dev target => ⟨fun p => target.comps <+: p.comps, fun _ => none⟩
  | dir _ => .clear fun _ => none
  | mask _ target _ => ⟨fun p => target.comps <+: p.comps, fun _ => none⟩
  | maskFile _ target => ⟨fun p => target.comps <+: p.comps, fun _ => none⟩
  | forbid _ => .clear fun _ => none

end Mount

def applyMount (host : Host) (v : View) (m : Mount) : Except AbsolutePathBuf View :=
  m.ops.foldlM (applyOp host) v

theorem buildView_mounts (host : Host) (v : View) (ms : List Mount) :
    (ms.flatMap Mount.ops).foldlM (applyOp host) v = ms.foldlM (applyMount host) v := by
  induction ms generalizing v with
  | nil => rfl
  | cons m ms ih =>
    rw [flatMap_cons, foldlM_append, foldlM_cons]
    exact bind_congr fun u => ih u

/-! ## Denied directories -/

/-- A directory that holds only the ways to `dirs`. -/
def onlyDirs (target : AbsolutePathBuf) (dirs : List AbsolutePathBuf) (node : Node) : View := fun p =>
  if p = target || dirs.any fun d => d.startsWith p then some node else none

section
variable {host : Host} {v : View} {x p d : AbsolutePathBuf} {dirs : List AbsolutePathBuf}
  {node : Node}

theorem onlyDirs_eq_some {node' : Node} : onlyDirs x dirs node p = some node' ↔
    (p = x ∨ ∃ d ∈ dirs, p.comps <+: d.comps) ∧ node = node' := by
  unfold onlyDirs
  simp only [Bool.or_eq_true, decide_eq_true_eq, any_eq_true, AbsolutePathBuf.startsWith_iff]
  split
  · rename_i h
    simp [h]
  · rename_i h
    simp [h]

theorem onlyDirs_self : onlyDirs x dirs node x = some node := onlyDirs_eq_some.mpr ⟨.inl rfl, rfl⟩

theorem onlyDirs_ne_none : onlyDirs x dirs node p ≠ none ↔
    p = x ∨ ∃ d ∈ dirs, p.comps <+: d.comps := by
  rw [Option.ne_none_iff_exists']
  simp only [onlyDirs_eq_some, exists_and_left, exists_eq', and_true]

theorem onlyDirs_closed (dirs : List AbsolutePathBuf) (node : Node) :
    (onlyDirs x dirs node).ClosedFrom x := by
  intro p q hxp hpq hq
  rcases onlyDirs_ne_none.mp hq with rfl | ⟨d, hd, hqd⟩
  · exact onlyDirs_ne_none.mpr (.inl (AbsolutePathBuf.eq_of_le_of_le hpq hxp))
  · exact onlyDirs_ne_none.mpr (.inr ⟨d, hd, hpq.trans hqd⟩)

theorem admits_onlyDirs (v : View) (dirs : List AbsolutePathBuf) (node : Node)
    (h : x.comps <+: p.comps) : (v.overlay x (onlyDirs x dirs node)).admits p = true ↔
      (p = x ∨ ∃ d ∈ dirs, p.comps <+: d.comps) ∨ node.dir = true ∧ node.writable = true := by
  have hx : onlyDirs x dirs node x ≠ none := onlyDirs_ne_none.mpr (.inl rfl)
  obtain ⟨a, node', ha, hnode, hxa⟩ := View.exists_nearest h hx
  obtain rfl := (onlyDirs_eq_some.mp hnode).2
  rw [View.admits_overlay_inside hxa ha hnode]
  refine or_congr_left ⟨?_, fun hp => ?_⟩
  · rintro rfl
    exact (onlyDirs_eq_some.mp hnode).1
  · exact ha.unique (View.isNearest_self (onlyDirs_ne_none.mpr hp))

theorem reach_onlyDirs (hd : x.Above d) : (v.overlay x (onlyDirs x dirs scratchDir)).reach d =
      v.overlay x (onlyDirs x (dirs ++ [d]) scratchDir) := by
  funext p
  by_cases hxp : x.comps <+: p.comps
  · rw [View.overlay_inside hxp]
    by_cases hp : onlyDirs x dirs scratchDir p = none
    · have hnone : v.overlay x (onlyDirs x dirs scratchDir) p = none := by
        rw [View.overlay_inside hxp, hp]
      have hno : ¬ (p = x ∨ ∃ d ∈ dirs, p.comps <+: d.comps) := fun h => onlyDirs_ne_none.mpr h hp
      by_cases hpd : p.comps <+: d.comps
      · rw [View.reach_above hpd hnone]
        exact (onlyDirs_eq_some.mpr ⟨.inr ⟨d, by simp, hpd⟩, rfl⟩).symm
      · rw [View.reach_beside hpd, hnone, eq_comm, ← Option.not_isSome_iff_eq_none,
          Option.isSome_iff_ne_none, onlyDirs_ne_none]
        rintro (rfl | ⟨e, he, hpe⟩)
        · exact hno (.inl rfl)
        · rcases mem_append.mp he with he | he
          · exact hno (.inr ⟨e, he, hpe⟩)
          · exact hpd (mem_singleton.mp he ▸ hpe)
    · rw [View.reach_of_there (by rwa [View.overlay_inside hxp]), View.overlay_inside hxp]
      obtain ⟨node', hnode⟩ := Option.ne_none_iff_exists'.mp hp
      obtain ⟨hwhere, rfl⟩ := onlyDirs_eq_some.mp hnode
      rw [hnode]
      refine (onlyDirs_eq_some.mpr ⟨hwhere.imp_right ?_, rfl⟩).symm
      rintro ⟨e, he, hpe⟩
      exact ⟨e, mem_append_left _ he, hpe⟩
  · rw [View.overlay_outside hxp]
    by_cases hpd : p.comps <+: d.comps
    · -- above the target everything was made with it
      have hpx : p.comps <+: x.comps :=
        (AbsolutePathBuf.le_or_above_of_le hpd hd.1).resolve_right fun h => hxp h.1
      refine (View.reach_of_there ?_).trans (View.overlay_outside hxp)
      rw [View.overlay_outside hxp]
      rcases View.reach_cases v x p with heq | ⟨-, -, hmade⟩
      · intro hnone
        rw [View.reach_above hpx (heq ▸ hnone)] at hnone
        cases hnone
      · rw [hmade]
        exact Option.some_ne_none _
    · rw [View.reach_beside hpd, View.overlay_outside hxp]

theorem makeDirs (hdirs : ∀ d ∈ dirs, x.Above d) :
    (dirs.map .dir).foldlM (applyOp host) (v.overlay x (onlyDirs x [] scratchDir)) =
      .ok (v.overlay x (onlyDirs x dirs scratchDir)) := by
  induction dirs using List.reverseRecOn with
  | nil => rfl
  | append_singleton dirs d ih =>
    rw [map_append, map_singleton]
    refine run_snoc.mpr ⟨_, ih fun e he => hdirs e (mem_append_left _ he), ?_⟩
    have hd := hdirs d (by simp)
    have hadm := (admits_onlyDirs v dirs scratchDir hd.1).mpr (.inr ⟨rfl, rfl⟩)
    exact (if_pos hadm).trans (congrArg Except.ok (reach_onlyDirs hd))

theorem onlyTarget_eq (x : AbsolutePathBuf) (node : Node) :
    onlyTarget x node = onlyDirs x [] node := by
  funext p
  unfold onlyTarget onlyDirs
  simp

theorem freeze_onlyDirs : applyOp host (v.overlay x (onlyDirs x dirs scratchDir)) (.remountRo x) =
    .ok (v.overlay x (onlyDirs x dirs ⟨none, true, false⟩)) := by
  refine congrArg Except.ok (funext fun p => ?_)
  unfold View.overlay
  by_cases hp : p.startsWith x = true
  · rw [if_pos hp, if_pos hp, if_pos hp]
    unfold onlyDirs scratchDir
    split <;> rfl
  · rw [if_neg hp, if_neg hp, if_neg hp]

theorem applyMount_mask {perms : Text} (hdirs : ∀ d ∈ dirs, x.Above d) :
    applyMount host v (.mask perms x dirs) = v.mount x (onlyDirs x dirs ⟨none, true, false⟩) := by
  have hclear : applyOp host v (.tmpfs (some perms) x) = v.mount x (onlyDirs x [] scratchDir) := by
    rw [← onlyTarget_eq]
    rfl
  unfold applyMount Mount.ops
  rw [foldlM_cons, hclear]
  by_cases hadm : v.admits x = true
  · rw [View.mount_of_admits hadm, View.mount_of_admits hadm]
    exact run_snoc.mpr ⟨_, makeDirs hdirs, freeze_onlyDirs⟩
  · rw [View.mount_of_not_admits hadm, View.mount_of_not_admits hadm]
    rfl

/-! ## Subtrees of the host -/

theorem rebase_self (h : x.comps <+: p.comps) : p.rebase x x = p := by
  refine AbsolutePathBuf.ext ?_
  obtain ⟨rest, hrest⟩ := h
  unfold AbsolutePathBuf.rebase
  simp only [← hrest, drop_left]

variable {w : Bool} {f : View} {m : Mount}

theorem bound_self (hx : host.pathExists x = true) (h : x.comps <+: p.comps) :
    bound host w x x p = if host.pathExists p then some ⟨some p, host.isDir p, w⟩ else none := by
  unfold bound
  by_cases hp : p = x
  · rw [if_pos hp, hp, if_pos hx]
  · simp only [if_neg hp, rebase_self h]

theorem bound_closed (htree : host.IsTree) (w : Bool) (hx : host.pathExists x = true) :
    (bound host w x x).ClosedFrom x := by
  intro p q hxp hpq hq
  rw [bound_self hx (hxp.trans hpq)] at hq
  rw [bound_self hx hxp]
  split at hq
  · rename_i hthere
    rw [if_pos (htree.exists_of_le hpq hthere)]
    exact Option.some_ne_none _
  · exact absurd rfl hq

theorem admits_bound (hx : host.pathExists x = true) (h : x.comps <+: p.comps)
    (hplaced : ∀ a : AbsolutePathBuf, a.Above p → host.pathExists a = true) :
    (v.overlay x (bound host w x x)).admits p = true ↔
      host.pathExists p = true ∨ w = true ∧ Mount.canHold host p := by
  by_cases hp : host.pathExists p = true
  · have hthere : v.overlay x (bound host w x x) p ≠ none := by
      rw [View.overlay_inside h, bound_self hx h, if_pos hp]
      exact Option.some_ne_none _
    simp [View.admits_of_there hthere, hp]
  · have habove : x.Above p :=
      (AbsolutePathBuf.le_or_above h).resolve_left fun heq => hp (heq ▸ hx)
    obtain ⟨a, ha⟩ := habove.exists_parent
    have hxa := AbsolutePathBuf.le_parent ha habove
    have hap := AbsolutePathBuf.parent_above ha
    have hnode : bound host w x x a = some ⟨some a, host.isDir a, w⟩ := by
      rw [bound_self hx hxa, if_pos (hplaced a hap)]
    have hnear : (bound host w x x).IsNearest p a := by
      refine ⟨hap.1, by simp [hnode], fun b hab hbp => ?_⟩
      rcases AbsolutePathBuf.le_or_above hbp with rfl | hbp
      · rw [bound_self hx h, if_neg hp]
      · exact absurd (AbsolutePathBuf.le_parent ha hbp) hab.not_le
    rw [View.admits_overlay_inside hxa hnear hnode]
    constructor
    · rintro (rfl | ⟨hdir, hw⟩)
      · exact absurd hap AbsolutePathBuf.Above.irrefl
      · exact .inr ⟨hw, a, ha, hdir⟩
    · rintro (hthere | ⟨hw, b, hb, hdir⟩)
      · exact absurd hthere hp
      · rw [ha] at hb
        cases hb
        exact .inr ⟨hdir, hw⟩

/-! ## One mount -/

/-- What holds of a view all along: its root is there, and so is everything above what is there. -/
structure View.WellFormed (v : View) : Prop where
  closed : v.Closed
  root : v .root ≠ none

theorem emptyView_wellFormed : emptyView.WellFormed := by
  have hroot : ∀ p, emptyView p ≠ none → p = .root := by
    intro p hp
    unfold emptyView at hp
    split at hp
    · assumption
    · exact absurd rfl hp
  refine ⟨fun p q hpq hq => ?_, by decide⟩
  obtain rfl := hroot q hq
  rw [AbsolutePathBuf.eq_of_le_of_le hpq (AbsolutePathBuf.root_le p)]
  exact hq

theorem overlay_wellFormed (hv : v.WellFormed) (hf : f.ClosedFrom x) (hx : f x ≠ none) :
    (v.overlay x f).WellFormed := by
  have hclosed := View.overlay_closed hv.closed hf
  refine ⟨hclosed, hclosed .root x (AbsolutePathBuf.root_le x) ?_⟩
  rwa [View.overlay_inside prefix_rfl]

theorem reach_wellFormed (hv : v.WellFormed) (x : AbsolutePathBuf) : (v.reach x).WellFormed := by
  refine ⟨View.reach_closed hv.closed, ?_⟩
  rw [View.reach_of_there hv.root]
  exact hv.root

theorem admits_overlay_dev (hv : v.WellFormed) (h : ¬ devPath.comps <+: p.comps) :
    (v.overlay devPath f).admits p = true ↔ v.admits p = true := by
  have hsame : ∀ q : AbsolutePathBuf, q.comps <+: p.comps → v.overlay devPath f q = v q := by
    intro q hq
    have hdev : ¬ devPath.comps <+: q.comps := fun hle => h (hle.trans hq)
    rw [View.overlay_outside hdev]
    rcases View.reach_cases v devPath q with heq | ⟨hle, hnone, -⟩
    · exact heq
    · rcases AbsolutePathBuf.le_or_above hle with rfl | habove
      · exact absurd prefix_rfl hdev
      · have hlen : q.comps.length < 1 := habove.length_lt
        have hq : q = .root := by
          refine AbsolutePathBuf.ext (eq_nil_of_length_eq_zero ?_)
          omega
        rw [hq] at hnone
        exact absurd hnone hv.root
  have hnear : ∀ a, (v.overlay devPath f).IsNearest p a ↔ v.IsNearest p a := by
    intro a
    constructor
    · rintro ⟨ha, hthere, hnone⟩
      exact ⟨ha, hsame a ha ▸ hthere, fun b hb hbp => hsame b hbp ▸ hnone b hb hbp⟩
    · rintro ⟨ha, hthere, hnone⟩
      exact ⟨ha, (hsame a ha).symm ▸ hthere, fun b hb hbp => (hsame b hbp).symm ▸ hnone b hb hbp⟩
  rw [View.admits_iff, View.admits_iff]
  refine exists_congr fun a => exists_congr fun node => ?_
  rw [hnear a]
  refine and_congr_right fun ha => ?_
  rw [hsame a ha.1]

theorem placed_of_exists (htree : host.IsTree) (hp : host.pathExists p = true) : Placed host p :=
  fun _ ha => htree.exists_of_le ha.1 hp

/-- What a mount makes of a view: both layers lie over what there was. -/
structure Lays (host : Host) (v : View) (leaf : Layer AbsolutePathBuf Prop)
    (display : Layer AbsolutePathBuf (Option Bool)) (w : View) : Prop where
  wellFormed : w.WellFormed
  admits : ∀ p, Placed host p → (w.admits p = true) = leaf.over (fun p => v.admits p = true) p
  shows : ∀ p, host.pathExists p = true → w.shows p = display.over v.shows p

theorem overlay_lays {leaf : Layer AbsolutePathBuf Prop}
    {display : Layer AbsolutePathBuf (Option Bool)} (hv : v.WellFormed) (hadm : v.admits x = true)
    (hf : f.ClosedFrom x) (hx : f x ≠ none) (hleaf : ∀ p, Placed host p → x.comps <+: p.comps →
      ((v.overlay x f).admits p = true) = leaf.over (fun p => v.admits p = true) p)
    (hcovers : ∀ p, leaf.covers p → x.comps <+: p.comps)
    (hdisplay : ∀ p, host.pathExists p = true → x.comps <+: p.comps →
      f.shows p = display.over v.shows p) (hshown : ∀ p, display.covers p → x.comps <+: p.comps) :
    Lays host v leaf display (v.overlay x f) := by
  refine ⟨overlay_wellFormed hv hf hx, fun p hp => ?_, fun p hp => ?_⟩
  · by_cases hxp : x.comps <+: p.comps
    · exact hleaf p hp hxp
    · rw [Layer.over_of_not_covers (mt (hcovers p) hxp)]
      exact propext (View.admits_overlay_outside hv.closed hadm hxp)
  · by_cases hxp : x.comps <+: p.comps
    · rw [View.overlay_shows_inside hxp]
      exact hdisplay p hp hxp
    · rw [View.overlay_shows_outside hxp, Layer.over_of_not_covers (mt (hshown p) hxp)]

theorem bound_shows (hx : host.pathExists x = true) (h : x.comps <+: p.comps)
    (hp : host.pathExists p = true) : (bound host w x x).shows p = some w := by
  unfold View.shows
  rw [bound_self hx h, if_pos hp]
  exact if_pos rfl

theorem onlyDirs_shows (hnode : node.source = none) : (onlyDirs x dirs node).shows p = none := by
  unfold View.shows onlyDirs
  split
  · simp [hnode]
  · rfl

theorem expose_lays (htree : host.IsTree) (hv : v.WellFormed) (hx : host.pathExists x = true)
    (hadm : v.admits x = true) :
    Lays host v ((Mount.expose w x).leaves host) (Mount.expose w x).displays
      (v.overlay x (bound host w x x)) := by
  have hthere : bound host w x x x ≠ none := by
    rw [bound_self hx prefix_rfl, if_pos hx]
    exact Option.some_ne_none _
  refine overlay_lays hv hadm (bound_closed htree w hx) hthere (fun p hp hxp => ?_) (fun _ h => h)
    (fun p hp hxp => ?_) fun _ h => h
  · rw [Layer.over_of_covers hxp]
    exact propext (admits_bound hx hxp hp)
  · rw [Layer.over_of_covers hxp]
    exact bound_shows hx hxp hp

theorem onlyDirs_lays (hv : v.WellFormed) (hadm : v.admits x = true) (hnode : node.source = none)
    (hleaf : ∀ p, Placed host p → x.comps <+: p.comps →
      (((p = x ∨ ∃ d ∈ dirs, p.comps <+: d.comps) ∨ node.dir = true ∧ node.writable = true) =
        (m.leaves host).over (fun p => v.admits p = true) p))
    (hcovers : ∀ p, (m.leaves host).covers p → x.comps <+: p.comps)
    (hdisplay : m.displays = ⟨fun p => x.comps <+: p.comps, fun _ => none⟩) :
    Lays host v (m.leaves host) m.displays (v.overlay x (onlyDirs x dirs node)) := by
  refine overlay_lays hv hadm (onlyDirs_closed dirs node) (by simp [onlyDirs_self])
    (fun p hp hxp => ?_) hcovers (fun p _ hxp => ?_) fun p hp => ?_
  · rw [← hleaf p hp hxp]
    exact propext (admits_onlyDirs v dirs node hxp)
  · rw [hdisplay, onlyDirs_shows hnode]
    exact (if_pos hxp).symm
  · rw [hdisplay] at hp
    exact hp

theorem mask_covers
    (hleaves : m.leaves host = ⟨fun p => x.Above p, fun p => ∃ d ∈ dirs, p.comps <+: d.comps⟩)
    (hadm : v.admits x = true) (hnode : ¬ (node.dir = true ∧ node.writable = true))
    (hxp : x.comps <+: p.comps) :
    (((p = x ∨ ∃ d ∈ dirs, p.comps <+: d.comps) ∨ node.dir = true ∧ node.writable = true) =
      (m.leaves host).over (fun p => v.admits p = true) p) := by
  rw [hleaves]
  rcases AbsolutePathBuf.le_or_above hxp with rfl | habove
  · rw [Layer.over_of_not_covers AbsolutePathBuf.Above.irrefl]
    simp [hadm]
  · rw [Layer.over_of_covers habove]
    refine propext ⟨?_, fun h => .inl (.inr h)⟩
    rintro ((rfl | h) | h)
    · exact absurd rfl habove.2
    · exact h
    · exact absurd h hnode

theorem forbid_closed (htree : host.IsTree) (source c : AbsolutePathBuf) :
    (bound host false source c).ClosedFrom c := by
  intro p q hcp hpq hq
  unfold bound at hq ⊢
  split
  · exact Option.some_ne_none _
  · rename_i hp
    have hqc : q ≠ c := fun h => hp (AbsolutePathBuf.eq_of_le_of_le (h ▸ hpq) hcp)
    have hle : (p.rebase c source).comps <+: (q.rebase c source).comps := by
      simp only [AbsolutePathBuf.rebase, prefix_append_right_inj]
      exact hpq.drop _
    simp only [if_neg hqc] at hq
    split at hq
    · rename_i hthere
      simp [htree.exists_of_le hle hthere]
    · exact absurd rfl hq

theorem applyMount_possible (hm : m.Valid host) (h : m.Admitted fun p => v.admits p = true) :
    ∃ w, applyMount host v m = .ok w := by
  cases m with
  | expose writable target =>
    cases writable <;> exact ⟨_, run_singleton.trans (View.mount_of_admits h)⟩
  | empty target => exact ⟨_, run_singleton.trans (View.mount_of_admits h)⟩
  | dev target => exact ⟨_, rfl⟩
  | dir target => exact ⟨_, run_singleton.trans (if_pos h)⟩
  | mask perms target dirs => exact ⟨_, (applyMount_mask hm.2).trans (View.mount_of_admits h)⟩
  | maskFile fd target | forbid target => exact ⟨_, run_singleton.trans (View.mount_of_admits h)⟩

theorem applyMount_ok (htree : host.IsTree) {w : View} (hv : v.WellFormed) (hm : m.Valid host)
    (h : applyMount host v m = .ok w) :
    (m.Admitted fun p => v.admits p = true) ∧ Lays host v (m.leaves host) m.displays w := by
  cases m with
  | expose writable target =>
    have hmount : v.mount target (bound host writable target target) = .ok w := by
      cases writable <;> exact run_singleton.symm.trans h
    obtain ⟨hadm, rfl⟩ := View.mount_ok_iff.mp hmount
    exact ⟨hadm, expose_lays htree hv hm hadm⟩
  | empty target =>
    have hmount : v.mount target (onlyDirs target [] scratchDir) = .ok w := by
      rw [← onlyTarget_eq]
      exact run_singleton.symm.trans h
    obtain ⟨hadm, rfl⟩ := View.mount_ok_iff.mp hmount
    refine ⟨hadm, onlyDirs_lays hv hadm rfl (fun p _ hxp => ?_) (fun _ hp => hp) rfl⟩
    rw [Layer.over_of_covers (show ((Mount.empty target).leaves host).covers p from hxp)]
    exact propext ⟨fun _ => trivial, fun _ => .inr ⟨rfl, rfl⟩⟩
  | dev target =>
    obtain rfl : target = devPath := hm
    cases h
    refine ⟨trivial, ?_, fun p _ => ?_, fun p _ => ?_⟩
    · rw [onlyTarget_eq]
      exact overlay_wellFormed hv (onlyDirs_closed _ _) (by simp [onlyDirs_self])
    · by_cases hp : devPath.comps <+: p.comps
      · rw [Layer.over_of_covers (show ((Mount.dev devPath).leaves host).covers p from hp),
          onlyTarget_eq]
        exact propext ⟨fun _ => trivial, fun _ =>
          (admits_onlyDirs v [] scratchDir hp).mpr (.inr ⟨rfl, rfl⟩)⟩
      · rw [Layer.over_of_not_covers (show ¬ ((Mount.dev devPath).leaves host).covers p from hp)]
        exact propext (admits_overlay_dev hv hp)
    · by_cases hp : devPath.comps <+: p.comps
      · rw [Layer.over_of_covers (show (Mount.dev devPath).displays.covers p from hp),
          View.overlay_shows_inside hp, onlyTarget_eq]
        exact onlyDirs_shows rfl
      · rw [Layer.over_of_not_covers (show ¬ (Mount.dev devPath).displays.covers p from hp),
          View.overlay_shows_outside hp]
  | dir target =>
    have hstep : (if v.admits target then Except.ok (v.reach target) else .error target) = .ok w :=
      run_singleton.symm.trans h
    split at hstep
    · rename_i hadm
      cases hstep
      refine ⟨hadm, reach_wellFormed hv target, fun p _ => ?_, fun p _ => ?_⟩
      · have hkept : ((Mount.dir target).leaves host).over (fun p => v.admits p = true) p =
            (v.admits p = true) := congrFun (Layer.clear_over _) p
        rw [hkept]
        exact propext (View.admits_reach hv.closed hadm fun _ _ => rfl)
      · exact (View.reach_shows v target p).trans (congrFun (Layer.clear_over _).symm p)
    · cases hstep
  | mask perms target dirs =>
    rw [applyMount_mask hm.2] at h
    obtain ⟨hadm, rfl⟩ := View.mount_ok_iff.mp h
    refine ⟨hadm, onlyDirs_lays hv hadm rfl (fun p _ hxp => ?_) (fun _ hp => hp.1) rfl⟩
    exact mask_covers rfl hadm (by simp) hxp
  | maskFile fd target =>
    have hmount : v.mount target (onlyDirs target [] ⟨none, false, false⟩) = .ok w := by
      rw [← onlyTarget_eq]
      exact run_singleton.symm.trans h
    obtain ⟨hadm, rfl⟩ := View.mount_ok_iff.mp hmount
    refine ⟨hadm, onlyDirs_lays hv hadm rfl (fun p _ hxp => ?_) (fun _ hp => hp.1) rfl⟩
    refine mask_covers ?_ hadm (by simp) hxp
    unfold Mount.leaves
    simp
  | forbid target =>
    have hmount : v.mount target (bound host false devNullPath target) = .ok w :=
      run_singleton.symm.trans h
    obtain ⟨hadm, rfl⟩ := View.mount_ok_iff.mp hmount
    have hself : bound host false devNullPath target target ≠ none := by
      unfold bound
      simp
    refine ⟨hadm, overlay_lays hv hadm (forbid_closed htree _ _) hself (fun p hp hxp => ?_)
      (fun _ hp => absurd hp id) (fun p hp hxp => ?_) fun _ hp => absurd hp id⟩
    · -- what is not there holds nothing, so the target is all there is to ask about
      rcases AbsolutePathBuf.le_or_above hxp with rfl | habove
      · have hthere : v.overlay target (bound host false devNullPath target) target ≠ none := by
          rwa [View.overlay_inside prefix_rfl]
        have hkept : ((Mount.forbid target).leaves host).over (fun p => v.admits p = true) target =
            (v.admits target = true) := congrFun (Layer.clear_over _) target
        rw [hkept]
        exact propext ⟨fun _ => hadm, fun _ => View.admits_of_there hthere⟩
      · have hthere := hp target habove
        rw [hm.2] at hthere
        cases hthere
    · have hthere := htree.exists_of_le hxp hp
      rw [hm.2] at hthere
      cases hthere

end

/-! ## Many mounts -/

variable {host : Host} {v : View} {ms : List Mount}

noncomputable def admitsAfter (host : Host) (ms : List Mount) : AbsolutePathBuf → Prop :=
  stack (fun _ => True) (ms.map (Mount.leaves host))

noncomputable def shownAfter (ms : List Mount) : AbsolutePathBuf → Option Bool :=
  stack (fun _ => none) (ms.map Mount.displays)

theorem admits_emptyView (p : AbsolutePathBuf) : emptyView.admits p = true := by
  have hroot : emptyView .root = some scratchDir := rfl
  have hnear : emptyView.IsNearest p .root := by
    refine ⟨AbsolutePathBuf.root_le p, by simp [hroot], fun b hb _ => ?_⟩
    exact if_neg hb.2.symm
  exact (View.admits_of_nearest hnear hroot).mpr (.inr ⟨rfl, rfl⟩)

theorem emptyView_shows (p : AbsolutePathBuf) : emptyView.shows p = none := by
  unfold View.shows emptyView
  split <;> rfl

theorem applyMounts_ok (htree : host.IsTree) (hms : ∀ m ∈ ms, m.Valid host)
    (h : ms.foldlM (applyMount host) emptyView = .ok v) :
    v.WellFormed ∧ (∀ p, Placed host p → (v.admits p = true) = admitsAfter host ms p) ∧
      ∀ p, host.pathExists p = true → v.shows p = shownAfter ms p := by
  have hstep : ∀ (u : View) (m : Mount) (w : View), u.WellFormed → m.Valid host →
      applyMount host u m = .ok w → Lays host u (m.leaves host) m.displays w :=
    fun u m w hu hm hw => (applyMount_ok htree hu hm hw).2
  have hadm := run_shows_stack (D := Placed host) (I := View.WellFormed)
    (fun u m w hu hm hw => ⟨(hstep u m w hu hm hw).wellFormed, (hstep u m w hu hm hw).admits⟩)
    emptyView_wellFormed hms h
  have hshow := run_shows_stack (D := fun p => host.pathExists p = true) (I := View.WellFormed)
    (fun u m w hu hm hw => ⟨(hstep u m w hu hm hw).wellFormed, (hstep u m w hu hm hw).shows⟩)
    emptyView_wellFormed hms h
  have hground : (fun p => emptyView.admits p = true) = fun _ => True :=
    funext fun p => propext ⟨fun _ => trivial, fun _ => admits_emptyView p⟩
  have hnone : emptyView.shows = fun _ => none := funext emptyView_shows
  refine ⟨hadm.1, fun p hp => ?_, fun p hp => ?_⟩
  · rw [hadm.2 p hp, hground]
    rfl
  · rw [hshow.2 p hp, hnone]
    rfl

theorem Mount.Valid.placed (htree : host.IsTree) {m : Mount} (hm : m.Valid host) :
    Placed host m.target := by
  cases m with
  | expose writable target => exact placed_of_exists htree hm
  | empty target =>
    obtain rfl : target = .root := hm
    exact placed_of_exists htree (htree.exists_of_isDir _ htree.root)
  | dev target =>
    obtain rfl : target = devPath := hm
    intro a ha
    have hlen : a.comps.length < 1 := ha.length_lt
    have hroot : a = .root := by
      refine AbsolutePathBuf.ext (eq_nil_of_length_eq_zero ?_)
      omega
    rw [hroot]
    exact htree.exists_of_isDir _ htree.root
  | dir target => exact placed_of_exists htree hm
  | mask perms target dirs => exact placed_of_exists htree hm.1
  | maskFile fd target => exact placed_of_exists htree hm
  | forbid target => exact hm.1

theorem Mount.Admitted.congr {A B : AbsolutePathBuf → Prop} {m : Mount} (h : m.Admitted A)
    (hsame : A m.target = B m.target) : m.Admitted B := by
  cases m with
  | dev target => trivial
  | _ => exact cast hsame h

theorem applyMounts_ok_iff (htree : host.IsTree) (hms : ∀ m ∈ ms, m.Valid host) :
    (∃ w, ms.foldlM (applyMount host) emptyView = .ok w) ↔
      ∀ pre m post, ms = pre ++ m :: post → m.Admitted (admitsAfter host pre) := by
  constructor
  · rintro ⟨w, hw⟩ pre m post rfl
    have hm := hms m (by simp)
    have hpre : pre ++ [m] <+: pre ++ m :: post := ⟨post, by simp⟩
    obtain ⟨v, hv⟩ := run_prefix_ok hpre hw
    obtain ⟨u, hu, hstep⟩ := run_snoc.mp hv
    obtain ⟨hwf, hadm, -⟩ := applyMounts_ok htree (fun k hk => hms k (by simp [hk])) hu
    exact (applyMount_ok htree hwf hm hstep).1.congr (hadm _ (hm.placed htree))
  · intro h
    refine run_ok_iff.mpr fun pre m post hsplit u hu => ?_
    subst hsplit
    have hm := hms m (by simp)
    obtain ⟨-, hadm, -⟩ := applyMounts_ok htree (fun k hk => hms k (by simp [hk])) hu
    exact applyMount_possible hm ((h pre m post rfl).congr (hadm _ (hm.placed htree)).symm)

end Codex.LinuxSandbox
