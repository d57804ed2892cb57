import Codex.Foundation.Layers
import Codex.LinuxSandbox.FilesystemArgs
import Codex.Sandbox.Access

/-!
# The view that bubblewrap builds

A view says what is at each path: an object of the host or one made for the view, and
whether it can be written. Each operation changes what is at or below its target. A
target that is not there is made, with the directories above it, if the nearest path
that is there is a writable directory; else the operation fails. The device nodes of
the minimal `/dev` are left out.
-/

namespace Codex

open Foundation List

/-! ## Trees -/

structure Host.IsTree (host : Host) : Prop where
  root : host.isDir .root = true
  exists_of_isDir : ∀ p, host.isDir p = true → host.pathExists p = true
  isDir_above : ∀ p q : AbsolutePathBuf, p.Above q → host.pathExists q = true → host.isDir p = true
  noSymlinks : host.NoSymlinks
  notSymlink : ∀ p, host.symlinkMetadata p ≠ some true

namespace AbsolutePathBuf

variable (p : AbsolutePathBuf)

theorem root_le : root.comps <+: p.comps := nil_prefix

variable {a p b : AbsolutePathBuf}

theorem le_or_above (h : a.comps <+: p.comps) : a = p ∨ a.Above p := by
  by_cases heq : a = p
  · exact .inl heq
  · exact .inr ⟨h, heq⟩

theorem Above.trans_le {q : AbsolutePathBuf} (h : a.Above p) (hq : p.comps <+: q.comps) :
    a.Above q := by
  refine ⟨h.1.trans hq, fun heq => ?_⟩
  have hlen := h.length_lt
  have hle := hq.length_le
  rw [heq] at hlen
  omega

theorem Above.of_le {q : AbsolutePathBuf} (hp : a.comps <+: p.comps) (h : p.Above q) :
    a.Above q := by
  refine ⟨hp.trans h.1, fun heq => ?_⟩
  have hlen := h.length_lt
  have hle := hp.length_le
  rw [heq] at hle
  omega

theorem Above.irrefl : ¬ p.Above p := fun h => h.2 rfl

theorem Above.not_le (h : a.Above p) : ¬ p.comps <+: a.comps := by
  intro hle
  have hlt := h.length_lt
  have := hle.length_le
  omega

theorem le_or_above_of_le (ha : a.comps <+: p.comps) (hb : b.comps <+: p.comps) :
    a.comps <+: b.comps ∨ b.Above a := by
  rcases Nat.le_total a.comps.length b.comps.length with h | h
  · exact .inl (prefix_of_prefix_length_le ha hb h)
  · rcases le_or_above (prefix_of_prefix_length_le hb ha h) with rfl | habove
    · exact .inl prefix_rfl
    · exact .inr habove

theorem mem_ancestors : a ∈ p.ancestors ↔ a.comps <+: p.comps := by
  unfold ancestors
  rw [mem_map]
  constructor
  · rintro ⟨n, -, rfl⟩
    exact take_prefix n p.comps
  · intro h
    refine ⟨a.comps.length, mem_range.mpr (Nat.lt_succ_of_le h.length_le), ?_⟩
    exact ext (prefix_iff_eq_take.mp h).symm

theorem ancestors_pairwise : p.ancestors.Pairwise Above := by
  unfold ancestors
  rw [pairwise_map]
  refine List.Pairwise.imp_of_mem ?_ pairwise_lt_range
  intro m n _ hn hlt
  have hn' := mem_range.mp hn
  refine ⟨take_prefix_take_left hlt.le, fun heq => ?_⟩
  have hlen := congrArg (fun q : AbsolutePathBuf => q.comps.length) heq
  simp only [length_take] at hlen
  omega

theorem ancestors_tail : p.ancestors = root :: p.ancestors.tail := by
  unfold ancestors
  rw [range_succ_eq_map, map_cons, tail_cons]
  refine congrArg₂ List.cons (ext ?_) rfl
  exact take_zero (l := p.comps)

theorem mem_ancestors_tail (h : a ∈ p.ancestors.tail) : a.comps <+: p.comps ∧ a ≠ root := by
  refine ⟨mem_ancestors.mp (mem_of_mem_tail h), ?_⟩
  rintro rfl
  have hpair := p.ancestors_pairwise
  rw [ancestors_tail] at hpair
  exact Above.irrefl ((pairwise_cons.mp hpair).1 root h)

theorem parent_above (h : p.parent = some a) : a.Above p := by
  unfold parent at h
  split at h
  · cases h
  · rename_i hne
    cases h
    have hfront := dropLast_prefix p.comps
    refine ⟨hfront, fun heq => ?_⟩
    have hlen := congrArg (fun q : AbsolutePathBuf => q.comps.length) heq
    have hpos := length_pos_of_ne_nil hne
    simp only [length_dropLast] at hlen
    omega

theorem le_parent (h : p.parent = some a) (hb : b.Above p) : b.comps <+: a.comps := by
  unfold parent at h
  split at h
  · cases h
  · cases h
    have hfront := dropLast_prefix p.comps
    refine prefix_of_prefix_length_le hb.1 hfront ?_
    have hlen := hb.length_lt
    simp only [length_dropLast]
    omega

theorem Above.exists_parent (h : b.Above p) : ∃ a, p.parent = some a := by
  unfold parent
  rw [if_neg]
  · exact ⟨_, rfl⟩
  · intro hnil
    have hlen := h.length_lt
    rw [hnil] at hlen
    exact absurd hlen (Nat.not_lt_zero _)

end AbsolutePathBuf

theorem Host.IsTree.exists_of_le {host : Host} (htree : host.IsTree) {p q : AbsolutePathBuf}
    (h : p.comps <+: q.comps) (hq : host.pathExists q = true) : host.pathExists p = true := by
  rcases AbsolutePathBuf.le_or_above h with rfl | habove
  · exact hq
  · exact htree.exists_of_isDir p (htree.isDir_above p q habove hq)

namespace LinuxSandbox

/-! ## Views -/

structure Node where
  /-- The object of the host, or none for one made for the view. -/
  source : Option AbsolutePathBuf
  dir : Bool
  writable : Bool
deriving DecidableEq

abbrev View := AbsolutePathBuf → Option Node

def scratchDir : Node := ⟨none, true, true⟩

def emptyView : View := fun p => if p = .root then some scratchDir else none

namespace View

variable (v : View)

/-- The nearest path at or above `p` that is there. -/
def nearest (p : AbsolutePathBuf) : Option (AbsolutePathBuf × Node) :=
  p.ancestors.reverse.findSome? fun a => (v a).map fun node => (a, node)

/-- Something can be mounted at `p`, which is there or can be made. -/
def admits (p : AbsolutePathBuf) : Bool :=
  (v.nearest p).any fun (a, node) => a = p || node.dir && node.writable

def reach (target : AbsolutePathBuf) : View := fun p =>
  if target.startsWith p && (v p).isNone then some scratchDir else v p

def overlay (target : AbsolutePathBuf) (f : View) : View := fun p =>
  if p.startsWith target then f p else v.reach target p

def mount (target : AbsolutePathBuf) (f : View) : Except AbsolutePathBuf View :=
  if v.admits target then .ok (v.overlay target f) else .error target

end View

def bound (host : Host) (writable : Bool) (source target : AbsolutePathBuf) : View := fun p =>
  let q := p.rebase target source
  if p = target then some ⟨some source, host.isDir source, writable⟩
  else if host.pathExists q then some ⟨some q, host.isDir q, writable⟩
  else none

def onlyTarget (target : AbsolutePathBuf) (node : Node) : View := fun p =>
  if p = target then some node else none

/-- What an operation does to the view; it fails with a target that cannot be made. -/
def applyOp (host : Host) (v : View) : MountOp → Except AbsolutePathBuf View
  | .roBind source target => v.mount target (bound host false source target)
  | .bind source target => v.mount target (bound host true source target)
  | .dev target => .ok (v.overlay target (onlyTarget target scratchDir))
  | .tmpfs _ target => v.mount target (onlyTarget target scratchDir)
  | .dir target => if v.admits target then .ok (v.reach target) else .error target
  | .remountRo target => .ok fun p =>
    if p.startsWith target then (v p).map fun node => { node with writable := false } else v p
  | .roBindData _ _ target => v.mount target (onlyTarget target ⟨none, false, false⟩)

def buildView (host : Host) (ops : List MountOp) : Except AbsolutePathBuf View :=
  ops.foldlM (applyOp host) emptyView

/-- The host's own object at `p`, if it is shown there, and whether it can be written. -/
def View.shows (v : View) (p : AbsolutePathBuf) : Option Bool :=
  (v p).bind fun node => if node.source = some p then some node.writable else none

/-! ## What is nearest -/

namespace View

variable {v : View} {a b p q t : AbsolutePathBuf} {f : View} {node : Node}

def Closed (v : View) : Prop :=
  ∀ p q : AbsolutePathBuf, p.comps <+: q.comps → v q ≠ none → v p ≠ none

def IsNearest (v : View) (p a : AbsolutePathBuf) : Prop :=
  a.comps <+: p.comps ∧ v a ≠ none ∧
    ∀ b : AbsolutePathBuf, a.Above b → b.comps <+: p.comps → v b = none

theorem nearest_eq_some : v.nearest p = some (a, node) ↔ v.IsNearest p a ∧ v a = some node := by
  unfold nearest
  rw [List.findSome?_eq_some_iff]
  have hpair := pairwise_reverse.mpr p.ancestors_pairwise
  constructor
  · rintro ⟨l₁, c, l₂, hl, hc, hnone⟩
    obtain ⟨node', hv, heq⟩ := Option.map_eq_some_iff.mp hc
    cases heq
    have hmem : a ∈ p.ancestors.reverse := by
      rw [hl]
      simp
    refine ⟨⟨AbsolutePathBuf.mem_ancestors.mp (mem_reverse.mp hmem), by simp [hv], ?_⟩, hv⟩
    intro b habove hle
    have hb : b ∈ l₁ ++ a :: l₂ := by
      rw [← hl]
      exact mem_reverse.mpr (AbsolutePathBuf.mem_ancestors.mpr hle)
    rw [hl] at hpair
    rcases mem_append.mp hb with hb | hb
    · exact Option.map_eq_none_iff.mp (hnone b hb)
    · rcases mem_cons.mp hb with rfl | hb
      · exact absurd habove AbsolutePathBuf.Above.irrefl
      · have hback := (pairwise_cons.mp (pairwise_append.mp hpair).2.1).1 b hb
        exact absurd hback.1 habove.not_le
  · rintro ⟨⟨hle, -, hnone⟩, hv⟩
    have hmem := mem_reverse.mpr (AbsolutePathBuf.mem_ancestors.mpr hle)
    obtain ⟨l₁, l₂, hl⟩ := append_of_mem hmem
    refine ⟨l₁, a, l₂, hl, by rw [hv]; rfl, fun b hb => ?_⟩
    rw [hl] at hpair
    have habove := (pairwise_append.mp hpair).2.2 b hb a (by simp)
    have hb' : b ∈ p.ancestors.reverse := by
      rw [hl]
      exact mem_append_left _ hb
    rw [hnone b habove (AbsolutePathBuf.mem_ancestors.mp (mem_reverse.mp hb'))]
    rfl

theorem admits_iff : v.admits p = true ↔ ∃ a node, v.IsNearest p a ∧ v a = some node ∧
    (a = p ∨ node.dir = true ∧ node.writable = true) := by
  unfold admits
  simp only [Option.any_eq_true, Prod.exists, nearest_eq_some, Bool.or_eq_true,
    Bool.and_eq_true, decide_eq_true_eq, and_assoc]

theorem exists_nearest (ha : a.comps <+: p.comps) (h : v a ≠ none) :
    ∃ b node, v.IsNearest p b ∧ v b = some node ∧ a.comps <+: b.comps := by
  cases hn : v.nearest p with
  | none =>
    have hnone := List.findSome?_eq_none_iff.mp hn a
      (mem_reverse.mpr (AbsolutePathBuf.mem_ancestors.mpr ha))
    exact absurd (Option.map_eq_none_iff.mp hnone) h
  | some found =>
    obtain ⟨hb, hv⟩ := nearest_eq_some.mp (show v.nearest p = some (found.1, found.2) from hn)
    refine ⟨found.1, found.2, hb, hv, ?_⟩
    rcases AbsolutePathBuf.le_or_above_of_le ha hb.1 with hle | habove
    · exact hle
    · exact absurd (hb.2.2 a habove ha) h

theorem IsNearest.unique (ha : v.IsNearest p a) (hb : v.IsNearest p b) : a = b := by
  rcases AbsolutePathBuf.le_or_above_of_le ha.1 hb.1 with hle | habove
  · rcases AbsolutePathBuf.le_or_above hle with heq | habove
    · exact heq
    · exact absurd (ha.2.2 b habove hb.1) hb.2.1
  · exact absurd (hb.2.2 a habove ha.1) ha.2.1

theorem isNearest_self (h : v p ≠ none) : v.IsNearest p p :=
  ⟨prefix_rfl, h, fun _ habove hle => absurd hle habove.not_le⟩

theorem admits_of_there (h : v p ≠ none) : v.admits p = true := by
  obtain ⟨node, hnode⟩ := Option.ne_none_iff_exists'.mp h
  exact admits_iff.mpr ⟨p, node, isNearest_self h, hnode, .inl rfl⟩

theorem admits_of_nearest (h : v.IsNearest p a) (hnode : v a = some node) :
    v.admits p = true ↔ a = p ∨ node.dir = true ∧ node.writable = true := by
  rw [admits_iff]
  constructor
  · rintro ⟨b, node', hb, hnode', hwhy⟩
    obtain rfl := hb.unique h
    rw [hnode] at hnode'
    cases hnode'
    exact hwhy
  · intro hwhy
    exact ⟨a, node, h, hnode, hwhy⟩

/-! ## Making the target -/

theorem reach_of_there (h : v p ≠ none) : v.reach t p = v p := by
  unfold reach
  rw [Option.isNone_eq_false_iff.mpr (Option.isSome_iff_ne_none.mpr h), Bool.and_false]
  rfl

theorem reach_above (hle : p.comps <+: t.comps) (h : v p = none) :
    v.reach t p = some scratchDir := by
  unfold reach
  rw [AbsolutePathBuf.startsWith_iff.mpr hle, h]
  rfl

theorem reach_beside (hle : ¬ p.comps <+: t.comps) : v.reach t p = v p := by
  unfold reach
  rw [Bool.eq_false_iff.mpr (mt AbsolutePathBuf.startsWith_iff.mp hle)]
  rfl

theorem reach_cases (v : View) (t p : AbsolutePathBuf) :
    v.reach t p = v p ∨ p.comps <+: t.comps ∧ v p = none ∧ v.reach t p = some scratchDir := by
  by_cases hle : p.comps <+: t.comps
  · by_cases h : v p = none
    · exact .inr ⟨hle, h, reach_above hle h⟩
    · exact .inl (reach_of_there h)
  · exact .inl (reach_beside hle)

theorem reach_closed (hc : v.Closed) : (v.reach t).Closed := by
  intro p q hle hq
  by_cases hp : v p = none
  · rcases reach_cases v t q with heq | ⟨hqt, -, -⟩
    · rw [heq] at hq
      exact absurd hp (hc p q hle hq)
    · rw [reach_above (hle.trans hqt) hp]
      exact Option.some_ne_none _
  · rw [reach_of_there hp]
    exact hp

theorem admits_reach {w : View} (hc : v.Closed) (ht : v.admits t = true)
    (hw : ∀ q : AbsolutePathBuf, q.comps <+: p.comps → w q = v.reach t q) :
    w.admits p = true ↔ v.admits p = true := by
  obtain ⟨a, node, ha, hnode, hwhy⟩ := admits_iff.mp ht
  constructor
  · intro h
    obtain ⟨b, node', hb, hnode', hwhy'⟩ := admits_iff.mp h
    rw [hw b hb.1] at hnode'
    rcases reach_cases v t b with heq | ⟨hbt, hnone, -⟩
    · rw [heq] at hnode'
      refine admits_iff.mpr ⟨b, node', ⟨hb.1, by simp [hnode'], fun c hbc hcp => ?_⟩, hnode', hwhy'⟩
      have hnc := hb.2.2 c hbc hcp
      rw [hw c hcp] at hnc
      rcases reach_cases v t c with heq' | ⟨-, -, hmade⟩
      · rwa [heq'] at hnc
      · rw [hmade] at hnc
        cases hnc
    · -- the nearest path was made just now, below what is nearest to the target
      have hab : a.Above b := by
        rcases AbsolutePathBuf.le_or_above_of_le hbt ha.1 with hle | habove
        · exact absurd hnone (hc b a hle ha.2.1)
        · exact habove
      have hne : a ≠ t := by
        rintro rfl
        exact hab.not_le hbt
      refine admits_iff.mpr ⟨a, node, ⟨hab.1.trans hb.1, ha.2.1, fun c hac hcp => ?_⟩, hnode,
        .inr (hwhy.resolve_left hne)⟩
      rcases AbsolutePathBuf.le_or_above_of_le hcp hb.1 with hle | habove
      · exact ha.2.2 c hac (hle.trans hbt)
      · have hnc := hb.2.2 c habove hcp
        rw [hw c hcp] at hnc
        rcases reach_cases v t c with heq' | ⟨-, hnone', -⟩
        · rwa [heq'] at hnc
        · exact hnone'
  · intro h
    obtain ⟨b, node', hb, hnode', hwhy'⟩ := admits_iff.mp h
    have hthere : w b ≠ none := by
      rw [hw b hb.1, reach_of_there hb.2.1]
      exact hb.2.1
    obtain ⟨c, node'', hc', hnode'', hbc⟩ := exists_nearest hb.1 hthere
    refine admits_iff.mpr ⟨c, node'', hc', hnode'', ?_⟩
    rw [hw c hc'.1] at hnode''
    rcases reach_cases v t c with heq | ⟨-, -, hmade⟩
    · rw [heq] at hnode''
      have hcb : b = c := by
        rcases AbsolutePathBuf.le_or_above hbc with hbc | hbc
        · exact hbc
        · rw [hb.2.2 c hbc hc'.1] at hnode''
          cases hnode''
      subst hcb
      rw [hnode'] at hnode''
      cases hnode''
      exact hwhy'
    · rw [hmade] at hnode''
      cases hnode''
      exact .inr ⟨rfl, rfl⟩

@[simp] theorem reach_shows (v : View) (t p : AbsolutePathBuf) :
    (v.reach t).shows p = v.shows p := by
  unfold shows
  rcases reach_cases v t p with heq | ⟨-, hnone, hmade⟩
  · rw [heq]
  · rw [hnone, hmade]
    rfl

/-! ## Mounting -/

theorem overlay_inside (h : t.comps <+: p.comps) : v.overlay t f p = f p := by
  unfold overlay
  rw [if_pos (AbsolutePathBuf.startsWith_iff.mpr h)]

theorem overlay_outside (h : ¬ t.comps <+: p.comps) : v.overlay t f p = v.reach t p := by
  unfold overlay
  rw [if_neg (mt AbsolutePathBuf.startsWith_iff.mp h)]

theorem mount_ok_iff {w : View} : v.mount t f = .ok w ↔ v.admits t = true ∧ v.overlay t f = w := by
  unfold mount
  split
  · rename_i ht
    simp [ht]
  · rename_i ht
    simp [ht]

theorem mount_of_admits (h : v.admits t = true) : v.mount t f = .ok (v.overlay t f) := if_pos h

theorem mount_of_not_admits (h : ¬ v.admits t = true) : v.mount t f = .error t := if_neg h

/-- What is shown inside the target has everything down from the target above it. -/
def ClosedFrom (f : View) (t : AbsolutePathBuf) : Prop :=
  ∀ p q : AbsolutePathBuf, t.comps <+: p.comps → p.comps <+: q.comps → f q ≠ none → f p ≠ none

theorem overlay_closed (hc : v.Closed) (hf : f.ClosedFrom t) : (v.overlay t f).Closed := by
  intro p q hle hq
  by_cases hp : t.comps <+: p.comps
  · rw [overlay_inside (hp.trans hle)] at hq
    rw [overlay_inside hp]
    exact hf p q hp hle hq
  · rw [overlay_outside hp]
    by_cases htq : t.comps <+: q.comps
    · rcases AbsolutePathBuf.le_or_above_of_le hle htq with hpt | habove
      · rcases reach_cases v t p with heq | ⟨-, -, hmade⟩
        · intro hnone
          rw [heq] at hnone
          have hmade := reach_above hpt hnone
          rw [heq, hnone] at hmade
          cases hmade
        · rw [hmade]
          exact Option.some_ne_none _
      · exact absurd habove.1 hp
    · rw [overlay_outside htq] at hq
      exact reach_closed hc p q hle hq

theorem admits_overlay_outside (hc : v.Closed) (ht : v.admits t = true)
    (h : ¬ t.comps <+: p.comps) : (v.overlay t f).admits p = true ↔ v.admits p = true :=
  admits_reach hc ht fun _ hq => overlay_outside fun htq => h (htq.trans hq)

theorem admits_overlay_inside (ha : t.comps <+: a.comps) (h : f.IsNearest p a)
    (hnode : f a = some node) :
    (v.overlay t f).admits p = true ↔ a = p ∨ node.dir = true ∧ node.writable = true := by
  refine admits_of_nearest ⟨h.1, ?_, fun b hb hbp => ?_⟩ ?_
  · rw [overlay_inside ha]
    exact h.2.1
  · rw [overlay_inside (ha.trans hb.1)]
    exact h.2.2 b hb hbp
  · rw [overlay_inside ha]
    exact hnode

theorem overlay_shows_inside (h : t.comps <+: p.comps) : (v.overlay t f).shows p = f.shows p := by
  unfold shows
  rw [overlay_inside h]

theorem overlay_shows_outside (h : ¬ t.comps <+: p.comps) :
    (v.overlay t f).shows p = v.shows p := by
  rw [← reach_shows v t p]
  unfold shows
  rw [overlay_outside h]

end View

end LinuxSandbox

end Codex
