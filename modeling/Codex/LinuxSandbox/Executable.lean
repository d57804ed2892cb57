import Codex.LinuxSandbox.PlanExecution
import Codex.Sandbox.RootFacts

/-!
# When the arguments can be carried out

Part by part a plan goes through under a condition on the paths alone. Put together,
the arguments made for a policy can be carried out in order exactly if no writable root
or read-only path is hidden when its turn comes, no denied path lies below another one
off the ways to the writable roots, and every missing path has a place to be forbidden.
-/

namespace Codex.LinuxSandbox

open Foundation List

variable {host : Host} {fd : ℕ} {allowed unreadable us qs : List AbsolutePathBuf}
  {readOnly : WritableRoot → List AbsolutePathBuf} {B : AbsolutePathBuf → Prop}
  {p q c u : AbsolutePathBuf} {w : WritableRoot} {turns : List WritableRoot}

/-! ## Denied and read-only paths -/

theorem goes_singleton (m : Mount) : Goes host B [m] ↔ m.Admitted B := Iff.of_eq (and_true _)

theorem findFirst_of_exists (htree : host.IsTree) (h : host.pathExists q = true) :
    findFirstNonExistentComponent host q = none := by
  refine Option.eq_none_iff_forall_not_mem.mpr fun c hc => ?_
  obtain ⟨hle, hmissing, -⟩ := findFirst_eq_some htree hc
  rw [htree.exists_of_le hle h] at hmissing
  cases hmissing

theorem goes_missing : Goes host B (missingMounts host allowed q) ↔
      ∀ c, findFirstNonExistentComponent host q = some c → Within allowed c → B c := by
  unfold missingMounts
  cases findFirstNonExistentComponent host q with
  | none => simp [Goes]
  | some c =>
    dsimp only
    by_cases hc : Within allowed c
    · rw [if_pos (isWithin_iff.mpr hc), goes_singleton]
      simp [hc, Mount.Admitted, Mount.target]
    · rw [if_neg (mt isWithin_iff.mp hc)]
      simp [hc, Goes]

section
variable (htree : host.IsTree)
include htree

theorem goes_denied :
    Goes host B (deniedMounts host fd allowed u) ↔ (host.pathExists u = true → B u) ∧
      ∀ c, findFirstNonExistentComponent host u = some c → Within allowed c → B c := by
  unfold deniedMounts
  cases hu : host.pathExists u with
  | false => simp [goes_missing]
  | true =>
    simp only [findFirst_of_exists htree hu, Bool.not_true, Bool.false_eq_true, if_false, reduceCtorEq,
      false_imp_iff, implies_true, and_true, forall_const]
    split
    · exact goes_singleton _
    · exact goes_singleton _

theorem goes_readOnly : Goes host B (readOnlyMounts host allowed q) ↔
      (host.pathExists q = true → Within allowed q → B q) ∧
        ∀ c, findFirstNonExistentComponent host q = some c → Within allowed c → B c := by
  unfold readOnlyMounts
  cases hq : host.pathExists q with
  | false => simp [goes_missing]
  | true =>
    simp only [findFirst_of_exists htree hq, Bool.not_true, Bool.false_eq_true, if_false, reduceCtorEq,
      false_imp_iff, implies_true, and_true, forall_const]
    by_cases hwithin : Within allowed q
    · rw [if_pos (isWithin_iff.mpr hwithin), goes_singleton]
      simp [hwithin, Mount.Admitted, Mount.target]
    · rw [if_neg (mt isWithin_iff.mp hwithin)]
      simp [hwithin, Goes]

/-- Denied paths in order of depth: each that is there must be on a way if another is above
it, and a missing one needs its place. -/
theorem goes_deniedList (hallowed : ∀ root ∈ allowed, host.pathExists root = true) :
    Goes host B ((sortByDepth id us).flatMap (deniedMounts host fd allowed)) ↔
      ∀ u ∈ us, (host.pathExists u = true →
          (∃ u' ∈ us, u'.Above u) ∧ OnTheWay host allowed u ∨ (¬ ∃ u' ∈ us, u'.Above u) ∧ B u) ∧
        ∀ c, findFirstNonExistentComponent host u = some c → Within allowed c →
          (¬ ∃ u' ∈ us, u'.Above c) ∧ B c := by
  have hmasks : ∀ {pre post : List AbsolutePathBuf} {u x : AbsolutePathBuf},
      sortByDepth id us = pre ++ u :: post → x.comps <+: u.comps →
      ((∃ u' ∈ pre, u'.Above x) ↔ ∃ u' ∈ us, u'.Above x) := by
    intro pre post u x hsplit hle
    constructor
    · rintro ⟨u', hu', habove⟩
      have hmem : u' ∈ sortByDepth id us := hsplit ▸ mem_append_left _ hu'
      exact ⟨u', mem_sortByDepth.mp hmem, habove⟩
    · rintro ⟨u', hu', habove⟩
      exact ⟨u', mem_before hsplit hu' (habove.trans_le hle), habove⟩
  have hpart : ∀ {pre post : List AbsolutePathBuf} {u : AbsolutePathBuf},
      sortByDepth id us = pre ++ u :: post →
      (Goes host (after host B (pre.flatMap (deniedMounts host fd allowed)))
          (deniedMounts host fd allowed u) ↔
        (host.pathExists u = true →
            (∃ u' ∈ us, u'.Above u) ∧ OnTheWay host allowed u ∨ (¬ ∃ u' ∈ us, u'.Above u) ∧ B u) ∧
          ∀ c, findFirstNonExistentComponent host u = some c → Within allowed c →
            (¬ ∃ u' ∈ us, u'.Above c) ∧ B c) := by
    intro pre post u hsplit
    rw [goes_denied htree]
    refine and_congr (forall_congr' fun hu => ?_) (forall₂_congr fun c hc => forall_congr' fun _ => ?_)
    · have hplaced := placed_of_exists htree hu
      rw [after_flatMap (fun a B => after_denied htree hallowed hplaced B a),
        hmasks hsplit prefix_rfl]
    · obtain ⟨hle, hmissing, hplaced⟩ := findFirst_eq_some htree hc
      have hway : ¬ OnTheWay host allowed c := fun h => by
        rw [h.pathExists htree hallowed] at hmissing
        cases hmissing
      rw [after_flatMap (fun a B => after_denied htree hallowed hplaced B a), hmasks hsplit hle]
      simp [hway]
  rw [goes_flatMap]
  constructor
  · intro h u hu
    obtain ⟨pre, post, hsplit⟩ := append_of_mem (mem_sortByDepth.mpr hu)
    exact (hpart hsplit).mp (h pre u post hsplit)
  · intro h pre u post hsplit
    have hmem : u ∈ sortByDepth id us := hsplit ▸ mem_append_right _ mem_cons_self
    exact (hpart hsplit).mpr (h u (mem_sortByDepth.mp hmem))

/-- Read-only paths in order of depth: each is shown by one above it or was there before,
and a missing one is not inside another. -/
theorem goes_readOnlyList :
    Goes host B ((sortByDepth id qs).flatMap (readOnlyMounts host allowed)) ↔
      ∀ q ∈ qs, (host.pathExists q = true → Within allowed q →
          (∃ q' ∈ qs, (host.pathExists q' = true ∧ Within allowed q') ∧ q'.Above q) ∨ B q) ∧
        ∀ c, findFirstNonExistentComponent host q = some c → Within allowed c →
          (¬ ∃ q' ∈ qs, (host.pathExists q' = true ∧ Within allowed q') ∧ q'.comps <+: c.comps) ∧
            B c := by
  have hmissingPart : ∀ {pre post : List AbsolutePathBuf} {q c : AbsolutePathBuf},
      sortByDepth id qs = pre ++ q :: post → findFirstNonExistentComponent host q = some c →
      (after host B (pre.flatMap (readOnlyMounts host allowed)) c ↔
        (¬ ∃ q' ∈ qs, (host.pathExists q' = true ∧ Within allowed q') ∧ q'.comps <+: c.comps) ∧
          B c) := by
    intro pre post q c hsplit hc
    obtain ⟨hle, hmissing, -⟩ := findFirst_eq_some htree hc
    rw [after_flatMap (fun a B => after_readOnly B a), hmissing]
    simp only [Bool.false_eq_true, and_false, false_or, and_assoc]
    refine and_congr_left fun _ => not_congr ?_
    constructor
    · rintro ⟨q', hq', hkept⟩
      have hmem : q' ∈ sortByDepth id qs := hsplit ▸ mem_append_left _ hq'
      exact ⟨q', mem_sortByDepth.mp hmem, hkept⟩
    · rintro ⟨q', hq', hthere, hkept⟩
      refine ⟨q', mem_before hsplit hq' ?_, hthere, hkept⟩
      refine AbsolutePathBuf.Above.trans_le ⟨hkept.2, ?_⟩ hle
      rintro rfl
      exact absurd hthere (Bool.eq_false_iff.mp hmissing)
  rw [goes_flatMap]
  constructor
  · intro h q hq
    obtain ⟨pre, post, hsplit, hfirst⟩ := eq_append_cons_of_mem (mem_sortByDepth.mpr hq)
    obtain ⟨hthere, hmiss⟩ := (goes_readOnly htree).mp (h pre q post hsplit)
    refine ⟨fun hq' hwithin => ?_, fun c hc hwithin => ?_⟩
    · have hadm := hthere hq' hwithin
      rw [after_flatMap (fun a B => after_readOnly B a)] at hadm
      rcases hadm with ⟨⟨q', hmem, hex, hin, hle⟩, -⟩ | ⟨-, hB⟩
      · have hmem' : q' ∈ sortByDepth id qs := hsplit ▸ mem_append_left _ hmem
        exact .inl ⟨q', mem_sortByDepth.mp hmem', ⟨hex, hin⟩, hle, fun heq => hfirst (heq ▸ hmem)⟩
      · exact .inr hB
    · exact (hmissingPart hsplit hc).mp (hmiss c hc hwithin)
  · intro h pre q post hsplit
    have hmem : q ∈ sortByDepth id qs := hsplit ▸ mem_append_right _ mem_cons_self
    have hq : q ∈ qs := mem_sortByDepth.mp hmem
    refine (goes_readOnly htree).mpr ⟨fun hthere hwithin => ?_, fun c hc hwithin => ?_⟩
    · rw [after_flatMap (fun a B => after_readOnly B a)]
      by_cases hany : ∃ a ∈ pre, host.pathExists a = true ∧ Within allowed a ∧ a.comps <+: q.comps
      · exact .inl ⟨hany, hthere⟩
      · refine .inr ⟨hany, ((h q hq).1 hthere hwithin).resolve_left ?_⟩
        rintro ⟨q', hq', hkept, habove⟩
        exact hany ⟨q', mem_before hsplit hq' habove, hkept.1, hkept.2, habove.1⟩
    · exact (hmissingPart hsplit hc).mpr ((h q hq).2 c hc hwithin)

end

/-! ## One writable root -/

theorem le_findFirst (htree : host.IsTree) {r : AbsolutePathBuf} (hr : host.pathExists r = true)
    (hrq : r.comps <+: q.comps) (hc : findFirstNonExistentComponent host q = some c) :
    r.comps <+: c.comps := by
  obtain ⟨hle, hmissing, -⟩ := findFirst_eq_some htree hc
  refine (AbsolutePathBuf.le_or_above_of_le hrq hle).resolve_right fun habove => ?_
  rw [htree.exists_of_le habove.1 hr] at hmissing
  cases hmissing

theorem nestedDenied_iff : (∃ u ∈ unreadable.filter fun path => path.startsWith w.root, u.Above p) ↔
    Masks unreadable w p := by
  unfold Masks
  simp only [mem_filter, AbsolutePathBuf.startsWith_iff, and_assoc]

theorem kept_iff : (∃ q ∈ readOnly w, host.pathExists q = true ∧ Within allowed q ∧
      q.comps <+: p.comps) ↔ ∃ q, Kept host allowed readOnly w q ∧ q.comps <+: p.comps := by
  unfold Kept
  simp only [and_assoc]

theorem after_root (htree : host.IsTree) (hallowed : ∀ root ∈ allowed, host.pathExists root = true)
    (hp : Placed host p) (B : AbsolutePathBuf → Prop) :
    after host B (rootMounts host fd allowed unreadable readOnly w) p ↔
      Masks unreadable w p ∧ OnTheWay host allowed p ∨
        ¬ Masks unreadable w p ∧
          ((∃ q, Kept host allowed readOnly w q ∧ q.comps <+: p.comps) ∧ host.pathExists p = true ∨
            (¬ ∃ q, Kept host allowed readOnly w q ∧ q.comps <+: p.comps) ∧
              (w.root.comps <+: p.comps ∧ (host.pathExists p = true ∨ Mount.canHold host p) ∨
                ¬ w.root.comps <+: p.comps ∧ B p)) := by
  unfold rootMounts
  rw [after_append, after_dirs, after_cons, after_append,
    after_flatMap (fun a B => after_denied htree hallowed hp B a),
    after_flatMap (fun a B => after_readOnly B a), over_root]
  simp only [mem_sortByDepth, nestedDenied_iff, kept_iff]

theorem after_root_hidden (htree : host.IsTree)
    (hallowed : ∀ root ∈ allowed, host.pathExists root = true) (hp : host.pathExists p = true)
    (hB : B p ↔ ¬ Hidden host allowed unreadable readOnly turns p) :
    after host B (rootMounts host fd allowed unreadable readOnly w) p ↔
      ¬ Hidden host allowed unreadable readOnly (turns ++ [w]) p := by
  rw [after_root htree hallowed (placed_of_exists htree hp), hidden_snoc, hp, hB]
  have hway : OnTheWay host allowed p → ¬ Hidden host allowed unreadable readOnly turns p :=
    fun h hidden => hidden.1 h
  unfold Reopens
  generalize hK : (∃ q, Kept host allowed readOnly w q ∧ q.comps <+: p.comps) = K
  tauto

theorem goes_dirs {dirs : List AbsolutePathBuf} :
    Goes host B (dirs.map .dir) ↔ ∀ d ∈ dirs, B d := by
  induction dirs with
  | nil => simp [Goes]
  | cons d dirs ih =>
    have hsame : ((Mount.dir d).leaves host).over B = B := Layer.clear_over _
    have hstep : Goes host B (.dir d :: dirs.map .dir) ↔
        B d ∧ Goes host (((Mount.dir d).leaves host).over B) (dirs.map .dir) := Iff.rfl
    rw [map_cons, forall_mem_cons, ← ih, hstep, hsame]

theorem onTheWay_of_mem_rootDirs {d : AbsolutePathBuf} (hw : w.root ∈ allowed)
    (h : d ∈ rootDirs host unreadable w.root) : OnTheWay host allowed d := by
  unfold rootDirs at h
  split at h
  · obtain ⟨hle, hdir⟩ := (mem_mountTargetDirs_iff.mp h).1
    exact ⟨w.root, hw, hle, hdir⟩
  · exact absurd h not_mem_nil

theorem after_bound (hle : w.root.comps <+: p.comps) :
    after host (((Mount.expose true w.root).leaves host).over B)
        ((sortByDepth id (readOnly w)).flatMap (readOnlyMounts host allowed)) p ↔
      host.pathExists p = true ∨
        (¬ ∃ q, Kept host allowed readOnly w q ∧ q.comps <+: p.comps) ∧ Mount.canHold host p := by
  rw [after_flatMap (fun a B => after_readOnly B a), over_root]
  simp only [mem_sortByDepth, kept_iff, hle, true_and, not_true, false_and, or_false]
  generalize (∃ q, Kept host allowed readOnly w q ∧ q.comps <+: p.comps) = K
  tauto

variable (host allowed unreadable readOnly) in
/-- Nothing the root mounts is hidden after the roots before it, no denied path inside it
is below another off the ways, and every missing path has its place. -/
structure TurnGoes (turns : List WritableRoot) (w : WritableRoot) : Prop where
  root : ¬ Hidden host allowed unreadable readOnly turns w.root
  kept : ∀ q, Kept host allowed readOnly w q → w.root.comps <+: q.comps ∨
    (∃ q', Kept host allowed readOnly w q' ∧ q'.Above q) ∨
    ¬ Hidden host allowed unreadable readOnly turns q
  missing : ∀ q, (q ∈ readOnly w ∨ q ∈ unreadable ∧ w.root.comps <+: q.comps) →
    ∀ c, findFirstNonExistentComponent host q = some c →
      Mount.canHold host c ∧ ∀ q', Kept host allowed readOnly w q' → ¬ q'.comps <+: c.comps
  denied : ∀ u ∈ unreadable, w.root.comps <+: u.comps →
    (host.pathExists u = true → Masks unreadable w u → OnTheWay host allowed u) ∧
    ∀ c, findFirstNonExistentComponent host u = some c → ¬ Masks unreadable w c

theorem goes_root (htree : host.IsTree)
    (hallowed : ∀ root ∈ allowed, host.pathExists root = true) (hw : w.root ∈ allowed)
    (hunder : ∀ q ∈ readOnly w, host.pathExists q = false → w.root.comps <+: q.comps)
    (hB : ∀ p, host.pathExists p = true →
      (B p ↔ ¬ Hidden host allowed unreadable readOnly turns p)) :
    Goes host B (rootMounts host fd allowed unreadable readOnly w) ↔
      TurnGoes host allowed unreadable readOnly turns w := by
  have hroot := hallowed _ hw
  have hdirs : Goes host B ((rootDirs host unreadable w.root).map .dir) := by
    refine goes_dirs.mpr fun d hd => ?_
    have hway := onTheWay_of_mem_rootDirs hw hd
    exact (hB d (hway.pathExists htree hallowed)).mpr fun hidden => hidden.1 hway
  have hplace : ∀ q c, w.root.comps <+: q.comps → findFirstNonExistentComponent host q = some c →
      w.root.comps <+: c.comps ∧ Within allowed c ∧ host.pathExists c = false := by
    intro q c hwq hc
    have hwc := le_findFirst htree hroot hwq hc
    exact ⟨hwc, ⟨w.root, hw, hwc⟩, (findFirst_eq_some htree hc).2.1⟩
  have hread : ∀ q ∈ readOnly w,
      ((host.pathExists q = true → Within allowed q →
          (∃ q' ∈ readOnly w, (host.pathExists q' = true ∧ Within allowed q') ∧ q'.Above q) ∨
            ((Mount.expose true w.root).leaves host).over B q) ∧
        (∀ c, findFirstNonExistentComponent host q = some c → Within allowed c →
          (¬ ∃ q' ∈ readOnly w, (host.pathExists q' = true ∧ Within allowed q') ∧
            q'.comps <+: c.comps) ∧ ((Mount.expose true w.root).leaves host).over B c)) ↔
      (Kept host allowed readOnly w q → w.root.comps <+: q.comps ∨
        (∃ q', Kept host allowed readOnly w q' ∧ q'.Above q) ∨
        ¬ Hidden host allowed unreadable readOnly turns q) ∧
      (∀ c, findFirstNonExistentComponent host q = some c →
        Mount.canHold host c ∧ ∀ q', Kept host allowed readOnly w q' → ¬ q'.comps <+: c.comps) := by
    intro q hq
    refine and_congr ?_ (forall₂_congr fun c hc => ?_)
    · unfold Kept
      simp only [hq, true_and, and_imp, and_assoc]
      refine forall₂_congr fun hthere _ => ?_
      rw [over_root, hB q hthere]
      generalize (∃ q' : AbsolutePathBuf, q' ∈ readOnly w ∧ host.pathExists q' = true ∧
        Within allowed q' ∧ q'.Above q) = K
      tauto
    · have hmissing := (findFirst_eq_some htree hc).2.1
      have hq' : host.pathExists q = false := by
        by_contra hno
        rw [findFirst_of_exists htree (by simpa using hno)] at hc
        cases hc
      obtain ⟨hwc, hwithin, -⟩ := hplace q c (hunder q hq hq') hc
      rw [over_root]
      unfold Kept
      simp only [hwithin, hwc, hmissing, not_true, false_and, or_false, false_or, forall_const,
        Bool.false_eq_true, not_exists, not_and, and_imp, true_and]
      exact and_comm
  have hdeny : ∀ u ∈ unreadable, w.root.comps <+: u.comps →
      (((host.pathExists u = true →
          Masks unreadable w u ∧ OnTheWay host allowed u ∨ ¬ Masks unreadable w u ∧
            after host (((Mount.expose true w.root).leaves host).over B)
              ((sortByDepth id (readOnly w)).flatMap (readOnlyMounts host allowed)) u) ∧
        ∀ c, findFirstNonExistentComponent host u = some c → Within allowed c →
          ¬ Masks unreadable w c ∧
            after host (((Mount.expose true w.root).leaves host).over B)
              ((sortByDepth id (readOnly w)).flatMap (readOnlyMounts host allowed)) c) ↔
      ((host.pathExists u = true → Masks unreadable w u → OnTheWay host allowed u) ∧
        ∀ c, findFirstNonExistentComponent host u = some c → ¬ Masks unreadable w c) ∧
      ∀ c, findFirstNonExistentComponent host u = some c →
        Mount.canHold host c ∧ ∀ q', Kept host allowed readOnly w q' → ¬ q'.comps <+: c.comps) := by
    intro u _ hwu
    rw [and_assoc]
    refine and_congr (forall_congr' fun hthere => ?_) ?_
    · rw [after_bound hwu, hthere]
      tauto
    · rw [← forall₂_and]
      refine forall₂_congr fun c hc => ?_
      obtain ⟨hwc, hwithin, hmissing⟩ := hplace u c hwu hc
      rw [after_bound hwc, hmissing]
      simp only [hwithin, forall_const, Bool.false_eq_true, false_or, not_exists, not_and]
      tauto
  unfold rootMounts
  rw [goes_append, after_dirs]
  simp only [Goes, Mount.Admitted, Mount.target]
  rw [goes_append, goes_readOnlyList htree, goes_deniedList htree hallowed,
    forall₂_congr hread, hB w.root hroot]
  simp only [nestedDenied_iff, hdirs, true_and]
  simp only [mem_filter, AbsolutePathBuf.startsWith_iff, and_imp (b := _ <+: _)]
  rw [forall_congr' fun u => forall₂_congr (hdeny u)]
  constructor
  · rintro ⟨hshown, hro, hden⟩
    refine ⟨hshown, fun q hq => (hro q hq.1).1 hq, ?_, fun u hu hwu => (hden u hu hwu).1⟩
    rintro q (hq | ⟨hq, hwq⟩)
    · exact (hro q hq).2
    · exact (hden q hq hwq).2
  · intro h
    refine ⟨h.root, fun q hq => ⟨h.kept q, h.missing q (.inl hq)⟩, fun u hu hwu =>
      ⟨h.denied u hu hwu, h.missing u (.inr ⟨hu, hwu⟩)⟩⟩

/-! ## The mounts are of the host -/

section
variable (htree : host.IsTree)
include htree

theorem valid_missing : ∀ m ∈ missingMounts host allowed q, m.Valid host := by
  unfold missingMounts
  cases hc : findFirstNonExistentComponent host q with
  | none => simp
  | some c =>
    obtain ⟨-, hmissing, hplaced⟩ := findFirst_eq_some htree hc
    dsimp only
    split
    · intro m hm
      obtain rfl := mem_singleton.mp hm
      exact ⟨hplaced, hmissing⟩
    · simp

theorem valid_readOnly : ∀ m ∈ readOnlyMounts host allowed q, m.Valid host := by
  unfold readOnlyMounts
  cases hq : host.pathExists q with
  | false => exact valid_missing htree
  | true =>
    rw [Bool.not_true, if_neg Bool.false_ne_true]
    split
    · intro m hm
      obtain rfl := mem_singleton.mp hm
      exact hq
    · simp

theorem valid_denied : ∀ m ∈ deniedMounts host fd allowed u, m.Valid host := by
  unfold deniedMounts
  cases hu : host.pathExists u with
  | false => exact valid_missing htree
  | true =>
    rw [Bool.not_true, if_neg Bool.false_ne_true]
    split
    · intro m hm
      obtain rfl := mem_singleton.mp hm
      exact ⟨hu, fun d hd => (mem_waysFrom.mp hd).1⟩
    · intro m hm
      obtain rfl := mem_singleton.mp hm
      exact hu

theorem valid_root
    (hallowed : ∀ root ∈ allowed, host.pathExists root = true) (hw : w.root ∈ allowed) :
    ∀ m ∈ rootMounts host fd allowed unreadable readOnly w, m.Valid host := by
  intro m hm
  unfold rootMounts at hm
  simp only [mem_append, mem_cons, mem_map, mem_flatMap] at hm
  rcases hm with ⟨d, hd, rfl⟩ | rfl | ⟨q, -, hm⟩ | ⟨u, -, hm⟩
  · exact (onTheWay_of_mem_rootDirs hw hd).pathExists htree hallowed
  · exact hallowed _ hw
  · exact valid_readOnly htree m hm
  · exact valid_denied htree m hm

end

/-- The view starts from parts of the host, an empty root and the devices. -/
def Opens (host : Host) (m : Mount) : Prop :=
  (∃ writable x, m = .expose writable x ∧ host.pathExists x = true) ∨ m = .empty .root ∨
    m = .dev devPath

theorem opens_bootstrap (htree : host.IsTree) (policy : FileSystemSandboxPolicy) (cwd : Text) :
    ∀ m ∈ bootstrapMounts host policy cwd, Opens host m := by
  have hdisk : ∀ m ∈ wholeDiskMounts, Opens host m := by
    intro m hm
    rcases mem_cons.mp hm with rfl | hm
    · exact .inl ⟨_, _, rfl, htree.exists_of_isDir _ htree.root⟩
    · exact .inr (.inr (mem_singleton.mp hm))
  unfold bootstrapMounts
  split
  · exact hdisk
  · split
    · exact hdisk
    · intro m hm
      simp only [mem_append, mem_cons, not_mem_nil, or_false, mem_map, mem_filter] at hm
      rcases hm with (rfl | rfl) | ⟨x, ⟨-, hx⟩, rfl⟩
      · exact .inr (.inl rfl)
      · exact .inr (.inr rfl)
      · exact .inl ⟨_, _, rfl, hx⟩

theorem Opens.valid {m : Mount} (h : Opens host m) : m.Valid host := by
  rcases h with ⟨writable, x, rfl, hx⟩ | rfl | rfl
  · exact hx
  · rfl
  · rfl

theorem goes_opens {ms : List Mount} (hms : ∀ m ∈ ms, Opens host m)
    (hroot : host.pathExists .root = true) (hB : ∀ p, host.pathExists p = true → B p) :
    Goes host B ms ∧ ∀ p, host.pathExists p = true → after host B ms p := by
  induction ms generalizing B with
  | nil => exact ⟨trivial, hB⟩
  | cons m ms ih =>
    have hm := hms m mem_cons_self
    have hover : ∀ p, host.pathExists p = true → (m.leaves host).over B p := by
      intro p hp
      by_cases hcov : (m.leaves host).covers p
      · rw [Layer.over_of_covers hcov]
        rcases hm with ⟨writable, x, rfl, -⟩ | rfl | rfl
        · exact .inl hp
        · trivial
        · trivial
      · rw [Layer.over_of_not_covers hcov]
        exact hB p hp
    obtain ⟨hgoes, hafter⟩ := ih (fun k hk => hms k (mem_cons_of_mem _ hk)) hover
    refine ⟨⟨?_, hgoes⟩, hafter⟩
    rcases hm with ⟨writable, x, rfl, hx⟩ | rfl | rfl
    · exact hB x hx
    · exact hB .root hroot
    · trivial

/-! ## The plan -/

theorem mem_deniedAncestors : u ∈ deniedAncestors allowed unreadable ↔
    u ∈ unreadable ∧ ¬ Within allowed u ∧ ∃ root ∈ allowed, u.comps <+: root.comps := by
  unfold deniedAncestors Within
  simp only [mem_filter, Bool.and_eq_true, Bool.not_eq_true', any_eq_false,
    any_eq_true, AbsolutePathBuf.startsWith_iff, not_exists, not_and]

theorem mem_deniedElsewhere : u ∈ deniedElsewhere allowed unreadable ↔
    u ∈ unreadable ∧ ¬ Within allowed u ∧ ¬ ∃ root ∈ allowed, u.comps <+: root.comps := by
  unfold deniedElsewhere Within
  simp only [mem_filter, Bool.not_eq_true', any_eq_false, Bool.or_eq_true,
    AbsolutePathBuf.startsWith_iff, not_exists, not_and, not_or]
  exact and_congr_right fun _ => forall₂_and

theorem onTheWay_of_above {r : AbsolutePathBuf} (hr : r ∈ allowed) (hle : u.comps <+: r.comps)
    (hout : ¬ Within allowed u) : OnTheWay host allowed u := by
  refine ⟨r, hr, hle, .inr ?_⟩
  rintro rfl
  exact hout ⟨_, hr, prefix_rfl⟩

variable (host allowed unreadable readOnly) in
/-- Nothing the sandbox mounts is in the way of what it mounts later. -/
structure Executable (turns : List WritableRoot) : Prop where
  roots : ∀ pre w post, turns = pre ++ w :: post →
    ¬ Hidden host allowed unreadable readOnly pre w.root
  kept : ∀ pre w post, turns = pre ++ w :: post → ∀ q, Kept host allowed readOnly w q →
    w.root.comps <+: q.comps ∨ (∃ q', Kept host allowed readOnly w q' ∧ q'.Above q) ∨
      ¬ Hidden host allowed unreadable readOnly pre q
  missing : ∀ w ∈ turns, ∀ q, (q ∈ readOnly w ∨ q ∈ unreadable ∧ w.root.comps <+: q.comps) →
    ∀ c, findFirstNonExistentComponent host q = some c →
      Mount.canHold host c ∧ ∀ q', Kept host allowed readOnly w q' → ¬ q'.comps <+: c.comps
  missingDenied : ∀ w ∈ turns, ∀ u ∈ unreadable, w.root.comps <+: u.comps →
    ∀ c, findFirstNonExistentComponent host u = some c → ¬ Masks unreadable w c
  nested : ∀ u' ∈ unreadable, ∀ u ∈ unreadable, host.pathExists u = true → u'.Above u →
    OnTheWay host allowed u ∨ Within allowed u ∧ ¬ Within allowed u'

variable (htree : host.IsTree) (hallowed : ∀ root ∈ allowed, host.pathExists root = true)
include htree hallowed

theorem after_ancestors (hB : ∀ p, host.pathExists p = true → B p) (hp : host.pathExists p = true) :
    after host B ((sortByDepth id (deniedAncestors allowed unreadable)).flatMap
        (deniedMounts host fd allowed)) p ↔ ¬ Hidden host allowed unreadable readOnly [] p := by
  have hfirst : (∃ u ∈ sortByDepth id (deniedAncestors allowed unreadable), u.Above p) ↔
      MaskedFirst allowed unreadable p := by
    unfold MaskedFirst
    simp only [mem_sortByDepth, mem_deniedAncestors, and_assoc]
  rw [after_flatMap (fun a B => after_denied htree hallowed (placed_of_exists htree hp) B a),
    hidden_nil, hfirst]
  tauto

theorem goes_ancestors (hB : ∀ p, host.pathExists p = true → B p) :
    Goes host B ((sortByDepth id (deniedAncestors allowed unreadable)).flatMap
      (deniedMounts host fd allowed)) := by
  refine (goes_deniedList htree hallowed).mpr fun u hu => ?_
  obtain ⟨-, hout, r, hr, hle⟩ := mem_deniedAncestors.mp hu
  have hthere := htree.exists_of_le hle (hallowed r hr)
  refine ⟨fun _ => ?_, fun c hc => ?_⟩
  · by_cases hany : ∃ u' ∈ deniedAncestors allowed unreadable, u'.Above u
    · exact .inl ⟨hany, onTheWay_of_above hr hle hout⟩
    · exact .inr ⟨hany, hB u hthere⟩
  · rw [findFirst_of_exists htree hthere] at hc
    cases hc

theorem after_roots (hB : ∀ p, host.pathExists p = true →
      (B p ↔ ¬ Hidden host allowed unreadable readOnly [] p)) (hp : host.pathExists p = true) :
    after host B (turns.flatMap (rootMounts host fd allowed unreadable readOnly)) p ↔
      ¬ Hidden host allowed unreadable readOnly turns p := by
  induction turns using List.reverseRecOn with
  | nil => exact hB p hp
  | append_singleton turns w ih =>
    rw [flatMap_append, flatMap_singleton, after_append]
    exact after_root_hidden htree hallowed hp ih

theorem goes_elsewhere (hturns : ∀ w ∈ turns, w.root ∈ allowed)
    (hB : ∀ p, host.pathExists p = true →
      (B p ↔ ¬ Hidden host allowed unreadable readOnly turns p)) :
    Goes host B ((sortByDepth id (deniedElsewhere allowed unreadable)).flatMap
        (deniedMounts host fd allowed)) ↔
      ∀ u ∈ deniedElsewhere allowed unreadable, host.pathExists u = true →
        ¬ ∃ u' ∈ unreadable, u'.Above u := by
  rw [goes_deniedList htree hallowed]
  refine forall₂_congr fun u hu => ?_
  obtain ⟨-, hout, hno⟩ := mem_deniedElsewhere.mp hu
  have hway : ¬ OnTheWay host allowed u := fun ⟨r, hr, hle, _⟩ => hno ⟨r, hr, hle⟩
  have hplace : ∀ c, findFirstNonExistentComponent host u = some c → ¬ Within allowed c :=
    fun c hc ⟨r, hr, hle⟩ => hout ⟨r, hr, hle.trans (findFirst_eq_some htree hc).1⟩
  have hreopens : ∀ w ∈ turns, ¬ Reopens host allowed readOnly w u := by
    rintro w hw (hle | ⟨q, hq, hle⟩)
    · exact hout ⟨w.root, hturns w hw, hle⟩
    · obtain ⟨r, hr, hrq⟩ := hq.2.2
      exact hout ⟨r, hr, hrq.trans hle⟩
  have hmasks : ∀ w ∈ turns, ¬ Masks unreadable w u := fun w hw ⟨u', _, hle, habove⟩ =>
    hout ⟨w.root, hturns w hw, hle.trans habove.1⟩
  have hhidden : Hidden host allowed unreadable readOnly turns u ↔ MaskedFirst allowed unreadable u := by
    constructor
    · rintro ⟨-, ⟨pre, w, post, rfl, hmask, -⟩ | ⟨hfirst, -⟩⟩
      · exact absurd hmask (hmasks w (by simp))
      · exact hfirst
    · exact fun hfirst => ⟨hway, .inr ⟨hfirst, hreopens⟩⟩
  have habove : (¬ ∃ u' ∈ unreadable, u'.Above u) ↔
      (¬ ∃ u' ∈ deniedElsewhere allowed unreadable, u'.Above u) ∧
        ¬ MaskedFirst allowed unreadable u := by
    rw [← not_or]
    refine not_congr ⟨?_, ?_⟩
    · rintro ⟨u', hu', hup⟩
      have hout' : ¬ Within allowed u' := fun ⟨r, hr, hle⟩ => hout ⟨r, hr, hle.trans hup.1⟩
      by_cases hr : ∃ root ∈ allowed, u'.comps <+: root.comps
      · exact .inr ⟨u', hu', hout', hr, hup⟩
      · exact .inl ⟨u', mem_deniedElsewhere.mpr ⟨hu', hout', hr⟩, hup⟩
    · rintro (⟨u', hu', hup⟩ | ⟨u', hu', -, -, hup⟩)
      · exact ⟨u', (mem_deniedElsewhere.mp hu').1, hup⟩
      · exact ⟨u', hu', hup⟩
  constructor
  · rintro ⟨hthere, -⟩ hu'
    rcases hthere hu' with ⟨-, hon⟩ | ⟨hnone, hBu⟩
    · exact absurd hon hway
    · exact habove.mpr ⟨hnone, mt hhidden.mpr ((hB u hu').mp hBu)⟩
  · intro h
    refine ⟨fun hu' => ?_, fun c hc hwithin => absurd hwithin (hplace c hc)⟩
    obtain ⟨hnone, hfirst⟩ := habove.mp (h hu')
    exact .inr ⟨hnone, (hB u hu').mpr (mt hhidden.mp hfirst)⟩

theorem goes_plan {roots : List WritableRoot} {policy : FileSystemSandboxPolicy} {cwd : Text}
    (hroots : ∀ r, r ∈ allowed ↔ ∃ w ∈ roots, w.root = r)
    (hunder : ∀ w ∈ roots, ∀ q ∈ readOnly w, host.pathExists q = false → w.root.comps <+: q.comps) :
    Goes host (fun _ => True) (planMounts host fd allowed unreadable policy cwd roots readOnly) ↔
      Executable host allowed unreadable readOnly (sortByDepth WritableRoot.root roots) := by
  have hmem : ∀ w ∈ sortByDepth WritableRoot.root roots, w.root ∈ allowed := fun w hw =>
    (hroots _).mpr ⟨w, mem_sortByDepth.mp hw, rfl⟩
  have hwithin : ∀ p, Within allowed p ↔
      ∃ w ∈ sortByDepth WritableRoot.root roots, w.root.comps <+: p.comps := by
    intro p
    unfold Within
    simp only [hroots, mem_sortByDepth]
    constructor
    · rintro ⟨r, ⟨w, hw, rfl⟩, hle⟩
      exact ⟨w, hw, hle⟩
    · rintro ⟨w, hw, hle⟩
      exact ⟨w.root, ⟨w, hw, rfl⟩, hle⟩
  obtain ⟨hboot, hopen⟩ := goes_opens (B := fun _ => True) (opens_bootstrap htree policy cwd)
    (htree.exists_of_isDir _ htree.root) fun _ _ => trivial
  generalize hB₀ : after host (fun _ => True) (bootstrapMounts host policy cwd) = B₀ at hopen
  generalize hB₁ : after host B₀ ((sortByDepth id (deniedAncestors allowed unreadable)).flatMap
    (deniedMounts host fd allowed)) = B₁
  have hfirst : ∀ p, host.pathExists p = true →
      (B₁ p ↔ ¬ Hidden host allowed unreadable readOnly [] p) := fun p hp =>
    hB₁ ▸ after_ancestors htree hallowed hopen hp
  have hturns : ∀ (turns : List WritableRoot) (p : AbsolutePathBuf), host.pathExists p = true →
      (after host B₁ (turns.flatMap (rootMounts host fd allowed unreadable readOnly)) p ↔
        ¬ Hidden host allowed unreadable readOnly turns p) := fun turns p hp =>
    after_roots htree hallowed hfirst hp
  have hturn : ∀ (pre : List WritableRoot) (w : WritableRoot) (post : List WritableRoot),
      sortByDepth WritableRoot.root roots = pre ++ w :: post →
      (Goes host (after host B₁ (pre.flatMap (rootMounts host fd allowed unreadable readOnly)))
        (rootMounts host fd allowed unreadable readOnly w) ↔
          TurnGoes host allowed unreadable readOnly pre w) := by
    intro pre w post hsplit
    have hw : w ∈ sortByDepth WritableRoot.root roots := by
      rw [hsplit]
      simp
    exact goes_root htree hallowed (hmem w hw) (hunder w (mem_sortByDepth.mp hw)) (hturns pre)
  unfold planMounts
  rw [goes_append, hB₀, goes_append, hB₁, goes_append, goes_elsewhere htree hallowed hmem (hturns _)]
  simp only [hboot, goes_ancestors htree hallowed hopen, true_and]
  rw [goes_flatMap]
  constructor
  · rintro ⟨hroot, helse⟩
    have hpart : ∀ pre w post, sortByDepth WritableRoot.root roots = pre ++ w :: post →
        TurnGoes host allowed unreadable readOnly pre w := fun pre w post hsplit =>
      (hturn pre w post hsplit).mp (hroot pre w post hsplit)
    have hsome : ∀ w ∈ sortByDepth WritableRoot.root roots, ∃ pre,
        TurnGoes host allowed unreadable readOnly pre w := by
      intro w hw
      obtain ⟨pre, post, hsplit⟩ := append_of_mem hw
      exact ⟨pre, hpart pre w post hsplit⟩
    refine ⟨fun pre w post h => (hpart pre w post h).root, fun pre w post h =>
      (hpart pre w post h).kept, fun w hw => ?_, fun w hw u hu hwu => ?_,
      fun u' hu' u hu hthere habove => ?_⟩
    · obtain ⟨pre, hgoes⟩ := hsome w hw
      exact hgoes.missing
    · obtain ⟨pre, hgoes⟩ := hsome w hw
      exact (hgoes.denied u hu hwu).2
    · by_cases hin : Within allowed u
      · by_cases hin' : Within allowed u'
        · obtain ⟨w, hw, hle⟩ := (hwithin u').mp hin'
          obtain ⟨pre, hgoes⟩ := hsome w hw
          exact .inl ((hgoes.denied u hu (hle.trans habove.1)).1 hthere ⟨u', hu', hle, habove⟩)
        · exact .inr ⟨hin, hin'⟩
      · by_cases hr : ∃ root ∈ allowed, u.comps <+: root.comps
        · obtain ⟨r, hr, hle⟩ := hr
          exact .inl (onTheWay_of_above hr hle hin)
        · exact absurd ⟨u', hu', habove⟩ (helse u (mem_deniedElsewhere.mpr ⟨hu, hin, hr⟩) hthere)
  · intro h
    refine ⟨fun pre w post hsplit => ?_, fun u hu hthere => ?_⟩
    · have hw : w ∈ sortByDepth WritableRoot.root roots := by
        rw [hsplit]
        simp
      refine (hturn pre w post hsplit).mpr ⟨h.roots pre w post hsplit, h.kept pre w post hsplit,
        h.missing w hw, fun u hu hwu => ⟨fun hthere hmask => ?_, h.missingDenied w hw u hu hwu⟩⟩
      obtain ⟨u', hu', hle, habove⟩ := hmask
      refine (h.nested u' hu' u hu hthere habove).resolve_right fun hout => hout.2 ?_
      exact ⟨w.root, hmem w hw, hle⟩
    · obtain ⟨hu, hout, hno⟩ := mem_deniedElsewhere.mp hu
      rintro ⟨u', hu', habove⟩
      rcases h.nested u' hu' u hu hthere habove with ⟨r, hr, hle, -⟩ | ⟨hin, -⟩
      · exact hno ⟨r, hr, hle⟩
      · exact hout hin

end Codex.LinuxSandbox
