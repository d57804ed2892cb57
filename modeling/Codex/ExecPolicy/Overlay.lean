import Codex.ExecPolicy.Policy

/-!
# A requirements overlay over a base policy

The overlay's rules are added to the base, so a command the overlay matches under
its exact program stays as strict. A match by base name can be masked: by exact
rules of the base, or by a table entry of the base that does not list the program.
`overlayKept_iff` says exactly when it is not.
-/

namespace Codex.Policy

open Foundation List

section
variable (paths : ProcessPaths) (base overlay : Policy) (cmd : List Text)
  (heuristics : List Text → Decision) (options : MatchOptions)

def strictestOf (matched : List RuleMatch) : Option Decision := (matched.map (·.decision)).max?

def OverlayKept : Prop :=
  ∀ d, strictestOf (overlay.matchesForCommandWithOptions paths cmd none options) = some d →
    ∃ e, (base.mergeOverlay overlay).checkWithOptions paths cmd heuristics options = some e ∧
      d ≤ e.decision

/-- A base table entry, not replaced by the overlay, keeps the program out. -/
def BaseExcludes : Prop :=
  ∃ program basename, hostProgram paths cmd = some (program, basename) ∧
    overlay.hostExecutables basename = none ∧ base.excludes program basename = true

/-- What stands in the way of a match of the overlay by base name is as strict: the
exact rules of the base, or the heuristics where a base table keeps the program out. -/
def MaskAsStrict : Prop :=
  options.resolveHostExecutables = true → overlay.matchExactRules cmd = [] →
    ∀ d, strictestOf (overlay.matchHostExecutableRules paths cmd) = some d →
      (∀ d', strictestOf (base.matchExactRules cmd) = some d' → d ≤ d') ∧
        (base.matchExactRules cmd = [] → BaseExcludes paths base overlay cmd → d ≤ heuristics cmd)

variable {paths base overlay cmd heuristics options}

/-! ## Matches of the merged policy -/

theorem strictestOf_mono {ms ms' : List RuleMatch} (h : ∀ m ∈ ms, m ∈ ms') {d : Decision}
    (hd : strictestOf ms = some d) : ∃ d', strictestOf ms' = some d' ∧ d ≤ d' := by
  refine max?_mono ?_ hd
  intro a ha
  obtain ⟨m, hm, rfl⟩ := mem_map.mp ha
  exact mem_map.mpr ⟨m, h m hm, rfl⟩

theorem strictestOf_congr {ms ms' : List RuleMatch} (h : ∀ m, m ∈ ms ↔ m ∈ ms') :
    strictestOf ms = strictestOf ms' := by
  refine max?_congr fun d => ?_
  simp only [mem_map, h]

theorem strictestOf_eq_none {ms : List RuleMatch} : strictestOf ms = none ↔ ms = [] := by
  unfold strictestOf
  rw [List.max?_eq_none_iff, map_eq_nil_iff]

theorem fromMatches_eq_some {ms : List RuleMatch} {e : Evaluation} :
    Evaluation.fromMatches ms = some e ↔ strictestOf ms = some e.decision ∧ e.matchedRules = ms := by
  unfold Evaluation.fromMatches strictestOf
  obtain ⟨d, ms'⟩ := e
  cases (ms.map (·.decision)).max? with
  | none => simp
  | some d' =>
    simp only [Option.map_some, Option.some.injEq, Evaluation.mk.injEq]
    exact ⟨fun h => ⟨h.1, h.2.symm⟩, fun h => ⟨h.1, h.2.symm⟩⟩

theorem matchExactRules_mergeOverlay (base overlay : Policy) (cmd : List Text) :
    (base.mergeOverlay overlay).matchExactRules cmd =
      base.matchExactRules cmd ++ overlay.matchExactRules cmd := by
  cases cmd with
  | nil => rfl
  | cons first args =>
    unfold matchExactRules
    simp only [getVec_mergeOverlay, filterMap_append]

theorem excludes_mergeOverlay (base overlay : Policy) (program : AbsolutePathBuf)
    (basename : Text) : (base.mergeOverlay overlay).excludes program basename =
      if overlay.hostExecutables basename = none then base.excludes program basename
      else overlay.excludes program basename := by
  have hlookup : (base.mergeOverlay overlay).hostExecutables basename =
      (overlay.hostExecutables basename).or (base.hostExecutables basename) := by
    exact lookup_append
  unfold excludes
  rw [hlookup]
  cases overlay.hostExecutables basename <;> rfl

variable (base) in
theorem matchHostExecutableRules_mergeOverlay
    (h : overlay.matchHostExecutableRules paths cmd ≠ []) : (BaseExcludes paths base overlay cmd ∧
        (base.mergeOverlay overlay).matchHostExecutableRules paths cmd = []) ∨
      (¬ BaseExcludes paths base overlay cmd ∧
        ∀ m ∈ overlay.matchHostExecutableRules paths cmd,
          m ∈ (base.mergeOverlay overlay).matchHostExecutableRules paths cmd) := by
  unfold matchHostExecutableRules at h ⊢
  cases hp : hostProgram paths cmd with
  | none =>
    rw [hp] at h
    exact absurd rfl h
  | some found =>
    obtain ⟨program, basename⟩ := found
    rw [hp] at h
    simp only at h ⊢
    have hin : overlay.excludes program basename = false := by
      by_contra hex
      rw [Bool.not_eq_false] at hex
      rw [hex] at h
      exact h rfl
    have hexcl : BaseExcludes paths base overlay cmd ↔
        (base.mergeOverlay overlay).excludes program basename = true := by
      rw [excludes_mergeOverlay]
      unfold BaseExcludes
      rw [hp]
      constructor
      · rintro ⟨program', basename', hp', hnone, hex⟩
        cases hp'
        rw [if_pos hnone]
        exact hex
      · intro hex
        by_cases hnone : overlay.hostExecutables basename = none
        · rw [if_pos hnone] at hex
          exact ⟨program, basename, rfl, hnone, hex⟩
        · rw [if_neg hnone, hin] at hex
          cases hex
    rw [hexcl]
    cases hm : (base.mergeOverlay overlay).excludes program basename with
    | true => exact .inl ⟨rfl, rfl⟩
    | false =>
      refine .inr ⟨Bool.false_ne_true, fun m hmem => ?_⟩
      rw [hin] at hmem
      simp only [Bool.false_eq_true, if_false, getVec_mergeOverlay, filterMap_append,
        map_append] at hmem ⊢
      exact mem_append_right _ hmem

/-! ## When the overlay is kept -/

theorem overlayKept_eq : OverlayKept paths base overlay cmd heuristics options ↔
    ∀ d, strictestOf (overlay.matchedRules paths cmd options) = some d →
      ∃ d', strictestOf ((base.mergeOverlay overlay).matchesForCommandWithOptions paths cmd
        (some heuristics) options) = some d' ∧ d ≤ d' := by
  unfold OverlayKept
  rw [matchesForCommand_none]
  constructor
  · intro h d hd
    obtain ⟨e, he, hle⟩ := h d hd
    exact ⟨e.decision, (fromMatches_eq_some.mp he).1, hle⟩
  · intro h d hd
    obtain ⟨d', hd', hle⟩ := h d hd
    exact ⟨⟨d', _⟩, fromMatches_eq_some.mpr ⟨hd', rfl⟩, hle⟩

theorem kept_of_subset (h : ∀ m ∈ overlay.matchedRules paths cmd options,
      m ∈ (base.mergeOverlay overlay).matchedRules paths cmd options) :
    OverlayKept paths base overlay cmd heuristics options := by
  rw [overlayKept_eq]
  intro d hd
  obtain ⟨d', hd', hle⟩ := strictestOf_mono h hd
  have hne : (base.mergeOverlay overlay).matchedRules paths cmd options ≠ [] := by
    intro hnil
    rw [strictestOf_eq_none.mpr hnil] at hd'
    cases hd'
  refine ⟨d', ?_, hle⟩
  rw [matchesForCommand_of_matched hne]
  exact hd'

theorem kept_iff_of_exact_base (ho : overlay.matchExactRules cmd = [])
    (hr : options.resolveHostExecutables = true) (hb : base.matchExactRules cmd ≠ []) :
    OverlayKept paths base overlay cmd heuristics options ↔
      MaskAsStrict paths base overlay cmd heuristics options := by
  have halone : overlay.matchedRules paths cmd options =
      overlay.matchHostExecutableRules paths cmd := by
    unfold matchedRules
    rw [if_neg (not_not_intro ho), if_pos hr]
  have hmerged : (base.mergeOverlay overlay).matchedRules paths cmd options =
      base.matchExactRules cmd := by
    unfold matchedRules
    rw [matchExactRules_mergeOverlay, ho, append_nil, if_pos hb]
  rw [overlayKept_eq, halone, matchesForCommand_of_matched (by rw [hmerged]; exact hb), hmerged]
  constructor
  · intro h _ _ d hd
    refine ⟨fun d' hd' => ?_, fun hnil => absurd hnil hb⟩
    obtain ⟨d'', hd'', hle⟩ := h d hd
    rw [hd'] at hd''
    cases hd''
    exact hle
  · intro h d hd
    cases hs : strictestOf (base.matchExactRules cmd) with
    | none => exact absurd (strictestOf_eq_none.mp hs) hb
    | some d' => exact ⟨d', rfl, (h hr ho d hd).1 d' hs⟩

theorem kept_iff_of_no_exact (ho : overlay.matchExactRules cmd = [])
    (hr : options.resolveHostExecutables = true) (hb : base.matchExactRules cmd = []) :
    OverlayKept paths base overlay cmd heuristics options ↔
      MaskAsStrict paths base overlay cmd heuristics options := by
  have halone : overlay.matchedRules paths cmd options =
      overlay.matchHostExecutableRules paths cmd := by
    unfold matchedRules
    rw [if_neg (not_not_intro ho), if_pos hr]
  have hmerged : (base.mergeOverlay overlay).matchedRules paths cmd options =
      (base.mergeOverlay overlay).matchHostExecutableRules paths cmd := by
    unfold matchedRules
    rw [matchExactRules_mergeOverlay, ho, hb, append_nil, if_neg (not_not_intro rfl), if_pos hr]
  by_cases hh : overlay.matchHostExecutableRules paths cmd = []
  · have hnone := strictestOf_eq_none.mpr hh
    constructor
    · intro _ _ _ d hd
      rw [hnone] at hd
      cases hd
    · intro _
      refine kept_of_subset fun m hm => ?_
      rw [halone, hh] at hm
      exact absurd hm not_mem_nil
  · rcases matchHostExecutableRules_mergeOverlay base hh with ⟨hex, hnil⟩ | ⟨hex, hsub⟩
    · have hheur : strictestOf ((base.mergeOverlay overlay).matchesForCommandWithOptions paths cmd
          (some heuristics) options) = some (heuristics cmd) := by
        rw [matchesForCommand_of_unmatched (hmerged.trans hnil)]
        rfl
      rw [overlayKept_eq, halone, hheur]
      constructor
      · intro h _ _ d hd
        obtain ⟨d', hd', hle⟩ := h d hd
        cases hd'
        refine ⟨fun d' hd' => ?_, fun _ _ => hle⟩
        rw [hb] at hd'
        cases hd'
      · intro h d hd
        exact ⟨_, rfl, (h hr ho d hd).2 hb hex⟩
    · constructor
      · intro _ _ _ d hd
        refine ⟨fun d' hd' => ?_, fun _ hex' => absurd hex' hex⟩
        rw [hb] at hd'
        cases hd'
      · intro _
        refine kept_of_subset fun m hm => ?_
        rw [halone] at hm
        rw [hmerged]
        exact hsub m hm

/-- The overlay is never weakened except by a weaker mask. -/
theorem overlayKept_iff : OverlayKept paths base overlay cmd heuristics options ↔
      MaskAsStrict paths base overlay cmd heuristics options := by
  by_cases ho : overlay.matchExactRules cmd = []
  · cases hr : options.resolveHostExecutables with
    | false =>
      have hnone : overlay.matchedRules paths cmd options = [] := by
        unfold matchedRules
        rw [if_neg (not_not_intro ho), hr]
        rfl
      constructor
      · intro _ hres
        rw [hr] at hres
        cases hres
      · intro _
        refine kept_of_subset fun m hm => ?_
        rw [hnone] at hm
        exact absurd hm not_mem_nil
    | true =>
      by_cases hb : base.matchExactRules cmd = []
      · exact kept_iff_of_no_exact ho hr hb
      · exact kept_iff_of_exact_base ho hr hb
  · constructor
    · intro _ _ hnil
      exact absurd hnil ho
    · intro _
      refine kept_of_subset fun m hm => ?_
      have halone : overlay.matchedRules paths cmd options = overlay.matchExactRules cmd :=
        if_pos ho
      have hmerged : (base.mergeOverlay overlay).matchedRules paths cmd options =
          base.matchExactRules cmd ++ overlay.matchExactRules cmd := by
        rw [← matchExactRules_mergeOverlay]
        refine if_pos ?_
        rw [matchExactRules_mergeOverlay]
        exact append_ne_nil_of_right_ne_nil _ ho
      rw [halone] at hm
      rw [hmerged]
      exact mem_append_right _ hm

end

def absolutePaths : ProcessPaths := ⟨none, none⟩

def allowBinRm : Policy :=
  ⟨[("/bin/rm".toList, ⟨⟨"/bin/rm".toList, []⟩, .allow, none⟩)], [], []⟩

def forbidRm : Policy := ⟨[("rm".toList, ⟨⟨"rm".toList, []⟩, .forbidden, none⟩)], [], []⟩

def binRm : List Text := ["/bin/rm".toList, "-rf".toList, "dir".toList]

theorem exact_allow_masks_forbidden :
    ¬ OverlayKept absolutePaths allowBinRm forbidRm binRm (fun _ => .prompt) ⟨true⟩ := by
  intro h
  have halone : strictestOf
      (forbidRm.matchesForCommandWithOptions absolutePaths binRm none ⟨true⟩) =
        some .forbidden := by decide
  obtain ⟨e, he, hle⟩ := h .forbidden halone
  have hmerged : ((allowBinRm.mergeOverlay forbidRm).checkWithOptions absolutePaths binRm
      (fun _ => .prompt) ⟨true⟩).map (·.decision) = some .allow := by decide
  rw [he] at hmerged
  have hallow : e.decision = .allow := Option.some.inj hmerged
  rw [hallow] at hle
  exact absurd hle (by decide)

end Codex.Policy
