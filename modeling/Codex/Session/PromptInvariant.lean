import Codex.Session.ContextManager

/-!
# What holds of a prompt

A prompt is the history without its orphan outputs, each unanswered call followed by a
synthetic output (`normalizeHistory_eq`). So calls and outputs are paired in it, and
normalising it again changes nothing.
-/

namespace Codex

open Foundation List

/-! ## Pairs -/

variable {items : List ResponseItem} {key : PairKey} {item out : ResponseItem}

theorem hasCall_iff : hasCall items key = true ↔ ∃ call ∈ items, callKey call = some key := by
  simp [hasCall]

theorem hasOutput_iff :
    hasOutput items key = true ↔ ∃ output ∈ items, outputKey output = some key := by
  simp [hasOutput]

@[simp] theorem callKey_syntheticOutput (key : PairKey) : callKey (syntheticOutput key) = none := by
  cases key <;> rfl

@[simp] theorem outputKey_syntheticOutput (key : PairKey) :
    outputKey (syntheticOutput key) = some key := by
  cases key <;> rfl

theorem missingOutput_eq_some : missingOutput items item = some out ↔
      ∃ key, callKey item = some key ∧ hasOutput items key = false ∧ out = syntheticOutput key := by
  unfold missingOutput
  cases callKey item with
  | none => simp
  | some key =>
    simp only [Option.some.injEq, exists_eq_left']
    by_cases h : hasOutput items key = true
    · simp [h]
    · rw [if_neg h, Option.some.injEq]
      constructor
      · rintro rfl
        exact ⟨Bool.eq_false_iff.mpr h, rfl⟩
      · rintro ⟨-, rfl⟩
        rfl

theorem missingOutput_eq_none (h : ∀ key, callKey item = some key → hasOutput items key = true) :
    missingOutput items item = none := by
  unfold missingOutput
  cases hkey : callKey item with
  | none => rfl
  | some key => simp [h key hkey]

def clientOutputKey : ResponseItem → Option PairKey
  | .toolSearchOutput (some callId) _ execution _ =>
    if execution = SERVER then none else some (.toolSearch callId)
  | item => outputKey item

theorem isOrphanOutput_eq (items : List ResponseItem) (item : ResponseItem) :
    isOrphanOutput items item = true ↔
      ∃ key, clientOutputKey item = some key ∧ hasCall items key = false := by
  cases item with
  | toolSearchOutput callId status execution tools =>
    cases callId with
    | none => simp [isOrphanOutput, clientOutputKey, outputKey]
    | some callId =>
      by_cases h : execution = SERVER <;> simp [isOrphanOutput, clientOutputKey, h]
  | _ => simp [isOrphanOutput, clientOutputKey, outputKey]

theorem clientOutputKey_le (h : clientOutputKey item = some key) : outputKey item = some key := by
  unfold clientOutputKey at h
  split at h
  · split at h
    · cases h
    · exact h
  · exact h

theorem outputKey_of_call (h : callKey item = some key) : outputKey item = none := by
  cases item <;> simp_all [callKey, outputKey]

theorem not_orphan_of_call (h : callKey item = some key) : isOrphanOutput items item = false := by
  refine Bool.eq_false_iff.mpr fun horphan => ?_
  obtain ⟨key', hkey', -⟩ := (isOrphanOutput_eq items item).mp horphan
  have houtput := clientOutputKey_le hkey'
  rw [outputKey_of_call h] at houtput
  cases houtput

theorem not_orphan_of_hasCall (h : outputKey item = some key) (hcall : hasCall items key = true) :
    isOrphanOutput items item = false := by
  refine Bool.eq_false_iff.mpr fun horphan => ?_
  obtain ⟨key', hkey', hnone⟩ := (isOrphanOutput_eq items item).mp horphan
  rw [clientOutputKey_le hkey', Option.some.injEq] at h
  rw [h, hcall] at hnone
  cases hnone

/-! ## The prompt as one list -/

theorem stripImages_eq (inputModalities : List InputModality) (items : List ResponseItem) :
    stripImagesWhenUnsupported inputModalities items = items.map (stripImages inputModalities) := by
  unfold stripImagesWhenUnsupported stripImages
  split <;> simp

theorem ensureCallOutputsPresent_eq (items : List ResponseItem) : ensureCallOutputsPresent items =
      items.flatMap fun item => item :: (missingOutput items item).toList :=
  insertBehind_eq _ _

theorem hasCall_ensure (items : List ResponseItem) (key : PairKey) :
    hasCall (ensureCallOutputsPresent items) key = hasCall items key := by
  rw [Bool.eq_iff_iff, hasCall_iff, hasCall_iff, ensureCallOutputsPresent_eq]
  constructor
  · rintro ⟨call, hcall, hkey⟩
    obtain ⟨item, hitem, hmem⟩ := mem_flatMap.mp hcall
    rcases mem_cons.mp hmem with rfl | hmem
    · exact ⟨call, hitem, hkey⟩
    · obtain ⟨k, -, -, rfl⟩ := missingOutput_eq_some.mp (Option.mem_toList.mp hmem)
      rw [callKey_syntheticOutput] at hkey
      cases hkey
  · rintro ⟨call, hcall, hkey⟩
    exact ⟨call, mem_flatMap.mpr ⟨call, hcall, mem_cons_self⟩, hkey⟩

theorem isOrphanOutput_ensure (items : List ResponseItem) (item : ResponseItem) :
    isOrphanOutput (ensureCallOutputsPresent items) item = isOrphanOutput items item := by
  rw [Bool.eq_iff_iff, isOrphanOutput_eq, isOrphanOutput_eq]
  simp only [hasCall_ensure]

theorem missingOutput_not_orphan (hitem : item ∈ items) (h : missingOutput items item = some out) :
    isOrphanOutput items out = false := by
  obtain ⟨key, hkey, -, rfl⟩ := missingOutput_eq_some.mp h
  exact not_orphan_of_hasCall (outputKey_syntheticOutput key) (hasCall_iff.mpr ⟨item, hitem, hkey⟩)

theorem stripImages_missingOutput (h : missingOutput items item = some out)
    (inputModalities : List InputModality) : stripImages inputModalities out = out := by
  obtain ⟨key, -, -, rfl⟩ := missingOutput_eq_some.mp h
  unfold stripImages
  split
  · rfl
  · cases key <;> rfl

theorem normalizeHistory_eq (inputModalities : List InputModality) (items : List ResponseItem) :
    normalizeHistory inputModalities items =
      (items.filter fun item => !isOrphanOutput items item).flatMap fun item =>
        stripImages inputModalities item :: (missingOutput items item).toList := by
  have hblock : ∀ item ∈ items,
      ((item :: (missingOutput items item).toList).filter fun i => !isOrphanOutput items i).map
          (stripImages inputModalities) =
        if !isOrphanOutput items item then
          stripImages inputModalities item :: (missingOutput items item).toList
        else [] := by
    intro item hitem
    cases hout : missingOutput items item with
    | none => cases h : isOrphanOutput items item <;> simp [h]
    | some out =>
      obtain ⟨key, hkey, -, -⟩ := missingOutput_eq_some.mp hout
      simp [not_orphan_of_call hkey, missingOutput_not_orphan hitem hout,
        stripImages_missingOutput hout]
  unfold normalizeHistory removeOrphanOutputs
  rw [stripImages_eq]
  simp only [isOrphanOutput_ensure]
  rw [ensureCallOutputsPresent_eq, filter_flatMap, map_flatMap,
    flatMap_congr hblock, flatMap_filter]

theorem mem_normalizeHistory {inputModalities : List InputModality} {i : ResponseItem} :
    i ∈ normalizeHistory inputModalities items ↔
      ∃ item ∈ items, isOrphanOutput items item = false ∧
        (i = stripImages inputModalities item ∨ missingOutput items item = some i) := by
  rw [normalizeHistory_eq]
  simp [and_assoc]

/-! ## Images change neither calls nor outputs -/

section
variable (inputModalities : List InputModality)

theorem callKey_stripImages (item : ResponseItem) :
    callKey (stripImages inputModalities item) = callKey item := by
  unfold stripImages
  split
  · rfl
  · cases item <;> rfl

theorem outputKey_stripImages (item : ResponseItem) :
    outputKey (stripImages inputModalities item) = outputKey item := by
  unfold stripImages
  split
  · rfl
  · cases item <;> rfl

theorem clientOutputKey_stripImages (item : ResponseItem) :
    clientOutputKey (stripImages inputModalities item) = clientOutputKey item := by
  unfold stripImages
  split
  · rfl
  · cases item <;> rfl

end

theorem stripItem_stripItem (item : ResponseItem) : stripItem (stripItem item) = stripItem item := by
  have hcontent : ∀ c, stripContentItem (stripContentItem c) = stripContentItem c := by
    intro c
    cases c <;> rfl
  have houtput : ∀ c, stripOutputItem (stripOutputItem c) = stripOutputItem c := by
    intro c
    cases c <;> rfl
  have hpayload : ∀ output, stripPayload (stripPayload output) = stripPayload output := by
    rintro ⟨body, success⟩
    cases body with
    | text content => rfl
    | contentItems items => simp [stripPayload, stripBody, houtput]
  cases item <;> simp [stripItem, hcontent, hpayload]

theorem stripImages_stripImages (inputModalities : List InputModality) (item : ResponseItem) :
    stripImages inputModalities (stripImages inputModalities item) =
      stripImages inputModalities item := by
  unfold stripImages
  split
  · rfl
  · exact stripItem_stripItem item

/-! ## Prompts -/

structure PromptInvariant (inputModalities : List InputModality)
    (history prompt : List ResponseItem) : Prop where
  callsAnswered : ∀ call ∈ prompt, ∀ key, callKey call = some key →
    ∃ output ∈ prompt, outputKey output = some key
  outputsCalled : ∀ output ∈ prompt, ∀ key, clientOutputKey output = some key →
    ∃ call ∈ prompt, callKey call = some key
  survivors : ((history.filter fun item => !isOrphanOutput history item).map
    (stripImages inputModalities)).Sublist prompt
  syntheticBehindCall : prompt =
    (history.filter fun item => !isOrphanOutput history item).flatMap fun item =>
      stripImages inputModalities item :: (missingOutput history item).toList
  stable : normalizeHistory inputModalities prompt = prompt

section
variable (inputModalities : List InputModality) (items : List ResponseItem)

variable {call : ResponseItem} {key : PairKey}

theorem call_stays (hcall : call ∈ items) (hkey : callKey call = some key) :
    ∃ c ∈ normalizeHistory inputModalities items, callKey c = some key := by
  refine ⟨stripImages inputModalities call, ?_, ?_⟩
  · exact mem_normalizeHistory.mpr ⟨call, hcall, not_orphan_of_call hkey, .inl rfl⟩
  · rw [callKey_stripImages, hkey]

theorem callsAnswered (hcall : call ∈ normalizeHistory inputModalities items)
    (hkey : callKey call = some key) :
    ∃ output ∈ normalizeHistory inputModalities items, outputKey output = some key := by
  obtain ⟨item, hitem, horphan, rfl | hmissing⟩ := mem_normalizeHistory.mp hcall
  · rw [callKey_stripImages] at hkey
    by_cases hout : hasOutput items key = true
    · obtain ⟨output, houtput, hokey⟩ := hasOutput_iff.mp hout
      have hhas : hasCall items key = true := hasCall_iff.mpr ⟨item, hitem, hkey⟩
      refine ⟨stripImages inputModalities output, ?_, ?_⟩
      · exact mem_normalizeHistory.mpr ⟨output, houtput, not_orphan_of_hasCall hokey hhas, .inl rfl⟩
      · rw [outputKey_stripImages, hokey]
    · refine ⟨syntheticOutput key, ?_, outputKey_syntheticOutput key⟩
      refine mem_normalizeHistory.mpr ⟨item, hitem, horphan, .inr ?_⟩
      exact missingOutput_eq_some.mpr ⟨key, hkey, Bool.eq_false_iff.mpr hout, rfl⟩
  · obtain ⟨k, -, -, rfl⟩ := missingOutput_eq_some.mp hmissing
    rw [callKey_syntheticOutput] at hkey
    cases hkey

theorem outputsCalled {output : ResponseItem}
    (houtput : output ∈ normalizeHistory inputModalities items)
    (hkey : clientOutputKey output = some key) :
    ∃ call ∈ normalizeHistory inputModalities items, callKey call = some key := by
  obtain ⟨item, hitem, horphan, rfl | hmissing⟩ := mem_normalizeHistory.mp houtput
  · rw [clientOutputKey_stripImages] at hkey
    have hhas : hasCall items key = true := by
      by_contra hnone
      have h := (isOrphanOutput_eq items item).mpr ⟨key, hkey, Bool.eq_false_iff.mpr hnone⟩
      rw [h] at horphan
      cases horphan
    obtain ⟨call, hcall, hckey⟩ := hasCall_iff.mp hhas
    exact call_stays inputModalities items hcall hckey
  · obtain ⟨k, hk, -, rfl⟩ := missingOutput_eq_some.mp hmissing
    have hsame := clientOutputKey_le hkey
    rw [outputKey_syntheticOutput] at hsame
    cases hsame
    exact call_stays inputModalities items hitem hk

theorem missingOutput_prompt (hcall : call ∈ normalizeHistory inputModalities items) :
    missingOutput (normalizeHistory inputModalities items) call = none :=
  missingOutput_eq_none fun _ hkey =>
    hasOutput_iff.mpr (callsAnswered inputModalities items hcall hkey)

theorem isOrphanOutput_prompt {output : ResponseItem}
    (houtput : output ∈ normalizeHistory inputModalities items) :
    isOrphanOutput (normalizeHistory inputModalities items) output = false := by
  refine Bool.eq_false_iff.mpr fun horphan => ?_
  obtain ⟨key, hkey, hnone⟩ := (isOrphanOutput_eq _ _).mp horphan
  rw [hasCall_iff.mpr (outputsCalled inputModalities items houtput hkey)] at hnone
  cases hnone

theorem stripImages_prompt {item : ResponseItem}
    (hitem : item ∈ normalizeHistory inputModalities items) :
    stripImages inputModalities item = item := by
  obtain ⟨i, -, -, rfl | hmissing⟩ := mem_normalizeHistory.mp hitem
  · exact stripImages_stripImages inputModalities i
  · exact stripImages_missingOutput hmissing inputModalities

theorem normalizeHistory_normalizeHistory :
    normalizeHistory inputModalities (normalizeHistory inputModalities items) =
      normalizeHistory inputModalities items := by
  have hkept : (normalizeHistory inputModalities items).filter (fun item =>
      !isOrphanOutput (normalizeHistory inputModalities items) item) =
        normalizeHistory inputModalities items := by
    refine filter_eq_self.mpr fun item hitem => ?_
    rw [isOrphanOutput_prompt inputModalities items hitem]
    rfl
  have hblock : ∀ item ∈ normalizeHistory inputModalities items,
      stripImages inputModalities item ::
          (missingOutput (normalizeHistory inputModalities items) item).toList = [item] := by
    intro item hitem
    rw [missingOutput_prompt inputModalities items hitem,
      stripImages_prompt inputModalities items hitem]
    rfl
  rw [normalizeHistory_eq, hkept, flatMap_congr hblock, flatMap_singleton']

theorem promptInvariant :
    PromptInvariant inputModalities items (normalizeHistory inputModalities items) where
  callsAnswered _ hcall _ hkey := callsAnswered inputModalities items hcall hkey
  outputsCalled _ houtput _ hkey := outputsCalled inputModalities items houtput hkey
  survivors := by
    rw [normalizeHistory_eq]
    generalize items.filter (fun item => !isOrphanOutput items item) = kept
    induction kept with
    | nil => exact .refl _
    | cons item kept ih =>
      exact (ih.trans (sublist_append_right _ _)).cons_cons _
  syntheticBehindCall := normalizeHistory_eq inputModalities items
  stable := normalizeHistory_normalizeHistory inputModalities items

end

/-! ## The prompt of a history -/

theorem missingReport_eq_none {items : List ResponseItem} {item : ResponseItem}
    (h : missingOutput items item = none) : missingReport items item = none := by
  unfold missingOutput at h
  unfold missingReport
  split
  · simp_all [callKey]
  · simp_all [callKey]
  · rfl

variable (debugAssertions : Bool)

theorem errorOrPanic_nil : errorOrPanic debugAssertions [] = .ok () := by
  cases debugAssertions <;> rfl

theorem forPrompt_prompt (inputModalities : List InputModality) (h : ContextManager) :
    { h with items := normalizeHistory inputModalities h.items }.forPrompt debugAssertions
      inputModalities = .ok (normalizeHistory inputModalities h.items) := by
  have hmissing : (normalizeHistory inputModalities h.items).filterMap
      (missingReport (normalizeHistory inputModalities h.items)) = [] := by
    refine filterMap_eq_nil_iff.mpr fun item hitem => ?_
    exact missingReport_eq_none (missingOutput_prompt inputModalities h.items hitem)
  have hensure : ensureCallOutputsPresent (normalizeHistory inputModalities h.items) =
      normalizeHistory inputModalities h.items := by
    rw [ensureCallOutputsPresent_eq]
    have hblock : ∀ item ∈ normalizeHistory inputModalities h.items,
        item :: (missingOutput (normalizeHistory inputModalities h.items) item).toList =
          [item] := by
      intro item hitem
      rw [missingOutput_prompt inputModalities h.items hitem]
      rfl
    rw [flatMap_congr hblock, flatMap_singleton']
  have horphan : (normalizeHistory inputModalities h.items).filterMap
      (orphanReport (normalizeHistory inputModalities h.items)) = [] := by
    refine filterMap_eq_nil_iff.mpr fun item hitem => ?_
    unfold orphanReport
    rw [isOrphanOutput_prompt inputModalities h.items hitem]
    rfl
  unfold ContextManager.forPrompt
  simp only [hmissing, hensure, horphan, errorOrPanic_nil, normalizeHistory_normalizeHistory]
  rfl

theorem errorOrPanic_bind (reports reports' : List Text) (prompt : List ResponseItem) : (do
      errorOrPanic debugAssertions reports
      errorOrPanic debugAssertions reports'
      .ok prompt) = .ok prompt ∨
    ∃ message, (do
      errorOrPanic debugAssertions reports
      errorOrPanic debugAssertions reports'
      .ok prompt) = .error message := by
  cases errorOrPanic debugAssertions reports with
  | error message => exact .inr ⟨message, rfl⟩
  | ok u =>
    cases errorOrPanic debugAssertions reports' with
    | error message => exact .inr ⟨message, rfl⟩
    | ok u => exact .inl rfl

/-- A history has a prompt, in which calls and outputs are paired; with debug assertions
the same prompt comes back or a report ends the program. -/
theorem forPrompt_invariant (inputModalities : List InputModality) (h : ContextManager) :
    ∃ prompt, h.forPrompt false inputModalities = .ok prompt ∧
      (h.forPrompt true inputModalities = .ok prompt ∨
        ∃ message, h.forPrompt true inputModalities = .error message) ∧
      PromptInvariant inputModalities h.items prompt ∧
      ∀ debugAssertions, { h with items := prompt }.forPrompt debugAssertions inputModalities =
        .ok prompt :=
  ⟨normalizeHistory inputModalities h.items, rfl, errorOrPanic_bind true _ _ _,
    promptInvariant inputModalities h.items, fun debugAssertions =>
      forPrompt_prompt debugAssertions inputModalities h⟩

/-- A call without output and an output without call: the call is answered, the output is
gone. -/
example : normalizeHistory [.text, .image]
    [.functionCall none "ls".toList none [] "a".toList, .functionCallOutput "b".toList ABORTED] =
      [.functionCall none "ls".toList none [] "a".toList,
        .functionCallOutput "a".toList ABORTED] := by
  decide +kernel

end Codex
