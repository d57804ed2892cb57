import Codex.Foundation.Retention
import Codex.Session.ResponseItem

/-!
# What is left of truncated output

One pass over a text finds its longest prefix and its longest suffix within their
budgets, and counts the characters between them. Of the items of a tool output the text that
goes over the budget is cut, the later texts are dropped and counted, and the images all
stay.
-/

namespace Codex

open Foundation List Option

theorem byteLen_eq_weightOf (text : Text) : byteLen text = weightOf Char.utf8Size text := by
  induction text with
  | nil => rfl
  | cons ch text ih => rw [weightOf_cons, ← ih, byteLen, byteLen, map_cons, sum_cons]

/-- Where the pass cuts `text`, which starts at byte `idx`: each bound is on the side of
its cut on which the characters are. -/
structure CutFrom (beginning tailStart idx : ℕ) (text front mid back : Text) : Prop where
  split : text = front ++ mid ++ back
  loop : splitLoop beginning tailStart idx text = (front, mid.length, back)
  frontEnds : front ≠ [] → idx + weightOf Char.utf8Size front ≤ beginning
  next : ∀ ch ∈ (mid ++ back).head?, beginning < idx + weightOf Char.utf8Size front + ch.utf8Size
  backStarts : back ≠ [] → tailStart ≤ idx + weightOf Char.utf8Size (front ++ mid)
  last : ∀ ch ∈ mid.getLast?, idx + weightOf Char.utf8Size (front ++ mid) < tailStart + ch.utf8Size

theorem weight_le_of_mem {ch : Char} {text : Text} (h : ch ∈ text) :
    ch.utf8Size ≤ weightOf Char.utf8Size text := by
  obtain ⟨x, y, rfl⟩ := append_of_mem h
  rw [weightOf_append, weightOf_cons]
  omega

theorem cutFrom (beginning tailStart idx : ℕ) (text : Text) :
    ∃ front mid back, CutFrom beginning tailStart idx text front mid back := by
  induction text generalizing idx with
  | nil => exact ⟨[], [], [], rfl, rfl, by simp, by simp, by simp, by simp⟩
  | cons ch rest ih =>
    obtain ⟨front, mid, back, hcut⟩ := ih (idx + ch.utf8Size)
    have hfront := hcut.frontEnds
    have hnext := hcut.next
    have hback := hcut.backStarts
    have hlast := hcut.last
    by_cases hfits : idx + ch.utf8Size ≤ beginning
    · -- the character ends within the prefix
      refine ⟨ch :: front, mid, back, ?_, ?_, fun _ => ?_, fun c hc => ?_, fun h => ?_,
        fun c hc => ?_⟩
      · rw [hcut.split]
        rfl
      · rw [splitLoop, hcut.loop]
        exact if_pos hfits
      · rw [weightOf_cons]
        cases front with
        | nil => simpa using hfits
        | cons c front => exact Nat.add_assoc _ _ _ ▸ hfront (cons_ne_nil _ _)
      · rw [weightOf_cons, ← Nat.add_assoc]
        exact hnext c hc
      · rw [cons_append, weightOf_cons, ← Nat.add_assoc]
        exact hback h
      · rw [cons_append, weightOf_cons, ← Nat.add_assoc]
        exact hlast c hc
    · have hnil : front = [] := by
        refine Classical.byContradiction fun hne => ?_
        have hle := hfront hne
        omega
      subst hnil
      rw [nil_append] at hback hlast
      by_cases htail : tailStart ≤ idx
      · -- the suffix has begun
        have hmid : mid = [] := by
          refine Classical.byContradiction fun hne => ?_
          have hlt := hlast _ (List.getLast?_eq_some_getLast hne)
          have hle := weight_le_of_mem (getLast_mem hne)
          omega
        subst hmid
        refine ⟨[], [], ch :: rest, rfl, ?_, by simp, fun c hc => ?_, fun _ => ?_, by simp⟩
        · have hrest : rest = back := hcut.split
          rw [splitLoop, hcut.loop]
          dsimp only
          rw [if_neg hfits, if_pos htail, ← hrest]
        · simp only [nil_append, List.head?_cons, mem_def, Option.some.injEq] at hc
          subst hc
          rw [weightOf_nil]
          omega
        · exact Nat.le_trans htail (Nat.le_add_right _ _)
      · refine ⟨[], ch :: mid, back, ?_, ?_, by simp, fun c hc => ?_, fun h => ?_, fun c hc => ?_⟩
        · rw [hcut.split]
          rfl
        · rw [splitLoop, hcut.loop]
          dsimp only
          rw [if_neg hfits, if_neg htail]
          rfl
        · simp only [cons_append, List.head?_cons, mem_def,
            Option.some.injEq] at hc
          subst hc
          rw [weightOf_nil]
          omega
        · rw [nil_append, weightOf_cons, ← Nat.add_assoc]
          exact hback h
        · rw [nil_append, weightOf_cons, ← Nat.add_assoc]
          cases mid with
          | nil =>
            simp only [List.getLast?_singleton, mem_def, Option.some.injEq] at hc
            subst hc
            rw [weightOf_nil]
            omega
          | cons d mid =>
            exact hlast c hc

structure MiddleCut (s : Text) (maxBytes : ℕ) (front mid back : Text) : Prop where
  split : s = front ++ mid ++ back
  first : LongestFittingPrefix Char.utf8Size (maxBytes / 2) s front
  last : LongestFittingSuffix Char.utf8Size (maxBytes - maxBytes / 2) s back

theorem splitString_cut {s : Text} {maxBytes : ℕ} (hlong : maxBytes < byteLen s) :
    ∃ front mid back, MiddleCut s maxBytes front mid back ∧
      splitString s (maxBytes / 2) (maxBytes - maxBytes / 2) = (mid.length, front, back) := by
  obtain ⟨front, mid, back, hcut⟩ :=
    cutFrom (maxBytes / 2) (byteLen s - (maxBytes - maxBytes / 2)) 0 s
  have hlen := byteLen_eq_weightOf s
  have hback := hcut.backStarts
  have hfront := hcut.frontEnds
  have hnext := hcut.next
  have hlast := hcut.last
  rw [hcut.split, weightOf_append, ← hcut.split] at hlen
  have hfrontLe : weightOf Char.utf8Size front ≤ maxBytes / 2 := by
    cases front with
    | nil => exact Nat.zero_le _
    | cons c front => simpa using hfront (cons_ne_nil _ _)
  have hbackLe : weightOf Char.utf8Size back ≤ maxBytes - maxBytes / 2 := by
    cases back with
    | nil => exact Nat.zero_le _
    | cons c back =>
      have hle := hback (cons_ne_nil _ _)
      omega
  refine ⟨front, mid, back, ⟨hcut.split, ?_, ?_⟩, ?_⟩
  · rw [hcut.split, List.append_assoc]
    exact LongestFittingPrefix.of_next hfrontLe fun ch hch => by simpa using hnext ch hch
  · have hrev : s.reverse = back.reverse ++ (front ++ mid).reverse := by
      rw [hcut.split, reverse_append]
    have hlongest : LongestFittingPrefix Char.utf8Size (maxBytes - maxBytes / 2) s.reverse
        back.reverse := by
      rw [hrev]
      refine LongestFittingPrefix.of_next (by rw [weightOf_reverse]; exact hbackLe) fun ch hch => ?_
      rw [List.head?_reverse, mem_def] at hch
      cases hmid : mid.getLast? with
      | none =>
        -- the two ends would be all of the text
        rw [List.getLast?_eq_none_iff.mp hmid, append_nil] at hlen
        omega
      | some d =>
        rw [List.getLast?_append, hmid, some_or, Option.some.injEq] at hch
        subst hch
        have hlt := hlast d hmid
        rw [weightOf_reverse]
        omega
    have hsuffix := hlongest.reverse
    rwa [reverse_reverse] at hsuffix
  · unfold splitString
    rw [hcut.loop]

def isImageItem : FunctionCallOutputContentItem → Bool
  | .inputImage _ _ => true
  | .inputText _ => false

def itemWeight (policy : TruncationPolicy) : FunctionCallOutputContentItem → ℕ
  | .inputImage _ _ => 0
  | .inputText text => itemCost policy text

def policyBudget : TruncationPolicy → ℕ
  | .bytes bytes => bytes
  | .tokens tokens => tokens

def textCount (items : List FunctionCallOutputContentItem) : ℕ :=
  items.countP fun item => !isImageItem item

def omittedReport (omitted : ℕ) : List FunctionCallOutputContentItem :=
  if 0 < omitted then
    [.inputText ("[omitted ".toList ++ (Nat.repr omitted).toList ++ " text items ...]".toList)]
  else []

section
variable (policy : TruncationPolicy) (budget : ℕ)

/-- Where the budget ends: behind `before`, within the text `cut` if it was not used up. -/
structure BudgetEnds (items before : List FunctionCallOutputContentItem) (cut : Option Text)
    (after : List FunctionCallOutputContentItem) : Prop where
  split : items = before ++ cut.toList.map .inputText ++ after
  within : weightOf (itemWeight policy) before ≤ budget
  cuts : ∀ text ∈ cut, weightOf (itemWeight policy) before < budget ∧
    budget < weightOf (itemWeight policy) before + itemCost policy text
  dropped : 0 < textCount after → cut.isSome ∨ weightOf (itemWeight policy) before = budget

def snippets (before : List FunctionCallOutputContentItem) (cut : Option Text) :
    List FunctionCallOutputContentItem :=
  cut.toList.map fun text =>
    .inputText (truncateText text (snippetPolicy policy
      (budget - weightOf (itemWeight policy) before)))

end

theorem formatTruncationMarker_ne_nil (useTokens : Bool) (removedCount : ℕ) :
    formatTruncationMarker useTokens removedCount ≠ [] := cons_ne_nil _ _

theorem truncateWithByteEstimate_ne_nil {s : Text} (h : s ≠ []) (maxBytes : ℕ) (useTokens : Bool) :
    truncateWithByteEstimate s maxBytes useTokens ≠ [] := by
  unfold truncateWithByteEstimate
  rw [if_neg h]
  split
  · exact formatTruncationMarker_ne_nil _ _
  · split
    · exact h
    · simp [formatTruncationMarker_ne_nil]

theorem truncateText_ne_nil {s : Text} (h : s ≠ []) (policy : TruncationPolicy) :
    truncateText s policy ≠ [] := by
  cases policy with
  | bytes bytes => exact truncateWithByteEstimate_ne_nil h _ _
  | tokens tokens =>
    rw [truncateText, truncateMiddleWithTokenBudget, if_neg h]
    split
    · exact h
    · dsimp only
      split <;> exact truncateWithByteEstimate_ne_nil h _ _

/-! ## The loop -/

variable {policy : TruncationPolicy}

theorem itemCost_nil : itemCost policy [] = 0 := by
  cases policy <;> rfl

theorem truncateItemsLoop_zero (items : List FunctionCallOutputContentItem) :
    truncateItemsLoop policy 0 items = (items.filter isImageItem, textCount items) := by
  induction items with
  | nil => rfl
  | cons item items ih =>
    cases item with
    | inputImage imageUrl detail =>
      simp [truncateItemsLoop, ih, isImageItem, textCount, filter_cons]
    | inputText text => simp [truncateItemsLoop, ih, isImageItem, textCount]

theorem truncateItemsLoop_ends (remaining : ℕ) (items : List FunctionCallOutputContentItem) :
    ∃ before cut after, BudgetEnds policy remaining items before cut after ∧
      truncateItemsLoop policy remaining items =
        (before ++ snippets policy remaining before cut ++ after.filter isImageItem,
          textCount after) := by
  induction items generalizing remaining with
  | nil =>
    exact ⟨[], none, [], ⟨rfl, Nat.zero_le _, by simp, by simp [textCount]⟩, rfl⟩
  | cons item items ih =>
    cases item with
    | inputImage imageUrl detail =>
      obtain ⟨before, cut, after, hends, hloop⟩ := ih remaining
      have hweight : weightOf (itemWeight policy) (.inputImage imageUrl detail :: before) =
          weightOf (itemWeight policy) before := Nat.zero_add _
      refine ⟨.inputImage imageUrl detail :: before, cut, after, ⟨?_, ?_, ?_, ?_⟩, ?_⟩
      · rw [hends.split]
        rfl
      · rw [hweight]
        exact hends.within
      · rw [hweight]
        exact hends.cuts
      · rw [hweight]
        exact hends.dropped
      · rw [truncateItemsLoop, hloop, snippets, snippets, hweight]
        rfl
    | inputText text =>
      rw [truncateItemsLoop]
      split
      · next hzero =>
        refine ⟨[], none, .inputText text :: items, ⟨rfl, Nat.zero_le _, by simp, ?_⟩, ?_⟩
        · exact fun _ => .inr hzero.symm
        · rw [truncateItemsLoop_zero]
          simp [snippets, isImageItem, textCount]
      · next hpos =>
        split
        · next hfits =>
          obtain ⟨before, cut, after, hends, hloop⟩ := ih (remaining - itemCost policy text)
          have hwithin := hends.within
          have hweight : weightOf (itemWeight policy) (.inputText text :: before) =
              itemCost policy text + weightOf (itemWeight policy) before := rfl
          refine ⟨.inputText text :: before, cut, after, ⟨?_, ?_, fun t ht => ?_, fun h => ?_⟩, ?_⟩
          · rw [hends.split]
            rfl
          · omega
          · have hcut := hends.cuts t ht
            omega
          · exact (hends.dropped h).imp_right fun h => by omega
          · rw [hloop, snippets, snippets, hweight, Nat.sub_sub]
            rfl
        · next hover =>
          have hne : text ≠ [] := by
            rintro rfl
            rw [itemCost_nil] at hover
            exact hover (Nat.zero_le _)
          refine ⟨[], some text, items, ⟨rfl, Nat.zero_le _, ?_, fun _ => .inl rfl⟩, ?_⟩
          · simp only [mem_def, Option.some.injEq, weightOf_nil, Nat.zero_add]
            rintro t rfl
            omega
          · rw [truncateItemsLoop_zero]
            dsimp only
            rw [if_neg (truncateText_ne_nil hne _)]
            simp [snippets]

variable (items : List FunctionCallOutputContentItem)

theorem append_omittedReport (omitted : ℕ) :
    items ++ omittedReport omitted = if 0 < omitted then items ++ [.inputText ("[omitted ".toList ++
      (Nat.repr omitted).toList ++ " text items ...]".toList)] else items := by
  unfold omittedReport
  split
  · rfl
  · exact append_nil items

theorem truncateItems_report
    (policy : TruncationPolicy) : truncateFunctionOutputItemsWithPolicy items policy =
      (truncateItemsLoop policy (policyBudget policy) items).1 ++
        omittedReport (truncateItemsLoop policy (policyBudget policy) items).2 := by
  rw [append_omittedReport]
  cases policy <;> rfl

end Codex
