import Codex.Session.ResponseItem
import Codex.Foundation.Retention
import Codex.Foundation.RollbackStack

/-!
# Rebuilding a history from a summary

A legacy compaction keeps the newest user messages that fit the budget, and the
summary behind them. The context of the session goes before the last user message that is
not a summary, and if there is none before the summary or the compaction item.
-/

namespace Codex

open Foundation List

def SUMMARY_PREFIX : Text := ("Another language model started to solve this problem and produced " ++
  "a summary of its thinking process. You also have access to the state of the tools that were " ++
  "used by that language model. Use this to build on the work that has already been done and " ++
  "avoid duplicating work. Here is the summary produced by the other language model, use the " ++
  "information in this summary to assist with your own analysis:").toList

def COMPACT_USER_MESSAGE_MAX_TOKENS : Nat := 20000

def isSummaryMessage (message : Text) : Bool := (SUMMARY_PREFIX ++ ['\n']).isPrefixOf message

def collectUserMessages (formats : EmbeddedFormats) (items : List ResponseItem) : List Text :=
  items.filterMap fun item =>
    match parseTurnItem formats item with
    | some (.userMessage user) =>
      if isSummaryMessage (userMessageText user) then none else some (userMessageText user)
    | _ => none

/-- The messages that fit, newest first; the first one that does not is truncated. -/
def selectMessages : Nat → List Text → List Text
  | _, [] => []
  | remaining, message :: older =>
    if remaining = 0 then []
    else if approxTokenCount message ≤ remaining then
      message :: selectMessages (remaining - approxTokenCount message) older
    else [truncateText message (.tokens remaining)]

def userTextMessage (text : Text) : ResponseItem := .message none USER [.inputText text] none

def buildCompactedHistoryWithLimit (history : List ResponseItem) (userMessages : List Text)
    (summaryText : Text) (maxTokens : Nat) : List ResponseItem :=
  let selectedMessages := (selectMessages maxTokens userMessages.reverse).reverse
  let summaryText := if summaryText = [] then "(no summary available)".toList else summaryText
  history ++ selectedMessages.map userTextMessage ++ [userTextMessage summaryText]

def buildCompactedHistory (initialContext : List ResponseItem) (userMessages : List Text)
    (summaryText : Text) : List ResponseItem :=
  buildCompactedHistoryWithLimit initialContext userMessages summaryText
    COMPACT_USER_MESSAGE_MAX_TOKENS

/-! ## Selected messages -/

/-- What is kept of the user messages. When the budget is used up, empty messages before
the others are not looked at; when it is not, the next message is cut to what is left. -/
def SelectedWithin (maxTokens : ℕ) (userMessages selected : List Text) : Prop :=
  ∃ older fit, userMessages = older ++ fit ∧
    LongestFittingSuffix approxTokenCount maxTokens userMessages fit ∧
    selected =
      if weightOf approxTokenCount fit = maxTokens then fit.dropWhile (·.isEmpty)
      else
        older.getLast?.toList.map
          (fun m => truncateText m (.tokens (maxTokens - weightOf approxTokenCount fit))) ++ fit

structure CompactedShape (initialContext : List ResponseItem) (userMessages : List Text)
    (summaryText : Text) (maxTokens : ℕ) (selected : List Text) : Prop where
  within : SelectedWithin maxTokens userMessages selected
  history : buildCompactedHistoryWithLimit initialContext userMessages summaryText maxTokens =
    initialContext ++ selected.map userTextMessage ++
      [userTextMessage (if summaryText = [] then "(no summary available)".toList else summaryText)]

theorem approxTokenCount_eq_zero (text : Text) : approxTokenCount text = 0 ↔ text.isEmpty = true := by
  cases text with
  | nil => simp [approxTokenCount, byteLen, APPROX_BYTES_PER_TOKEN]
  | cons ch text =>
    have hpos := ch.utf8Size_pos
    simp only [approxTokenCount, byteLen, APPROX_BYTES_PER_TOKEN, map_cons, sum_cons,
      isEmpty_cons, Bool.false_eq_true, iff_false]
    omega

theorem rdropWhile_cons_kept {α : Type} {p : α → Bool} {a : α} {l : List α}
    (h : p a = false ∨ ∃ b ∈ l, p b = false) : (a :: l).rdropWhile p = a :: l.rdropWhile p := by
  induction l using List.reverseRecOn with
  | nil =>
    obtain ha | ⟨b, hb, -⟩ := h
    · simp [List.rdropWhile, ha]
    · cases hb
  | append_singleton l c ih =>
    rw [← cons_append]
    cases hc : p c with
    | false => rw [rdropWhile_concat_neg _ _ _ (by simp [hc]),
        rdropWhile_concat_neg _ _ _ (by simp [hc]), cons_append]
    | true =>
      rw [rdropWhile_concat_pos _ _ _ hc, rdropWhile_concat_pos _ _ _ hc]
      refine ih (h.imp_right ?_)
      rintro ⟨b, hb, hpb⟩
      obtain hb | hb := mem_append.mp hb
      · exact ⟨b, hb, hpb⟩
      · rw [mem_singleton.mp hb, hc] at hpb
        cases hpb

theorem selectMessages_eq (remaining : ℕ) (messages : List Text) :
    selectMessages remaining messages =
      if weightOf approxTokenCount (fitting approxTokenCount remaining messages) = remaining then
        (fitting approxTokenCount remaining messages).rdropWhile (·.isEmpty)
      else
        fitting approxTokenCount remaining messages ++
          ((messages.drop (fitting approxTokenCount remaining messages).length).head?.toList.map
            fun m => truncateText m (.tokens
              (remaining - weightOf approxTokenCount
                (fitting approxTokenCount remaining messages)))) := by
  induction messages generalizing remaining with
  | nil =>
    simp [selectMessages, fitting, List.rdropWhile]
  | cons message older ih =>
    rw [selectMessages]
    split
    · next hzero =>
      subst hzero
      have hfits := (fitting_longest (w := approxTokenCount) 0 (message :: older)).fits
      have hnone := Nat.le_zero.mp hfits
      rw [if_pos hnone]
      symm
      rw [rdropWhile_eq_nil_iff]
      exact fun m hm => (approxTokenCount_eq_zero m).mp (weightOf_eq_zero.mp hnone m hm)
    · next hpos =>
      split
      · next hle =>
        rw [ih, fitting_of_le hle, weightOf_cons]
        have hfits := (fitting_longest (w := approxTokenCount)
          (remaining - approxTokenCount message) older).fits
        generalize fitting approxTokenCount (remaining - approxTokenCount message) older = fit at hfits
        by_cases hfull : weightOf approxTokenCount fit = remaining - approxTokenCount message
        · rw [if_pos hfull, if_pos (by omega), rdropWhile_cons_kept]
          -- the budget was not empty, so one of these messages is not
          by_cases hmessage : approxTokenCount message = 0
          · right
            have hsome : weightOf approxTokenCount fit ≠ 0 := by omega
            rw [ne_eq, weightOf_eq_zero] at hsome
            push Not at hsome
            obtain ⟨m, hm, hne⟩ := hsome
            exact ⟨m, hm, Bool.eq_false_iff.mpr fun h => hne ((approxTokenCount_eq_zero m).mpr h)⟩
          · exact .inl (Bool.eq_false_iff.mpr fun h =>
              hmessage ((approxTokenCount_eq_zero message).mpr h))
        · rw [if_neg hfull, if_neg (by omega), length_cons, drop_succ_cons,
            cons_append, Nat.sub_sub]
      · next hlt =>
        rw [fitting_of_lt (Nat.not_le.mp hlt), weightOf_nil, if_neg (Ne.symm hpos)]
        simp

theorem selectMessages_selected (maxTokens : ℕ) (userMessages : List Text) :
    SelectedWithin maxTokens userMessages (selectMessages maxTokens userMessages.reverse).reverse := by
  have hfit := fitting_longest_suffix (w := approxTokenCount) maxTokens userMessages
  obtain ⟨older, holder⟩ := hfit.isSuffix
  refine ⟨older, _, holder.symm, hfit, ?_⟩
  rw [selectMessages_eq, weightOf_reverse]
  generalize fitting approxTokenCount maxTokens userMessages.reverse = fit at holder
  split
  · rw [List.rdropWhile, reverse_reverse]
  · have hrev : userMessages.reverse = fit ++ older.reverse := by
      rw [← holder, reverse_append, reverse_reverse]
    rw [hrev, drop_left, reverse_append, List.head?_reverse]
    cases older.getLast? <;> rfl

/-! ## The place of the context -/

section
variable (formats : EmbeddedFormats)

def isUserItem (item : ResponseItem) : Bool :=
  match parseTurnItem formats item with
  | some (.userMessage _) => true
  | _ => false

def isRealUserItem (item : ResponseItem) : Bool :=
  match parseTurnItem formats item with
  | some (.userMessage user) => !isSummaryMessage (userMessageText user)
  | _ => false

def isSummaryItem (item : ResponseItem) : Bool :=
  match parseTurnItem formats item with
  | some (.userMessage user) => isSummaryMessage (userMessageText user)
  | _ => false

def isCompactionItem : ResponseItem → Bool
  | .compaction _ => true
  | _ => false

/-- The loop over the items from the last to the first: the last user message or summary,
and the last user message that is not a summary. -/
def lastUserIndices : List (ResponseItem × ℕ) → Option ℕ → Option ℕ × Option ℕ
  | [], lastUserOrSummary => (lastUserOrSummary, none)
  | (item, i) :: rest, lastUserOrSummary =>
    match parseTurnItem formats item with
    | some (.userMessage user) =>
      if isSummaryMessage (userMessageText user) then
        lastUserIndices rest (lastUserOrSummary.or (some i))
      else (lastUserOrSummary.or (some i), some i)
    | _ => lastUserIndices rest lastUserOrSummary

def insertInitialContextBeforeLastRealUserOrSummary
    (compactedHistory initialContext : List ResponseItem) : List ResponseItem :=
  let (lastUserOrSummary, lastRealUser) :=
    lastUserIndices formats compactedHistory.zipIdx.reverse none
  let lastCompaction := lastIndex isCompactionItem compactedHistory
  match (lastRealUser.or lastUserOrSummary).or lastCompaction with
  | some insertionIndex =>
    compactedHistory.take insertionIndex ++ initialContext ++ compactedHistory.drop insertionIndex
  | none => compactedHistory ++ initialContext

inductive ContextPlaced (items context result : List ResponseItem) : Prop where
  | realUser (placed : InsertedBeforeLast (isRealUserItem formats) items context result)
  | summary (noRealUser : ∀ item ∈ items, isRealUserItem formats item = false)
      (placed : InsertedBeforeLast (isSummaryItem formats) items context result)
  | compaction (noUser : ∀ item ∈ items, isUserItem formats item = false)
      (placed : InsertedBeforeLast isCompactionItem items context result)
      (last : result.getLast? = items.getLast?)
  | appended (noUser : ∀ item ∈ items, isUserItem formats item = false)
      (noCompaction : ∀ item ∈ items, isCompactionItem item = false)
      (result : result = items ++ context)

variable {item : ResponseItem}

theorem kinds_of_user {user : List UserInput}
    (hparse : parseTurnItem formats item = some (.userMessage user)) :
    isUserItem formats item = true ∧
      isRealUserItem formats item = !isSummaryMessage (userMessageText user) ∧
      isSummaryItem formats item = isSummaryMessage (userMessageText user) := by
  simp only [isUserItem, isRealUserItem, isSummaryItem, hparse, and_self]

theorem kinds_of_other (hother : ∀ user, parseTurnItem formats item ≠ some (.userMessage user)) :
    isUserItem formats item = false ∧ isRealUserItem formats item = false := by
  unfold isUserItem isRealUserItem
  split
  · next user hparse => exact absurd hparse (hother user)
  · exact ⟨rfl, rfl⟩

theorem isSummaryItem_of_not_real (hreal : isRealUserItem formats item = false) :
    isUserItem formats item = isSummaryItem formats item := by
  unfold isRealUserItem at hreal
  unfold isUserItem isSummaryItem
  split
  · next user hparse =>
    rw [hparse] at hreal
    exact (Bool.not_eq_eq_eq_not.mp hreal).symm
  · rfl

theorem lastUserIndices_eq (items : List ResponseItem) (seen : Option ℕ) :
    lastUserIndices formats items.zipIdx.reverse seen =
      (seen.or (lastIndex (isUserItem formats) items), lastIndex (isRealUserItem formats) items) := by
  induction items using List.reverseRecOn generalizing seen with
  | nil => simp [lastUserIndices, lastIndex]
  | append_singleton items item ih =>
    rw [zipIdx_concat, lastUserIndices, lastIndex_concat, lastIndex_concat]
    split
    · next user hparse =>
      obtain ⟨huser, hreal, -⟩ := kinds_of_user formats hparse
      rw [huser, hreal]
      cases hsummary : isSummaryMessage (userMessageText user) with
      | true => simp [ih]
      | false => simp
    · next hother =>
      obtain ⟨huser, hreal⟩ := kinds_of_other formats hother
      rw [ih, huser, hreal]
      rfl

theorem context_placed (items context : List ResponseItem) : ContextPlaced formats items context
      (insertInitialContextBeforeLastRealUserOrSummary formats items context) := by
  unfold insertInitialContextBeforeLastRealUserOrSummary
  rw [lastUserIndices_eq, Option.none_or]
  cases hreal : lastIndex (isRealUserItem formats) items with
  | some i => exact .realUser (insertedBeforeLast_of_index context hreal)
  | none =>
    cases huser : lastIndex (isUserItem formats) items with
    | some i =>
      have hnoReal := lastIndex_eq_none.mp hreal
      exact .summary hnoReal ((insertedBeforeLast_of_index context huser).congr fun item hitem =>
        isSummaryItem_of_not_real formats (hnoReal item hitem))
    | none =>
      cases hcompaction : lastIndex isCompactionItem items with
      | some i =>
        have hplaced := insertedBeforeLast_of_index context hcompaction
        exact .compaction (lastIndex_eq_none.mp huser) hplaced hplaced.getLast?
      | none =>
        exact .appended (lastIndex_eq_none.mp huser) (lastIndex_eq_none.mp hcompaction) rfl

theorem compacted_history_shape : (∀ initialContext userMessages summaryText maxTokens,
      ∃ selected, CompactedShape initialContext userMessages summaryText maxTokens selected) ∧
    ∀ items context, ContextPlaced formats items context
      (insertInitialContextBeforeLastRealUserOrSummary formats items context) :=
  ⟨fun _ userMessages _ maxTokens => ⟨_, selectMessages_selected maxTokens userMessages, rfl⟩,
    context_placed formats⟩

end

/-- An empty message that fits is not looked at once the budget is used up. -/
theorem empty_message_dropped :
    ¬ ∃ truncated fit, LongestFittingSuffix approxTokenCount 1 [[], "abcd".toList] fit ∧
      truncated.length ≤ 1 ∧
      buildCompactedHistoryWithLimit [] [[], "abcd".toList] "Done.".toList 1 =
        (truncated ++ fit).map userTextMessage ++ [userTextMessage "Done.".toList] := by
  rintro ⟨truncated, fit, hfit, -, hhistory⟩
  have hall := hfit.longest _ suffix_rfl (by decide)
  have hbuilt : (buildCompactedHistoryWithLimit [] [[], "abcd".toList] "Done.".toList 1).length = 2 := by
    decide +kernel
  have hlen := hall.length_le
  rw [hhistory, length_append, length_map, length_append] at hbuilt
  simp only [length_cons, length_nil] at hlen hbuilt
  omega

end Codex
