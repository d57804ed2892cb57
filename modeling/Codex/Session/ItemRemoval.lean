import Codex.Foundation.Pairs
import Codex.Session.PromptInvariant

/-!
# Items taken off the ends

A history that is too long loses items at its ends, each with its counterpart. Among items
in pairs the searches by kind find what `removeCounterpart` takes, so the rest stays paired.
-/

namespace Codex

open Foundation

/-! ## Counterparts -/

def isFunctionCallWith (callId : Text) : ResponseItem → Bool
  | .functionCall _ _ _ _ existing => existing = callId
  | _ => false

def isLocalShellCallWith (callId : Text) : ResponseItem → Bool
  | .localShellCall _ (some existing) _ _ => existing = callId
  | _ => false

def isFunctionCallOutputWith (callId : Text) : ResponseItem → Bool
  | .functionCallOutput existing _ => existing = callId
  | _ => false

def isToolSearchCallWith (callId : Text) : ResponseItem → Bool
  | .toolSearchCall _ (some existing) _ _ _ => existing = callId
  | _ => false

def isToolSearchOutputWith (callId : Text) : ResponseItem → Bool
  | .toolSearchOutput (some existing) _ _ _ => existing = callId
  | _ => false

def isCustomToolCallWith (callId : Text) : ResponseItem → Bool
  | .customToolCall _ _ existing _ _ => existing = callId
  | _ => false

def isCustomToolCallOutputWith (callId : Text) : ResponseItem → Bool
  | .customToolCallOutput existing _ _ => existing = callId
  | _ => false

def removeFirstMatching (items : List ResponseItem) (predicate : ResponseItem → Bool) :
    List ResponseItem := items.eraseP predicate

def removeCorrespondingFor (items : List ResponseItem) : ResponseItem → List ResponseItem
  | .functionCall _ _ _ _ callId => removeFirstMatching items (isFunctionCallOutputWith callId)
  | .functionCallOutput callId _ =>
    if items.any (isFunctionCallWith callId) then items.eraseP (isFunctionCallWith callId)
    else items.eraseP (isLocalShellCallWith callId)
  | .toolSearchCall _ (some callId) _ _ _ =>
    removeFirstMatching items (isToolSearchOutputWith callId)
  | .toolSearchOutput (some callId) _ _ _ =>
    removeFirstMatching items (isToolSearchCallWith callId)
  | .customToolCall _ _ callId _ _ =>
    removeFirstMatching items (isCustomToolCallOutputWith callId)
  | .customToolCallOutput callId _ _ =>
    removeFirstMatching items (isCustomToolCallWith callId)
  | .localShellCall _ (some callId) _ _ =>
    removeFirstMatching items (isFunctionCallOutputWith callId)
  | _ => items

namespace ContextManager

def removeFirstItem (h : ContextManager) : ContextManager :=
  match h.items with
  | [] => h
  | removed :: items => { h with items := removeCorrespondingFor items removed }

def removeLastItem (h : ContextManager) : Bool × ContextManager :=
  match h.items.getLast? with
  | some removed => (true,
    { h with
      items := removeCorrespondingFor h.items.dropLast removed
      historyVersion := min (h.historyVersion + 1) (2 ^ 64 - 1) })
  | none => (false, h)

inductive HistoryEnd | first | last

def removeEnd (h : ContextManager) : HistoryEnd → ContextManager
  | .first => h.removeFirstItem
  | .last => h.removeLastItem.2

end ContextManager

open ContextManager

/-! ## Searches by kind -/

variable (callId : Text)

theorem isFunctionCallOutputWith_eq : isFunctionCallOutputWith callId =
    fun item => decide (outputKey item = some (.function callId)) := by
  funext item
  cases item with
  | toolSearchOutput callId => cases callId <;> simp [isFunctionCallOutputWith, outputKey]
  | _ => simp [isFunctionCallOutputWith, outputKey]

theorem isToolSearchOutputWith_eq : isToolSearchOutputWith callId =
    fun item => decide (outputKey item = some (.toolSearch callId)) := by
  funext item
  cases item with
  | toolSearchOutput callId => cases callId <;> simp [isToolSearchOutputWith, outputKey]
  | _ => simp [isToolSearchOutputWith, outputKey]

theorem isCustomToolCallOutputWith_eq : isCustomToolCallOutputWith callId =
    fun item => decide (outputKey item = some (.custom callId)) := by
  funext item
  cases item with
  | toolSearchOutput callId => cases callId <;> simp [isCustomToolCallOutputWith, outputKey]
  | _ => simp [isCustomToolCallOutputWith, outputKey]

theorem isToolSearchCallWith_eq : isToolSearchCallWith callId =
    fun item => decide (callKey item = some (.toolSearch callId)) := by
  funext item
  cases item with
  | toolSearchCall _ callId
  | localShellCall _ callId => cases callId <;> simp [isToolSearchCallWith, callKey]
  | _ => simp [isToolSearchCallWith, callKey]

theorem isCustomToolCallWith_eq : isCustomToolCallWith callId =
    fun item => decide (callKey item = some (.custom callId)) := by
  funext item
  cases item with
  | toolSearchCall _ callId
  | localShellCall _ callId => cases callId <;> simp [isCustomToolCallWith, callKey]
  | _ => simp [isCustomToolCallWith, callKey]

theorem isFunctionCallWith_eq :
    (fun item => isFunctionCallWith callId item || isLocalShellCallWith callId item) =
      fun item => decide (callKey item = some (.function callId)) := by
  funext item
  cases item with
  | toolSearchCall _ callId | localShellCall _ callId =>
    cases callId <;> simp [isFunctionCallWith, isLocalShellCallWith, callKey]
  | _ => simp [isFunctionCallWith, isLocalShellCallWith, callKey]

theorem removeCorrespondingFor_eq {items : List ResponseItem}
    (hcalls : ∀ key, items.countP (fun i => callKey i = some key) ≤ 1) (item : ResponseItem) :
    removeCorrespondingFor items item = removeCounterpart callKey outputKey item items := by
  cases item with
  | functionCall id name namespace_ arguments callId =>
    rw [removeCorrespondingFor, removeFirstMatching, isFunctionCallOutputWith_eq]
    rfl
  | functionCallOutput callId output =>
    have heither := hcalls (.function callId)
    rw [← isFunctionCallWith_eq] at heither
    rw [removeCorrespondingFor, eraseP_either heither, isFunctionCallWith_eq]
    rfl
  | customToolCall id status callId name input =>
    rw [removeCorrespondingFor, removeFirstMatching, isCustomToolCallOutputWith_eq]
    rfl
  | customToolCallOutput callId name output =>
    rw [removeCorrespondingFor, removeFirstMatching, isCustomToolCallWith_eq]
    rfl
  | toolSearchCall id callId status execution arguments =>
    cases callId with
    | none => rfl
    | some callId =>
      rw [removeCorrespondingFor, removeFirstMatching, isToolSearchOutputWith_eq]
      rfl
  | toolSearchOutput callId status execution tools =>
    cases callId with
    | none => rfl
    | some callId =>
      rw [removeCorrespondingFor, removeFirstMatching, isToolSearchCallWith_eq]
      rfl
  | localShellCall id callId status action =>
    cases callId with
    | none => rfl
    | some callId =>
      rw [removeCorrespondingFor, removeFirstMatching, isFunctionCallOutputWith_eq]
      rfl
  | _ => rfl

/-! ## Removals -/

/-- Each call id has at most one call and one output of a kind, and both or neither. -/
abbrev ItemsPaired (items : List ResponseItem) : Prop := PairedOnce callKey outputKey items

def RemovesPair (items left : List ResponseItem) : HistoryEnd → Prop
  | .first => match items with
    | [] => left = []
    | removed :: rest => TakesCounterpart callKey outputKey removed rest left
  | .last => match items.getLast? with
    | none => left = []
    | some removed => TakesCounterpart callKey outputKey removed items.dropLast left

theorem removeCorresponding_paired {rest : List ResponseItem} {removed : ResponseItem}
    (h : ItemsPaired (removed :: rest)) :
    TakesCounterpart callKey outputKey removed rest (removeCorrespondingFor rest removed) ∧
      ItemsPaired (removeCorrespondingFor rest removed) := by
  have hcalls : ∀ key, rest.countP (fun i => callKey i = some key) ≤ 1 := fun key =>
    Nat.le_trans (List.sublist_cons_self removed rest).countP_le (h.calls key)
  rw [removeCorrespondingFor_eq hcalls]
  exact takes_counterpart (fun _ _ => outputKey_of_call) h

theorem removeEnd_paired {h : ContextManager} (hpaired : ItemsPaired h.items) (e : HistoryEnd) :
    RemovesPair h.items (h.removeEnd e).items e ∧ ItemsPaired (h.removeEnd e).items := by
  cases e with
  | first =>
    unfold RemovesPair removeEnd removeFirstItem
    cases hitems : h.items with
    | nil => simpa [hitems] using hpaired
    | cons removed rest => exact removeCorresponding_paired (hitems ▸ hpaired)
  | last =>
    unfold RemovesPair removeEnd removeLastItem
    cases hlast : h.items.getLast? with
    | none =>
      have hnil := List.getLast?_eq_none_iff.mp hlast
      exact ⟨hnil, hpaired⟩
    | some removed =>
      have hperm : h.items.Perm (removed :: h.items.dropLast) := by
        conv_lhs => rw [← List.dropLast_append_getLast? removed hlast]
        exact List.perm_append_singleton _ _
      exact removeCorresponding_paired (hpaired.perm hperm)

def removeEnds (h : ContextManager) (ends : List HistoryEnd) : ContextManager :=
  ends.foldl removeEnd h

theorem removals_keep_pairs {h : ContextManager} (hpaired : ItemsPaired h.items)
    (ends : List HistoryEnd) : ItemsPaired (removeEnds h ends).items ∧
      ∀ e, RemovesPair (removeEnds h ends).items ((removeEnds h ends).removeEnd e).items e := by
  suffices hrun : ItemsPaired (removeEnds h ends).items from
    ⟨hrun, fun e => (removeEnd_paired hrun e).1⟩
  induction ends generalizing h with
  | nil => exact hpaired
  | cons e ends ih => exact ih (removeEnd_paired hpaired e).2

def answeredCalls : ContextManager where
  items := [.localShellCall none (some "a".toList) "completed".toList [],
    .functionCall none "read".toList none [] "b".toList,
    .message none USER [.inputText "go on".toList] none,
    .functionCallOutput "b".toList ⟨.text "ok".toList, none⟩,
    .functionCallOutput "a".toList ⟨.text "done".toList, none⟩]
  historyVersion := 0
  referenceContextItem := none

theorem answeredCalls_paired : ItemsPaired answeredCalls.items :=
  PairedOnce.of_keys (by decide) (by decide)

theorem answeredCalls_removed : ItemsPaired (removeEnds answeredCalls [.first, .last]).items ∧
      ∀ e, RemovesPair (removeEnds answeredCalls [.first, .last]).items
        ((removeEnds answeredCalls [.first, .last]).removeEnd e).items e :=
  removals_keep_pairs answeredCalls_paired [.first, .last]

end Codex
