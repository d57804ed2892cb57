import Codex.Foundation.AsciiCase
import Codex.ExecPolicy.NetworkAmend

/-!
# Hosts of network rules, normalised again

A host is normalised when a rule is written and again when the rule is read back. One
pass takes one layer away: brackets or a port, then the dots at the end, then the white
space. The host stays as it is under a second pass exactly if nothing of this kind is
left in it (`normalize_normalized_iff`).
-/

namespace Codex

open Foundation List

/-! ## Layers -/

def portedName (host : Text) : Option Text :=
  match splitOnce ':' host with
  | some (candidate, port) => if candidate ≠ [] ∧ isPort port then some candidate else none
  | none => none

def undecorated (host : Text) : Text :=
  match host with
  | '[' :: stripped => stripped.takeWhile (· ≠ ']')
  | host => (portedName host).getD host

def Bare (host : Text) : Prop :=
  host.head? ≠ some '[' ∧ portedName host = none ∧ host.getLast? ≠ some '.'

instance decidableBare (host : Text) : Decidable (Bare host) :=
  inferInstanceAs (Decidable (_ ∧ _ ∧ _))

/-- Under one layer, the dots at its end and the white space around it there is none. -/
def OneLayer (raw : Text) : Prop :=
  Bare (trim ((undecorated (trim raw)).rdropWhile (· = '.')))

instance decidableOneLayer (raw : Text) : Decidable (OneLayer raw) :=
  inferInstanceAs (Decidable (Bare _))

theorem colon_not_mem_port {port : Text} (h : isPort port = true) : ':' ∉ port := by
  intro hmem
  have hall := (Bool.and_eq_true_iff.mp h).2
  exact absurd (all_eq_true.mp hall ':' hmem) (by decide)

variable {host raw : Text}

theorem portedName_eq_some {name : Text} : portedName host = some name ↔
    ∃ port, host = name ++ ':' :: port ∧ ':' ∉ name ∧ name ≠ [] ∧ isPort port = true := by
  unfold portedName
  constructor
  · intro h
    split at h
    · rename_i candidate port hsplit
      split at h
      · rename_i hport
        cases h
        obtain ⟨happend, hnot⟩ := splitOnce_eq_some.mp hsplit
        exact ⟨port, happend, hnot, hport⟩
      · cases h
    · cases h
  · rintro ⟨port, rfl, hnot, hne, hport⟩
    rw [splitOnce_append hnot]
    exact if_pos ⟨hne, hport⟩

theorem undecorated_of_not_bracket {host : Text} (h : host.head? ≠ some '[') :
    undecorated host = (portedName host).getD host := by
  unfold undecorated
  split
  · exact absurd rfl h
  · rfl

theorem undecorated_of_bare (h : Bare host) : undecorated host = host := by
  rw [undecorated_of_not_bracket h.1, h.2.1]
  rfl

theorem undecorated_sublist (host : Text) : (undecorated host).Sublist host := by
  unfold undecorated
  split
  · exact .cons _ <| IsPrefix.sublist <| takeWhile_prefix _
  · cases hname : portedName host with
    | none => exact List.Sublist.refl host
    | some name =>
      obtain ⟨port, rfl, -⟩ := portedName_eq_some.mp hname
      exact sublist_append_left name _

theorem undecorated_shorter {host : Text}
    (h : host.head? = some '[' ∨ portedName host ≠ none) :
    (undecorated host).length < host.length := by
  unfold undecorated
  split
  · exact Nat.lt_succ_of_le <| IsPrefix.length_le <| takeWhile_prefix _
  · rename_i hopen
    cases hname : portedName host with
    | none =>
      rcases h with hhead | hport
      · obtain ⟨rest, hrest⟩ := List.head?_eq_some_iff.mp hhead
        exact absurd hrest (hopen rest)
      · exact absurd hname hport
    | some name =>
      obtain ⟨port, rfl, -⟩ := portedName_eq_some.mp hname
      simp

/-! ## One pass -/

theorem stripHostDecoration_plain {host : Text} (raw : Text) (h : host.head? ≠ some '[') :
    stripHostDecoration raw host = .ok (undecorated host) := by
  rw [undecorated_of_not_bracket h]
  unfold stripHostDecoration portedName
  split
  · exact absurd rfl h
  · by_cases hcolon : ':' ∈ host
    · obtain ⟨name, port, rfl, hname⟩ := eq_append_cons_of_mem hcolon
      rw [splitOnce_append hname]
      by_cases hport : ':' ∈ port
      · -- a second colon is no digit, and the code looks for exactly one
        have hnot : isPort port = false := by
          by_contra hdigits
          exact colon_not_mem_port (Bool.eq_true_of_not_eq_false hdigits) hport
        have hcount : (name ++ ':' :: port).count ':' ≠ 1 := by
          have hpos := count_pos_iff.mpr hport
          simp only [count_append, count_cons_self]
          omega
        simp only [hnot, Bool.false_eq_true, and_false, if_false, Option.getD_none]
        split
        · rw [if_neg fun hand => hcount hand.1]
        · rfl
      · have hcount : (name ++ ':' :: port).count ':' = 1 := by
          rw [count_append, count_cons_self, count_eq_zero_of_not_mem hname,
            count_eq_zero_of_not_mem hport]
        rw [rsplitOnce_append hport]
        simp only [hcount, true_and]
        split <;> rfl
    · have hnone : rsplitOnce ':' host = none := by
        rw [rsplitOnce, splitOnce_eq_none.mpr (mt mem_reverse.mp hcolon)]
        rfl
      rw [hnone, splitOnce_eq_none.mpr hcolon]
      rfl

theorem stripHostDecoration_ok {inner : Text} (h : stripHostDecoration raw host = .ok inner) :
    inner = undecorated host := by
  by_cases hopen : host.head? = some '['
  · obtain ⟨stripped, rfl⟩ := List.head?_eq_some_iff.mp hopen
    unfold stripHostDecoration at h
    simp only at h
    split at h
    · cases h
    · rename_i inside rest hsplit
      obtain ⟨rfl, hclose⟩ := splitOnce_eq_some.mp hsplit
      have hinside : ∀ c ∈ inside, decide (c ≠ ']') = true := by
        intro c hc
        refine decide_eq_true ?_
        rintro rfl
        exact hclose hc
      have htake : (inside ++ ']' :: rest).takeWhile (· ≠ ']') = inside := by
        rw [takeWhile_append_of_pos hinside]
        simp
      split_ifs at h
      all_goals
        cases h
        exact htake.symm
  · rw [stripHostDecoration_plain raw hopen] at h
    cases h
    rfl

structure CleanHost (host : Text) : Prop where
  nonempty : host ≠ []
  lowered : toAsciiLowercase host = host
  noStar : '*' ∉ host
  noSpace : ∀ c ∈ host, isWhitespace c = false
  noPath : '/' ∉ host ∧ '?' ∉ host ∧ '#' ∉ host

theorem CleanHost.trim (h : CleanHost host) : trim host = host :=
  trim_eq_self (fun c hc => h.noSpace c (mem_of_mem_head? hc))
    fun c hc => h.noSpace c (mem_of_getLast? hc)

theorem trim_sublist (s : Text) : (trim s).Sublist s :=
  (trimEnd_isPrefix _).sublist.trans (trimStart_suffix s).sublist

theorem mem_lower_sign {s : Text} {a : Char} (ha : IsSign a) : a ∈ toAsciiLowercase s ↔ a ∈ s := by
  unfold toAsciiLowercase
  simp only [mem_map, toLower_eq_iff ha, exists_eq_right]

theorem normalize_spec (h : normalizeNetworkRuleHost raw = .ok host) :
    host = toAsciiLowercase (trim ((undecorated (trim raw)).rdropWhile (· = '.'))) ∧
      CleanHost host := by
  unfold normalizeNetworkRuleHost at h
  simp only at h
  split at h
  · cases h
  split at h
  · cases h
  rename_i hpath
  simp only [not_or] at hpath
  obtain ⟨-, hslash, hquery, hfragment⟩ := hpath
  split at h
  · cases h
  rename_i inner hinner
  obtain rfl := stripHostDecoration_ok hinner
  split at h
  · cases h
  rename_i hne
  split at h
  · cases h
  rename_i hstar
  split at h
  · cases h
  rename_i hspace
  cases h
  have hsub : (trim ((undecorated (trim raw)).rdropWhile (· = '.'))).Sublist (trim raw) :=
    have hdots := rdropWhile_prefix (· = '.') (undecorated (trim raw))
    ((trim_sublist _).trans hdots.sublist).trans (undecorated_sublist _)
  have hsign : ∀ {a : Char}, IsSign a → a ∉ trim raw →
      a ∉ toAsciiLowercase (trim ((undecorated (trim raw)).rdropWhile (· = '.'))) :=
    fun ha hnot hmem => hnot (hsub.subset ((mem_lower_sign ha).mp hmem))
  refine ⟨rfl, hne, lower_lower _, hstar, ?_, hsign (by decide) hslash, hsign (by decide) hquery,
    hsign (by decide) hfragment⟩
  intro c hc
  have hall := any_eq_false.mp (Bool.eq_false_of_not_eq_true hspace) c hc
  simpa using hall

/-! ## The second pass -/

theorem CleanHost.normalize_bare (h : CleanHost host) (hbare : Bare host) :
    normalizeNetworkRuleHost host = .ok host := by
  have hdots : host.rdropWhile (· = '.') = host := by
    rw [rdropWhile_eq_self_iff]
    intro hne
    have hlast := hbare.2.2
    rw [List.getLast?_eq_getLast_of_ne_nil hne] at hlast
    simpa using hlast
  have hscheme : ¬ "://".toList <:+: host := fun hin => h.noPath.1 (hin.subset (by decide))
  have hspace : host.any isWhitespace = false :=
    any_eq_false.mpr fun c hc => by simp [h.noSpace c hc]
  unfold normalizeNetworkRuleHost
  simp only [h.trim]
  rw [if_neg h.nonempty, if_neg (not_or.mpr ⟨hscheme, by simp [h.noPath]⟩),
    stripHostDecoration_plain host hbare.1, undecorated_of_bare hbare]
  simp only [hdots, h.trim, h.lowered]
  rw [if_neg h.nonempty, if_neg h.noStar, if_neg (by simp [hspace])]

theorem CleanHost.normalize_iff (h : CleanHost host) :
    normalizeNetworkRuleHost host = .ok host ↔ Bare host := by
  refine ⟨fun hok => ?_, h.normalize_bare⟩
  obtain ⟨heq, -⟩ := normalize_spec hok
  rw [h.trim] at heq
  -- every layer that is taken away makes the text shorter
  have hlen : host.length ≤ ((undecorated host).rdropWhile (· = '.')).length := by
    have hlower := congrArg List.length heq
    rw [toAsciiLowercase, length_map] at hlower
    exact hlower.trans_le (trim_sublist _).length_le
  have hinner := IsPrefix.length_le <| rdropWhile_prefix (· = '.') (undecorated host)
  have hkept : ¬(host.head? = some '[' ∨ portedName host ≠ none) := by
    intro hlayer
    have hshort := undecorated_shorter hlayer
    omega
  obtain ⟨hopen, hport⟩ := not_or.mp hkept
  have hself : undecorated host = host := by
    rw [undecorated_of_not_bracket hopen, not_not.mp hport]
    rfl
  rw [hself] at hlen
  have hfront := rdropWhile_prefix (· = '.') host
  have hdots := hfront.eq_of_length_le hlen
  refine ⟨hopen, not_not.mp hport, fun hlast => ?_⟩
  rw [rdropWhile_eq_self_iff] at hdots
  rw [List.getLast?_eq_getLast_of_ne_nil h.nonempty] at hlast
  exact hdots h.nonempty (by simpa using hlast)

theorem isPort_lower (port : Text) : isPort (toAsciiLowercase port) = isPort port := by
  have hdigit : ∀ c : Char, c.toLower.isDigit = c.isDigit := by
    intro c
    unfold Char.isDigit
    simp only [ge_iff_le, UInt32.le_iff_toNat_le, Char.toNat_val, toNat_toLower]
    split
    · rw [Bool.eq_iff_iff]
      simp
      omega
    · rfl
  unfold isPort toAsciiLowercase
  simp only [map_eq_nil_iff, ne_eq, all_map, Function.comp_def, hdigit]

theorem portedName_lower (host : Text) :
    portedName (toAsciiLowercase host) = (portedName host).map toAsciiLowercase := by
  unfold portedName
  rw [splitOnce_lower (by decide)]
  cases splitOnce ':' host with
  | none => rfl
  | some parts =>
    obtain ⟨name, port⟩ := parts
    have hnil : toAsciiLowercase name = [] ↔ name = [] := map_eq_nil_iff
    simp only [Option.map_some, isPort_lower, ne_eq, hnil]
    split <;> rfl

theorem bare_lower (host : Text) : Bare (toAsciiLowercase host) ↔ Bare host := by
  unfold Bare
  rw [portedName_lower, Option.map_eq_none_iff]
  unfold toAsciiLowercase
  rw [List.head?_map, List.getLast?_map]
  simp only [ne_eq, Option.map_eq_some_iff, toLower_eq_iff (a := '[') (by decide),
    toLower_eq_iff (a := '.') (by decide), exists_eq_right]

theorem normalize_normalized_iff (h : normalizeNetworkRuleHost raw = .ok host) :
    normalizeNetworkRuleHost host = .ok host ↔ OneLayer raw := by
  obtain ⟨heq, hclean⟩ := normalize_spec h
  rw [hclean.normalize_iff, heq]
  exact bare_lower _

/-! ## Through the rules file -/

/-- A rule that is written is read back as it was written exactly if its host had one
layer to take away. -/
theorem ruleHost_stable_iff {parse : Text → Except PolicyError Policy}
    (hreads : ReadsAppended parse) {call : NetworkAmendment} {host : Text}
    (hhost : normalizeNetworkRuleHost call.host = .ok host) :
    (normalizeNetworkRuleHost host = .ok host ↔ OneLayer call.host) ∧
      ∀ {contents contents' : Text} {policy : Policy}, parse contents = .ok policy →
        call.line host ∉ lines contents →
        blockingAppendNetworkRule contents call = .ok contents' →
        (parse contents' = .ok { policy with
            networkRules := policy.networkRules ++
              [⟨host, call.protocol, call.decision, call.justification⟩] } ↔
          OneLayer call.host) := by
  have hstable := normalize_normalized_iff hhost
  refine ⟨hstable, fun hparse hnew happend => ?_⟩
  unfold blockingAppendNetworkRule at happend
  rw [hhost] at happend
  simp only at happend
  split at happend
  · cases happend
  · rename_i hj
    cases happend
    have hread := (hreads _ _ host call.protocol call.decision call.justification hnew hparse).trans
      (networkRule_spelled (Bool.eq_false_of_not_eq_true hj))
    rw [NetworkAmendment.line, hread, ← hstable]
    cases normalizeNetworkRuleHost host with
    | error e | ok host' => simp

theorem exampleRule_read_back :
    normalizeNetworkRuleHost "example.com".toList = .ok "example.com".toList ∧
      readRules (exampleState [.allow] []).contents = .ok ⟨[], [exampleRule .allow], []⟩ := by
  have hlayer : OneLayer "example.com".toList := by decide +kernel
  have hstable := @ruleHost_stable_iff readRules readRules_readsAppended (exampleCall .allow) _
    normalize_example
  exact ⟨hstable.1.mpr hlayer, (@hstable.2 [] (exampleState [.allow] []).contents Policy.empty
    (by decide +kernel) (by decide +kernel) (by decide +kernel)).mpr hlayer⟩

def nestedPort : NetworkAmendment := ⟨"[a:1]".toList, .https, .allow, none⟩

/-- The brackets go in the first pass and the port in the second one. -/
theorem nested_port_read_as_other_host :
    normalizeNetworkRuleHost nestedPort.host = .ok "a:1".toList ∧
      normalizeNetworkRuleHost "a:1".toList = .ok "a".toList ∧
      blockingAppendNetworkRule [] nestedPort = .ok (nestedPort.line "a:1".toList ++ ['\n']) ∧
      readRules (nestedPort.line "a:1".toList ++ ['\n']) =
        .ok ⟨[], [⟨"a".toList, .https, .allow, none⟩], []⟩ := by
  decide +kernel

end Codex
