import Codex.Foundation.AsciiCase
import Codex.NetworkProxy.Policy

/-!
# Normalised hosts and patterns

Two spellings that differ in ASCII case are normalised to the same text
(`normalizePattern_lower`). A normalised host is in lower case and does not end with a
dot, and the texts of this form are the hosts (`exists_host`).
-/

namespace Codex.NetworkProxy

open Foundation List Option

/-! ## Spellings in other letters -/

variable (s : Text)

theorem normalizeDnsHost_lower : normalizeDnsHost (toAsciiLowercase s) = normalizeDnsHost s := by
  unfold normalizeDnsHost
  rw [lower_lower]

theorem bracketed_lower : bracketed (toAsciiLowercase s) = (bracketed s).map toAsciiLowercase := by
  have hopen : IsSign '[' := by decide
  have hclose : IsSign ']' := by decide
  cases s with
  | nil => rfl
  | cons c s =>
    rw [lower_cons]
    by_cases h : c = '['
    · subst h
      have hl : '['.toLower = '[' := (toLower_eq_iff hopen).mpr rfl
      rw [hl, bracketed, bracketed, splitOnce_lower hclose]
      cases splitOnce ']' s <;> rfl
    · have hl : c.toLower ≠ '[' := mt (toLower_eq_iff hopen).mp h
      unfold bracketed
      split <;> simp_all

theorem withoutPort_lower :
    withoutPort (toAsciiLowercase s) = toAsciiLowercase (withoutPort s) := by
  have hcolon : IsSign ':' := by decide
  unfold withoutPort
  rw [count_lower hcolon, takeWhile_lower]
  · split <;> rfl
  · intro c
    simp [toLower_eq_iff hcolon]

theorem normalizeHost_lower : normalizeHost (toAsciiLowercase s) = normalizeHost s := by
  unfold normalizeHost
  simp only [trim_lower, bracketed_lower]
  cases bracketed (trim s) with
  | some inner => exact normalizeDnsHost_lower inner
  | none => simp only [map_none, withoutPort_lower, normalizeDnsHost_lower]

theorem normalizePattern_lower : normalizePattern (toAsciiLowercase s) = normalizePattern s := by
  have hstar : (toAsciiLowercase (trim s) = ['*']) = (trim s = ['*']) :=
    propext (lower_eq_iff (isSign_of_all rfl))
  unfold normalizePattern
  simp only [trim_lower, hstar, stripPrefix_lower (isSign_of_all (s := "**.".toList) rfl),
    stripPrefix_lower (isSign_of_all (s := "*.".toList) rfl)]
  split
  · rfl
  · cases stripPrefix "**.".toList (trim s) with
    | some domain => simp only [map_some, normalizeHost_lower]
    | none =>
      cases stripPrefix "*.".toList (trim s) with
      | some domain => simp only [map_some, map_none, normalizeHost_lower]
      | none => simp only [map_none, normalizeHost_lower]

/-! ## The letters of a normalised text -/

def Lowered (s : Text) : Prop := ∀ c ∈ s, c.toLower = c

instance decidableLowered (s : Text) : Decidable (Lowered s) := List.decidableBAll _ s

theorem Lowered.lower {s : Text} (h : Lowered s) : toAsciiLowercase s = s := lower_eq_self.mpr h

theorem lowered_normalizeDnsHost : Lowered (normalizeDnsHost s) :=
  fun _ hc => by
    have hfront := rdropWhile_prefix (· == '.') (toAsciiLowercase s)
    exact mem_lower (hfront.subset hc)

theorem normalizeHost_eq : ∃ inner, normalizeHost s = normalizeDnsHost inner := by
  unfold normalizeHost
  simp only
  split
  · exact ⟨_, rfl⟩
  · exact ⟨_, rfl⟩

theorem lowered_normalizeHost : Lowered (normalizeHost s) := by
  obtain ⟨inner, h⟩ := normalizeHost_eq s
  rw [h]
  exact lowered_normalizeDnsHost inner

theorem lowered_normalizePattern : Lowered (normalizePattern s) := by
  have happend : ∀ {x y : Text}, Lowered x → Lowered y → Lowered (x ++ y) := by
    intro x y hx hy c hc
    exact (mem_append.mp hc).elim (hx c) (hy c)
  have hsigns : ∀ x ∈ [['*'], "**.".toList, "*.".toList], Lowered x := by
    decide
  unfold normalizePattern
  simp only
  split
  · exact hsigns _ (by simp)
  · split
    · exact happend (hsigns _ (by simp)) (lowered_normalizeHost _)
    · split
      · exact happend (hsigns _ (by simp)) (lowered_normalizeHost _)
      · exact lowered_normalizeHost _

theorem getLast_normalizeHost : (normalizeHost s).getLast? ≠ some '.' := by
  obtain ⟨inner, hinner⟩ := normalizeHost_eq s
  rw [hinner]
  intro h
  have hne : normalizeDnsHost inner ≠ [] := by
    intro e
    simp [e] at h
  have hlast := rdropWhile_last_not (· == '.') (toAsciiLowercase inner) hne
  rw [List.getLast?_eq_getLast_of_ne_nil hne, Option.some.injEq] at h
  unfold normalizeDnsHost trimEndDots at h
  simp [h] at hlast

theorem trimEndDots_eq_self {s : Text} (h : s.getLast? ≠ some '.') : trimEndDots s = s := by
  unfold trimEndDots
  rw [rdropWhile_eq_self_iff]
  intro hne
  rw [List.getLast?_eq_getLast_of_ne_nil hne] at h
  simpa using h

theorem exists_host {s : Text} (hlow : Lowered s) (hclose : ']' ∉ s)
    (hdot : s.getLast? ≠ some '.') (hne : s ≠ []) : ∃ host : Host, host.text = s := by
  refine ⟨⟨s, ⟨'[' :: (s ++ [']']), ?_⟩, hne⟩, rfl⟩
  have htrim : trim ('[' :: (s ++ [']'])) = '[' :: (s ++ [']']) := by
    refine trim_eq_self ?_ ?_
    · intro c hc
      cases hc
      decide
    · intro c hc
      rw [← cons_append, List.getLast?_append] at hc
      cases hc
      decide
  have hsplit : splitOnce ']' (s ++ [']']) = some (s, []) := by
    clear htrim hdot hne hlow
    induction s with
    | nil => rfl
    | cons c s ih =>
      rw [mem_cons, not_or] at hclose
      rw [cons_append, splitOnce, if_neg (Ne.symm hclose.1), ih hclose.2]
      rfl
  unfold normalizeHost
  simp only [htrim, bracketed, hsplit, map_some]
  unfold normalizeDnsHost
  rw [hlow.lower, trimEndDots_eq_self hdot]

theorem Host.lowered (host : Host) : Lowered host.text := by
  obtain ⟨input, h⟩ := host.parsed
  rw [← h]
  exact lowered_normalizeHost input

theorem Host.getLast (host : Host) : host.text.getLast? ≠ some '.' := by
  obtain ⟨input, h⟩ := host.parsed
  rw [← h]
  exact getLast_normalizeHost input

/-! ## Compiled patterns -/

namespace DomainPattern

def apex : DomainPattern → Option Text
  | exact domain => some domain
  | subdomainsOnly _ => none
  | apexAndSubdomains domain => some domain

def parent : DomainPattern → Option Text
  | exact _ => none
  | subdomainsOnly domain => some domain
  | apexAndSubdomains domain => some domain

def domain : DomainPattern → Text
  | exact domain => domain
  | subdomainsOnly domain => domain
  | apexAndSubdomains domain => domain

variable {p : DomainPattern}

theorem apex_eq {c : Text} (h : p.apex = some c) : p.domain = c := by
  cases p <;> simp_all [apex, domain]

theorem parent_eq {c : Text} (h : p.parent = some c) : p.domain = c := by
  cases p <;> simp_all [parent, domain]

theorem mem_expand {candidate : Text} : candidate ∈ p.expand ↔
    p.apex = some candidate ∨ ∃ c, p.parent = some c ∧ candidate = "?*.".toList ++ c := by
  cases p <;> simp [expand, apex, parent, eq_comm]

theorem parse_domain_subset (input : Text) : (parse input).domain ⊆ input := by
  have htrim : ∀ s : Text, trim s ⊆ s := fun s =>
    (List.Subset.trans (trimEnd_isPrefix _).subset (trimStart_suffix s).subset)
  have hstrip : ∀ {p s r : Text}, stripPrefix p s = some r → r ⊆ s := by
    intro p s r h
    rw [stripPrefix_eq_some.mp h]
    exact subset_append_right p r
  have hdomain : ∀ (build : Text → DomainPattern) (_ : ∀ d, (build d).domain = d) (d : Text),
      (parseDomain d build).domain ⊆ d := by
    intro build hbuild d
    unfold parseDomain
    simp only
    split
    · exact nil_subset d
    · rw [hbuild]
      exact htrim d
  unfold parse
  simp only
  split
  · exact nil_subset input
  · cases h₂ : stripPrefix "**.".toList (trim input) with
    | some d =>
      exact List.Subset.trans (List.Subset.trans (hdomain _ (fun _ => rfl) d) (hstrip h₂)) (htrim input)
    | none =>
      cases h₁ : stripPrefix "*.".toList (trim input) with
      | some d =>
        exact List.Subset.trans (List.Subset.trans (hdomain _ (fun _ => rfl) d) (hstrip h₁)) (htrim input)
      | none => exact htrim input

end DomainPattern

theorem lowered_compiledPattern (pattern : Text) : Lowered (compiledPattern pattern).domain :=
  fun c hc => lowered_normalizePattern pattern c (DomainPattern.parse_domain_subset _ hc)

theorem compiledPattern_eq_of_lower {s t : Text} (h : toAsciiLowercase s = toAsciiLowercase t) :
    compiledPattern s = compiledPattern t := by
  unfold compiledPattern
  rw [← normalizePattern_lower s, h, normalizePattern_lower]

end Codex.NetworkProxy
