import Codex.NetworkProxy.Constraints
import Codex.NetworkProxy.Normalized

/-!
# The managed allowlist and the hosts of a config

The check of a config compares patterns as one parser reads them, the globs are those of
another. `validated_contained` says when a config that passes the check allows no host
that the managed list does not: its patterns, as they are compiled, are covered by
managed patterns as they are compiled.
-/

namespace Codex.NetworkProxy

open Foundation List

/-- The globs of the managed patterns match the text `c` and whatever a glob `c` matches. -/
def HostCovered (managed : List DomainPattern) (c : Text) : Prop :=
  ∃ m ∈ managed, m.apex = some c ∨
    ∃ d label, m.parent = some d ∧ c = label ++ '.' :: d ∧ Plain c ∧ ∃ a ∈ label, a ≠ '*'

def SubdomainsCovered (managed : List DomainPattern) (c : Text) : Prop :=
  ∃ m ∈ managed, ∃ d, m.parent = some d ∧ (c = d ∨ Plain c ∧ '.' :: d <:+ c)

def Unmatched (c : Text) : Prop := Plain c ∧ (c = [] ∨ c.getLast? = some '.')

def PatternCovered (managed : List DomainPattern) (p : DomainPattern) : Prop :=
  .exact ['*'] ∈ managed ∨ Unmatched p.domain ∨
    (∀ c, p.apex = some c → HostCovered managed c) ∧
      ∀ c, p.parent = some c → SubdomainsCovered managed c

def Covered (managed allowed : List Text) : Prop :=
  ∀ entry ∈ allowed, PatternCovered (managed.map compiledPattern) (compiledPattern entry)

/-! ## Covered patterns allow nothing new -/

variable {p : DomainPattern}

section
variable {engine : GlobEngine} (hengine : engine.Lawful)
include hengine

theorem matches_domain {c host : Text} (hc : Plain c) (h : engine.Matches c host) :
    globMatch c host = true := by
  obtain ⟨glob, hbuild, hm⟩ := h
  rw [← hengine.domain hc hbuild]
  exact hm

theorem matches_subdomains {c host : Text} (hc : Plain c)
    (h : engine.Matches ("?*.".toList ++ c) host) : globMatch ("?*.".toList ++ c) host = true := by
  obtain ⟨glob, hbuild, hm⟩ := h
  rw [← hengine.subdomains hc hbuild]
  exact hm

theorem globMatch_of_matches {candidate host : Text} (hp : Plain p.domain)
    (hc : candidate ∈ p.expand) (h : engine.Matches candidate host) :
    globMatch candidate host = true := by
  rcases DomainPattern.mem_expand.mp hc with hapex | ⟨d, hparent, rfl⟩
  · rw [DomainPattern.apex_eq hapex] at hp
    exact matches_domain hengine hp h
  · rw [DomainPattern.parent_eq hparent] at hp
    exact matches_subdomains hengine hp h

end

theorem getLast_of_globMatch {g host : Text} (h : globMatch (g ++ ['.']) host = true) :
    host.getLast? = some '.' := by
  obtain ⟨u, v, rfl, -, hv⟩ := globMatch_append.mp h
  have hdot : Literal ['.'] := by decide
  rw [globMatch_literal hdot] at hv
  have hv' : toAsciiLowercase v = ['.'] := hv.symm
  rw [lower_eq_iff (isSign_of_all rfl)] at hv'
  subst hv'
  simp

variable {candidate : Text}

theorem Unmatched.globMatch (hp : Unmatched p.domain) (hc : candidate ∈ p.expand) (host : Host) :
    globMatch candidate host.text = false := by
  refine Bool.eq_false_iff.mpr fun hm => ?_
  have hnodot : ∀ g, candidate ≠ g ++ ['.'] := by
    rintro g rfl
    exact host.getLast (getLast_of_globMatch hm)
  rcases DomainPattern.mem_expand.mp hc with hapex | ⟨d, hparent, rfl⟩
  · obtain ⟨-, hc⟩ := hp
    rw [DomainPattern.apex_eq hapex] at hc
    rcases hc with rfl | hlast
    · have hempty : host.text.isEmpty = true := hm
      exact host.nonempty (List.isEmpty_iff.mp hempty)
    · obtain ⟨y, hy⟩ := List.getLast?_eq_some_iff.mp hlast
      exact hnodot y hy
  · obtain ⟨-, hd⟩ := hp
    rw [DomainPattern.parent_eq hparent] at hd
    rcases hd with rfl | hlast
    · exact hnodot "?*".toList rfl
    · obtain ⟨y, rfl⟩ := List.getLast?_eq_some_iff.mp hlast
      exact hnodot ("?*.".toList ++ y) (by rw [List.append_assoc])

section
variable {engine : GlobEngine} {managed : List Text} {w : GlobalWildcard} {set : GlobSet}
  (hset : compileGlobsetWithPolicy engine managed w = .ok set) {host : Text}
include hset

variable {m : DomainPattern}

theorem isMatch_of_candidate (hm : m ∈ managed.map compiledPattern) (hc : candidate ∈ m.expand)
    (hmatch : ∀ glob, engine.build candidate = some glob → glob host = true) :
    set.isMatch host = true := by
  obtain ⟨entry, hentry, rfl⟩ := mem_map.mp hm
  obtain ⟨glob, hglob⟩ := builds_compiled hset hentry hc
  rw [isMatch_compiled hset]
  exact ⟨entry, hentry, candidate, hc, glob, hglob, hmatch glob hglob⟩

theorem isMatch_of_same (hm : m ∈ managed.map compiledPattern) (hc : candidate ∈ m.expand)
    (h : engine.Matches candidate host) : set.isMatch host = true := by
  obtain ⟨glob, hglob, hmatch⟩ := h
  refine isMatch_of_candidate hset hm hc fun glob' hglob' => ?_
  rw [hglob] at hglob'
  cases hglob'
  exact hmatch

variable (hengine : engine.Lawful)
include hengine

theorem isMatch_of_universal (hm : .exact ['*'] ∈ managed.map compiledPattern) :
    set.isMatch host = true := by
  have hplain : Plain ['*'] := by decide
  have hc : ['*'] ∈ (DomainPattern.exact ['*']).expand := mem_singleton_self _
  refine isMatch_of_candidate hset hm hc fun glob hglob => ?_
  rw [hengine.domain hplain hglob, globMatch_star]

theorem isMatch_of_parent (hm : m ∈ managed.map compiledPattern) {d : Text} (hd : m.parent = some d)
    (hplain : Plain d) (hmatch : globMatch ("?*.".toList ++ d) host = true) :
    set.isMatch host = true := by
  refine isMatch_of_candidate hset hm (DomainPattern.mem_expand.mpr (.inr ⟨d, hd, rfl⟩)) ?_
  intro glob hglob
  rw [hengine.subdomains hplain hglob]
  exact hmatch

theorem hostCovered_isMatch {c : Text} (hcov : HostCovered (managed.map compiledPattern) c)
    (h : engine.Matches c host) : set.isMatch host = true := by
  obtain ⟨m, hm, hapex | ⟨d, label, hd, rfl, hplain, hlabel⟩⟩ := hcov
  · exact isMatch_of_same hset hm (DomainPattern.mem_expand.mpr (.inl hapex)) h
  · obtain ⟨u, v, rfl, hu, hv⟩ := globMatch_append.mp (matches_domain hengine hplain h)
    have hplaind : Plain d := fun a ha => hplain a (by simp [ha])
    refine isMatch_of_parent hset hengine hm hd hplaind ?_
    exact globMatch_subdomains.mpr ⟨u, v, ne_nil_of_globMatch hlabel hu, rfl, hv⟩

theorem subdomainsCovered_isMatch {c : Text}
    (hcov : SubdomainsCovered (managed.map compiledPattern) c)
    (h : engine.Matches ("?*.".toList ++ c) host) : set.isMatch host = true := by
  obtain ⟨m, hm, d, hd, rfl | ⟨hplain, x, rfl⟩⟩ := hcov
  · exact isMatch_of_same hset hm (DomainPattern.mem_expand.mpr (.inr ⟨c, hd, rfl⟩)) h
  · obtain ⟨u, v, hu, rfl, hv⟩ :=
      globMatch_subdomains.mp (matches_subdomains hengine hplain h)
    rw [← cons_append] at hv
    obtain ⟨v₁, v₂, rfl, hv₁, hv₂⟩ := globMatch_append.mp hv
    have hplaind : Plain d := fun a ha => hplain a (by simp [ha])
    refine isMatch_of_parent hset hengine hm hd hplaind ?_
    refine globMatch_subdomains.mpr ⟨u ++ v₁, v₂, ?_, by simp, hv₂⟩
    simp [hu]

theorem patternCovered_isMatch (hcov : PatternCovered (managed.map compiledPattern) p)
    (hc : candidate ∈ p.expand) {host : Host} (h : engine.Matches candidate host.text) :
    set.isMatch host.text = true := by
  obtain huniversal | hunmatched | ⟨hhost, hsub⟩ := hcov
  · exact isMatch_of_universal hset hengine huniversal
  · have hm := globMatch_of_matches hengine hunmatched.1 hc h
    rw [hunmatched.globMatch hc host] at hm
    cases hm
  · rcases DomainPattern.mem_expand.mp hc with hapex | ⟨d, hparent, rfl⟩
    · exact hostCovered_isMatch hset hengine (hhost candidate hapex) h
    · exact subdomainsCovered_isMatch hset hengine (hsub d hparent) h

end

/-! ## A pattern that is not covered allows a new host -/

/-- The supported spellings: a domain of letters alone behind its prefix, or the global
wildcard. -/
def Supported (p : DomainPattern) : Prop := p = .exact ['*'] ∨ Literal p.domain

theorem supported_match (hp : Supported p) (hlow : Lowered p.domain) {candidate host : Text}
    (hc : candidate ∈ p.expand) (hhost : Lowered host) (hm : globMatch candidate host = true) :
    p = .exact ['*'] ∨ p.apex = some host ∨
      ∃ d u, p.parent = some d ∧ u ≠ [] ∧ host = u ++ '.' :: d := by
  rcases hp with rfl | hlit
  · exact .inl rfl
  · right
    have hdot : ∀ {d}, Literal d → Literal ('.' :: d) := by
      intro d hd c hc
      rcases mem_cons.mp hc with rfl | hc
      · decide
      · exact hd c hc
    rcases DomainPattern.mem_expand.mp hc with hapex | ⟨d, hparent, rfl⟩
    · left
      rw [DomainPattern.apex_eq hapex] at hlit hlow
      rw [globMatch_literal hlit, hlow.lower, hhost.lower] at hm
      rw [hapex, hm]
    · right
      rw [DomainPattern.parent_eq hparent] at hlit hlow
      obtain ⟨u, v, hu, rfl, hv⟩ := globMatch_subdomains.mp hm
      have hv' : Lowered v := fun c hc => hhost c (mem_append_right u hc)
      rw [globMatch_literal (hdot hlit), hv'.lower, lower_cons, hlow.lower] at hv
      exact ⟨d, u, hparent, hu, by rw [← hv]; rfl⟩

theorem exists_longer (patterns : List DomainPattern) :
    ∃ n, ∀ m ∈ patterns, m.domain.length < n := by
  induction patterns with
  | nil => exact ⟨0, by simp⟩
  | cons p patterns ih =>
    obtain ⟨n, hn⟩ := ih
    refine ⟨n + p.domain.length + 1, ?_⟩
    intro m hm
    rcases mem_cons.mp hm with rfl | hm
    · omega
    · have := hn m hm
      omega

theorem suffix_of_label {label c u d : Text} (hlabel : '.' ∉ label)
    (h : label ++ '.' :: c = u ++ '.' :: d) : c = d ∨ '.' :: d <:+ c := by
  rcases append_eq_append_iff.mp h with ⟨x, rfl, hx⟩ | ⟨x, rfl, hx⟩
  · cases x with
    | nil => exact .inl (List.cons.inj hx).2
    | cons a x =>
      right
      rw [cons_append, List.cons.injEq] at hx
      rw [hx.2]
      exact suffix_append x _
  · cases x with
    | nil => exact .inl (List.cons.inj hx).2.symm
    | cons a x =>
      rw [cons_append, List.cons.injEq] at hx
      refine absurd ?_ hlabel
      rw [hx.1]
      simp

section
variable {engine : GlobEngine} (hengine : engine.Lawful) {managed allowed : List Text}
  {w w' : GlobalWildcard} {managedSet allowSet : GlobSet}
  (hset : compileGlobsetWithPolicy engine managed w = .ok managedSet)
  (hallow : compileGlobsetWithPolicy engine allowed w' = .ok allowSet)
  (hmanaged : ∀ entry ∈ managed, Supported (compiledPattern entry))
include hengine hset hallow hmanaged

theorem managed_match (hcon : ∀ host : Host, allowSet.isMatch host.text = true →
      managedSet.isMatch host.text = true) {entry : Text} (hentry : entry ∈ allowed)
    (hc : candidate ∈ (compiledPattern entry).expand) (host : Host)
    (hmatch : ∀ glob, engine.build candidate = some glob → glob host.text = true) :
    ∃ m ∈ managed.map compiledPattern, m = .exact ['*'] ∨ m.apex = some host.text ∨
      ∃ d u, m.parent = some d ∧ u ≠ [] ∧ host.text = u ++ '.' :: d := by
  have hin : allowSet.isMatch host.text = true :=
    isMatch_of_candidate hallow (mem_map_of_mem hentry) hc hmatch
  obtain ⟨m, hm, candidate', hc', hmatch'⟩ := (isMatch_compiled hset _).mp (hcon host hin)
  refine ⟨compiledPattern m, mem_map_of_mem hm, ?_⟩
  have hstar : Plain ['*'] := by decide
  have hplain : Plain (compiledPattern m).domain := by
    rcases hmanaged m hm with h | h
    · rw [h]
      exact hstar
    · exact h.plain
  exact supported_match (hmanaged m hm) (lowered_compiledPattern m) hc' host.lowered
    (globMatch_of_matches hengine hplain hc' hmatch')

variable (hcon : ∀ host : Host, allowSet.isMatch host.text = true →
  managedSet.isMatch host.text = true)
include hcon

theorem universal_of_contained {entry : Text} (hentry : entry ∈ allowed)
    (hp : compiledPattern entry = .exact ['*']) : .exact ['*'] ∈ managed.map compiledPattern := by
  obtain ⟨n, hn⟩ := exists_longer (managed.map compiledPattern)
  have hlow : Lowered (List.replicate (n + 1) 'a') := by
    intro c hc
    rw [eq_of_mem_replicate hc]
    decide
  have hnot : ∀ c ∈ List.replicate (n + 1) 'a', c = 'a' := fun c => eq_of_mem_replicate
  obtain ⟨host, hhost⟩ := exists_host hlow (fun h => absurd (hnot _ h) (by decide))
    (fun h => absurd (hnot _ (mem_of_getLast? h)) (by decide)) (by simp)
  have hc : ['*'] ∈ (compiledPattern entry).expand := by
    rw [hp]
    exact mem_singleton_self _
  have hstar : Plain ['*'] := by decide
  obtain ⟨m, hm, rfl | hapex | ⟨d, u, -, -, hd⟩⟩ :=
    managed_match hengine hset hallow hmanaged hcon hentry hc host
      fun glob hglob => by rw [hengine.domain hstar hglob, globMatch_star]
  · exact hm
  · have hlen := hn m hm
    rw [DomainPattern.apex_eq hapex, hhost, length_replicate] at hlen
    omega
  · have hmem : '.' ∈ host.text := by
      rw [hd]
      simp
    rw [hhost] at hmem
    exact absurd (hnot _ hmem) (by decide)

theorem hostCovered_of_contained {entry c : Text} (hentry : entry ∈ allowed) (hlit : Literal c)
    (hapex : (compiledPattern entry).apex = some c) (hne : c ≠ []) (hdot : c.getLast? ≠ some '.') :
    .exact ['*'] ∈ managed.map compiledPattern ∨ HostCovered (managed.map compiledPattern) c := by
  have hlow := lowered_compiledPattern entry
  rw [DomainPattern.apex_eq hapex] at hlow
  have hclose : ']' ∉ c := fun h => (hlit _ h).2 (by decide)
  obtain ⟨host, hhost⟩ := exists_host hlow hclose hdot hne
  subst hhost
  have hc := DomainPattern.mem_expand.mpr (.inl hapex)
  obtain ⟨m, hm, rfl | hmapex | ⟨d, u, hd, hu, heq⟩⟩ :=
    managed_match hengine hset hallow hmanaged hcon hentry hc host
      fun glob hglob => by rw [hengine.domain hlit.plain hglob, globMatch_literal hlit]
  · exact .inl hm
  · exact .inr ⟨m, hm, .inl hmapex⟩
  · right
    refine ⟨m, hm, .inr ⟨d, u, hd, heq, hlit.plain, ?_⟩⟩
    obtain ⟨a, ha⟩ := exists_mem_of_ne_nil u hu
    refine ⟨a, ha, (hlit a ?_).1⟩
    rw [heq]
    exact mem_append_left _ ha

theorem subdomainsCovered_of_contained {entry c : Text} (hentry : entry ∈ allowed)
    (hlit : Literal c) (hparent : (compiledPattern entry).parent = some c) (hne : c ≠ [])
    (hdot : c.getLast? ≠ some '.') : .exact ['*'] ∈ managed.map compiledPattern ∨
      SubdomainsCovered (managed.map compiledPattern) c := by
  obtain ⟨n, hn⟩ := exists_longer (managed.map compiledPattern)
  have hlowc := lowered_compiledPattern entry
  rw [DomainPattern.parent_eq hparent] at hlowc
  have hlabel : ∀ a ∈ List.replicate (n + 1) 'a', a = 'a' := fun a => eq_of_mem_replicate
  have hcases : ∀ a ∈ List.replicate (n + 1) 'a' ++ '.' :: c, a = 'a' ∨ a = '.' ∨ a ∈ c := by
    intro a ha
    rcases mem_append.mp ha with ha | ha
    · exact .inl (hlabel a ha)
    · exact .inr (mem_cons.mp ha)
  have hlow : Lowered (List.replicate (n + 1) 'a' ++ '.' :: c) := by
    intro a ha
    rcases hcases a ha with rfl | rfl | ha
    · decide
    · decide
    · exact hlowc a ha
  have hclose : ']' ∉ List.replicate (n + 1) 'a' ++ '.' :: c := by
    intro h
    rcases hcases _ h with h | h | h
    · exact absurd h (by decide)
    · exact absurd h (by decide)
    · exact (hlit _ h).2 (by decide)
  have hlast : (List.replicate (n + 1) 'a' ++ '.' :: c).getLast? ≠ some '.' := by
    rw [List.getLast?_append, List.getLast?_cons, List.getLast?_eq_getLast_of_ne_nil hne]
    rw [List.getLast?_eq_getLast_of_ne_nil hne] at hdot
    simpa using hdot
  obtain ⟨host, hhost⟩ := exists_host hlow hclose hlast (by simp)
  have hc := DomainPattern.mem_expand.mpr (.inr ⟨c, hparent, rfl⟩)
  obtain ⟨m, hm, rfl | hmapex | ⟨d, u, hd, -, heq⟩⟩ :=
    managed_match hengine hset hallow hmanaged hcon hentry hc host
      fun glob hglob => by
        rw [hengine.subdomains hlit.plain hglob, hhost, globMatch_subdomains]
        refine ⟨_, '.' :: c, by simp, rfl, ?_⟩
        have hlitdot : Literal ('.' :: c) := by
          intro a ha
          rcases mem_cons.mp ha with rfl | ha
          · decide
          · exact hlit a ha
        exact (globMatch_literal hlitdot).mpr rfl
  · exact .inl hm
  · have hlen := hn m hm
    rw [DomainPattern.apex_eq hmapex, hhost, length_append, length_replicate] at hlen
    omega
  · right
    rw [hhost] at heq
    have hsplit := suffix_of_label (fun h => absurd (hlabel _ h) (by decide)) heq
    refine ⟨m, hm, d, hd, hsplit.imp_right fun hs => ⟨hlit.plain, hs⟩⟩

theorem covered_of_contained (hallowed : ∀ entry ∈ allowed, Supported (compiledPattern entry)) :
    Covered managed allowed := by
  intro entry hentry
  rcases hallowed entry hentry with hstar | hlit
  · exact .inl (universal_of_contained hengine hset hallow hmanaged hcon hentry hstar)
  · by_cases huniversal : .exact ['*'] ∈ managed.map compiledPattern
    · exact .inl huniversal
    · by_cases hun : Unmatched (compiledPattern entry).domain
      · exact .inr (.inl hun)
      · have hmatched : (compiledPattern entry).domain ≠ [] ∧
            (compiledPattern entry).domain.getLast? ≠ some '.' := by
          constructor
          · exact fun h => hun ⟨hlit.plain, .inl h⟩
          · exact fun h => hun ⟨hlit.plain, .inr h⟩
        refine .inr (.inr ⟨fun c hc => ?_, fun c hc => ?_⟩)
        · rw [DomainPattern.apex_eq hc] at hlit hmatched
          exact (hostCovered_of_contained hengine hset hallow hmanaged hcon hentry hlit hc
            hmatched.1 hmatched.2).resolve_left huniversal
        · rw [DomainPattern.parent_eq hc] at hlit hmatched
          exact (subdomainsCovered_of_contained hengine hset hallow hmanaged hcon hentry hlit hc
            hmatched.1 hmatched.2).resolve_left huniversal

end

/-! ## What the check of a config says about its compiled patterns -/

theorem patternCovered_self {managed : List DomainPattern} (hp : p ∈ managed) :
    PatternCovered managed p :=
  .inr (.inr ⟨fun _ hc => ⟨p, hp, .inl hc⟩, fun c hc => ⟨p, hp, c, hc, .inl rfl⟩⟩)

theorem covered_of_exact {urlHost : UrlHost} {managed denied allowed : List Text}
    (h : validateAllowedDomains urlHost (some false) managed denied allowed = .ok ()) :
    Covered managed allowed := by
  intro entry hentry
  obtain ⟨-, hexact⟩ := check_bind_ok h
  obtain ⟨hlower, -⟩ := mem_filter.mp (validateExact_ok hexact hentry)
  obtain ⟨m, hm, hsame⟩ := mem_map.mp hlower
  refine patternCovered_self (mem_map.mpr ⟨m, hm, ?_⟩)
  exact compiledPattern_eq_of_lower hsame

/-- An entry that the check reads as it is compiled. Its domain is plain, starts with a
label and has no dot at its end. -/
structure ReadAlike (urlHost : UrlHost) (entry : Text) : Prop where
  same : DomainPattern.parseForConstraints urlHost entry = compiledPattern entry
  plain : Plain (compiledPattern entry).domain
  label : ∃ a rest, (compiledPattern entry).domain = a :: rest ∧ a ≠ '.' ∧ a ≠ '*'
  noDot : (compiledPattern entry).domain.getLast? ≠ some '.'

namespace ReadAlike

variable {urlHost : UrlHost} {entry m : Text}

variable (h : ReadAlike urlHost entry)
include h

theorem normalizeDomain : NetworkProxy.normalizeDomain (compiledPattern entry).domain =
      (compiledPattern entry).domain := by
  unfold NetworkProxy.normalizeDomain
  rw [trimEndDots_eq_self h.noDot, (lowered_compiledPattern entry).lower]

theorem split {d : Text} (hsuffix : '.' :: d <:+ (compiledPattern entry).domain) :
    ∃ label, (compiledPattern entry).domain = label ++ '.' :: d ∧ ∃ a ∈ label, a ≠ '*' := by
  obtain ⟨label, hlabel⟩ := hsuffix
  obtain ⟨a, rest, hdomain, hdot, hstar⟩ := h.label
  refine ⟨label, hlabel.symm, ?_⟩
  cases label with
  | nil =>
    rw [hdomain] at hlabel
    exact absurd (List.cons.inj hlabel).1.symm hdot
  | cons b label =>
    rw [hdomain] at hlabel
    rw [← (List.cons.inj hlabel).1] at hstar
    exact ⟨b, mem_cons_self, hstar⟩

variable (hm : ReadAlike urlHost m)
include hm

theorem strictSubdomain
    (hsub : isStrictSubdomain (compiledPattern entry).domain (compiledPattern m).domain = true) :
    '.' :: (compiledPattern m).domain <:+ (compiledPattern entry).domain := by
  unfold isStrictSubdomain endsWith at hsub
  simp only [h.normalizeDomain, hm.normalizeDomain, Bool.and_eq_true, isSuffixOf_iff_suffix] at hsub
  exact hsub.2

theorem subdomainOrEqual
    (hsub : isSubdomainOrEqual (compiledPattern entry).domain (compiledPattern m).domain = true) :
    (compiledPattern entry).domain = (compiledPattern m).domain ∨
      '.' :: (compiledPattern m).domain <:+ (compiledPattern entry).domain := by
  unfold isSubdomainOrEqual endsWith at hsub
  simpa only [h.normalizeDomain, hm.normalizeDomain, Bool.or_eq_true, decide_eq_true_eq,
    isSuffixOf_iff_suffix] using hsub

theorem allows_cases (hallows : (compiledPattern m).allows (compiledPattern entry) = true) :
    (∀ c, (compiledPattern entry).apex = some c →
      (compiledPattern m).apex = some c ∨
        ∃ d, (compiledPattern m).parent = some d ∧ '.' :: d <:+ c) ∧
    ∀ c, (compiledPattern entry).parent = some c →
      ∃ d, (compiledPattern m).parent = some d ∧ (c = d ∨ '.' :: d <:+ c) := by
  have hstrict := h.strictSubdomain hm
  have hequal := h.subdomainOrEqual hm
  have hdomain : domainEq (compiledPattern entry).domain (compiledPattern m).domain = true →
      (compiledPattern entry).domain = (compiledPattern m).domain := by
    unfold domainEq
    simp only [h.normalizeDomain, hm.normalizeDomain, decide_eq_true_eq]
    exact id
  cases hp : compiledPattern entry <;> cases hq : compiledPattern m <;>
    simp only [hp, hq, DomainPattern.domain, DomainPattern.allows, Bool.false_eq_true,
      DomainPattern.apex, DomainPattern.parent] at *
  case exact.exact c d => simp [hdomain hallows]
  case exact.subdomainsOnly c d => simpa using hstrict hallows
  case exact.apexAndSubdomains c d => simpa [eq_comm] using hequal hallows
  case subdomainsOnly.subdomainsOnly c d => simpa using hequal hallows
  case subdomainsOnly.apexAndSubdomains c d => simpa using hequal hallows
  case apexAndSubdomains.subdomainsOnly c d => simp [hstrict hallows]
  case apexAndSubdomains.apexAndSubdomains c d => simpa [eq_comm] using hequal hallows

theorem patternCovered (hallows : (compiledPattern m).allows (compiledPattern entry) = true)
    {managed : List DomainPattern} (hmem : compiledPattern m ∈ managed) :
    PatternCovered managed (compiledPattern entry) := by
  obtain ⟨hapex, hparent⟩ := h.allows_cases hm hallows
  refine .inr (.inr ⟨fun c hc => ⟨_, hmem, ?_⟩, fun c hc => ⟨_, hmem, ?_⟩⟩)
  · have hdomain := DomainPattern.apex_eq hc
    refine (hapex c hc).imp_right ?_
    rintro ⟨d, hd, hsuffix⟩
    rw [← hdomain] at hsuffix ⊢
    obtain ⟨label, hsplit, hlabel⟩ := h.split hsuffix
    exact ⟨d, label, hd, hsplit, h.plain, hlabel⟩
  · have hdomain := DomainPattern.parent_eq hc
    obtain ⟨d, hd, hsub⟩ := hparent c hc
    refine ⟨d, hd, hsub.imp_right fun hsuffix => ⟨?_, hsuffix⟩⟩
    rw [← hdomain]
    exact h.plain

end ReadAlike

theorem covered_of_readAlike {urlHost : UrlHost} {managed denied allowed : List Text}
    (h : validateAllowedDomains urlHost none managed denied allowed = .ok ())
    (hmanaged : ∀ m ∈ managed, ReadAlike urlHost m)
    (hallowed : ∀ entry ∈ allowed, ReadAlike urlHost entry) : Covered managed allowed := by
  intro entry hentry
  obtain ⟨-, heach⟩ := check_bind_ok h
  have hany := validateEach_ok heach hentry
  unfold allowedByManaged at hany
  rw [any_map, any_eq_true] at hany
  obtain ⟨m, hm, hallows⟩ := hany
  have halike := hallowed entry hentry
  have hmalike := hmanaged m hm
  rw [Function.comp_apply, hmalike.same, halike.same] at hallows
  exact halike.patternCovered hmalike hallows (mem_map_of_mem hm)

/-- A config that passes the check allows no new host if it is covered, and for supported
spellings only then. It is covered where the managed list must be matched, and where the
check reads the entries as they are compiled. -/
theorem validated_contained {engine : GlobEngine} (hengine : engine.Lawful) {urlHost : UrlHost}
    {config : NetworkProxySettings} {constraints : NetworkProxyConstraints}
    {managed allowed : List Text} {managedSet allowSet : GlobSet}
    (hmanaged : constraints.allowedDomains = some managed)
    (hexpansion : constraints.allowlistExpansionEnabled ≠ some true)
    (hallowed : allowed = config.allowedDomains.getD [])
    (hok : validatePolicyAgainstConstraints urlHost config constraints = .ok ())
    (hset : compileAllowlistGlobset engine managed = .ok managedSet)
    (hallow : compileAllowlistGlobset engine allowed = .ok allowSet) : (Covered managed allowed →
      ∀ host : Host, allowSet.isMatch host.text = true → managedSet.isMatch host.text = true) ∧
    ((∀ entry ∈ managed ++ allowed, Supported (compiledPattern entry)) →
      (∀ host : Host, allowSet.isMatch host.text = true → managedSet.isMatch host.text = true) →
      Covered managed allowed) ∧
    (constraints.allowlistExpansionEnabled = some false → Covered managed allowed) ∧
    ((∀ entry ∈ managed ++ allowed, ReadAlike urlHost entry) → Covered managed allowed) := by
  have hcheck := validateAllowedDomains_ok hok hmanaged
  rw [← hallowed] at hcheck
  have hexact : constraints.allowlistExpansionEnabled = some false → Covered managed allowed := by
    intro hfalse
    rw [hfalse] at hcheck
    exact covered_of_exact hcheck
  refine ⟨?_, ?_, hexact, ?_⟩
  · intro hcov host hhost
    obtain ⟨entry, hentry, candidate, hc, hm⟩ := (isMatch_compiled hallow _).mp hhost
    exact patternCovered_isMatch hset hengine (hcov entry hentry) hc hm
  · intro hsupported hcon
    exact covered_of_contained hengine hset hallow
      (fun entry h => hsupported entry (mem_append_left _ h)) hcon
      fun entry h => hsupported entry (mem_append_right _ h)
  · intro halike
    cases he : constraints.allowlistExpansionEnabled with
    | some expansion =>
      cases expansion with
      | true => exact absurd he hexpansion
      | false => exact hexact he
    | none =>
      rw [he] at hcheck
      exact covered_of_readAlike hcheck (fun m h => halike m (mem_append_left _ h))
        fun entry h => halike entry (mem_append_right _ h)

/-! ## Runs -/

def starEngine : GlobEngine := ⟨fun glob => some (globMatch glob), fun _ => true⟩

theorem starEngine_lawful : starEngine.Lawful := by
  constructor
  · intro domain glob _ h host
    cases h
    rfl
  · intro domain glob _ h host
    cases h
    rfl

/-- The url parser on names of ASCII letters, digits, dots and dashes. A colon is no part
of a name. -/
def nameUrlHost : UrlHost := fun host =>
  if host ≠ [] ∧ host.all (fun c => c.isAlphanum || c == '.' || c == '-') then
    some (toAsciiLowercase host)
  else none

def allowing (patterns : List Text) : NetworkProxySettings :=
  { domains := some (patterns.map (⟨·, .allow⟩)) }

def managing (patterns : List Text) : NetworkProxyConstraints :=
  { allowedDomains := some patterns }

def globSetOf (patterns : List Text) : GlobSet := patterns.map globMatch

theorem validated_contained_subdomain :
    Covered ["*.example.com".toList] ["Api.example.com".toList] ∧
      ∀ host : Host, (globSetOf ["api.example.com".toList]).isMatch host.text = true →
        (globSetOf ["?*.example.com".toList]).isMatch host.text = true := by
  have h := @validated_contained starEngine starEngine_lawful nameUrlHost
    (allowing ["Api.example.com".toList]) (managing ["*.example.com".toList])
    ["*.example.com".toList] ["Api.example.com".toList] (globSetOf ["?*.example.com".toList])
    (globSetOf ["api.example.com".toList]) rfl (by decide) rfl (by decide +kernel) rfl rfl
  obtain ⟨hcontained, -, -, hcovered⟩ := h
  have hname : ReadAlike nameUrlHost "Api.example.com".toList :=
    ⟨by decide +kernel, by decide, ⟨'a', "pi.example.com".toList,
      by decide +kernel⟩, by decide +kernel⟩
  have hwild : ReadAlike nameUrlHost "*.example.com".toList :=
    ⟨by decide +kernel, by decide, ⟨'e', "xample.com".toList,
      by decide +kernel⟩, by decide +kernel⟩
  have hcov := hcovered fun entry hentry => by
    rcases mem_pair.mp hentry with rfl | rfl
    · exact hwild
    · exact hname
  exact ⟨hcov, hcontained hcov⟩

/-- With a port behind each name the check reads both entries as the empty name, and the
globs are those of two different names. -/
theorem port_spelling_widens :
    validatePolicyAgainstConstraints nameUrlHost (allowing ["evil.com:443".toList])
        (managing ["api.example.com:443".toList]) = .ok () ∧
      compileAllowlistGlobset starEngine ["api.example.com:443".toList] =
        .ok (globSetOf ["api.example.com".toList]) ∧
      compileAllowlistGlobset starEngine ["evil.com:443".toList] =
        .ok (globSetOf ["evil.com".toList]) ∧
      (allowing ["evil.com:443".toList]).allowedDomains = some ["evil.com:443".toList] ∧
      (managing ["api.example.com:443".toList]).allowedDomains =
        some ["api.example.com:443".toList] ∧
      (managing ["api.example.com:443".toList]).allowlistExpansionEnabled = none ∧
      ∃ host : Host, host.text = "evil.com".toList ∧
        (globSetOf ["evil.com".toList]).isMatch host.text = true ∧
        (globSetOf ["api.example.com".toList]).isMatch host.text = false := by
  refine ⟨by decide +kernel, rfl, rfl, by decide +kernel, rfl, rfl, ?_⟩
  refine ⟨⟨"evil.com".toList, ⟨"evil.com".toList, by decide +kernel⟩, by decide⟩, rfl, ?_, ?_⟩
  · decide +kernel
  · decide +kernel

end Codex.NetworkProxy
