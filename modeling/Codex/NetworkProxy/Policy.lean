import Codex.Foundation.Glob
import Codex.Foundation.Text
import Codex.Foundation.Run

/-!
# Domain patterns and what they match

A list of domain patterns is compiled to globs: each pattern is normalised, its wildcard
prefix is expanded, and the results are read as globs. `DomainPattern.allows` compares two
patterns without compiling them.

A set built from patterns matches what one of the expanded globs matches
(`isMatch_compiled`). For globs of letters and stars this is said in terms of the text:
`globMatch_subdomains`, `globMatch_literal`.
-/

namespace Codex.NetworkProxy

open Foundation List

def trimEndDots (s : Text) : Text := s.rdropWhile (· == '.')

def normalizeDnsHost (host : Text) : Text := trimEndDots (toAsciiLowercase host)

def bracketed : Text → Option Text
  | '[' :: rest => (splitOnce ']' rest).map (·.1)
  | _ => none

def withoutPort (host : Text) : Text :=
  if host.count ':' = 1 then host.takeWhile (· ≠ ':') else host

def normalizeHost (host : Text) : Text :=
  let host := trim host
  match bracketed host with
  | some inner => normalizeDnsHost inner
  | none => normalizeDnsHost (withoutPort host)

/-- A host as the policy evaluates it: normalised, and not empty. -/
structure Host where
  text : Text
  parsed : ∃ input, normalizeHost input = text
  nonempty : text ≠ []

def Host.parse (input : Text) : Option Host :=
  if h : normalizeHost input ≠ [] then some ⟨normalizeHost input, ⟨input, rfl⟩, h⟩ else none

def normalizePattern (pattern : Text) : Text :=
  let pattern := trim pattern
  if pattern = ['*'] then ['*']
  else
    match stripPrefix "**.".toList pattern with
    | some domain => "**.".toList ++ normalizeHost domain
    | none =>
      match stripPrefix "*.".toList pattern with
      | some domain => "*.".toList ++ normalizeHost domain
      | none => normalizeHost pattern

/-! ## Patterns by their wildcard prefix -/

inductive DomainPattern where
  | apexAndSubdomains (domain : Text)
  | subdomainsOnly (domain : Text)
  | exact (domain : Text)
deriving DecidableEq

abbrev UrlHost := Text → Option Text

def parseDomainForConstraints (urlHost : UrlHost) (domain : Text) : Text :=
  let domain := trimEndDots (trim domain)
  if domain = [] then []
  else
    let host :=
      if domain.head? = some '[' ∧ domain.getLast? = some ']' then domain.tail.dropLast else domain
    if host.contains '*' || host.contains '?' || host.contains '%' then domain
    else (urlHost host).getD []

def normalizeDomain (domain : Text) : Text := toAsciiLowercase (trimEndDots domain)

def domainEq (left right : Text) : Bool := normalizeDomain left = normalizeDomain right

def endsWith (s t : Text) : Bool := t.isSuffixOf s

def isSubdomainOrEqual (child parent : Text) : Bool :=
  let child := normalizeDomain child
  let parent := normalizeDomain parent
  child = parent || endsWith child ('.' :: parent)

def isStrictSubdomain (child parent : Text) : Bool :=
  let child := normalizeDomain child
  let parent := normalizeDomain parent
  child ≠ parent && endsWith child ('.' :: parent)

namespace DomainPattern

def parseDomain (domain : Text) (build : Text → DomainPattern) : DomainPattern :=
  let domain := trim domain
  if domain = [] then exact [] else build domain

def parse (input : Text) : DomainPattern :=
  let input := trim input
  if input = [] then exact []
  else
    match stripPrefix "**.".toList input with
    | some domain => parseDomain domain apexAndSubdomains
    | none =>
      match stripPrefix "*.".toList input with
      | some domain => parseDomain domain subdomainsOnly
      | none => exact input

def parseForConstraints (urlHost : UrlHost) (input : Text) : DomainPattern :=
  let input := trim input
  if input = [] then exact []
  else
    match stripPrefix "**.".toList input with
    | some domain => apexAndSubdomains (parseDomainForConstraints urlHost domain)
    | none =>
      match stripPrefix "*.".toList input with
      | some domain => subdomainsOnly (parseDomainForConstraints urlHost domain)
      | none => exact (parseDomainForConstraints urlHost input)

def allows : DomainPattern → DomainPattern → Bool
  | exact domain, exact candidate => domainEq candidate domain
  | exact _, _ => false
  | subdomainsOnly domain, exact candidate => isStrictSubdomain candidate domain
  | subdomainsOnly domain, subdomainsOnly candidate => isSubdomainOrEqual candidate domain
  | subdomainsOnly domain, apexAndSubdomains candidate => isStrictSubdomain candidate domain
  | apexAndSubdomains domain, exact candidate => isSubdomainOrEqual candidate domain
  | apexAndSubdomains domain, subdomainsOnly candidate => isSubdomainOrEqual candidate domain
  | apexAndSubdomains domain, apexAndSubdomains candidate => isSubdomainOrEqual candidate domain

def expand : DomainPattern → List Text
  | exact domain => [domain]
  | subdomainsOnly domain => ["?*.".toList ++ domain]
  | apexAndSubdomains domain => [domain, "?*.".toList ++ domain]

end DomainPattern

def expandDomainPattern (pattern : Text) : List Text := (DomainPattern.parse pattern).expand

def isGlobalWildcardDomainPattern (pattern : Text) : Bool :=
  (expandDomainPattern (normalizePattern pattern)).any (· = ['*'])

/-! ## Compiled glob sets -/

/-- The glob library: a glob by its text, read without regard to ASCII case, and whether a
set of globs can be built. -/
structure GlobEngine where
  build : Text → Option (Text → Bool)
  buildsSet : List Text → Bool

abbrev GlobSet := List (Text → Bool)

def GlobSet.isMatch (set : GlobSet) (host : Text) : Bool := set.any fun glob => glob host

inductive GlobalWildcard where
  | allow
  | reject
deriving DecidableEq

inductive CompileError where
  | globalWildcard
  | invalidGlob (candidate : Text)
  | invalidSet
deriving DecidableEq

structure GlobSetBuilder where
  globs : GlobSet := []
  seen : List Text := []

def GlobSetBuilder.addCandidate (engine : GlobEngine) (builder : GlobSetBuilder)
    (candidate : Text) : Except CompileError GlobSetBuilder :=
  if candidate ∈ builder.seen then .ok builder
  else
    match engine.build candidate with
    | some glob => .ok ⟨builder.globs ++ [glob], candidate :: builder.seen⟩
    | none => .error (.invalidGlob candidate)

def GlobSetBuilder.addPattern (engine : GlobEngine) (globalWildcard : GlobalWildcard)
    (builder : GlobSetBuilder) (pattern : Text) : Except CompileError GlobSetBuilder :=
  if globalWildcard = .reject ∧ isGlobalWildcardDomainPattern pattern then .error .globalWildcard
  else
    (expandDomainPattern (normalizePattern pattern)).foldlM (addCandidate engine) builder

def compileGlobsetWithPolicy (engine : GlobEngine) (patterns : List Text)
    (globalWildcard : GlobalWildcard) : Except CompileError GlobSet := do
  let builder ← patterns.foldlM (GlobSetBuilder.addPattern engine globalWildcard) {}
  if engine.buildsSet builder.seen.reverse then .ok builder.globs else .error .invalidSet

def compileAllowlistGlobset (engine : GlobEngine) (patterns : List Text) :
    Except CompileError GlobSet :=
  compileGlobsetWithPolicy engine patterns .allow

def compileDenylistGlobset (engine : GlobEngine) (patterns : List Text) :
    Except CompileError GlobSet :=
  compileGlobsetWithPolicy engine patterns .reject

def compiledPattern (pattern : Text) : DomainPattern :=
  DomainPattern.parse (normalizePattern pattern)

/-! ## The globs of a set -/

def GlobEngine.Matches (engine : GlobEngine) (candidate host : Text) : Prop :=
  ∃ glob, engine.build candidate = some glob ∧ glob host = true

/-- The globs of a builder are those of the candidates it has seen. -/
structure GlobSetBuilder.BuiltFrom (engine : GlobEngine) (builder : GlobSetBuilder) : Prop where
  isMatch : ∀ host, GlobSet.isMatch builder.globs host = true ↔
    ∃ candidate ∈ builder.seen, engine.Matches candidate host
  builds : ∀ candidate ∈ builder.seen, ∃ glob, engine.build candidate = some glob

section
variable {engine : GlobEngine} {u v : GlobSetBuilder} {w : GlobalWildcard}

variable {candidate pattern : Text}

theorem addCandidate_cases (h : u.addCandidate engine candidate = .ok v) :
    (candidate ∈ u.seen ∧ v = u) ∨
      ∃ glob, engine.build candidate = some glob ∧
        v = ⟨u.globs ++ [glob], candidate :: u.seen⟩ := by
  unfold GlobSetBuilder.addCandidate at h
  by_cases hseen : candidate ∈ u.seen
  · rw [if_pos hseen] at h
    cases h
    exact .inl ⟨hseen, rfl⟩
  · rw [if_neg hseen] at h
    cases hb : engine.build candidate with
    | none =>
      rw [hb] at h
      cases h
    | some glob =>
      rw [hb] at h
      cases h
      exact .inr ⟨glob, rfl, rfl⟩

theorem addCandidate_seen (h : u.addCandidate engine candidate = .ok v) (c : Text) :
    c ∈ v.seen ↔ c ∈ u.seen ∨ c = candidate := by
  obtain ⟨hseen, rfl⟩ | ⟨glob, -, rfl⟩ := addCandidate_cases h
  · constructor
    · exact .inl
    · rintro (hc | rfl)
      · exact hc
      · exact hseen
  · rw [mem_cons, or_comm]

theorem addCandidate_builtFrom (hu : u.BuiltFrom engine)
    (h : u.addCandidate engine candidate = .ok v) : v.BuiltFrom engine := by
  obtain ⟨-, rfl⟩ | ⟨glob, hglob, rfl⟩ := addCandidate_cases h
  · exact hu
  · constructor
    · intro host
      have hadded : GlobSet.isMatch (u.globs ++ [glob]) host = true ↔
          GlobSet.isMatch u.globs host = true ∨ glob host = true := by
        simp [GlobSet.isMatch]
      rw [hadded, hu.isMatch]
      simp only [mem_cons, exists_eq_or_imp]
      rw [or_comm]
      refine or_congr ?_ Iff.rfl
      constructor
      · intro hm
        exact ⟨glob, hglob, hm⟩
      · rintro ⟨glob', hglob', hm⟩
        rw [hglob] at hglob'
        cases hglob'
        exact hm
    · intro c hc
      rcases mem_cons.mp hc with rfl | hc
      · exact ⟨glob, hglob⟩
      · exact hu.builds c hc

theorem addPattern_run (h : u.addPattern engine w pattern = .ok v) :
    (compiledPattern pattern).expand.foldlM (GlobSetBuilder.addCandidate engine) u = .ok v := by
  unfold GlobSetBuilder.addPattern at h
  by_cases hw : w = .reject ∧ isGlobalWildcardDomainPattern pattern = true
  · rw [if_pos hw] at h
    cases h
  · rw [if_neg hw] at h
    exact h

theorem addPattern_seen (h : u.addPattern engine w pattern = .ok v) (c : Text) :
    c ∈ v.seen ↔ c ∈ u.seen ∨ c ∈ (compiledPattern pattern).expand := by
  have hadds := run_adds (P := fun b c => c ∈ b.seen) (Q := fun candidate c => c = candidate)
    (fun _ _ _ hstep c => addCandidate_seen hstep c) (addPattern_run h) c
  simpa using hadds

theorem addPattern_builtFrom (hu : u.BuiltFrom engine) (h : u.addPattern engine w pattern = .ok v) :
    v.BuiltFrom engine :=
  run_keeps (fun _ _ _ => addCandidate_builtFrom) hu (addPattern_run h)

end

section
variable {engine : GlobEngine} {patterns : List Text} {w : GlobalWildcard} {set : GlobSet}
  (h : compileGlobsetWithPolicy engine patterns w = .ok set)
include h

theorem compiled_builder : ∃ builder : GlobSetBuilder, builder.globs = set ∧
    builder.BuiltFrom engine ∧
    ∀ c, c ∈ builder.seen ↔ ∃ pattern ∈ patterns, c ∈ (compiledPattern pattern).expand := by
  unfold compileGlobsetWithPolicy at h
  cases hrun : patterns.foldlM (GlobSetBuilder.addPattern engine w) {} with
  | error e =>
    rw [hrun] at h
    cases h
  | ok builder =>
    rw [hrun] at h
    refine ⟨builder, ?_, ?_, ?_⟩
    · by_cases hset : engine.buildsSet builder.seen.reverse = true
      · simp only [bind, Except.bind, hset, if_true] at h
        cases h
        rfl
      · simp only [bind, Except.bind, hset] at h
        cases h
    · refine run_keeps (fun _ _ _ => addPattern_builtFrom) ?_ hrun
      exact ⟨fun host => by simp [GlobSet.isMatch], by simp⟩
    · intro c
      have hadds := run_adds (P := fun b c => c ∈ b.seen)
        (Q := fun pattern c => c ∈ (compiledPattern pattern).expand)
        (fun _ _ _ hstep c => addPattern_seen hstep c) hrun c
      simpa using hadds

theorem isMatch_compiled (host : Text) : set.isMatch host = true ↔
    ∃ pattern ∈ patterns, ∃ candidate ∈ (compiledPattern pattern).expand,
      engine.Matches candidate host := by
  obtain ⟨builder, rfl, hbuilt, hseen⟩ := compiled_builder h
  rw [hbuilt.isMatch host]
  simp only [hseen]
  constructor
  · rintro ⟨c, ⟨pattern, hp, hc⟩, hm⟩
    exact ⟨pattern, hp, c, hc, hm⟩
  · rintro ⟨pattern, hp, c, hc, hm⟩
    exact ⟨c, ⟨pattern, hp, hc⟩, hm⟩

theorem builds_compiled {pattern candidate : Text} (hp : pattern ∈ patterns)
    (hc : candidate ∈ (compiledPattern pattern).expand) :
    ∃ glob, engine.build candidate = some glob := by
  obtain ⟨builder, -, hbuilt, hseen⟩ := compiled_builder h
  exact hbuilt.builds candidate ((hseen candidate).mpr ⟨pattern, hp, hc⟩)

end

/-! ## Globs of letters and stars -/

/-- The letters that stand for something else in a glob, the star aside, and the slash. -/
def globSyntax : Text := "?[]\x7b\x7d\\/".toList

def Plain (domain : Text) : Prop := ∀ c ∈ domain, c ∉ globSyntax

instance decidablePlain (domain : Text) : Decidable (Plain domain) := List.decidableBAll _ domain

def globToken : Char → GlobToken Char
  | '*' => .star
  | '?' => .any
  | c => .lit c

def sameLetter (a b : Char) : Bool := a.toLower = b.toLower

def globMatch (glob host : Text) : Bool :=
  GlobToken.isMatch sameLetter (glob.map globToken) host

structure GlobEngine.Lawful (engine : GlobEngine) : Prop where
  domain : ∀ {domain glob}, Plain domain → engine.build domain = some glob →
    ∀ host, glob host = globMatch domain host
  subdomains : ∀ {domain glob}, Plain domain → engine.build ("?*.".toList ++ domain) = some glob →
    ∀ host, glob host = globMatch ("?*.".toList ++ domain) host

variable {host domain : Text}

theorem globMatch_append {g g' : Text} : globMatch (g ++ g') host = true ↔
    ∃ u v, host = u ++ v ∧ globMatch g u = true ∧ globMatch g' v = true := by
  unfold globMatch
  rw [map_append, GlobToken.isMatch_append]

theorem globMatch_subdomains : globMatch ("?*.".toList ++ domain) host = true ↔
      ∃ u v, u ≠ [] ∧ host = u ++ v ∧ globMatch ('.' :: domain) v = true :=
  GlobToken.isMatch_any_star

@[simp] theorem globMatch_star (host : Text) : globMatch ['*'] host = true :=
  GlobToken.isMatch_star.mpr ⟨host, [], by simp, rfl⟩

theorem globToken_lit {c : Char} (hstar : c ≠ '*') (hany : c ≠ '?') : globToken c = .lit c := by
  unfold globToken
  split <;> simp_all

def Literal (domain : Text) : Prop := ∀ c ∈ domain, c ≠ '*' ∧ c ∉ globSyntax

instance decidableLiteral (domain : Text) : Decidable (Literal domain) :=
  List.decidableBAll _ domain

theorem Literal.plain (h : Literal domain) : Plain domain := fun c hc => (h c hc).2

theorem Literal.map_globToken (h : Literal domain) : domain.map globToken = domain.map .lit := by
  refine map_congr_left fun c hc => ?_
  obtain ⟨hstar, hsyntax⟩ := h c hc
  refine globToken_lit hstar ?_
  rintro rfl
  exact hsyntax (by decide)

theorem forall₂_sameLetter {s t : Text} : List.Forall₂ (fun a b => sameLetter a b = true) s t ↔
      toAsciiLowercase s = toAsciiLowercase t := by
  unfold toAsciiLowercase
  rw [← forall₂_eq_eq_eq, forall₂_map_left_iff, forall₂_map_right_iff]
  simp [sameLetter]

theorem globMatch_literal (h : Literal domain) :
    globMatch domain host = true ↔ toAsciiLowercase domain = toAsciiLowercase host := by
  unfold globMatch
  rw [h.map_globToken, GlobToken.isMatch_lits, forall₂_sameLetter]

theorem ne_nil_of_globMatch {glob : Text} (hglob : ∃ c ∈ glob, c ≠ '*')
    (h : globMatch glob host = true) : host ≠ [] := by
  obtain ⟨c, hc, hne⟩ := hglob
  obtain ⟨x, y, rfl⟩ := append_of_mem hc
  obtain ⟨u, v, rfl, -, hv⟩ := globMatch_append.mp h
  rintro hnil
  obtain ⟨rfl, rfl⟩ := append_eq_nil_iff.mp hnil
  unfold globMatch at hv
  by_cases hany : c = '?'
  · subst hany
    simp [globToken, GlobToken.isMatch] at hv
  · rw [map_cons, globToken_lit hne hany] at hv
    simp [GlobToken.isMatch] at hv

end Codex.NetworkProxy
