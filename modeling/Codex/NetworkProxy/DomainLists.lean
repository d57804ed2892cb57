import Codex.NetworkProxy.Normalized
import Codex.NetworkProxy.Runtime

/-!
# The two domain lists

An update normalises its host before it compares it with the lists, and once more when it
sets the entry. Where the second normalisation changes the host, the entry that is set
belongs to another host (`settled_iff`). Where it does not, the last update of a host says
in which of the lists it is (`domainLists_lastTarget`).
-/

namespace Codex.NetworkProxy

open Foundation List

/-! ## Normalised twice -/

def stripped (host : Text) : Text :=
  trimEndDots ((bracketed (trim host)).getD (withoutPort (trim host)))

/-- Under the brackets or the port there is no white space to trim and no port. -/
def StripsOnce (host : Text) : Prop :=
  trim (stripped host) = stripped host ∧ (stripped host).count ':' ≠ 1

instance decidableStripsOnce (host : Text) : Decidable (StripsOnce host) :=
  inferInstanceAs (Decidable (_ ∧ _))

theorem trimEndDots_lower (s : Text) :
    trimEndDots (toAsciiLowercase s) = toAsciiLowercase (trimEndDots s) := by
  have hdot : IsSign '.' := by decide
  refine rdropWhile_lower (fun c => ?_) s
  simp [toLower_eq_iff hdot]

theorem normalizeHost_stripped (host : Text) :
    normalizeHost host = toAsciiLowercase (stripped host) := by
  unfold normalizeHost stripped
  simp only
  cases bracketed (trim host) with
  | some inner => exact trimEndDots_lower inner
  | none => exact trimEndDots_lower _

theorem trim_eq_of_length {s : Text} (h : s.length ≤ (trim s).length) : trim s = s := by
  have hstart : trimStart s = s :=
    (trimStart_suffix s).eq_of_length_le (h.trans (trimEnd_isPrefix _).length_le)
  have hend : trim s = trimEnd s := by rw [trim, hstart]
  rw [hend] at h ⊢
  exact (trimEnd_isPrefix s).eq_of_length_le h

theorem withoutPort_isPrefix (s : Text) : withoutPort s <+: s := by
  unfold withoutPort
  split
  · exact takeWhile_prefix _
  · exact prefix_refl s

theorem withoutPort_eq_self {s : Text} : withoutPort s = s ↔ s.count ':' ≠ 1 := by
  unfold withoutPort
  by_cases h : s.count ':' = 1
  · rw [if_pos h]
    refine iff_of_false (fun heq => ?_) (fun hne => hne h)
    have hmem : ':' ∈ s := count_pos_iff.mp (by omega)
    rw [← heq] at hmem
    simpa using mem_takeWhile_imp hmem
  · rw [if_neg h]
    exact iff_of_true rfl h

theorem bracketed_eq_none {s : Text} : bracketed s = none ↔ s.head? ≠ some '[' ∨ ']' ∉ s := by
  unfold bracketed
  split
  · rename_i rest
    simp [splitOnce_eq_none]
  · rename_i hne
    refine iff_of_true rfl (.inl fun hhead => ?_)
    obtain ⟨rest, rfl⟩ := List.head?_eq_some_iff.mp hhead
    exact hne rest rfl

theorem head_of_isPrefix {s t : Text} {c : Char} (hpre : s <+: t) (h : s.head? = some c) :
    t.head? = some c := by
  obtain ⟨rest, rfl⟩ := List.head?_eq_some_iff.mp h
  obtain ⟨more, rfl⟩ := hpre
  rfl

theorem trim_subset (s : Text) : trim s ⊆ s :=
  List.Subset.trans (trimEnd_isPrefix _).subset (trimStart_suffix s).subset

theorem trim_isPrefix {s host : Text} (h : s <+: trim host) : trim s <+: s := by
  have hstart : trimStart s = s := trimStart_eq_self fun c hc =>
    trimStart_head (head_of_isPrefix (h.trans (trimEnd_isPrefix _)) hc)
  rw [trim, hstart]
  exact trimEnd_isPrefix s

theorem bracketed_trim_stripped (host : Text) : bracketed (trim (stripped host)) = none := by
  have hdots : ∀ s : Text, trimEndDots s <+: s := rdropWhile_prefix _
  rw [bracketed_eq_none]
  unfold stripped
  cases hb : bracketed (trim host) with
  | some inner =>
    right
    have hclose : ']' ∉ inner := by
      unfold bracketed at hb
      split at hb
      · obtain ⟨⟨a, b⟩, hsplit, rfl⟩ := Option.map_eq_some_iff.mp hb
        exact (splitOnce_eq_some.mp hsplit).2
      · cases hb
    exact fun hmem => hclose ((hdots inner).subset (trim_subset _ hmem))
  | none =>
    have hpre : trimEndDots (withoutPort (trim host)) <+: trim host :=
      (hdots _).trans (withoutPort_isPrefix _)
    have hpre' := (trim_isPrefix hpre).trans hpre
    refine (bracketed_eq_none.mp hb).imp (fun hhead h => hhead ?_) (fun hclose h => hclose ?_)
    · exact head_of_isPrefix hpre' h
    · exact hpre'.subset h

theorem normalizeHost_idem_iff (host : Text) :
    normalizeHost (normalizeHost host) = normalizeHost host ↔ StripsOnce host := by
  have hagain : normalizeHost (normalizeHost host) =
      toAsciiLowercase (trimEndDots (withoutPort (trim (stripped host)))) := by
    rw [normalizeHost_stripped host, normalizeHost_lower, normalizeHost_stripped, stripped,
      bracketed_trim_stripped]
    rfl
  rw [hagain, normalizeHost_stripped]
  constructor
  · intro h
    -- each of the three passes can only shorten the text
    have hlength : (trimEndDots (withoutPort (trim (stripped host)))).length =
        (stripped host).length := by
      simpa [toAsciiLowercase] using congrArg List.length h
    have hdots := IsPrefix.length_le <|
      rdropWhile_prefix (· == '.') (withoutPort (trim (stripped host)))
    have hport := (withoutPort_isPrefix (trim (stripped host))).length_le
    unfold trimEndDots at hlength
    have htrimmed : trim (stripped host) = stripped host := trim_eq_of_length (by omega)
    refine ⟨htrimmed, withoutPort_eq_self.mp ?_⟩
    rw [htrimmed] at hport hdots hlength
    exact (withoutPort_isPrefix _).eq_of_length_le (by omega)
  · rintro ⟨htrim, hcolon⟩
    rw [htrim, withoutPort_eq_self.mpr hcolon]
    congr 1
    exact rdropWhile_idempotent _ _

/-! ## The entries that count -/

def permissionOf (entries : List NetworkDomainPermissionEntry) (pattern : Text) :
    Option NetworkDomainPermission :=
  entries.foldl (fun permission entry =>
    if entry.pattern = pattern then
      some (permission.elim entry.permission (·.strongest entry.permission))
    else permission) none

theorem permissionOf_snoc (entries : List NetworkDomainPermissionEntry)
    (entry : NetworkDomainPermissionEntry) (pattern : Text) :
    permissionOf (entries ++ [entry]) pattern =
      if entry.pattern = pattern then
        some ((permissionOf entries pattern).elim entry.permission (·.strongest entry.permission))
      else permissionOf entries pattern := by
  unfold permissionOf
  rw [foldl_append]
  rfl

variable {pattern : Text}

theorem permissionOf_filter {keep : NetworkDomainPermissionEntry → Bool}
    (hkeep : ∀ entry, entry.pattern = pattern → keep entry = true)
    (entries : List NetworkDomainPermissionEntry) :
    permissionOf (entries.filter keep) pattern = permissionOf entries pattern := by
  induction entries using List.reverseRecOn with
  | nil => rfl
  | append_singleton entries entry ih =>
    rw [filter_append, permissionOf_snoc]
    by_cases h : entry.pattern = pattern
    · rw [filter_singleton, hkeep entry h, if_pos h, cond_true, permissionOf_snoc, if_pos h, ih]
    · rw [if_neg h, filter_singleton]
      cases keep entry with
      | false => rw [cond_false, append_nil, ih]
      | true => rw [cond_true, permissionOf_snoc, if_neg h, ih]

theorem permissionOf_eq_none {entries : List NetworkDomainPermissionEntry}
    (h : ∀ entry ∈ entries, entry.pattern ≠ pattern) : permissionOf entries pattern = none := by
  induction entries using List.reverseRecOn with
  | nil => rfl
  | append_singleton entries entry ih =>
    rw [permissionOf_snoc, if_neg (h entry (by simp)), ih fun e he => h e (by simp [he])]

theorem mem_effectiveEntries {entries : List NetworkDomainPermissionEntry}
    {permission : NetworkDomainPermission} : ⟨pattern, permission⟩ ∈ effectiveEntries entries ↔
      permissionOf entries pattern = some permission := by
  induction entries using List.reverseRecOn generalizing pattern permission with
  | nil => simp [effectiveEntries, permissionOf]
  | append_singleton entries entry ih =>
    have hmerge : effectiveEntries (entries ++ [entry]) =
        mergeEntry (effectiveEntries entries) entry := by
      unfold effectiveEntries
      rw [foldl_append]
      rfl
    have hany : (effectiveEntries entries).any (·.pattern = entry.pattern) = true ↔
        ∃ strongest, permissionOf entries entry.pattern = some strongest := by
      rw [any_eq_true]
      constructor
      · rintro ⟨⟨p, strongest⟩, hmem, hp⟩
        obtain rfl : p = entry.pattern := of_decide_eq_true hp
        exact ⟨strongest, ih.mp hmem⟩
      · rintro ⟨strongest, h⟩
        exact ⟨⟨entry.pattern, strongest⟩, ih.mpr h, decide_eq_true rfl⟩
    rw [hmerge, permissionOf_snoc]
    unfold mergeEntry
    by_cases h : (effectiveEntries entries).any (·.pattern = entry.pattern) = true
    · obtain ⟨strongest, hstrongest⟩ := hany.mp h
      rw [if_pos h, mem_map]
      by_cases hp : entry.pattern = pattern
      · subst hp
        rw [if_pos rfl, hstrongest, Option.elim_some, Option.some.injEq]
        constructor
        · rintro ⟨⟨p, q⟩, hmem, hq⟩
          split at hq
          · rename_i heq
            cases hq
            obtain rfl : strongest = q := Option.some.inj (hstrongest.symm.trans (heq ▸ ih.mp hmem))
            rfl
          · rename_i hne
            cases hq
            exact absurd rfl hne
        · rintro rfl
          exact ⟨⟨entry.pattern, strongest⟩, ih.mpr hstrongest, if_pos rfl⟩
      · rw [if_neg hp, ← ih]
        constructor
        · rintro ⟨⟨p, q⟩, hmem, hq⟩
          split at hq
          · rename_i heq
            cases hq
            exact absurd heq.symm hp
          · cases hq
            exact hmem
        · intro hmem
          exact ⟨⟨pattern, permission⟩, hmem, if_neg (Ne.symm hp)⟩
    · have hnone : permissionOf entries entry.pattern = none := by
        cases hperm : permissionOf entries entry.pattern with
        | none => rfl
        | some strongest => exact absurd (hany.mpr ⟨strongest, hperm⟩) h
      rw [if_neg h, mem_append, mem_singleton, ih]
      by_cases hp : entry.pattern = pattern
      · subst hp
        rw [if_pos rfl, hnone, Option.elim_none, Option.some.injEq]
        obtain ⟨p, q⟩ := entry
        simp [eq_comm]
      · rw [if_neg hp]
        refine or_iff_left fun heq => hp ?_
        rw [← heq]

variable {network : NetworkProxySettings} {kind : DomainListKind}

theorem mem_entries : pattern ∈ kind.entries network ↔
      permissionOf (network.domains.getD []) pattern = some kind.permission := by
  have hside : ∀ permission, pattern ∈ (network.domainEntries permission).getD [] ↔
      permissionOf (network.domains.getD []) pattern = some permission := by
    intro permission
    rw [← mem_effectiveEntries]
    unfold NetworkProxySettings.domainEntries
    cases network.domains with
    | none => simp [effectiveEntries]
    | some entries =>
      rw [Option.map_some, Option.filter_some, Option.getD_some]
      have hmem : pattern ∈ ((effectiveEntries entries).filter
          (·.permission = permission)).map (·.pattern) ↔
          ⟨pattern, permission⟩ ∈ effectiveEntries entries := by
        simp only [mem_map, mem_filter, decide_eq_true_eq]
        constructor
        · rintro ⟨⟨p, q⟩, ⟨hmem, rfl⟩, rfl⟩
          exact hmem
        · intro hmem
          exact ⟨_, ⟨hmem, rfl⟩, rfl⟩
      rw [← hmem]
      split
      · rfl
      · rename_i hnil
        simp only [ne_eq, decide_not, Bool.not_eq_true', decide_eq_false_iff_not, not_not] at hnil
        rw [hnil]
        rfl
  cases kind with
  | allow => exact hside .allow
  | deny => exact hside .deny

/-! ## One update -/

namespace DomainListKind

def opposite : DomainListKind → DomainListKind
  | allow => deny
  | deny => allow

theorem oppositeEntries_eq (kind : DomainListKind) (network : NetworkProxySettings) :
    kind.oppositeEntries network = kind.opposite.entries network := by
  cases kind <;> rfl

theorem permission_opposite (kind : DomainListKind) :
    kind.opposite.permission ≠ kind.permission := by
  cases kind <;> decide

end DomainListKind

def Listed (kind : DomainListKind) (host : Text) (network : NetworkProxySettings) : Prop :=
  ∃ entry ∈ kind.entries network, normalizeHost entry = host

variable {host : Text}

theorem listed_iff : Listed kind host network ↔ ∃ pattern, normalizeHost pattern = host ∧
      permissionOf (network.domains.getD []) pattern = some kind.permission := by
  simp only [Listed, mem_entries, and_comm]

theorem listed_of_filter {network network' : NetworkProxySettings} (keep : Text → Bool)
    (hkeep : keep host = true)
    (heq : ((network.domains.getD []).filter fun entry => keep (normalizeHost entry.pattern)) =
      (network'.domains.getD []).filter fun entry => keep (normalizeHost entry.pattern))
    (kind : DomainListKind) : Listed kind host network ↔ Listed kind host network' := by
  have hperm : ∀ pattern, normalizeHost pattern = host →
      permissionOf (network.domains.getD []) pattern =
        permissionOf (network'.domains.getD []) pattern := by
    intro pattern hpattern
    have hkept : ∀ entry : NetworkDomainPermissionEntry, entry.pattern = pattern →
        keep (normalizeHost entry.pattern) = true := by
      rintro entry rfl
      rwa [hpattern]
    rw [← permissionOf_filter hkept, heq, permissionOf_filter hkept]
  simp only [listed_iff]
  exact exists_congr fun pattern => and_congr_right fun h => by rw [hperm pattern h]

section
variable {network : NetworkProxySettings} {host : Text} {permission : NetworkDomainPermission}

theorem filter_upsert (keep : Text → Bool) (hkeep : keep (normalizeHost host) = false) :
    (((network.upsertDomainPermission host permission normalizeHost).domains.getD []).filter
        fun entry => keep (normalizeHost entry.pattern)) =
      (network.domains.getD []).filter fun entry => keep (normalizeHost entry.pattern) := by
  unfold NetworkProxySettings.upsertDomainPermission
  rw [Option.getD_some, filter_append, filter_singleton, hkeep, cond_false,
    append_nil, filter_filter]
  refine filter_congr fun entry _ => ?_
  by_cases h : normalizeHost entry.pattern = normalizeHost host
  · rw [h, hkeep, Bool.false_and]
  · simp [h]

theorem listed_upsert_self (hidem : normalizeHost host = host) (kind : DomainListKind) :
    Listed kind host (network.upsertDomainPermission host permission normalizeHost) ↔
      kind.permission = permission := by
  have hperm : ∀ pattern, normalizeHost pattern = host →
      permissionOf ((network.upsertDomainPermission host permission normalizeHost).domains.getD [])
        pattern = if host = pattern then some permission else none := by
    intro pattern hpattern
    unfold NetworkProxySettings.upsertDomainPermission
    rw [Option.getD_some, permissionOf_snoc, permissionOf_eq_none]
    · rfl
    · intro entry hentry heq
      have hne := (mem_filter.mp hentry).2
      simp [heq, hpattern, hidem] at hne
  rw [listed_iff]
  constructor
  · rintro ⟨pattern, hpattern, h⟩
    rw [hperm pattern hpattern] at h
    split at h
    · exact (Option.some.inj h).symm
    · cases h
  · rintro rfl
    exact ⟨host, hidem, by rw [hperm host hidem, if_pos rfl]⟩

theorem listed_upsert_changed (hne : normalizeHost host ≠ host) (kind : DomainListKind) :
    Listed kind host (network.upsertDomainPermission host permission normalizeHost) ↔
      Listed kind host network :=
  listed_of_filter (fun g => g ≠ normalizeHost host) (by simpa using hne.symm)
    (filter_upsert (fun g => g ≠ normalizeHost host) (by simp)) kind

end

structure DomainUpdate where
  host : Text
  target : DomainListKind

section
variable {ε : Type}

/-- `update_domain_list` while no reload and no other update comes in between. -/
def updateDomainList (env : Env) (s : ConfigState ε) (update : DomainUpdate) :
    Except Failure (ConfigState ε) :=
  match Host.parse update.host with
  | none => .error .invalidHost
  | some host => do
    match ← planUpdate env host.text update.target s with
    | none => .ok s
    | some plan => .ok plan.newState

def addAllowedDomain (env : Env) (s : ConfigState ε) (host : Text) :
    Except Failure (ConfigState ε) :=
  updateDomainList env s ⟨host, .allow⟩

def addDeniedDomain (env : Env) (s : ConfigState ε) (host : Text) :
    Except Failure (ConfigState ε) :=
  updateDomainList env s ⟨host, .deny⟩

variable {env : Env} {s t : ConfigState ε} {update : DomainUpdate}

theorem buildConfigState_config {config : NetworkProxySettings}
    {constraints : NetworkProxyConstraints} (h : buildConfigState env config constraints = .ok t) :
    t.config = config := by
  iterate 5 obtain ⟨_, -, h⟩ := bind_ok_iff.mp h
  cases h
  rfl

theorem lists_iff : (((kind.entries network).any fun entry => normalizeHost entry = host) &&
      !(kind.oppositeEntries network).any fun entry => normalizeHost entry = host) = true ↔
      Listed kind host network ∧ ¬ Listed kind.opposite host network := by
  rw [DomainListKind.oppositeEntries_eq]
  simp [Listed]

theorem planUpdate_ok {target : DomainListKind} {planned : Option (UpdatePlan ε)}
    (h : planUpdate env host target s = .ok planned) :
    (Listed target host s.config ∧ ¬ Listed target.opposite host s.config) ∧ planned = none ∨
      ¬ (Listed target host s.config ∧ ¬ Listed target.opposite host s.config) ∧
        ∃ plan, planned = some plan ∧ plan.previousCfg = s.config ∧
          plan.constraints = s.constraints ∧ plan.newState.config =
            s.config.upsertDomainPermission host target.permission normalizeHost := by
  unfold planUpdate at h
  simp only at h
  split at h
  · rename_i hsettled
    cases h
    exact .inl ⟨lists_iff.mp hsettled, rfl⟩
  · rename_i hnot
    rw [lists_iff] at hnot
    obtain ⟨_, -, h⟩ := bind_ok_iff.mp h
    obtain ⟨newState, hnew, h⟩ := bind_ok_iff.mp h
    have hconfig := buildConfigState_config hnew
    cases h
    exact .inr ⟨hnot, _, rfl, rfl, rfl, hconfig⟩

def Settled (update : DomainUpdate) (network : NetworkProxySettings) : Prop :=
  Listed update.target (normalizeHost update.host) network ∧
    ¬ Listed update.target.opposite (normalizeHost update.host) network

section
variable (hupdate : updateDomainList env s update = .ok t)
include hupdate

theorem updateDomainList_ok : Settled update s.config ∧ t = s ∨
      ¬ Settled update s.config ∧ t.config = s.config.upsertDomainPermission
        (normalizeHost update.host) update.target.permission normalizeHost := by
  unfold updateDomainList at hupdate
  split at hupdate
  · cases hupdate
  · rename_i host hhost
    have htext : host.text = normalizeHost update.host := by
      unfold Host.parse at hhost
      split at hhost
      · cases hhost
        rfl
      · cases hhost
    obtain ⟨planned, hplan, hnew⟩ := bind_ok_iff.mp hupdate
    rw [htext] at hplan
    rcases planUpdate_ok hplan with ⟨hsettled, rfl⟩ | ⟨hnot, plan, rfl, -, -, hconfig⟩
    · cases hnew
      exact .inl ⟨hsettled, rfl⟩
    · cases hnew
      exact .inr ⟨hnot, hconfig⟩

theorem settled_iff :
    Settled update t.config ↔ StripsOnce update.host ∨ Settled update s.config := by
  rw [← normalizeHost_idem_iff]
  rcases updateDomainList_ok hupdate with ⟨hsettled, rfl⟩ | ⟨hnot, hconfig⟩
  · exact iff_of_true hsettled (.inr hsettled)
  · rw [hconfig, or_iff_left hnot]
    by_cases hidem : normalizeHost (normalizeHost update.host) = normalizeHost update.host
    · refine iff_of_true ⟨?_, ?_⟩ hidem
      · exact (listed_upsert_self hidem _).mpr rfl
      · exact fun h => update.target.permission_opposite ((listed_upsert_self hidem _).mp h)
    · refine iff_of_false (fun h => hnot ⟨?_, fun h' => h.2 ?_⟩) hidem
      · exact (listed_upsert_changed hidem _).mp h.1
      · exact (listed_upsert_changed hidem _).mpr h'

theorem updateDomainList_others
    (hcond : StripsOnce update.host ∨ Settled update s.config) (keep : Text → Bool)
    (hkeep : keep (normalizeHost update.host) = false) :
    ((t.config.domains.getD []).filter fun entry => keep (normalizeHost entry.pattern)) =
      (s.config.domains.getD []).filter fun entry => keep (normalizeHost entry.pattern) := by
  rcases updateDomainList_ok hupdate with ⟨-, rfl⟩ | ⟨hnot, hconfig⟩
  · rfl
  · rw [or_iff_left hnot, ← normalizeHost_idem_iff] at hcond
    rw [hconfig]
    exact filter_upsert keep (by rwa [hcond])

end

/-! ## Sequences of updates -/

def lastTarget (updates : List DomainUpdate) (host : Text) : Option DomainListKind :=
  (updates.findRev? fun update => normalizeHost update.host = host).map (·.target)

theorem lastTarget_snoc (updates : List DomainUpdate) (update : DomainUpdate) (host : Text) :
    lastTarget (updates ++ [update]) host =
      if normalizeHost update.host = host then some update.target else lastTarget updates host := by
  unfold lastTarget
  by_cases h : normalizeHost update.host = host
  · simp [h]
  · simp [h]

def otherEntries (updates : List DomainUpdate) (network : NetworkProxySettings) :
    List NetworkDomainPermissionEntry :=
  (network.domains.getD []).filter fun entry =>
    (lastTarget updates (normalizeHost entry.pattern)).isNone

/-- Each host is where the last update of it put it, and the entries of the others are those
of the start. -/
structure FollowsUpdates (start : NetworkProxySettings) (updates : List DomainUpdate)
    (network : NetworkProxySettings) : Prop where
  others : otherEntries updates network = otherEntries updates start
  touched : ∀ host target, lastTarget updates host = some target →
    Listed target host network ∧ ¬ Listed target.opposite host network

theorem FollowsUpdates.start (network : NetworkProxySettings) : FollowsUpdates network [] network :=
  ⟨rfl, nofun⟩

theorem FollowsUpdates.step {start : NetworkProxySettings} {updates : List DomainUpdate}
    (h : FollowsUpdates start updates s.config) (hupdate : updateDomainList env s update = .ok t)
    (hcond : StripsOnce update.host ∨ Settled update s.config) :
    FollowsUpdates start (updates ++ [update]) t.config := by
  constructor
  · have hfurther : ∀ network, otherEntries (updates ++ [update]) network =
        (otherEntries updates network).filter fun entry =>
          normalizeHost entry.pattern ≠ normalizeHost update.host := by
      intro network
      unfold otherEntries
      rw [filter_filter]
      refine filter_congr fun entry _ => ?_
      rw [lastTarget_snoc]
      by_cases hhost : normalizeHost update.host = normalizeHost entry.pattern
      · simp [hhost]
      · simp [hhost, Ne.symm hhost]
    have hkeep : (lastTarget (updates ++ [update]) (normalizeHost update.host)).isNone = false := by
      rw [lastTarget_snoc, if_pos rfl]
      rfl
    calc otherEntries (updates ++ [update]) t.config
      _ = otherEntries (updates ++ [update]) s.config :=
        updateDomainList_others hupdate hcond
          (fun g => (lastTarget (updates ++ [update]) g).isNone) hkeep
      _ = otherEntries (updates ++ [update]) start := by
        rw [hfurther, hfurther, h.others]
  · intro host target hlast
    rw [lastTarget_snoc] at hlast
    split at hlast
    · rename_i hhost
      subst hhost
      cases hlast
      exact (settled_iff hupdate).mpr hcond
    · rename_i hhost
      have hlisted : ∀ kind, Listed kind host t.config ↔ Listed kind host s.config :=
        listed_of_filter (fun g => g ≠ normalizeHost update.host) (by simpa using Ne.symm hhost)
          (updateDomainList_others hupdate hcond (fun g => g ≠ normalizeHost update.host) (by simp))
      rw [hlisted, hlisted]
      exact h.touched host target hlast

theorem FollowsUpdates.listed_both {start network : NetworkProxySettings}
    {updates : List DomainUpdate} (h : FollowsUpdates start updates network) (host : Text) :
    Listed .allow host network ∧ Listed .deny host network ↔
      lastTarget updates host = none ∧ Listed .allow host start ∧ Listed .deny host start := by
  cases hlast : lastTarget updates host with
  | some target =>
    refine iff_of_false (fun hboth => ?_) (fun h => nomatch h.1)
    have htouched := h.touched host target hlast
    cases target with
    | allow => exact htouched.2 hboth.2
    | deny => exact htouched.2 hboth.1
  | none =>
    have hlisted := listed_of_filter (fun g => (lastTarget updates g).isNone) (by rw [hlast]; rfl)
      h.others
    rw [hlisted, hlisted]
    simp

/-- A host is where the last update of it put it exactly if normalising it again leaves it as
it is or there was nothing to change. -/
theorem domainLists_lastTarget (env : Env) :
    (∀ host, normalizeHost (normalizeHost host) = normalizeHost host ↔ StripsOnce host) ∧
      (∀ (s t : ConfigState ε) update, updateDomainList env s update = .ok t →
        (Settled update t.config ↔ StripsOnce update.host ∨ Settled update s.config)) ∧
      ∀ (s : ConfigState ε) updates, Along (updateDomainList env)
          (fun u update => StripsOnce update.host ∨ Settled update u.config) s updates →
        ∀ made u, made <+: updates → made.foldlM (updateDomainList env) s = .ok u →
          otherEntries made u.config = otherEntries made s.config ∧
          (∀ host target, lastTarget made host = some target →
            Listed target host u.config ∧ ¬ Listed target.opposite host u.config) ∧
          ∀ host, Listed .allow host u.config ∧ Listed .deny host u.config ↔
            lastTarget made host = none ∧
              Listed .allow host s.config ∧ Listed .deny host s.config := by
  refine ⟨normalizeHost_idem_iff, fun _ _ _ => settled_iff, fun s updates halong made => ?_⟩
  have hfollows : ∀ u, made <+: updates → made.foldlM (updateDomainList env) s = .ok u →
      FollowsUpdates s.config made u.config := by
    induction made using List.reverseRecOn with
    | nil =>
      intro u _ hrun
      cases hrun
      exact FollowsUpdates.start s.config
    | append_singleton made update ih =>
      intro t hpre hrun
      obtain ⟨u, hu, hupdate⟩ := run_snoc.mp hrun
      exact (ih u ((prefix_append made _).trans hpre) hu).step hupdate (halong.at hpre hu)
  intro u hpre hrun
  have h := hfollows u hpre hrun
  exact ⟨h.others, h.touched, h.listed_both⟩

end

def plainEnv : Env := ⟨some, ⟨fun glob => some (globMatch glob), fun _ => true⟩, true⟩

def denying (patterns : List Text) : ConfigState Empty :=
  ⟨{ domains := some (patterns.map (⟨·, .deny⟩)) }, [], patterns.map globMatch, none, {}, [], 0⟩

def respelled : List DomainUpdate :=
  [⟨"Example.com:443".toList, .allow⟩, ⟨"example.com.".toList, .deny⟩]

theorem respelled_denied :
    ∃ t, respelled.foldlM (updateDomainList plainEnv) (denying ["a".toList]) = .ok t ∧
      otherEntries respelled t.config = [⟨"a".toList, .deny⟩] ∧
      Listed .deny "example.com".toList t.config ∧
      ¬ Listed .allow "example.com".toList t.config := by
  have hstrips : ∀ update ∈ respelled, StripsOnce update.host := by decide +kernel
  have halong := @Along.of_forall _ _ _ (updateDomainList plainEnv)
    (fun u update => StripsOnce update.host ∨ Settled update u.config) respelled
    (fun update hmem _ => .inl (hstrips update hmem)) (denying ["a".toList])
  obtain ⟨hothers, htouched, -⟩ := (domainLists_lastTarget plainEnv).2.2 _ _ halong respelled _
    (prefix_refl _) rfl
  exact ⟨_, rfl, hothers, htouched "example.com".toList .deny (by decide +kernel)⟩

/-- In `[a:1]` there is a port under the brackets: the entry set for it counts for `a`, whose
own entry goes. -/
theorem bracketed_port_unlisted : normalizeHost (normalizeHost "[a:1]".toList) = "a".toList ∧
      normalizeHost "[a:1]".toList = "a:1".toList ∧
      ∃ t, [DomainUpdate.mk "[a:1]".toList .allow].foldlM (updateDomainList plainEnv)
          (denying ["a".toList]) = .ok t ∧
        ¬ Listed .allow "a:1".toList t.config ∧ Listed .allow "a".toList t.config ∧
        Listed .deny "a".toList (denying ["a".toList]).config ∧
        ¬ Listed .deny "a".toList t.config := by
  refine ⟨by decide +kernel, by decide +kernel, _, rfl, ?_⟩
  simp only [Listed]
  decide +kernel

end Codex.NetworkProxy
