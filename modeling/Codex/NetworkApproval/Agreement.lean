import Codex.Foundation.Run
import Codex.Foundation.Slots
import Codex.NetworkApproval.Service

/-!
# Agreement on a host

One request asks for a key, and those that wait on it return what it returns. A denial is
kept for the session only where it is the latest answer. A request reads the two sets
before it looks for a pending approval, and it does not read them again.
-/

namespace Codex.NetworkApproval

open Foundation

/-- The pending map has the entry of the request. -/
def Phase.holds : Phase → Bool
  | .called | .notDenied | .notApproved | .waiting _ => false
  | .owner | .cleared | .asking _ | .recording _ _ _ => true
  | .forgetting _ _ | .storing _ _ | .deciding _ _ | .clearing _ _ => true
  | .attributing _ | .returned _ _ => false

/-- The decision is there from `clearing` on, and it is what the request returns. -/
def Request.Consistent (r : Request) : Prop :=
  match r.phase with
  | .deciding resolved late => r.decision = none ∧ (late ≠ none → resolved = .deny)
  | .clearing resolved late => r.decision = some resolved ∧ (late ≠ none → resolved = .deny)
  | .attributing _ => r.decision = some .deny
  | .returned none d => ∀ resolved, r.decision = some resolved → d = resolved.toNetworkDecision
  | _ => r.decision = none

namespace Service

section
variable (s : Service)

def Asking (i : ℕ) (key : HostApprovalKey) : Prop :=
  ∃ r ownerCall, s.requests[i]? = some r ∧ r.key = key ∧ r.phase = .asking ownerCall

def Returns (i : ℕ) (waitedOn : Option ℕ) (d : NetworkDecision) : Prop :=
  ∃ r, s.requests[i]? = some r ∧ r.phase = .returned waitedOn d

structure Agreement : Prop where
  oneAsker : ∀ key i j, s.Asking i key → s.Asking j key → i = j
  sameDecision : ∀ i j waitedOn d d', s.Returns i (some j) d → s.Returns j waitedOn d' → d = d'
  latestDenial : ∀ key ∈ s.sessionDeniedHosts, s.answers.lookup key = some .deny
  idle : (∀ r ∈ s.requests, ∃ waitedOn d, r.phase = .returned waitedOn d) →
    ∀ key, s.pendingHostApprovals.lookup key = none

def BeginsToAsk (key : HostApprovalKey) (action : Action) : Prop :=
  ∃ i r, action = .advance i ∧ s.requests[i]? = some r ∧ r.key = key ∧ r.phase = .cleared

def Answered (key : HostApprovalKey) : Prop := ∃ answer, (key, answer) ∈ s.answers

/-! ## What holds in every run -/

structure Owned : Prop where
  consistent : ∀ (i : ℕ) (r : Request), s.requests[i]? = some r → r.Consistent
  entry : ∀ key i, s.pendingHostApprovals.lookup key = some i ↔
    ∃ r, s.requests[i]? = some r ∧ r.key = key ∧ r.phase.holds = true
  heard : ∀ i j d, s.Returns i (some j) d → ∃ q resolved, s.requests[j]? = some q ∧
    q.decision = some resolved ∧ d = resolved.toNetworkDecision

def Storing (key : HostApprovalKey) : Prop :=
  ∃ (i : ℕ) (r : Request) (answer : SessionAnswer) (resolved : PendingApprovalDecision),
    s.requests[i]? = some r ∧ r.key = key ∧ r.phase = .storing answer resolved

structure Recorded : Prop where
  latestDenial : ∀ key ∈ s.sessionDeniedHosts, s.answers.lookup key = some .deny
  forgotten : ∀ (i : ℕ) (r : Request) (resolved : PendingApprovalDecision),
    s.requests[i]? = some r → r.phase = .storing .allow resolved → r.key ∉ s.sessionDeniedHosts
  answered : ∀ key, ¬ s.Storing key →
    (s.Answered key ↔ key ∈ s.sessionApprovedHosts ∨ key ∈ s.sessionDeniedHosts)

end

section
variable {s s' s₁ : Service} {i : ℕ} {r r' : Request}

theorem Owned.same_holder (h : s.Owned) {j : ℕ} {q : Request} (hr : s.requests[i]? = some r)
    (hq : s.requests[j]? = some q) (hkey : r.key = q.key) (hrh : r.phase.holds = true)
    (hqh : q.phase.holds = true) : i = j := by
  have hi := (h.entry r.key i).mpr ⟨r, hr, rfl, hrh⟩
  have hj := (h.entry r.key j).mpr ⟨q, hq, hkey.symm, hqh⟩
  exact Option.some.inj (hi.symm.trans hj)

variable {key : HostApprovalKey}

theorem Owned.asker (h : s.Owned) {j : ℕ} (hi : s.Asking i key) (hj : s.Asking j key) : i = j := by
  obtain ⟨r, _, hr, rfl, hrp⟩ := hi
  obtain ⟨q, _, hq, hkey, hqp⟩ := hj
  exact h.same_holder hr hq hkey.symm (by rw [hrp]; rfl) (by rw [hqp]; rfl)

theorem Owned.decision (h : s.Owned) {j : ℕ} {waitedOn : Option ℕ} {d d' : NetworkDecision}
    (hi : s.Returns i (some j) d) (hj : s.Returns j waitedOn d') : d = d' := by
  obtain ⟨q, resolved, hq, hdec, rfl⟩ := h.heard i j d hi
  obtain ⟨q', hq', hphase⟩ := hj
  rw [hq] at hq'
  cases hq'
  have hcons := h.consistent j q hq
  simp only [Request.Consistent, hphase] at hcons
  cases waitedOn with
  | none => exact (hcons resolved hdec).symm
  | some p =>
    rw [hdec] at hcons
    cases hcons

theorem Owned.idle (h : s.Owned)
    (hall : ∀ r ∈ s.requests, ∃ waitedOn d, r.phase = .returned waitedOn d)
    (key : HostApprovalKey) : s.pendingHostApprovals.lookup key = none := by
  cases hk : s.pendingHostApprovals.lookup key with
  | none => rfl
  | some i =>
    obtain ⟨r, hr, -, hholds⟩ := (h.entry key i).mp hk
    obtain ⟨_, _, hphase⟩ := hall r (List.mem_of_getElem? hr)
    rw [hphase] at hholds
    cases hholds

theorem agreement_of (h : s.Owned) (hrec : s.Recorded) : s.Agreement :=
  ⟨fun _ _ _ hi hj => h.asker hi hj, fun _ _ _ _ _ hi hj => h.decision hi hj,
    hrec.latestDenial, h.idle⟩

/-! ## One request moves -/

/-- The entries of the others stay, and that of the request follows its phase. -/
def EntryFollows (s s₁ : Service) (i : ℕ) (r r' : Request) : Prop :=
  ∀ key j, s₁.pendingHostApprovals.lookup key = some j ↔
    j ≠ i ∧ s.pendingHostApprovals.lookup key = some j ∨ j = i ∧ r.key = key ∧ r'.phase.holds = true

theorem Owned.entry_self (h : s.Owned) (hr : s.requests[i]? = some r) (key : HostApprovalKey) :
    s.pendingHostApprovals.lookup key = some i ↔ r.key = key ∧ r.phase.holds = true := by
  rw [h.entry, hr]
  simp

theorem entryFollows_same (h : s.Owned) (hr : s.requests[i]? = some r)
    (hpending : s₁.pendingHostApprovals = s.pendingHostApprovals)
    (hholds : r'.phase.holds = r.phase.holds) : EntryFollows s s₁ i r r' := by
  intro key j
  rw [hpending, hholds]
  by_cases hj : j = i
  · subst hj
    simp [h.entry_self hr]
  · simp [hj]

theorem entryFollows_insert (hnone : s.pendingHostApprovals.lookup r.key = none)
    (hpending : s₁.pendingHostApprovals = s.pendingHostApprovals.insert r.key i)
    (hnot : ∀ key, s.pendingHostApprovals.lookup key ≠ some i) (hholds : r'.phase.holds = true) :
    EntryFollows s s₁ i r r' := by
  intro key j
  rw [hpending, lookup_insert_ite, hholds]
  by_cases hkey : key = r.key
  · subst hkey
    simp [hnone, eq_comm]
  · rw [if_neg hkey]
    by_cases hj : j = i
    · subst hj
      simp [hnot key, Ne.symm hkey]
    · simp [hj]

theorem entryFollows_erase (h : s.Owned) (hr : s.requests[i]? = some r)
    (hpending : s₁.pendingHostApprovals = s.pendingHostApprovals.erase r.key)
    (hheld : r.phase.holds = true) (hholds : r'.phase.holds = false) :
    EntryFollows s s₁ i r r' := by
  intro key j
  have hself := (h.entry_self hr r.key).mpr ⟨rfl, hheld⟩
  rw [hpending, lookup_erase_ite, hholds]
  by_cases hkey : key = r.key
  · subst hkey
    simp [hself, eq_comm]
  · rw [if_neg hkey]
    have hne : s.pendingHostApprovals.lookup key ≠ some i := fun hk =>
      hkey ((h.entry_self hr key).mp hk).1.symm
    by_cases hj : j = i
    · subst hj
      simp [hne]
    · simp [hj]

theorem Owned.put (h : s.Owned) (hr : s.requests[i]? = some r) (hreq : s₁.requests = s.requests)
    (hkey : r'.key = r.key) (hdec : ∀ resolved, r.decision = some resolved → r'.decision = some resolved)
    (hcons : r'.Consistent) (hentry : EntryFollows s s₁ i r r')
    (hheard : ∀ j d, r'.phase = .returned (some j) d → r.phase = .returned (some j) d ∨
      ∃ q resolved, s.requests[j]? = some q ∧ q.decision = some resolved ∧
        d = resolved.toNetworkDecision) : (s₁.putRequest i r').Owned := by
  have hget : ∀ {j : ℕ} {q : Request}, (s₁.putRequest i r').requests[j]? = some q ↔
      j = i ∧ q = r' ∨ j ≠ i ∧ s.requests[j]? = some q := by
    intro j q
    show (s₁.requests.set i r')[j]? = some q ↔ _
    rw [hreq]
    exact getElem?_slot hr
  have hkept : ∀ {j : ℕ} {q : Request} {resolved : PendingApprovalDecision},
      s.requests[j]? = some q → q.decision = some resolved →
      ∃ q', (s₁.putRequest i r').requests[j]? = some q' ∧ q'.decision = some resolved := by
    intro j q resolved hq hqd
    by_cases hj : j = i
    · subst hj
      rw [hr] at hq
      cases hq
      exact ⟨r', hget.mpr (.inl ⟨rfl, rfl⟩), hdec resolved hqd⟩
    · exact ⟨q, hget.mpr (.inr ⟨hj, hq⟩), hqd⟩
  refine ⟨fun j q hq => ?_, fun key j => ?_, fun j p d hj => ?_⟩
  · obtain ⟨rfl, rfl⟩ | ⟨-, hq⟩ := hget.mp hq
    · exact hcons
    · exact h.consistent j q hq
  · rw [show (s₁.putRequest i r').pendingHostApprovals = s₁.pendingHostApprovals from rfl,
      hentry key j]
    by_cases hj : j = i
    · subst hj
      simp [hget, hkey]
    · simp only [hget, hj, ne_eq, not_false_eq_true, true_and, false_and, false_or, or_false]
      exact h.entry key j
  · obtain ⟨q, hq, hphase⟩ := hj
    have hsource : ∃ q resolved, s.requests[p]? = some q ∧ q.decision = some resolved ∧
        d = resolved.toNetworkDecision := by
      obtain ⟨rfl, rfl⟩ | ⟨-, hq⟩ := hget.mp hq
      · obtain hold | hnew := hheard p d hphase
        · exact h.heard j p d ⟨r, hr, hold⟩
        · exact hnew
      · exact h.heard j p d ⟨q, hq, hphase⟩
    obtain ⟨q₁, resolved, hq₁, hdec₁, hd⟩ := hsource
    obtain ⟨q₂, hq₂, hdec₂⟩ := hkept hq₁ hdec₁
    exact ⟨q₂, resolved, hq₂, hdec₂, hd⟩

/-! ## One step -/

@[simp] theorem holds_afterOutcome (settlement : Settlement) :
    (afterOutcome settlement).holds = true := by
  unfold afterOutcome
  split <;> rfl

@[simp] theorem holds_afterAnswer (ownerCall : Option Text) (settlement : Settlement) :
    (afterAnswer ownerCall settlement).holds = true := by
  unfold afterAnswer
  split
  · rfl
  · exact holds_afterOutcome settlement

theorem consistent_afterOutcome (hdec : r.decision = none) (settlement : Settlement) :
    (r.at (afterOutcome settlement)).Consistent := by
  unfold afterOutcome
  split <;> simp [Request.Consistent, hdec]

theorem consistent_afterAnswer (hdec : r.decision = none) (ownerCall : Option Text)
    (settlement : Settlement) : (r.at (afterAnswer ownerCall settlement)).Consistent := by
  unfold afterAnswer
  split
  · simp [Request.Consistent, hdec]
  · exact consistent_afterOutcome hdec settlement

variable (answer : SessionAnswer)

@[simp] theorem afterOutcome_ne_storing (settlement : Settlement)
    (resolved : PendingApprovalDecision) : afterOutcome settlement ≠ .storing answer resolved := by
  unfold afterOutcome
  split <;> simp

@[simp] theorem afterAnswer_ne_storing (ownerCall : Option Text) (settlement : Settlement)
    (resolved : PendingApprovalDecision) :
    afterAnswer ownerCall settlement ≠ .storing answer resolved := by
  unfold afterAnswer
  split <;> simp

@[simp] theorem afterOutcome_ne_returned (settlement : Settlement) (waitedOn : Option ℕ)
    (d : NetworkDecision) : afterOutcome settlement ≠ .returned waitedOn d := fun h => by
  have hholds := holds_afterOutcome settlement
  rw [h] at hholds
  cases hholds

@[simp] theorem afterAnswer_ne_returned (ownerCall : Option Text) (settlement : Settlement)
    (waitedOn : Option ℕ) (d : NetworkDecision) :
    afterAnswer ownerCall settlement ≠ .returned waitedOn d := fun h => by
  have hholds := holds_afterAnswer ownerCall settlement
  rw [h] at hholds
  cases hholds

theorem Owned.put_at (h : s.Owned) (hr : s.requests[i]? = some r) (hreq : s₁.requests = s.requests)
    {phase : Phase} (hcons : (r.at phase).Consistent) (hentry : EntryFollows s s₁ i r (r.at phase))
    (hnot : ∀ j d, phase ≠ .returned (some j) d) : (s₁.putRequest i (r.at phase)).Owned :=
  h.put hr hreq rfl (fun _ hd => hd) hcons hentry fun j d hphase => absurd hphase (hnot j d)

theorem Owned.advance (h : s.Owned) (hr : s.requests[i]? = some r)
    (hstep : s.handleInlinePolicyRequest i r = some (s₁, r')) : (s₁.putRequest i r').Owned := by
  have hcons := h.consistent i r hr
  unfold handleInlinePolicyRequest at hstep
  unfold Request.Consistent at hcons
  cases hphase : r.phase with simp only [hphase] at hstep hcons
  | called | notDenied =>
    cases hstep
    refine h.put_at hr rfl ?_ ?_ ?_
    · split <;> simp [Request.Consistent, hcons]
    · apply entryFollows_same h hr rfl
      rw [hphase, Request.at_phase]
      split <;> rfl
    · intro j d
      split <;> simp
  | notApproved =>
    cases hlookup : s.pendingHostApprovals.lookup r.key with
    | some owner =>
      simp only [hlookup] at hstep
      cases hstep
      refine h.put_at hr rfl ?_ ?_ ?_
      · simp [Request.Consistent, hcons]
      · exact entryFollows_same h hr rfl (by rw [hphase]; rfl)
      · simp
    | none =>
      simp only [hlookup] at hstep
      cases hstep
      refine h.put_at hr ?_ ?_ ?_ ?_
      · rfl
      · simp [Request.Consistent, hcons]
      · apply entryFollows_insert hlookup rfl _ rfl
        intro key hkey
        have hheld := ((h.entry_self hr key).mp hkey).2
        rw [hphase] at hheld
        cases hheld
      · simp
  | waiting owner =>
    cases hdec : (s.requests[owner]?).bind Request.decision with
    | none =>
      simp only [hdec] at hstep
      cases hstep
    | some resolved =>
      simp only [hdec] at hstep
      cases hstep
      obtain ⟨q, hq, hqd⟩ := Option.bind_eq_some_iff.mp hdec
      refine h.put hr rfl rfl (fun _ hd => hd) ?_ ?_ ?_
      · simp [Request.Consistent, hcons]
      · exact entryFollows_same h hr rfl (by rw [hphase]; rfl)
      · intro j d hj
        cases hj
        exact .inr ⟨q, resolved, hq, hqd, rfl⟩
  | owner =>
    cases hstep
  | cleared =>
    cases hstep
    refine h.put_at hr rfl ?_ ?_ ?_
    · simp [Request.Consistent, hcons]
    · exact entryFollows_same h hr rfl (by rw [hphase]; rfl)
    · simp
  | asking ownerCall =>
    cases hstep
  | recording registrationId outcome settlement =>
    cases hstep
    refine h.put_at hr ?_ ?_ ?_ ?_
    · rfl
    · exact consistent_afterOutcome hcons settlement
    · apply entryFollows_same h hr rfl
      rw [hphase, Request.at_phase, holds_afterOutcome]
      rfl
    · simp
  | forgetting answer resolved =>
    cases hstep
    have hsame : (s.forget r.key answer).requests = s.requests ∧
        (s.forget r.key answer).pendingHostApprovals = s.pendingHostApprovals := by
      cases answer <;> exact ⟨rfl, rfl⟩
    apply h.put_at hr hsame.1
    · simp [Request.Consistent, hcons]
    · exact entryFollows_same h hr hsame.2 (by rw [hphase]; rfl)
    · simp
  | storing answer resolved =>
    cases hstep
    have hsame : (s.store r.key answer).requests = s.requests ∧
        (s.store r.key answer).pendingHostApprovals = s.pendingHostApprovals := by
      cases answer <;> exact ⟨rfl, rfl⟩
    apply h.put_at hr hsame.1
    · simp [Request.Consistent, hcons]
    · exact entryFollows_same h hr hsame.2 (by rw [hphase]; rfl)
    · simp
  | deciding resolved late =>
    cases hstep
    refine h.put hr rfl rfl ?_ ?_ ?_ ?_
    · intro d hd
      rw [hcons.1] at hd
      cases hd
    · exact ⟨rfl, hcons.2⟩
    · exact entryFollows_same h hr rfl (by rw [hphase]; rfl)
    · simp
  | clearing resolved late =>
    cases hstep
    refine h.put_at hr ?_ ?_ ?_ ?_
    · rfl
    · cases late with
      | some outcome => simp [Request.Consistent, hcons.1, hcons.2]
      | none => simp [Request.Consistent, hcons.1]
    · apply entryFollows_erase h hr rfl (by rw [hphase]; rfl)
      cases late <;> rfl
    · intro j d
      cases late <;> simp
  | attributing attribution =>
    cases hrec : s.recordOutcomeForSingleActiveCall attribution with
    | some p =>
      simp only [hrec] at hstep
      cases hstep
      have hsame : p.1.requests = s.requests ∧
          p.1.pendingHostApprovals = s.pendingHostApprovals := by
        rcases recordOutcome_ok hrec with ⟨_, _, hp, _⟩ | ⟨_, _, _, hp, _⟩ <;>
          exact hp ▸ ⟨rfl, rfl⟩
      obtain ⟨hreq, hpending⟩ := hsame
      apply h.put_at hr hreq
      · simp [Request.Consistent, hcons]
      · exact entryFollows_same h hr hpending (by rw [hphase]; rfl)
      · simp
    | none =>
      simp only [hrec] at hstep
      cases hstep
      refine h.put_at hr rfl ?_ ?_ ?_
      · simp [Request.Consistent, hcons, PendingApprovalDecision.toNetworkDecision]
      · exact entryFollows_same h hr rfl (by rw [hphase]; rfl)
      · simp
  | returned waitedOn d =>
    cases hstep

theorem Owned.congr (h : s.Owned) (hreq : s'.requests = s.requests)
    (hpending : s'.pendingHostApprovals = s.pendingHostApprovals) : s'.Owned := by
  obtain ⟨hcons, hentry, hheard⟩ := h
  refine ⟨?_, ?_, ?_⟩
  · rw [hreq]
    exact hcons
  · rw [hreq, hpending]
    exact hentry
  · unfold Returns
    rw [hreq]
    exact hheard

theorem Owned.called (h : s.Owned) (request : NetworkPolicyRequest) :
    Owned { s with requests := s.requests ++ [⟨request, .called, none⟩] } := by
  have hget : ∀ {j : ℕ} {q : Request},
      (s.requests ++ [⟨request, .called, none⟩])[j]? = some q ↔
        s.requests[j]? = some q ∨ j = s.requests.length ∧ q = ⟨request, .called, none⟩ :=
    getElem?_snoc
  refine ⟨fun j q hq => ?_, fun key j => ?_, fun j p d hj => ?_⟩
  · obtain hq | ⟨-, rfl⟩ := hget.mp hq
    · exact h.consistent j q hq
    · exact rfl
  · rw [h.entry key j]
    constructor
    · rintro ⟨q, hq, hrest⟩
      exact ⟨q, hget.mpr (.inl hq), hrest⟩
    · rintro ⟨q, hq, hkey, hholds⟩
      obtain hq | ⟨-, rfl⟩ := hget.mp hq
      · exact ⟨q, hq, hkey, hholds⟩
      · cases hholds
  · obtain ⟨q, hq, hphase⟩ := hj
    obtain hq | ⟨-, rfl⟩ := hget.mp hq
    · obtain ⟨q', resolved, hq', hrest⟩ := h.heard j p d ⟨q, hq, hphase⟩
      exact ⟨q', resolved, hget.mpr (.inl hq'), hrest⟩
    · cases hphase

theorem Owned.step (h : s.Owned) {action : Action} (hstep : s.stepOption action = some s') :
    s'.Owned := by
  cases action with
  | request request =>
    cases hstep
    exact h.called request
  | advance i =>
    obtain ⟨r, s₁, r', hr, hmove, rfl⟩ := advance_ok hstep
    exact h.advance hr hmove
  | readTurn i turn =>
    obtain ⟨r, hr, hphase, rfl⟩ := readTurn_ok hstep
    have hcons := h.consistent i r hr
    simp only [Request.Consistent, hphase] at hcons
    refine h.put_at hr rfl ?_ ?_ ?_
    · split <;> simp [Request.Consistent, hcons]
    · apply entryFollows_same h hr rfl
      rw [hphase, Request.at_phase]
      split <;> rfl
    · intro j d
      split <;> simp
  | answer i answer =>
    obtain ⟨r, ownerCall, hr, hphase, rfl⟩ := answer_ok hstep
    have hcons := h.consistent i r hr
    simp only [Request.Consistent, hphase] at hcons
    refine h.put_at hr rfl (consistent_afterAnswer hcons ownerCall (settle answer)) ?_ ?_
    · apply entryFollows_same h hr rfl
      rw [hphase, Request.at_phase, holds_afterAnswer]
      rfl
    · simp
  | blocked blocked =>
    cases hstep
    exact h.congr rfl rfl
  | report j =>
    obtain ⟨a, s₁, a', -, hrec, rfl⟩ := report_ok hstep
    rcases recordOutcome_ok hrec with ⟨_, _, rfl, _⟩ | ⟨_, _, _, rfl, _⟩ <;> exact h.congr rfl rfl
  | register registrationId mode =>
    obtain ⟨-, rfl⟩ := register_ok hstep
    exact h.congr rfl rfl
  | finishImmediate registrationId =>
    obtain ⟨-, -, rfl⟩ := finishImmediate_ok hstep
    exact h.congr rfl rfl
  | unregister registrationId =>
    obtain ⟨-, rfl⟩ := unregister_ok hstep
    exact h.congr rfl rfl
  | finish j =>
    obtain ⟨f, s₁, f', -, hmove, rfl⟩ := finish_ok hstep
    obtain ⟨hreq, -, hpending, -⟩ := finish_frame hmove
    exact h.congr hreq hpending

/-! ## The session sets -/

theorem lookup_answers_cons (answers : List (HostApprovalKey × SessionAnswer))
    (key key' : HostApprovalKey) : ((key, answer) :: answers).lookup key' =
      if key' = key then some answer else answers.lookup key' := by
  rw [List.lookup_cons]
  by_cases h : key' = key
  · simp [h]
  · have hne : (key' == key) = false := by simpa using h
    simp [h, hne]

theorem get_put (hr : s.requests[i]? = some r) (hreq : s₁.requests = s.requests) {j : ℕ}
    {q : Request} : (s₁.putRequest i r').requests[j]? = some q ↔
      j = i ∧ q = r' ∨ j ≠ i ∧ s.requests[j]? = some q := by
  show (s₁.requests.set i r')[j]? = some q ↔ _
  rw [hreq]
  exact getElem?_slot hr

theorem storing_of_put (hr : s.requests[i]? = some r) (hreq : s₁.requests = s.requests)
    (hkey : key ≠ r.key ∨ ∀ answer resolved, r.phase ≠ .storing answer resolved)
    (h : s.Storing key) : (s₁.putRequest i r').Storing key := by
  obtain ⟨j, q, answer, resolved, hq, rfl, hphase⟩ := h
  refine ⟨j, q, answer, resolved, (get_put hr hreq).mpr (.inr ⟨?_, hq⟩), rfl, hphase⟩
  rintro rfl
  rw [hr] at hq
  cases hq
  obtain hkey | hnot := hkey
  · exact hkey rfl
  · exact hnot answer resolved hphase

theorem Recorded.congr (h : s.Recorded) (hreq : s'.requests = s.requests)
    (happroved : s'.sessionApprovedHosts = s.sessionApprovedHosts)
    (hdenied : s'.sessionDeniedHosts = s.sessionDeniedHosts) (hanswers : s'.answers = s.answers) :
    s'.Recorded := by
  obtain ⟨hlatest, hforgotten, hanswered⟩ := h
  refine ⟨?_, ?_, ?_⟩
  · rw [hdenied, hanswers]
    exact hlatest
  · rw [hdenied, hreq]
    exact hforgotten
  · unfold Answered Storing
    rw [hreq, happroved, hdenied, hanswers]
    exact hanswered

theorem Recorded.put (h : s.Recorded) (hr : s.requests[i]? = some r)
    (hreq : s₁.requests = s.requests) (happroved : s₁.sessionApprovedHosts = s.sessionApprovedHosts)
    (hdenied : s₁.sessionDeniedHosts = s.sessionDeniedHosts) (hanswers : s₁.answers = s.answers)
    (hbefore : ∀ answer resolved, r.phase ≠ .storing answer resolved)
    (hafter : ∀ answer resolved, r'.phase ≠ .storing answer resolved) :
    (s₁.putRequest i r').Recorded := by
  refine ⟨fun key hkey => ?_, fun j q resolved hq hphase => ?_, fun key hkey => ?_⟩
  · show s₁.answers.lookup key = some .deny
    rw [hanswers]
    exact h.latestDenial key (hdenied ▸ hkey)
  · show q.key ∉ s₁.sessionDeniedHosts
    rw [hdenied]
    obtain ⟨rfl, rfl⟩ | ⟨-, hq⟩ := (get_put hr hreq).mp hq
    · exact absurd hphase (hafter _ _)
    · exact h.forgotten j q resolved hq hphase
  · show (∃ answer, (key, answer) ∈ s₁.answers) ↔
      key ∈ s₁.sessionApprovedHosts ∨ key ∈ s₁.sessionDeniedHosts
    rw [hanswers, happroved, hdenied]
    exact h.answered key fun hs => hkey (storing_of_put hr hreq (.inr hbefore) hs)

theorem Recorded.forget (h : s.Recorded) (hr : s.requests[i]? = some r) {answer : SessionAnswer}
    {resolved : PendingApprovalDecision} :
    ((s.forget r.key answer).putRequest i (r.at (.storing answer resolved))).Recorded := by
  have hreq : (s.forget r.key answer).requests = s.requests := by
    cases answer <;> rfl
  have hanswers : (s.forget r.key answer).answers = s.answers := by
    cases answer <;> rfl
  have hsub : (s.forget r.key answer).sessionDeniedHosts ⊆ s.sessionDeniedHosts := by
    cases answer with
    | allow => exact Finset.erase_subset r.key s.sessionDeniedHosts
    | deny => exact Finset.Subset.refl _
  have hget := @get_put s (s.forget r.key answer) i r (r.at (.storing answer resolved)) hr hreq
  refine ⟨fun key hkey => ?_, fun j q resolved' hq hphase => ?_, fun key hkey => ?_⟩
  · show (s.forget r.key answer).answers.lookup key = some .deny
    rw [hanswers]
    exact h.latestDenial key (hsub hkey)
  · obtain ⟨rfl, rfl⟩ | ⟨-, hq⟩ := hget.mp hq
    · cases hphase
      exact Finset.notMem_erase r.key s.sessionDeniedHosts
    · exact fun hmem => h.forgotten j q resolved' hq hphase (hsub hmem)
  · have hne : key ≠ r.key := by
      rintro rfl
      exact hkey ⟨i, _, answer, resolved, hget.mpr (.inl ⟨rfl, rfl⟩), rfl, rfl⟩
    have hold := h.answered key fun hs => hkey (storing_of_put hr hreq (.inl hne) hs)
    cases answer with
    | allow =>
      show s.Answered key ↔ key ∈ s.sessionApprovedHosts ∨ key ∈ s.sessionDeniedHosts.erase r.key
      rw [hold]
      simp [hne]
    | deny =>
      show s.Answered key ↔ key ∈ s.sessionApprovedHosts.erase r.key ∨ key ∈ s.sessionDeniedHosts
      rw [hold]
      simp [hne]

theorem Recorded.store (h : s.Recorded) (ho : s.Owned) (hr : s.requests[i]? = some r)
    {answer : SessionAnswer} {resolved : PendingApprovalDecision}
    (hphase : r.phase = .storing answer resolved) :
    ((s.store r.key answer).putRequest i (r.at (.deciding resolved none))).Recorded := by
  have hreq : (s.store r.key answer).requests = s.requests := by
    cases answer <;> rfl
  have hget := @get_put s (s.store r.key answer) i r (r.at (.deciding resolved none)) hr hreq
  have hanswers : (s.store r.key answer).answers = (r.key, answer) :: s.answers := by
    cases answer <;> rfl
  have hdenied : ∀ key, key ∈ (s.store r.key answer).sessionDeniedHosts ↔
      key ∈ s.sessionDeniedHosts ∨ answer = .deny ∧ key = r.key := by
    intro key
    cases answer with
    | allow => simp [Service.store]
    | deny =>
      simp only [Service.store, Finset.mem_insert, true_and]
      exact or_comm
  have happroved : ∀ key, key ∈ (s.store r.key answer).sessionApprovedHosts ↔
      key ∈ s.sessionApprovedHosts ∨ answer = .allow ∧ key = r.key := by
    intro key
    cases answer with
    | deny => simp [Service.store]
    | allow =>
      simp only [Service.store, Finset.mem_insert, true_and]
      exact or_comm
  refine ⟨fun key hkey => ?_, fun j q resolved' hq hqphase => ?_, fun key hkey => ?_⟩
  · show (s.store r.key answer).answers.lookup key = some .deny
    rw [hanswers, lookup_answers_cons]
    obtain hold | ⟨rfl, rfl⟩ := (hdenied key).mp hkey
    · split
      · next heq =>
        subst heq
        cases answer with
        | allow => exact absurd hold (h.forgotten i r resolved hr hphase)
        | deny => rfl
      · exact h.latestDenial key hold
    · rw [if_pos rfl]
  · obtain ⟨rfl, rfl⟩ | ⟨hj, hq⟩ := hget.mp hq
    · cases hqphase
    · intro hmem
      obtain hold | ⟨-, hkey⟩ := (hdenied q.key).mp hmem
      · exact h.forgotten j q resolved' hq hqphase hold
      · exact hj (ho.same_holder hq hr hkey (by rw [hqphase]; rfl) (by rw [hphase]; rfl))
  · show (∃ a, (key, a) ∈ (s.store r.key answer).answers) ↔
      key ∈ (s.store r.key answer).sessionApprovedHosts ∨
        key ∈ (s.store r.key answer).sessionDeniedHosts
    rw [hanswers, happroved, hdenied]
    by_cases hne : key = r.key
    · subst hne
      refine ⟨fun _ => ?_, fun _ => ⟨answer, List.mem_cons_self⟩⟩
      cases answer with
      | allow => exact .inl (.inr ⟨rfl, rfl⟩)
      | deny => exact .inr (.inr ⟨rfl, rfl⟩)
    · have hold := h.answered key fun hs => hkey (storing_of_put hr hreq (.inl hne) hs)
      simpa [hne, Answered] using hold

theorem advance_frame (hstep : s.handleInlinePolicyRequest i r = some (s₁, r'))
    (hforget : ∀ answer resolved, r.phase ≠ .forgetting answer resolved)
    (hstore : ∀ answer resolved, r.phase ≠ .storing answer resolved) :
    s₁.requests = s.requests ∧ s₁.sessionApprovedHosts = s.sessionApprovedHosts ∧
      s₁.sessionDeniedHosts = s.sessionDeniedHosts ∧ s₁.answers = s.answers ∧
      ∀ answer resolved, r'.phase ≠ .storing answer resolved := by
  unfold handleInlinePolicyRequest at hstep
  cases hphase : r.phase with simp only [hphase] at hstep
  | called | notDenied =>
    cases hstep
    refine ⟨rfl, rfl, rfl, rfl, fun answer resolved => ?_⟩
    rw [Request.at_phase]
    split <;> simp
  | notApproved =>
    split at hstep <;> cases hstep <;> exact ⟨rfl, rfl, rfl, rfl, by simp⟩
  | waiting owner =>
    split at hstep <;> cases hstep
    exact ⟨rfl, rfl, rfl, rfl, by simp⟩
  | owner | asking _ | returned _ _ =>
    cases hstep
  | cleared | recording _ _ _ | deciding _ _ =>
    cases hstep
    exact ⟨rfl, rfl, rfl, rfl, by simp⟩
  | forgetting answer resolved => exact absurd hphase (hforget answer resolved)
  | storing answer resolved => exact absurd hphase (hstore answer resolved)
  | clearing resolved late =>
    cases hstep
    refine ⟨rfl, rfl, rfl, rfl, fun answer resolved => ?_⟩
    rw [Request.at_phase]
    split <;> simp
  | attributing attribution =>
    cases hrec : s.recordOutcomeForSingleActiveCall attribution with
    | none =>
      simp only [hrec] at hstep
      cases hstep
      exact ⟨rfl, rfl, rfl, rfl, by simp⟩
    | some p =>
      simp only [hrec] at hstep
      cases hstep
      rcases recordOutcome_ok hrec with ⟨_, _, hp, _⟩ | ⟨_, _, _, hp, _⟩ <;>
        exact hp ▸ ⟨rfl, rfl, rfl, rfl, by simp⟩

theorem Recorded.advance (h : s.Recorded) (ho : s.Owned) (hr : s.requests[i]? = some r)
    (hstep : s.handleInlinePolicyRequest i r = some (s₁, r')) : (s₁.putRequest i r').Recorded := by
  by_cases hforget : ∃ answer resolved, r.phase = .forgetting answer resolved
  · obtain ⟨answer, resolved, hphase⟩ := hforget
    simp only [handleInlinePolicyRequest, hphase] at hstep
    cases hstep
    exact h.forget hr
  by_cases hstore : ∃ answer resolved, r.phase = .storing answer resolved
  · obtain ⟨answer, resolved, hphase⟩ := hstore
    simp only [handleInlinePolicyRequest, hphase] at hstep
    cases hstep
    exact h.store ho hr hphase
  simp only [not_exists] at hforget hstore
  obtain ⟨hreq, happroved, hdenied, hanswers, hafter⟩ := advance_frame hstep hforget hstore
  exact h.put hr hreq happroved hdenied hanswers hstore hafter

theorem Recorded.called (h : s.Recorded) (request : NetworkPolicyRequest) :
    Recorded { s with requests := s.requests ++ [⟨request, .called, none⟩] } := by
  refine ⟨h.latestDenial, fun j q resolved hq hphase => ?_, fun key hkey => ?_⟩
  · obtain hq | ⟨-, rfl⟩ := getElem?_snoc.mp hq
    · exact h.forgotten j q resolved hq hphase
    · cases hphase
  · apply h.answered key
    rintro ⟨j, q, answer, resolved, hq, hrest⟩
    exact hkey ⟨j, q, answer, resolved, getElem?_snoc.mpr (.inl hq), hrest⟩

theorem Recorded.step (h : s.Recorded) (ho : s.Owned) {action : Action}
    (hstep : s.stepOption action = some s') : s'.Recorded := by
  cases action with
  | request request =>
    cases hstep
    exact h.called request
  | advance i =>
    obtain ⟨r, s₁, r', hr, hmove, rfl⟩ := advance_ok hstep
    exact h.advance ho hr hmove
  | readTurn i turn =>
    obtain ⟨r, hr, hphase, rfl⟩ := readTurn_ok hstep
    apply h.put hr rfl rfl rfl rfl
    · simp [hphase]
    · intro answer resolved
      split <;> simp
  | answer i answer =>
    obtain ⟨r, ownerCall, hr, hphase, rfl⟩ := answer_ok hstep
    apply h.put hr rfl rfl rfl rfl
    · simp [hphase]
    · simp
  | blocked blocked =>
    cases hstep
    exact h.congr rfl rfl rfl rfl
  | report j =>
    obtain ⟨a, s₁, a', -, hrec, rfl⟩ := report_ok hstep
    rcases recordOutcome_ok hrec with ⟨_, _, rfl, _⟩ | ⟨_, _, _, rfl, _⟩ <;>
      exact h.congr rfl rfl rfl rfl
  | register registrationId mode =>
    obtain ⟨-, rfl⟩ := register_ok hstep
    exact h.congr rfl rfl rfl rfl
  | finishImmediate registrationId =>
    obtain ⟨-, -, rfl⟩ := finishImmediate_ok hstep
    exact h.congr rfl rfl rfl rfl
  | unregister registrationId =>
    obtain ⟨-, rfl⟩ := unregister_ok hstep
    exact h.congr rfl rfl rfl rfl
  | finish j =>
    obtain ⟨f, s₁, f', -, hmove, rfl⟩ := finish_ok hstep
    obtain ⟨hreq, -, -, happroved, hdenied, hanswers⟩ := finish_frame hmove
    exact h.congr hreq happroved hdenied hanswers

/-! ## Whole runs -/

theorem owned_withApproved (hosts : List HostApprovalKey) : (withApproved hosts).Owned :=
  ⟨fun i r hr => by simp [withApproved] at hr, fun key i => by simp [withApproved],
    fun i j d hj => by
      obtain ⟨r, hr, -⟩ := hj
      simp [withApproved] at hr⟩

theorem recorded_withApproved (hosts : List HostApprovalKey) : (withApproved hosts).Recorded := by
  refine ⟨fun key hkey => ?_, fun i r resolved hr => ?_, fun key _ => ?_⟩
  · simp [withApproved] at hkey
  · simp [withApproved] at hr
  · simp [withApproved, Answered]

theorem run_agrees {hosts : List HostApprovalKey} {l : List Action}
    (hrun : l.foldlM step (withApproved hosts) = .ok s) : s.Owned ∧ s.Recorded :=
  run_keeps (I := fun u => u.Owned ∧ u.Recorded)
    (fun _ _ _ hu h => ⟨hu.1.step (step_eq_ok.mp h), hu.2.step hu.1 (step_eq_ok.mp h)⟩)
    ⟨owned_withApproved hosts, recorded_withApproved hosts⟩ hrun

theorem answered_iff_of_begins (h : s.Owned) (hrec : s.Recorded) {action : Action}
    (hbegins : s.BeginsToAsk key action) :
    s.Answered key ↔ key ∈ s.sessionApprovedHosts ∨ key ∈ s.sessionDeniedHosts := by
  obtain ⟨i, r, rfl, hr, rfl, hphase⟩ := hbegins
  apply hrec.answered
  rintro ⟨j, q, answer, resolved, hq, hkey, hqphase⟩
  have hij := h.same_holder hr hq hkey.symm (by rw [hphase]; rfl) (by rw [hqphase]; rfl)
  subst hij
  rw [hr] at hq
  cases hq
  rw [hphase] at hqphase
  cases hqphase

end

/-- Two requests for one host. The second reads both sets before the first has its answer
for the session, and looks for a pending approval when that is over. -/
def requestTwice : NetworkPolicyRequest := ⟨.httpsConnect, "example.com".toList, 443⟩

def turnOnRequest : TurnContext := ⟨.managed .unrestricted .restricted, .onRequest⟩

def askedTwice : List Action :=
  [.request requestTwice, .request requestTwice, .advance 1, .advance 1,
    .advance 0, .advance 0, .advance 0, .readTurn 0 turnOnRequest, .advance 0,
    .answer 0 (.review .approvedForSession none),
    .advance 0, .advance 0, .advance 0, .advance 0,
    .advance 1, .readTurn 1 turnOnRequest, .advance 1]

end Service

end Codex.NetworkApproval
