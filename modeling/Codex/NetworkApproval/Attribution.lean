import Codex.Foundation.Run
import Codex.Foundation.Slots
import Codex.NetworkApproval.Service

/-!
# What denials are attributed to

An immediate finish reports a rejection exactly if a denial was attributed to its call
before, and no denial by the user gives way to one by policy. The outcome of a call that is
gone when it is recorded stays in the map.
-/

namespace Codex.NetworkApproval

open Foundation List

def Attribution.names : Attribution → Option Text
  | .recording registrationId _ => some registrationId
  | _ => none

def Attribution.records : Attribution → Option (Text × NetworkApprovalOutcome)
  | .recording registrationId outcome => some (registrationId, outcome)
  | _ => none

def Phase.names : Phase → Option Text
  | .asking ownerCall => ownerCall
  | .recording registrationId _ _ => some registrationId
  | .attributing late => late.names
  | _ => none

def Phase.records : Phase → Option (Text × NetworkApprovalOutcome)
  | .recording registrationId outcome _ => some (registrationId, outcome)
  | .attributing late => late.records
  | _ => none

def Finish.report (f : Finish) : Option (Option NetworkApprovalOutcome) :=
  match f.phase with
  | .taking => none
  | .deactivating report | .dropping report | .finished report => report

/-- A denial was attributed to the call between its registration and its finish. -/
def DeniedBetween (history : List HistoryEvent) (registrationId : Text) : Prop :=
  ∃ (i j k : ℕ) (outcome : NetworkApprovalOutcome), i < j ∧ j < k ∧
    history[i]? = some (.registered registrationId) ∧
    history[j]? = some (.attributed registrationId outcome) ∧
    history[k]? = some (.taken registrationId)

namespace Service

section
variable (s s' : Service)

def Registered (registrationId : Text) : Prop :=
  s.registrations.lookup registrationId ≠ none ∧
    ∀ f ∈ s.finishes, f.registrationId = registrationId → ∀ report, f.phase ≠ .finished report

def Records (action : Action) (registrationId : Text) (outcome : NetworkApprovalOutcome) : Prop :=
  (∃ (i : ℕ) (r : Request), action = .advance i ∧ s.requests[i]? = some r ∧
    r.phase.records = some (registrationId, outcome)) ∨
  ∃ (j : ℕ) (a : Attribution), action = .report j ∧ s.reports[j]? = some a ∧
    a.records = some (registrationId, outcome)

def OnlyRegistered : Prop :=
  ∀ registrationId, s.callOutcomes.lookup registrationId ≠ none → s.Registered registrationId

/-- A finish that returns a rejection had a denial, and the other way round. -/
def RejectsDenied : Prop :=
  ∀ f ∈ s.finishes, ∀ outcome, f.phase = .finished (some outcome) →
    ((∃ message, finishResult outcome = .error message) ↔ DeniedBetween s.history f.registrationId)

def KeepsUserDenials : Prop :=
  ∀ registrationId message, s.callOutcomes.lookup registrationId = some .deniedByUser →
    s'.callOutcomes.lookup registrationId ≠ some (.deniedByPolicy message)

/-! ## What a step does to calls -/

structure SameCalls : Prop where
  activeCalls : s'.activeCalls = s.activeCalls
  callOutcomes : s'.callOutcomes = s.callOutcomes
  registrations : s'.registrations = s.registrations
  finishes : s'.finishes = s.finishes
  history : s'.history = s.history

def Names (registrationId : Text) : Prop :=
  (∃ r ∈ s.requests, r.phase.names = some registrationId) ∨
    ∃ a ∈ s.reports, a.names = some registrationId

def NamesFrom : Prop :=
  ∀ registrationId, s'.Names registrationId →
    s.Names registrationId ∨ registrationId ∈ s.activeCalls

end

section
variable {s s' s₁ : Service} {i : ℕ} {r r' : Request} {registrationId : Text}
  {outcome : NetworkApprovalOutcome}

theorem SameCalls.refl (s : Service) : SameCalls s s := ⟨rfl, rfl, rfl, rfl, rfl⟩

@[simp] theorem names_afterOutcome (settlement : Settlement) :
    (afterOutcome settlement).names = none := by
  unfold afterOutcome
  split <;> rfl

theorem names_afterAnswer (ownerCall : Option Text) (settlement : Settlement)
    (h : (afterAnswer ownerCall settlement).names = some registrationId) :
    ownerCall = some registrationId := by
  unfold afterAnswer at h
  split at h
  · exact h
  · rw [names_afterOutcome] at h
    cases h

theorem names_of_records {phase : Phase}
    (h : phase.records = some (registrationId, outcome)) : phase.names = some registrationId := by
  cases phase with
  | recording id o settlement =>
    cases h
    rfl
  | attributing late =>
    cases late with
    | recording id o =>
      cases h
      rfl
    | resolving o | done => cases h
  | _ => cases h

theorem attribution_calls {a a' : Attribution}
    (h : s.recordOutcomeForSingleActiveCall a = some (s₁, a')) :
    (a.records = none ∧ s₁ = s ∨ ∃ id o, a.records = some (id, o) ∧ s₁ = s.recordCallOutcome id o) ∧
    ∀ id, a'.names = some id → id ∈ s.activeCalls := by
  rcases recordOutcome_ok h with ⟨o, rfl, rfl, hnext⟩ | ⟨id, o, rfl, rfl, rfl⟩
  · refine ⟨.inl ⟨rfl, rfl⟩, fun id hid => ?_⟩
    obtain rfl | ⟨id', hactive, rfl⟩ := hnext
    · cases hid
    · cases hid
      exact hactive
  · exact ⟨.inr ⟨id, o, rfl, rfl⟩, fun id hid => nomatch hid⟩

theorem advance_calls (hstep : s.handleInlinePolicyRequest i r = some (s₁, r')) :
    (r.phase.records = none ∧ SameCalls s s₁ ∨
      ∃ id o, r.phase.records = some (id, o) ∧ SameCalls (s.recordCallOutcome id o) s₁) ∧
    s₁.requests = s.requests ∧ s₁.reports = s.reports ∧
    ∀ id, r'.phase.names = some id → id ∈ s.activeCalls := by
  unfold handleInlinePolicyRequest at hstep
  cases hphase : r.phase with simp only [hphase] at hstep
  | called | notDenied =>
    cases hstep
    refine ⟨.inl ⟨rfl, SameCalls.refl s⟩, rfl, rfl, fun id hid => ?_⟩
    rw [Request.at_phase] at hid
    split at hid <;> cases hid
  | notApproved =>
    split at hstep <;> cases hstep <;>
      exact ⟨.inl ⟨rfl, rfl, rfl, rfl, rfl, rfl⟩, rfl, rfl, fun id hid => nomatch hid⟩
  | waiting owner =>
    split at hstep <;> cases hstep
    exact ⟨.inl ⟨rfl, SameCalls.refl s⟩, rfl, rfl, fun id hid => nomatch hid⟩
  | owner | asking _ | returned _ _ =>
    cases hstep
  | cleared =>
    cases hstep
    exact ⟨.inl ⟨rfl, SameCalls.refl s⟩, rfl, rfl, fun id hid => mem_of_resolveSingle hid⟩
  | recording id o settlement =>
    cases hstep
    refine ⟨.inr ⟨id, o, rfl, SameCalls.refl _⟩, rfl, rfl, fun id' hid => ?_⟩
    rw [Request.at_phase, names_afterOutcome] at hid
    cases hid
  | forgetting answer resolved | storing answer resolved =>
    cases hstep
    cases answer <;>
      exact ⟨.inl ⟨rfl, rfl, rfl, rfl, rfl, rfl⟩, rfl, rfl, fun id hid => nomatch hid⟩
  | deciding resolved late =>
    cases hstep
    exact ⟨.inl ⟨rfl, SameCalls.refl s⟩, rfl, rfl, fun id hid => nomatch hid⟩
  | clearing resolved late =>
    cases hstep
    refine ⟨.inl ⟨rfl, rfl, rfl, rfl, rfl, rfl⟩, rfl, rfl, fun id hid => ?_⟩
    rw [Request.at_phase] at hid
    split at hid <;> cases hid
  | attributing attribution =>
    cases hrec : s.recordOutcomeForSingleActiveCall attribution with
    | none =>
      simp only [hrec] at hstep
      cases hstep
      refine ⟨.inl ⟨?_, SameCalls.refl s⟩, rfl, rfl, fun id hid => nomatch hid⟩
      cases attribution with
      | done => rfl
      | resolving o =>
        simp only [recordOutcomeForSingleActiveCall] at hrec
        split at hrec <;> cases hrec
      | recording id o => cases hrec
    | some p =>
      simp only [hrec] at hstep
      cases hstep
      obtain ⟨hcalls, hnames⟩ := attribution_calls hrec
      rcases hcalls with ⟨hnone, hp⟩ | ⟨id, o, hsome, hp⟩
      · exact ⟨.inl ⟨hnone, hp ▸ SameCalls.refl s⟩, hp ▸ rfl, hp ▸ rfl, hnames⟩
      · exact ⟨.inr ⟨id, o, hsome, hp ▸ SameCalls.refl _⟩, hp ▸ rfl, hp ▸ rfl, hnames⟩

theorem namesFrom_putRequest (hr : s.requests[i]? = some r) (hreq : s₁.requests = s.requests)
    (hrep : s₁.reports = s.reports)
    (hnames : ∀ id, r'.phase.names = some id → r.phase.names = some id ∨ id ∈ s.activeCalls) :
    NamesFrom s (s₁.putRequest i r') := by
  rintro id (⟨q, hq, hid⟩ | ⟨a, ha, hid⟩)
  · have hq' : q ∈ s₁.requests.set i r' := hq
    rw [hreq] at hq'
    obtain hq | rfl := mem_or_eq_of_mem_set hq'
    · exact .inl (.inl ⟨q, hq, hid⟩)
    · exact (hnames id hid).imp_left fun h => .inl ⟨r, mem_of_getElem? hr, h⟩
  · have ha' : a ∈ s₁.reports := ha
    rw [hrep] at ha'
    exact .inl (.inr ⟨a, ha', hid⟩)

theorem namesFrom_same (hreq : s'.requests = s.requests) (hrep : s'.reports = s.reports) :
    NamesFrom s s' := by
  intro id h
  left
  unfold Names at h ⊢
  rwa [hreq, hrep] at h

theorem step_calls {action : Action} (hstep : s.stepOption action = some s') : NamesFrom s s' ∧
    ((SameCalls s s' ∧ ∀ id o, ¬ s.Records action id o) ∨
      (∃ id o, s.Records action id o ∧ SameCalls (s.recordCallOutcome id o) s') ∨
      (∃ id mode, action = .register id mode) ∨ (∃ id, action = .finishImmediate id) ∨
      (∃ id, action = .unregister id) ∨ ∃ j, action = .finish j) := by
  cases action with
  | request request =>
    cases hstep
    refine ⟨?_, .inl ⟨⟨rfl, rfl, rfl, rfl, rfl⟩, ?_⟩⟩
    · rintro id (⟨q, hq, hid⟩ | hrep)
      · obtain hq | hq := mem_append.mp hq
        · exact .inl (.inl ⟨q, hq, hid⟩)
        · obtain rfl := mem_singleton.mp hq
          cases hid
      · exact .inl (.inr hrep)
    · rintro id o (⟨_, _, ha, _⟩ | ⟨_, _, ha, _⟩) <;> cases ha
  | advance i =>
    obtain ⟨r, s₁, r', hr, hmove, rfl⟩ := advance_ok hstep
    obtain ⟨hcalls, hreq, hrep, hnames⟩ := advance_calls hmove
    refine ⟨namesFrom_putRequest hr hreq hrep fun id hid => .inr (hnames id hid), ?_⟩
    rcases hcalls with ⟨hnone, hsame⟩ | ⟨id, o, hsome, hsame⟩
    · left
      refine ⟨⟨hsame.1, hsame.2, hsame.3, hsame.4, hsame.5⟩, ?_⟩
      rintro id o (⟨_, q, ha, hq, hrec⟩ | ⟨_, _, ha, _⟩)
      · cases ha
        rw [hr] at hq
        cases hq
        rw [hnone] at hrec
        cases hrec
      · cases ha
    · right
      left
      exact ⟨id, o, .inl ⟨i, r, rfl, hr, hsome⟩, ⟨hsame.1, hsame.2, hsame.3, hsame.4, hsame.5⟩⟩
  | readTurn i turn =>
    obtain ⟨r, hr, -, rfl⟩ := readTurn_ok hstep
    refine ⟨namesFrom_putRequest hr rfl rfl fun id hid => ?_,
      .inl ⟨⟨rfl, rfl, rfl, rfl, rfl⟩, ?_⟩⟩
    · rw [Request.at_phase] at hid
      split at hid <;> cases hid
    · rintro id o (⟨_, _, ha, _⟩ | ⟨_, _, ha, _⟩) <;> cases ha
  | answer i answer =>
    obtain ⟨r, ownerCall, hr, hphase, rfl⟩ := answer_ok hstep
    refine ⟨namesFrom_putRequest hr rfl rfl fun id hid => .inl ?_,
      .inl ⟨⟨rfl, rfl, rfl, rfl, rfl⟩, ?_⟩⟩
    · rw [hphase]
      exact names_afterAnswer ownerCall _ hid
    · rintro id o (⟨_, _, ha, _⟩ | ⟨_, _, ha, _⟩) <;> cases ha
  | blocked blocked =>
    cases hstep
    refine ⟨?_, .inl ⟨⟨rfl, rfl, rfl, rfl, rfl⟩, ?_⟩⟩
    · rintro id (hreq | ⟨a, ha, hid⟩)
      · exact .inl (.inl hreq)
      · obtain ha | ha := mem_append.mp ha
        · exact .inl (.inr ⟨a, ha, hid⟩)
        · obtain rfl := mem_singleton.mp ha
          split at hid <;> cases hid
    · rintro id o (⟨_, _, ha, _⟩ | ⟨_, _, ha, _⟩) <;> cases ha
  | report j =>
    obtain ⟨a, s₁, a', ha, hrec, rfl⟩ := report_ok hstep
    obtain ⟨hcalls, hnames⟩ := attribution_calls hrec
    have hsame : s₁.requests = s.requests ∧ s₁.reports = s.reports := by
      rcases hcalls with ⟨-, rfl⟩ | ⟨_, _, -, rfl⟩ <;> exact ⟨rfl, rfl⟩
    refine ⟨?_, ?_⟩
    · rintro id (⟨q, hq, hid⟩ | ⟨b, hb, hid⟩)
      · have hq' : q ∈ s₁.requests := hq
        rw [hsame.1] at hq'
        exact .inl (.inl ⟨q, hq', hid⟩)
      · have hb' : b ∈ s₁.reports.set j a' := hb
        rw [hsame.2] at hb'
        obtain hb | rfl := mem_or_eq_of_mem_set hb'
        · exact .inl (.inr ⟨b, hb, hid⟩)
        · exact .inr (hnames id hid)
    · rcases hcalls with ⟨hnone, rfl⟩ | ⟨id, o, hsome, rfl⟩
      · left
        refine ⟨⟨rfl, rfl, rfl, rfl, rfl⟩, ?_⟩
        rintro id o (⟨_, _, h, _⟩ | ⟨_, b, h, hb, hrecords⟩)
        · cases h
        · cases h
          rw [ha] at hb
          cases hb
          rw [hnone] at hrecords
          cases hrecords
      · right
        left
        exact ⟨id, o, .inr ⟨j, a, rfl, ha, hsome⟩, ⟨rfl, rfl, rfl, rfl, rfl⟩⟩
  | register id mode =>
    obtain ⟨-, rfl⟩ := register_ok hstep
    exact ⟨namesFrom_same rfl rfl, .inr (.inr (.inl ⟨id, mode, rfl⟩))⟩
  | finishImmediate id =>
    obtain ⟨-, -, rfl⟩ := finishImmediate_ok hstep
    exact ⟨namesFrom_same rfl rfl, .inr (.inr (.inr (.inl ⟨id, rfl⟩)))⟩
  | unregister id =>
    obtain ⟨-, rfl⟩ := unregister_ok hstep
    exact ⟨namesFrom_same rfl rfl, .inr (.inr (.inr (.inr (.inl ⟨id, rfl⟩))))⟩
  | finish j =>
    obtain ⟨f, s₁, f', -, hmove, rfl⟩ := finish_ok hstep
    obtain ⟨hreq, hrep, -⟩ := finish_frame hmove
    exact ⟨namesFrom_same hreq hrep, .inr (.inr (.inr (.inr (.inr ⟨j, rfl⟩))))⟩

end

/-! ## What holds of calls in every run -/

structure CallsInv (activeCalls : List Text) (outcomes : Table Text NetworkApprovalOutcome)
    (registrations : Table Text NetworkApprovalMode) (finishes : List Finish)
    (history : List HistoryEvent) : Prop where
  active : ∀ id ∈ activeCalls, .registered id ∈ history
  order : ∀ (j : ℕ) id outcome, history[j]? = some (.attributed id outcome) →
    ∃ i < j, history[i]? = some (.registered id)
  entries : ∀ id, outcomes.lookup id ≠ none → ∃ outcome, .attributed id outcome ∈ history
  kept : ∀ id outcome, (∀ f ∈ finishes, f.registrationId = id → f.phase = .taking) →
    .attributed id outcome ∈ history → outcomes.lookup id ≠ none
  known : ∀ f ∈ finishes, registrations.lookup f.registrationId ≠ none
  mode : ∀ f ∈ finishes, f.phase = .taking ∨ f.report ≠ none →
    registrations.lookup f.registrationId = some .immediate
  alone : ∀ (a b : ℕ) (f g : Finish), finishes[a]? = some f → finishes[b]? = some g →
    f.registrationId = g.registrationId →
    registrations.lookup f.registrationId = some .immediate → a = b
  rejected : ∀ f ∈ finishes, ∀ outcome, f.report = some outcome →
    (outcome ≠ none ↔ DeniedBetween history f.registrationId)

structure Attributed (s : Service) : Prop where
  calls : CallsInv s.activeCalls s.callOutcomes s.registrations s.finishes s.history
  named : ∀ id, s.Names id → .registered id ∈ s.history

section
variable {activeCalls : List Text} {outcomes : Table Text NetworkApprovalOutcome}
  {registrations : Table Text NetworkApprovalMode} {finishes : List Finish}
  {history : List HistoryEvent} {id : Text} {outcome : NetworkApprovalOutcome}

theorem deniedBetween_snoc {event : HistoryEvent} (h : event ≠ .taken id) :
    DeniedBetween (history ++ [event]) id ↔ DeniedBetween history id := by
  constructor
  · rintro ⟨i, j, k, o, hij, hjk, hi, hj, hk⟩
    obtain hk | ⟨-, heq⟩ := getElem?_snoc.mp hk
    · obtain ⟨hlt, -⟩ := List.getElem?_eq_some_iff.mp hk
      refine ⟨i, j, k, o, hij, hjk, ?_, ?_, hk⟩
      · rwa [List.getElem?_append_left (by omega)] at hi
      · rwa [List.getElem?_append_left (by omega)] at hj
    · exact absurd heq.symm h
  · rintro ⟨i, j, k, o, hij, hjk, hi, hj, hk⟩
    exact ⟨i, j, k, o, hij, hjk, getElem?_snoc.mpr (.inl hi), getElem?_snoc.mpr (.inl hj),
      getElem?_snoc.mpr (.inl hk)⟩

def recorded (outcomes : Table Text NetworkApprovalOutcome) (id : Text)
    (outcome : NetworkApprovalOutcome) : Table Text NetworkApprovalOutcome :=
  match outcomes.lookup id with
  | some .deniedByUser => outcomes
  | _ => outcomes.insert id outcome

theorem lookup_recorded (id' : Text) : (recorded outcomes id outcome).lookup id' =
    if id' = id then
      if outcomes.lookup id = some .deniedByUser then some .deniedByUser else some outcome
    else outcomes.lookup id' := by
  unfold recorded
  split
  · next huser =>
    by_cases hid : id' = id
    · subst hid
      simp [huser]
    · simp [hid]
  · next hnot =>
    rw [lookup_insert_ite, if_neg hnot]

theorem lookup_recorded_ne_none (id' : Text) :
    (recorded outcomes id outcome).lookup id' ≠ none ↔ id' = id ∨ outcomes.lookup id' ≠ none := by
  rw [lookup_recorded]
  by_cases hid : id' = id
  · simp only [hid, if_true, true_or, iff_true]
    split <;> simp
  · simp [hid]

variable (h : CallsInv activeCalls outcomes registrations finishes history)
include h

theorem CallsInv.record (hid : .registered id ∈ history) :
    CallsInv activeCalls (recorded outcomes id outcome) registrations finishes
      (history ++ [.attributed id outcome]) where
  active id' hid' := mem_append_left _ (h.active id' hid')
  order j id' o hj := by
    obtain hj | ⟨rfl, heq⟩ := getElem?_snoc.mp hj
    · obtain ⟨i, hi, hreg⟩ := h.order j id' o hj
      exact ⟨i, hi, getElem?_snoc.mpr (.inl hreg)⟩
    · cases heq
      obtain ⟨i, hi⟩ := mem_iff_getElem?.mp hid
      obtain ⟨hlt, -⟩ := List.getElem?_eq_some_iff.mp hi
      exact ⟨i, hlt, getElem?_snoc.mpr (.inl hi)⟩
  entries id' hid' := by
    obtain rfl | hold := (lookup_recorded_ne_none id').mp hid'
    · exact ⟨outcome, mem_append_right _ (mem_singleton.mpr rfl)⟩
    · obtain ⟨o, ho⟩ := h.entries id' hold
      exact ⟨o, mem_append_left _ ho⟩
  kept id' o hfin ho := by
    apply (lookup_recorded_ne_none id').mpr
    obtain ho | ho := mem_append.mp ho
    · exact .inr (h.kept id' o hfin ho)
    · cases mem_singleton.mp ho
      exact .inl rfl
  known := h.known
  mode := h.mode
  alone := h.alone
  rejected f hf o ho := by
    rw [deniedBetween_snoc (by simp)]
    exact h.rejected f hf o ho

theorem CallsInv.register (hfresh : registrations.lookup id = none) (mode : NetworkApprovalMode) :
    CallsInv (activeCalls ++ [id]) outcomes (registrations.insert id mode) finishes
      (history ++ [.registered id]) := by
  have hlookup : ∀ f ∈ finishes, (registrations.insert id mode).lookup f.registrationId =
      registrations.lookup f.registrationId := by
    intro f hf
    rw [lookup_insert_ite, if_neg]
    intro heq
    exact h.known f hf (heq ▸ hfresh)
  refine ⟨fun id' hid' => ?_, fun j id' o hj => ?_, fun id' hid' => ?_, fun id' o hfin ho => ?_,
    fun f hf => ?_, fun f hf hphase => ?_, fun a b f g hf hg hfg hmode => ?_, fun f hf o ho => ?_⟩
  · obtain hid' | hid' := mem_append.mp hid'
    · exact mem_append_left _ (h.active id' hid')
    · cases mem_singleton.mp hid'
      exact mem_append_right _ (mem_singleton.mpr rfl)
  · obtain hj | ⟨-, heq⟩ := getElem?_snoc.mp hj
    · obtain ⟨i, hi, hreg⟩ := h.order j id' o hj
      exact ⟨i, hi, getElem?_snoc.mpr (.inl hreg)⟩
    · cases heq
  · obtain ⟨o, ho⟩ := h.entries id' hid'
    exact ⟨o, mem_append_left _ ho⟩
  · obtain ho | ho := mem_append.mp ho
    · exact h.kept id' o hfin ho
    · cases mem_singleton.mp ho
  · rw [hlookup f hf]
    exact h.known f hf
  · rw [hlookup f hf]
    exact h.mode f hf hphase
  · rw [hlookup f (mem_of_getElem? hf)] at hmode
    exact h.alone a b f g hf hg hfg hmode
  · rw [deniedBetween_snoc (by simp)]
    exact h.rejected f hf o ho

theorem CallsInv.begin
    {f : Finish} (hknown : registrations.lookup f.registrationId ≠ none) (hreport : f.report = none)
    (hnew : registrations.lookup f.registrationId = some .immediate ∧
        (∀ g ∈ finishes, g.registrationId ≠ f.registrationId) ∨
      registrations.lookup f.registrationId ≠ some .immediate ∧ f.phase ≠ .taking) :
    CallsInv activeCalls outcomes registrations (finishes ++ [f]) history where
  active := h.active
  order := h.order
  entries := h.entries
  kept id o hfin ho := h.kept id o (fun g hg => hfin g (mem_append_left _ hg)) ho
  known g hg := by
    obtain hg | hg := mem_append.mp hg
    · exact h.known g hg
    · cases mem_singleton.mp hg
      exact hknown
  mode g hg hphase := by
    obtain hg | hg := mem_append.mp hg
    · exact h.mode g hg hphase
    · cases mem_singleton.mp hg
      obtain ⟨himm, -⟩ | ⟨-, hnot⟩ := hnew
      · exact himm
      · obtain htaking | hrep := hphase
        · exact absurd htaking hnot
        · exact absurd hreport hrep
  alone a b g g' hg hg' heq hmode := by
    have hother : ∀ {c : ℕ} {k : Finish}, finishes[c]? = some k →
        k.registrationId = f.registrationId →
        registrations.lookup f.registrationId ≠ some .immediate := by
      intro c k hk hkf
      obtain ⟨-, hno⟩ | ⟨hnot, -⟩ := hnew
      · exact absurd hkf (hno k (mem_of_getElem? hk))
      · exact hnot
    obtain hold | ⟨rfl, rfl⟩ := getElem?_snoc.mp hg
    · obtain hold' | ⟨rfl, rfl⟩ := getElem?_snoc.mp hg'
      · exact h.alone a b g g' hold hold' heq hmode
      · exact absurd (heq ▸ hmode) (hother hold heq)
    · obtain hold' | ⟨rfl, rfl⟩ := getElem?_snoc.mp hg'
      · exact absurd hmode (hother hold' heq.symm)
      · rfl
  rejected g hg o ho := by
    obtain hg | hg := mem_append.mp hg
    · exact h.rejected g hg o ho
    · cases mem_singleton.mp hg
      rw [hreport] at ho
      cases ho

theorem CallsInv.move {j : ℕ}
    {f f' : Finish} (hf : finishes[j]? = some f) {activeCalls' : List Text}
    {outcomes' : Table Text NetworkApprovalOutcome} {history' : List HistoryEvent}
    (hactive : activeCalls' ⊆ activeCalls) (houtcomes : ∀ id, outcomes'.lookup id =
      if id = f.registrationId then outcomes'.lookup id else outcomes.lookup id)
    (hgone : outcomes'.lookup f.registrationId ≠ none → outcomes.lookup f.registrationId ≠ none)
    (hid : f'.registrationId = f.registrationId) (hphase : f'.phase ≠ .taking)
    (hhistory : history' = history ∨ history' = history ++ [.taken f.registrationId] ∧
      f.phase = .taking) (hreport : f'.report ≠ none → f.phase = .taking ∨ f.report ≠ none)
    (hrejected : ∀ outcome, f'.report = some outcome →
      (outcome ≠ none ↔ DeniedBetween history' f.registrationId)) :
    CallsInv activeCalls' outcomes' registrations (finishes.set j f') history' := by
  have hmem := mem_of_getElem? hf
  have hget : ∀ {c : ℕ} {k : Finish}, (finishes.set j f')[c]? = some k →
      ∃ k', finishes[c]? = some k' ∧ k'.registrationId = k.registrationId := by
    intro c k hk
    obtain ⟨rfl, rfl⟩ | ⟨-, hk⟩ := (getElem?_slot hf).mp hk
    · exact ⟨f, hf, hid.symm⟩
    · exact ⟨k, hk, rfl⟩
  have hgrown : ∀ event ∈ history, event ∈ history' := by
    intro event hevent
    obtain rfl | ⟨rfl, -⟩ := hhistory
    · exact hevent
    · exact mem_append_left _ hevent
  have hattributed : ∀ id o, .attributed id o ∈ history' → .attributed id o ∈ history := by
    intro id o ho
    obtain rfl | ⟨rfl, -⟩ := hhistory
    · exact ho
    · obtain ho | ho := mem_append.mp ho
      · exact ho
      · cases mem_singleton.mp ho
  refine ⟨fun id hin => hgrown _ (h.active id (hactive hin)), fun c id o hc => ?_,
    fun id hne => ?_, fun id o hfin ho => ?_, fun g hg => ?_, fun g hg hg' => ?_,
    fun a b g g' hg hg' heq hmode => ?_, fun g hg o ho => ?_⟩
  · obtain rfl | ⟨rfl, -⟩ := hhistory
    · exact h.order c id o hc
    · obtain hc | ⟨-, heq⟩ := getElem?_snoc.mp hc
      · obtain ⟨i, hi, hreg⟩ := h.order c id o hc
        exact ⟨i, hi, getElem?_snoc.mpr (.inl hreg)⟩
      · cases heq
  · have hold : outcomes.lookup id ≠ none := by
      by_cases heq : id = f.registrationId
      · subst heq
        exact hgone hne
      · rwa [houtcomes id, if_neg heq] at hne
    obtain ⟨o, ho⟩ := h.entries id hold
    exact ⟨o, hgrown _ ho⟩
  · have hne : id ≠ f.registrationId := by
      rintro rfl
      have hin : f' ∈ finishes.set j f' :=
        mem_of_getElem? ((getElem?_slot hf).mpr (.inl ⟨rfl, rfl⟩))
      exact hphase (hfin f' hin hid)
    rw [houtcomes id, if_neg hne]
    refine h.kept id o (fun g hg hgid => ?_) (hattributed id o ho)
    obtain ⟨c, hc⟩ := mem_iff_getElem?.mp hg
    have hcj : c ≠ j := by
      rintro rfl
      rw [hf] at hc
      cases hc
      exact hne hgid.symm
    exact hfin g (mem_of_getElem? ((getElem?_slot hf).mpr (.inr ⟨hcj, hc⟩))) hgid
  · obtain hg | rfl := mem_or_eq_of_mem_set hg
    · exact h.known g hg
    · rw [hid]
      exact h.known f hmem
  · obtain hg | rfl := mem_or_eq_of_mem_set hg
    · exact h.mode g hg hg'
    · rw [hid]
      apply h.mode f hmem
      obtain htaking | hrep := hg'
      · exact absurd htaking hphase
      · exact hreport hrep
  · obtain ⟨k, hk, hkid⟩ := hget hg
    obtain ⟨k', hk', hkid'⟩ := hget hg'
    exact h.alone a b k k' hk hk' (by rw [hkid, hkid', heq]) (by rw [hkid]; exact hmode)
  · obtain ⟨c, hc⟩ := mem_iff_getElem?.mp hg
    obtain ⟨rfl, rfl⟩ | ⟨hcj, hc⟩ := (getElem?_slot hf).mp hc
    · rw [hid]
      exact hrejected o ho
    · have hgin := mem_of_getElem? hc
      rw [h.rejected g hgin o ho]
      obtain rfl | ⟨rfl, htaking⟩ := hhistory
      · exact Iff.rfl
      · refine (deniedBetween_snoc fun heq => ?_).symm
        have hgid : g.registrationId = f.registrationId := (HistoryEvent.taken.inj heq).symm
        have hgmode := h.mode g hgin (.inr (by rw [ho]; simp))
        exact hcj (h.alone c j g f hc hf hgid hgmode)

theorem CallsInv.taken {j : ℕ}
    {f : Finish} (hf : finishes[j]? = some f) (hphase : f.phase = .taking) :
    outcomes.lookup f.registrationId ≠ none ↔
      DeniedBetween (history ++ [.taken f.registrationId]) f.registrationId := by
  constructor
  · intro hne
    obtain ⟨o, ho⟩ := h.entries f.registrationId hne
    obtain ⟨a, ha⟩ := mem_iff_getElem?.mp ho
    obtain ⟨i, hi, hreg⟩ := h.order a f.registrationId o ha
    obtain ⟨hlt, -⟩ := List.getElem?_eq_some_iff.mp ha
    exact ⟨i, a, history.length, o, hi, hlt, getElem?_snoc.mpr (.inl hreg),
      getElem?_snoc.mpr (.inl ha), getElem?_snoc.mpr (.inr ⟨rfl, rfl⟩)⟩
  · rintro ⟨i, a, k, o, -, hak, -, ha, hk⟩
    have ha' : history[a]? = some (.attributed f.registrationId o) := by
      obtain ha | ⟨-, heq⟩ := getElem?_snoc.mp ha
      · exact ha
      · cases heq
    refine h.kept f.registrationId o (fun g hg hgid => ?_) (mem_of_getElem? ha')
    obtain ⟨c, hc⟩ := mem_iff_getElem?.mp hg
    have hmode := h.mode f (mem_of_getElem? hf) (.inl hphase)
    obtain rfl := h.alone c j g f hc hf hgid (by rw [hgid]; exact hmode)
    rw [hf] at hc
    cases hc
    exact hphase

end

section
variable {s s' s₁ : Service}

/-! ## One step -/

theorem CallsInv.finish (h : CallsInv s.activeCalls s.callOutcomes s.registrations s.finishes
      s.history) {j : ℕ} {f f' : Finish} (hf : s.finishes[j]? = some f)
    (hmove : s.finishNetworkApproval f = some (s₁, f')) :
    CallsInv s₁.activeCalls s₁.callOutcomes s₁.registrations (s₁.finishes.set j f') s₁.history := by
  have herase : ∀ id, (s.callOutcomes.erase f.registrationId).lookup id =
      if id = f.registrationId then (s.callOutcomes.erase f.registrationId).lookup id
      else s.callOutcomes.lookup id := by
    intro id
    by_cases hid : id = f.registrationId <;> simp [hid]
  have hgone : (s.callOutcomes.erase f.registrationId).lookup f.registrationId ≠ none →
      s.callOutcomes.lookup f.registrationId ≠ none := by
    simp
  have hold : ∀ outcome, f.report = some outcome →
      (outcome ≠ none ↔ DeniedBetween s.history f.registrationId) :=
    h.rejected f (mem_of_getElem? hf)
  unfold finishNetworkApproval at hmove
  cases hphase : f.phase with simp only [hphase] at hmove
  | taking =>
    cases hmove
    refine h.move hf (List.Subset.refl _) herase hgone rfl (by simp) (.inr ⟨rfl, hphase⟩)
      (fun _ => .inl hphase) fun o ho => ?_
    cases ho
    exact h.taken hf hphase
  | deactivating report =>
    cases hmove
    have hreport : f.report = report := by simp [Finish.report, hphase]
    refine h.move hf erase_subset (fun id => (ite_self _).symm) id rfl (by simp)
      (.inl rfl) (fun hne => .inr ?_) fun o ho => hold o ?_
    · rw [hreport]
      exact hne
    · rw [hreport]
      exact ho
  | dropping report =>
    cases hmove
    have hreport : f.report = report := by simp [Finish.report, hphase]
    refine h.move hf (List.Subset.refl _) herase hgone rfl (by simp) (.inl rfl)
      (fun hne => .inr ?_) fun o ho => hold o ?_
    · rw [hreport]
      exact hne
    · rw [hreport]
      exact ho
  | finished report =>
    cases hmove

variable {action : Action} {id : Text} {outcome : NetworkApprovalOutcome}

theorem names_of_record (h : s.Records action id outcome) : s.Names id := by
  rcases h with ⟨i, r, -, hr, hrec⟩ | ⟨j, a, -, ha, hrec⟩
  · exact .inl ⟨r, mem_of_getElem? hr, names_of_records hrec⟩
  · refine .inr ⟨a, mem_of_getElem? ha, ?_⟩
    cases a with
    | recording id' o =>
      cases hrec
      rfl
    | resolving o | done => cases hrec

theorem CallsInv.congr (hsame : SameCalls s s')
    (h : CallsInv s.activeCalls s.callOutcomes s.registrations s.finishes s.history) :
    CallsInv s'.activeCalls s'.callOutcomes s'.registrations s'.finishes s'.history := by
  rw [hsame.activeCalls, hsame.callOutcomes, hsame.registrations, hsame.finishes, hsame.history]
  exact h

theorem history_grows (hstep : s.stepOption action = some s') : s.history <+: s'.history := by
  rcases (step_calls hstep).2 with ⟨hsame, -⟩ | ⟨id, o, -, hsame⟩ | ⟨id, mode, rfl⟩ | ⟨id, rfl⟩ |
    ⟨id, rfl⟩ | ⟨j, rfl⟩
  · rw [hsame.history]
  · rw [hsame.history]
    exact prefix_append _ _
  · obtain ⟨-, rfl⟩ := register_ok hstep
    exact prefix_append _ _
  · obtain ⟨-, -, rfl⟩ := finishImmediate_ok hstep
    exact prefix_refl _
  · obtain ⟨-, rfl⟩ := unregister_ok hstep
    exact prefix_refl _
  · obtain ⟨f, s₁, f', -, hmove, rfl⟩ := finish_ok hstep
    unfold finishNetworkApproval at hmove
    split at hmove <;> cases hmove
    · exact prefix_append _ _
    · exact prefix_refl _
    · exact prefix_refl _

theorem Attributed.step (h : s.Attributed) (hstep : s.stepOption action = some s') :
    s'.Attributed := by
  obtain ⟨hnames, hcalls⟩ := step_calls hstep
  refine ⟨?_, fun id hid => ?_⟩
  · rcases hcalls with ⟨hsame, -⟩ | ⟨id, o, hrec, hsame⟩ | ⟨id, mode, rfl⟩ | ⟨id, rfl⟩ |
      ⟨id, rfl⟩ | ⟨j, rfl⟩
    · exact h.calls.congr hsame
    · exact CallsInv.congr hsame (h.calls.record (h.named id (names_of_record hrec)))
    · obtain ⟨hfresh, rfl⟩ := register_ok hstep
      exact h.calls.register hfresh mode
    · obtain ⟨hmode, hnone, rfl⟩ := finishImmediate_ok hstep
      exact h.calls.begin (by simp [hmode]) rfl (.inl ⟨hmode, hnone⟩)
    · obtain ⟨hmode, rfl⟩ := unregister_ok hstep
      exact h.calls.begin (by simp [hmode]) rfl (.inr ⟨by simp [hmode], by simp⟩)
    · obtain ⟨f, s₁, f', hf, hmove, rfl⟩ := finish_ok hstep
      exact h.calls.finish hf hmove
  · obtain hold | hactive := hnames id hid
    · exact (history_grows hstep).subset (h.named id hold)
    · exact (history_grows hstep).subset (h.calls.active id hactive)

theorem attributed_withApproved (hosts : List HostApprovalKey) :
    (withApproved hosts).Attributed := by
  refine ⟨⟨?_, ?_, ?_, ?_, ?_, ?_, ?_, ?_⟩, ?_⟩ <;> simp [withApproved, Names]

/-! ## The entries of the map -/

theorem Registered.congr (hreg : s'.registrations = s.registrations)
    (hfin : s'.finishes = s.finishes) (id : Text) : s'.Registered id ↔ s.Registered id := by
  unfold Registered
  rw [hreg, hfin]

theorem keepsUserDenials_of_sub (h : ∀ id, s'.callOutcomes.lookup id = none ∨
      s'.callOutcomes.lookup id = s.callOutcomes.lookup id) : KeepsUserDenials s s' := by
  intro id message hid
  obtain hnone | hsame := h id
  · simp [hnone]
  · simp [hsame, hid]

theorem quiet_step (hstep : s.stepOption action = some s')
    (hquiet : ∀ id o, ¬ s.Records action id o) : (∀ id, s'.callOutcomes.lookup id = none ∨
      s'.callOutcomes.lookup id = s.callOutcomes.lookup id) ∧
    (s.OnlyRegistered → s'.OnlyRegistered) := by
  rcases (step_calls hstep).2 with ⟨hsame, -⟩ | ⟨id, o, hrec, -⟩ | ⟨id, mode, rfl⟩ | ⟨id, rfl⟩ |
    ⟨id, rfl⟩ | ⟨j, rfl⟩
  · refine ⟨fun id => .inr (by rw [hsame.callOutcomes]), fun honly id hid => ?_⟩
    rw [hsame.callOutcomes] at hid
    exact (Registered.congr hsame.registrations hsame.finishes id).mpr (honly id hid)
  · exact absurd hrec (hquiet id o)
  · obtain ⟨-, rfl⟩ := register_ok hstep
    refine ⟨fun id' => .inr rfl, fun honly id' hid' => ?_⟩
    obtain ⟨hknown, hnot⟩ := honly id' hid'
    refine ⟨?_, hnot⟩
    rw [lookup_insert_ite]
    split
    · simp
    · exact hknown
  · obtain ⟨-, -, rfl⟩ := finishImmediate_ok hstep
    refine ⟨fun id' => .inr rfl, fun honly id' hid' => ?_⟩
    obtain ⟨hknown, hnot⟩ := honly id' hid'
    refine ⟨hknown, fun f hf hfid report => ?_⟩
    obtain hf | hf := mem_append.mp hf
    · exact hnot f hf hfid report
    · cases mem_singleton.mp hf
      simp
  · obtain ⟨-, rfl⟩ := unregister_ok hstep
    refine ⟨fun id' => .inr rfl, fun honly id' hid' => ?_⟩
    obtain ⟨hknown, hnot⟩ := honly id' hid'
    refine ⟨hknown, fun f hf hfid report => ?_⟩
    obtain hf | hf := mem_append.mp hf
    · exact hnot f hf hfid report
    · cases mem_singleton.mp hf
      simp
  · obtain ⟨f, s₁, f', hf, hmove, rfl⟩ := finish_ok hstep
    obtain ⟨hfid, hsub, hsame, hdropped⟩ := finish_outcomes hmove
    refine ⟨hsub, fun honly id hid => ?_⟩
    have hold : s.callOutcomes.lookup id ≠ none := by
      obtain hnone | heq := hsub id
      · exact absurd hnone hid
      · exact heq ▸ hid
    obtain ⟨hknown, hnot⟩ := honly id hold
    refine ⟨?_, fun g hg hgid report hgphase => ?_⟩
    · show s₁.registrations.lookup id ≠ none
      rw [hsame.1]
      exact hknown
    · have hg' : g ∈ s₁.finishes.set j f' := hg
      rw [hsame.2] at hg'
      obtain hg | rfl := mem_or_eq_of_mem_set hg'
      · exact hnot g hg hgid report hgphase
      · have hgone := hdropped report hgphase
        rw [← hfid, hgid] at hgone
        exact hid hgone

section
variable (hsame : SameCalls (s.recordCallOutcome id outcome) s')
include hsame

theorem lookup_after_record (id' : Text) : s'.callOutcomes.lookup id' = if id' = id then
      if s.callOutcomes.lookup id = some .deniedByUser then some .deniedByUser else some outcome
      else s.callOutcomes.lookup id' := by
  rw [hsame.callOutcomes]
  exact lookup_recorded id'

theorem record_keepsUserDenials : KeepsUserDenials s s' := by
  intro id' message huser
  rw [lookup_after_record hsame]
  by_cases hid : id' = id
  · subst hid
    simp [huser]
  · simp [hid, huser]

theorem record_onlyRegistered (honly : s.OnlyRegistered) : s'.OnlyRegistered ↔ s.Registered id := by
  have hreg : ∀ id', s'.Registered id' ↔ s.Registered id' :=
    Registered.congr hsame.registrations hsame.finishes
  constructor
  · intro h
    apply (hreg id).mp
    apply h id
    rw [lookup_after_record hsame, if_pos rfl]
    split <;> simp
  · intro h id' hid'
    apply (hreg id').mpr
    rw [lookup_after_record hsame] at hid'
    by_cases hid : id' = id
    · exact hid ▸ h
    · rw [if_neg hid] at hid'
      exact honly id' hid'

end

theorem records_unique {id' : Text} {o o' : NetworkApprovalOutcome} (h : s.Records action id o)
    (h' : s.Records action id' o') : id = id' ∧ o = o' := by
  rcases h with ⟨i, r, rfl, hr, hrec⟩ | ⟨j, a, rfl, ha, hrec⟩
  · rcases h' with ⟨_, r', heq, hr', hrec'⟩ | ⟨_, _, heq, _⟩
    · cases heq
      rw [hr] at hr'
      cases hr'
      rw [hrec] at hrec'
      cases hrec'
      exact ⟨rfl, rfl⟩
    · cases heq
  · rcases h' with ⟨_, _, heq, _⟩ | ⟨_, a', heq, ha', hrec'⟩
    · cases heq
    · cases heq
      rw [ha] at ha'
      cases ha'
      rw [hrec] at hrec'
      cases hrec'
      exact ⟨rfl, rfl⟩

theorem onlyRegistered_step (hstep : s.stepOption action = some s') (honly : s.OnlyRegistered) :
    s'.OnlyRegistered ↔ ∀ id o, s.Records action id o → s.Registered id := by
  by_cases hrec : ∃ id o, s.Records action id o
  · obtain ⟨id, o, hrec⟩ := hrec
    have hsame : SameCalls (s.recordCallOutcome id o) s' := by
      rcases (step_calls hstep).2 with ⟨-, hno⟩ | ⟨id', o', hrec', hsame⟩ | ⟨_, _, rfl⟩ |
        ⟨_, rfl⟩ | ⟨_, rfl⟩ | ⟨_, rfl⟩
      · exact absurd hrec (hno id o)
      · obtain ⟨rfl, rfl⟩ := records_unique hrec hrec'
        exact hsame
      all_goals rcases hrec with ⟨_, _, heq, _⟩ | ⟨_, _, heq, _⟩ <;> cases heq
    rw [record_onlyRegistered hsame honly]
    constructor
    · intro h id' o' hrec'
      obtain ⟨rfl, -⟩ := records_unique hrec hrec'
      exact h
    · exact fun h => h id o hrec
  · simp only [not_exists] at hrec
    exact iff_of_true ((quiet_step hstep hrec).2 honly) fun id o h => absurd h (hrec id o)

theorem keepsUserDenials_step (hstep : s.stepOption action = some s') : KeepsUserDenials s s' := by
  rcases (step_calls hstep).2 with ⟨-, hno⟩ | ⟨id, o, -, hsame⟩ | ⟨_, _, rfl⟩ | ⟨_, rfl⟩ |
    ⟨_, rfl⟩ | ⟨_, rfl⟩
  · exact keepsUserDenials_of_sub (quiet_step hstep hno).1
  · exact record_keepsUserDenials hsame
  all_goals
    refine keepsUserDenials_of_sub (quiet_step hstep fun id o hrec => ?_).1
    rcases hrec with ⟨_, _, heq, _⟩ | ⟨_, _, heq, _⟩ <;> cases heq

theorem Attributed.rejectsDenied (h : s.Attributed) : s.RejectsDenied := by
  intro f hf outcome hphase
  have hreport : f.report = some outcome := by simp [Finish.report, hphase]
  rw [← h.calls.rejected f hf outcome hreport]
  rcases outcome with _ | (_ | message) <;> simp [finishResult]

/-! ## Whole runs -/

def DenialsAttributed (hosts : List HostApprovalKey) (l : List Action) : Prop :=
  (∀ pre u, pre <+: l → pre.foldlM step (withApproved hosts) = .ok u →
    u.OnlyRegistered ∧ u.RejectsDenied) ∧
  ∀ pre action u v, pre ++ [action] <+: l → pre.foldlM step (withApproved hosts) = .ok u →
    u.step action = .ok v → KeepsUserDenials u v

def RecordsRegistered (hosts : List HostApprovalKey) (l : List Action) : Prop :=
  ∀ pre action u, pre ++ [action] <+: l → pre.foldlM step (withApproved hosts) = .ok u →
    ∀ id outcome, u.Records action id outcome → u.Registered id

end

/-- A call is finished while its request waits for the answer, which is a denial. -/
def lateDenial : List Action :=
  [.register "call".toList .immediate,
    .request ⟨.http, "example.com".toList, 80⟩, .advance 0, .advance 0, .advance 0,
    .readTurn 0 (some ⟨.managed .unrestricted .restricted, .onRequest⟩), .advance 0,
    .finishImmediate "call".toList, .finish 0, .finish 0, .finish 0,
    .answer 0 (.review .denied none), .advance 0]

theorem lateDenial_stays : ∃ t, lateDenial.foldlM step (withApproved []) = .ok t ∧
    t.callOutcomes.lookup "call".toList = some .deniedByUser ∧
      t.finishes = [⟨"call".toList, .finished (some none)⟩] := by
  refine ⟨_, rfl, ?_, rfl⟩
  decide

theorem lateDenial_not_onlyRegistered {t : Service}
    (hout : t.callOutcomes.lookup "call".toList = some .deniedByUser)
    (hfin : t.finishes = [⟨"call".toList, .finished (some none)⟩]) : ¬ t.OnlyRegistered := by
  intro h
  have hnone : t.callOutcomes.lookup "call".toList ≠ none := by
    rw [hout]
    simp
  have hmem : ⟨"call".toList, .finished (some none)⟩ ∈ t.finishes := by
    rw [hfin]
    exact mem_singleton.mpr rfl
  exact (h _ hnone).2 _ hmem rfl (some none) rfl

end Service

end Codex.NetworkApproval
