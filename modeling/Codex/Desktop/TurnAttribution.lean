import Codex.Desktop.TurnLogs

/-!
# Whose log a record goes to

The open log takes every record until a turn completes, whatever turn the record names. A
log belongs to one turn as long as each turn has one prompt and completes before the next.
-/

namespace Codex.Desktop

open Foundation List Option

namespace Bridge

variable {b b' : Bridge}

def userOps (b : Bridge) (file : ℕ) : ℕ := (b.finished file).countP (·.kind = .userOp)

/-- Each prompt is in the log of its submission, each completed log holds one prompt, and no
record follows in a log that is completed. -/
structure Attributed (b : Bridge) : Prop where
  own : ∀ turn file id, .wrote turn file (some id) ∈ b.history → turn = id
  one : ∀ turn file, .completed turn file ∈ b.history → b.userOps file = 1
  closed : ∀ pre post turn file, b.history = pre ++ .completed turn file :: post →
    ∀ turn' file' submission, .wrote turn' file' submission ∈ post → turn' ≠ turn ∧ file' ≠ file

/-- The log of a turn that this run has completed: its name is a submission's, its file has
lost that name, and the open log is another. -/
structure Closed (b : Bridge) (turn : TurnId) (file : ℕ) : Prop where
  older : file < b.created
  unnamed : ∀ turn', b.wal turn' ≠ some file
  other : ∀ log, b.current = some log → log.turn ≠ turn
  numbered : ∃ n ≤ b.submitCounter, turn = .submission n

structure Separate (b : Bridge) : Prop extends Attributed b where
  names : ∀ turn turn' file, b.wal turn = some file → b.wal turn' = some file → turn = turn'
  older : ∀ turn file, b.wal turn = some file → file < b.created
  fresh : ∀ file, b.created ≤ file → b.userOps file = 0
  opened : ∀ log, b.current = some log → b.wal log.turn = some log.file
  completed : ∀ turn file, .completed turn file ∈ b.history → b.Closed turn file

/-- The open log is that of the prompt that runs, and else of no submission. -/
def Following (b : Bridge) : Prop :=
  match b.currentTurnId with
  | some id => id = .submission b.submitCounter ∧
      ∃ file, b.current = some ⟨id, file⟩ ∧ b.userOps file = 1
  | none => ∀ log, b.current = some log → log.turn = .preboot

/-- A prompt comes when no log is open, its record fits, and its log holds no prompt yet. A
turn completes only after a prompt. -/
def OneAtATime (cbor : Cbor) (b : Bridge) : BridgeAction → Prop
  | .prompt text tsUnixMs => b.current = none ∧ (userOp cbor text tsUnixMs).Fits ∧
      ∀ file, b.wal b.nextSubmission = some file → b.userOps file = 0
  | .notification method _ _ received =>
    method = turnCompleted → received = true → b.currentTurnId ≠ none
  | _ => True

/-! ## Logs -/

theorem snoc_eq_append_cons {α : Type} {l pre post : List α} {a c : α}
    (h : l ++ [a] = pre ++ c :: post) :
    (post = [] ∧ c = a) ∨ ∃ post', post = post' ++ [a] ∧ l = pre ++ c :: post' := by
  rcases eq_nil_or_concat post with rfl | ⟨post', x, rfl⟩
  · obtain ⟨-, hlast⟩ := append_inj' h rfl
    exact .inl ⟨rfl, (List.cons.inj hlast).1.symm⟩
  · rw [concat_eq_append] at h ⊢
    rw [← cons_append, ← List.append_assoc] at h
    obtain ⟨hinit, hlast⟩ := append_inj' h rfl
    rw [(List.cons.inj hlast).1]
    exact .inr ⟨post', rfl, hinit⟩

theorem separate_start (h : b.Separate) (gc : Finset TurnId) : (b.start gc).Separate where
  own := nofun
  one := nofun
  closed := fun pre _ _ _ hhistory => by cases pre <;> cases hhistory
  names := h.names
  older := h.older
  fresh := h.fresh
  opened := nofun
  completed := nofun

theorem separate_stop (h : b.Separate) : b.stop.Separate where
  own := h.own
  one := h.one
  closed := h.closed
  names := h.names
  older := h.older
  fresh := h.fresh
  opened := nofun
  completed := fun turn file hmem =>
    let hc := h.completed turn file hmem
    ⟨hc.older, hc.unnamed, fun _ hlog => (nomatch hlog), hc.numbered⟩

theorem separate_currentTurnId (h : b.Separate) (id : Option TurnId) :
    { b with currentTurnId := id }.Separate where
  own := h.own
  one := h.one
  closed := h.closed
  names := h.names
  older := h.older
  fresh := h.fresh
  opened := h.opened
  completed := fun turn file hmem =>
    let hc := h.completed turn file hmem
    ⟨hc.older, hc.unnamed, hc.other, hc.numbered⟩

variable {turn : TurnId} {r : Record} {cbor : Cbor}

section
variable (h : b.Separate)
include h

theorem separate_openTurn (hturn : ∀ turn' file, .completed turn' file ∈ b.history → turn ≠ turn') :
    (b.openTurn turn).Separate := by
  unfold openTurn
  cases hwal : b.wal turn with
  | some file =>
    refine ⟨⟨h.own, h.one, h.closed⟩, h.names, h.older, h.fresh, ?_, ?_⟩
    · intro log hlog
      cases hlog
      exact hwal
    · intro turn' file' hmem
      have hc := h.completed turn' file' hmem
      refine ⟨hc.older, hc.unnamed, ?_, hc.numbered⟩
      intro log hlog
      cases hlog
      exact hturn turn' file' hmem
  | none =>
    refine ⟨⟨h.own, h.one, h.closed⟩, ?_, ?_, ?_, ?_, ?_⟩
    · intro turn₁ turn₂ file h₁ h₂
      by_cases hturn₁ : turn₁ = turn <;> by_cases hturn₂ : turn₂ = turn
      · exact hturn₁.trans hturn₂.symm
      · have hnew : b.created = file := by simpa [hturn₁] using h₁
        have hold : b.wal turn₂ = some file := by simpa [hturn₂] using h₂
        exact absurd (h.older turn₂ file hold) (by omega)
      · have hnew : b.created = file := by simpa [hturn₂] using h₂
        have hold : b.wal turn₁ = some file := by simpa [hturn₁] using h₁
        exact absurd (h.older turn₁ file hold) (by omega)
      · exact h.names turn₁ turn₂ file (by simpa [hturn₁] using h₁) (by simpa [hturn₂] using h₂)
    · intro turn' file hfile
      by_cases hturn' : turn' = turn
      · obtain rfl : b.created = file := by simpa [hturn'] using hfile
        exact Nat.lt_succ_self _
      · exact Nat.lt_succ_of_lt (h.older turn' file (by simpa [hturn'] using hfile))
    · exact fun file hfile => h.fresh file (Nat.le_of_succ_le hfile)
    · intro log hlog
      cases hlog
      exact Function.update_self ..
    · intro turn' file hmem
      have hc := h.completed turn' file hmem
      refine ⟨Nat.lt_succ_of_lt hc.older, ?_, ?_, hc.numbered⟩
      · intro turn₁
        by_cases hturn₁ : turn₁ = turn
        · simpa [hturn₁] using (Nat.ne_of_lt hc.older).symm
        · simpa [hturn₁] using hc.unnamed turn₁
      · intro log hlog
        cases hlog
        exact hturn turn' file hmem

theorem separate_append {log : TurnLog} (hlog : b.current = some log)
    (r : Record) (submission : Option TurnId) (hown : ∀ id, submission = some id → log.turn = id) :
    (b.append log r submission).Separate := by
  unfold append
  by_cases hr : r.Fits
  · rw [if_pos hr]
    have hwal := h.opened log hlog
    have holder := h.older log.turn log.file hwal
    refine ⟨⟨?_, ?_, ?_⟩, h.names, h.older, ?_, h.opened, ?_⟩
    · intro turn file id hmem
      rcases mem_append.mp hmem with hmem | hmem
      · exact h.own turn file id hmem
      · cases mem_singleton.mp hmem
        exact hown id rfl
    · intro turn file hmem
      rcases mem_append.mp hmem with hmem | hmem
      · have hne : file ≠ log.file := by
          rintro rfl
          exact (h.completed turn log.file hmem).unnamed log.turn hwal
        simpa [userOps, hne] using h.one turn file hmem
      · cases mem_singleton.mp hmem
    · intro pre post turn file hhistory turn' file' submission' hmem'
      rcases snoc_eq_append_cons hhistory with ⟨rfl, -⟩ | ⟨post', rfl, hbefore⟩
      · cases hmem'
      rcases mem_append.mp hmem' with hmem' | hmem'
      · exact h.closed pre post' turn file hbefore turn' file' submission' hmem'
      · cases mem_singleton.mp hmem'
        have hc := h.completed turn file (by simp [hbefore])
        refine ⟨hc.other log hlog, ?_⟩
        rintro rfl
        exact hc.unnamed log.turn hwal
    · intro file hfile
      have hne : file ≠ log.file := fun heq => absurd (heq ▸ holder) (Nat.not_lt.mpr hfile)
      simpa [userOps, hne] using h.fresh file hfile
    · intro turn file hmem
      rcases mem_append.mp hmem with hmem | hmem
      · have hc := h.completed turn file hmem
        exact ⟨hc.older, hc.unnamed, hc.other, hc.numbered⟩
      · cases mem_singleton.mp hmem
  · rw [if_neg hr]
    exact h

theorem separate_completeTurn (hone : ∀ log, b.current = some log →
      b.userOps log.file = 1 ∧ ∃ n ≤ b.submitCounter, log.turn = .submission n) :
    b.completeTurn.Separate := by
  unfold completeTurn
  cases hlog : b.current with
  | none => exact h
  | some log =>
    obtain ⟨hcount, hnumbered⟩ := hone log hlog
    have hwal := h.opened log hlog
    have hkept : ∀ turn file, Function.update b.wal log.turn none turn = some file →
        b.wal turn = some file := by
      intro turn file hfile
      by_cases hturn : turn = log.turn
      · simp [hturn] at hfile
      · simpa [hturn] using hfile
    refine ⟨⟨?_, ?_, ?_⟩, ?_, ?_, h.fresh, (nofun), ?_⟩
    · intro turn file id hmem
      rcases mem_append.mp hmem with hmem | hmem
      · exact h.own turn file id hmem
      · cases mem_singleton.mp hmem
    · intro turn file hmem
      rcases mem_append.mp hmem with hmem | hmem
      · exact h.one turn file hmem
      · cases mem_singleton.mp hmem
        exact hcount
    · intro pre post turn file hhistory turn' file' submission' hmem'
      rcases snoc_eq_append_cons hhistory with ⟨rfl, -⟩ | ⟨post', rfl, hbefore⟩
      · cases hmem'
      rcases mem_append.mp hmem' with hmem' | hmem'
      · exact h.closed pre post' turn file hbefore turn' file' submission' hmem'
      · cases mem_singleton.mp hmem'
    · exact fun turn turn' file h₁ h₂ => h.names turn turn' file (hkept _ _ h₁) (hkept _ _ h₂)
    · exact fun turn file hfile => h.older turn file (hkept _ _ hfile)
    · intro turn file hmem
      rcases mem_append.mp hmem with hmem | hmem
      · have hc := h.completed turn file hmem
        exact ⟨hc.older, fun turn' hfile => hc.unnamed turn' (hkept _ _ hfile),
          fun _ hlog => (nomatch hlog), hc.numbered⟩
      · cases mem_singleton.mp hmem
        refine ⟨h.older log.turn log.file hwal, ?_, fun _ hlog => (nomatch hlog), hnumbered⟩
        intro turn' hfile
        have hturn := h.names turn' log.turn log.file (hkept _ _ hfile) hwal
        simp [hturn] at hfile

theorem separate_ensureOpen (hturn : b.current = none → ∀ file, .completed turn file ∉ b.history) :
    (b.ensureOpen turn).Separate := by
  unfold ensureOpen
  cases hcurrent : b.current with
  | some log => exact h
  | none =>
    apply separate_openTurn h
    rintro turn' file hmem rfl
    exact hturn hcurrent file hmem

theorem separate_recordPart
    (hturn : b.current = none → ∀ file, .completed turn file ∉ b.history) (r : Record)
    (written : ℕ) : (b.recordPart turn r written).Separate := by
  have hopen := separate_ensureOpen h hturn
  unfold recordPart
  cases hlog : (b.ensureOpen turn).current with
  | none => simpa [hlog] using hopen
  | some log =>
    simp only [hlog]
    exact ⟨⟨hopen.own, hopen.one, hopen.closed⟩, hopen.names, hopen.older, hopen.fresh,
      hopen.opened, fun turn' file hmem =>
        let hc := hopen.completed turn' file hmem
        ⟨hc.older, hc.unnamed, hc.other, hc.numbered⟩⟩

end

theorem userOps_append_userOp (b : Bridge) (log : TurnLog) (hr : r.Fits) (hkind : r.kind = .userOp)
    (submission : Option TurnId) :
    (b.append log r submission).userOps log.file = b.userOps log.file + 1 := by
  simp [append, hr, userOps, hkind]

theorem userOps_append_other {log : TurnLog} (hkind : r.kind ≠ .userOp) (submission : Option TurnId)
    (file : ℕ) : (b.append log r submission).userOps file = b.userOps file := by
  unfold append
  by_cases hr : r.Fits
  · rw [if_pos hr]
    by_cases hfile : file = log.file
    · simp [userOps, hfile, hkind]
    · simp [userOps, hfile]
  · rw [if_neg hr]

/-! ## Steps -/

theorem preboot_not_completed (h : b.Separate) (file : ℕ) :
    .completed .preboot file ∉ b.history := by
  intro hmem
  obtain ⟨n, -, hn⟩ := (h.completed .preboot file hmem).numbered
  cases hn

theorem nextSubmission_not_completed (h : b.Separate) (file : ℕ) :
    .completed b.nextSubmission file ∉ b.history := by
  intro hmem
  obtain ⟨n, hn, heq⟩ := (h.completed b.nextSubmission file hmem).numbered
  cases heq
  exact absurd hn (Nat.not_succ_le_self _)

theorem notifiedTurn_of_idle (hf : b.Following) (hcurrent : b.current = none) :
    b.notifiedTurn = .preboot := by
  unfold Following at hf
  cases hid : b.currentTurnId with
  | none => simp [notifiedTurn, hid]
  | some id =>
    rw [hid] at hf
    obtain ⟨-, file, hfile, -⟩ := hf
    rw [hcurrent] at hfile
    cases hfile

theorem notified_not_completed (h : b.Separate) (hf : b.Following) (hcurrent : b.current = none)
    (file : ℕ) : .completed b.notifiedTurn file ∉ b.history := by
  rw [notifiedTurn_of_idle hf hcurrent]
  exact preboot_not_completed h file

theorem record_numbers (b : Bridge) (turn : TurnId) (r : Record) (submission : Option TurnId) :
    (b.record turn r submission).submitCounter = b.submitCounter ∧
      (b.record turn r submission).currentTurnId = b.currentTurnId := by
  obtain ⟨log, -, hrecord, -⟩ := record_spec b turn r submission
  rw [hrecord]
  unfold append ensureOpen openTurn
  split <;> split <;> first | exact ⟨rfl, rfl⟩ | (split <;> exact ⟨rfl, rfl⟩)

theorem prompt_follows {text : Text} {tsUnixMs : ℕ} (h : b.Separate)
    (hcond : b.OneAtATime cbor (.prompt text tsUnixMs)) :
    (b.prompt cbor text tsUnixMs).Separate ∧ (b.prompt cbor text tsUnixMs).Following := by
  obtain ⟨hcurrent, hr, hempty⟩ := hcond
  let c : Bridge := { b with submitCounter := b.submitCounter + 1 }
  let r := userOp cbor text tsUnixMs
  have hcounted : c.Separate := by
    refine ⟨⟨h.own, h.one, h.closed⟩, h.names, h.older, h.fresh, h.opened, ?_⟩
    intro turn file hmem
    have hc := h.completed turn file hmem
    obtain ⟨n, hn, hturn⟩ := hc.numbered
    exact ⟨hc.older, hc.unnamed, hc.other, n, Nat.le_succ_of_le hn, hturn⟩
  have hopen : (c.ensureOpen b.nextSubmission).Separate :=
    separate_ensureOpen hcounted fun _ => nextSubmission_not_completed h
  obtain ⟨log, hlog, hrecord, hlog', hturn⟩ :=
    record_spec c b.nextSubmission r (some b.nextSubmission)
  have hturn : log.turn = b.nextSubmission := by
    rw [hturn, show c.current = none from hcurrent]
    rfl
  have hcount : (c.ensureOpen b.nextSubmission).userOps log.file = 0 := by
    have hensure : c.ensureOpen b.nextSubmission = c.openTurn b.nextSubmission := by
      unfold ensureOpen
      rw [show c.current = none from hcurrent]
    rw [hensure] at hlog ⊢
    unfold openTurn at hlog ⊢
    cases hwal : c.wal b.nextSubmission with
    | some file =>
      simp only [hwal] at hlog ⊢
      cases hlog
      exact hempty file hwal
    | none =>
      simp only [hwal] at hlog ⊢
      cases hlog
      exact h.fresh b.created (Nat.le_refl _)
  have happend := separate_append hopen hlog r (some b.nextSubmission)
    fun id hid => hturn.trans (Option.some.inj hid)
  have hone := userOps_append_userOp (c.ensureOpen b.nextSubmission) log hr rfl
    (some b.nextSubmission)
  rw [← hrecord] at happend hone
  rw [hcount] at hone
  constructor
  · exact separate_currentTurnId happend (some b.nextSubmission)
  · have hcounter := (record_numbers c b.nextSubmission r (some b.nextSubmission)).1
    refine ⟨congrArg TurnId.submission hcounter.symm, log.file, ?_, hone⟩
    rw [← hturn]
    exact hlog'

theorem notification_record_follows (h : b.Separate) (hf : b.Following) (hkind : r.kind ≠ .userOp) :
    (b.record b.notifiedTurn r none).Separate ∧ (b.record b.notifiedTurn r none).Following := by
  obtain ⟨log, hlog, hrecord, hlog', hturn⟩ := record_spec b b.notifiedTurn r none
  have hopen := separate_ensureOpen h (notified_not_completed h hf)
  have happend := separate_append hopen hlog r none nofun
  rw [← hrecord] at happend
  refine ⟨happend, ?_⟩
  obtain ⟨hcounter, hid⟩ := record_numbers b b.notifiedTurn r none
  unfold Following at hf ⊢
  rw [hcounter, hid]
  cases hcurrentId : b.currentTurnId with
  | some id =>
    simp only [hcurrentId] at hf ⊢
    obtain ⟨hnumber, file, hcurrent, hone⟩ := hf
    have hensure : b.ensureOpen b.notifiedTurn = b := by
      unfold ensureOpen
      rw [hcurrent]
    rw [hensure] at hlog hrecord
    obtain rfl : log = ⟨id, file⟩ := Option.some.inj (hlog.symm.trans hcurrent)
    refine ⟨hnumber, file, hlog', ?_⟩
    rw [hrecord, userOps_append_other hkind]
    exact hone
  | none =>
    simp only [hcurrentId] at hf ⊢
    intro log' hlog''
    obtain rfl : log = log' := Option.some.inj (hlog'.symm.trans hlog'')
    rw [hturn]
    cases hcurrent : b.current with
    | some log₀ => exact hf log₀ hcurrent
    | none => simp [notifiedTurn, hcurrentId]

def Attributing (b : Bridge) : Prop := b.Separate ∧ (b.running = true → b.Following)

theorem attributing_stop (h : b.Separate) : b.stop.Attributing :=
  ⟨separate_stop h, nofun⟩

theorem current_completeTurn (b : Bridge) : b.completeTurn.current = none := by
  unfold completeTurn
  cases hcurrent : b.current with
  | none => exact hcurrent
  | some log => rfl

theorem notification_follows {method paramsJson : Text} {tsUnixMs : ℕ} {received : Bool}
    (h : b.Separate) (hf : b.Following)
    (hcond : method = turnCompleted → received = true → b.currentTurnId ≠ none) :
    (b.notification cbor method paramsJson tsUnixMs received).Attributing := by
  let c : Bridge :=
    if logged method then
      b.record b.notifiedTurn (serverNotification cbor method paramsJson tsUnixMs) none
    else b
  have hc : c.Separate ∧ c.Following ∧ c.currentTurnId = b.currentTurnId := by
    by_cases hlogged : logged method = true
    · simp only [c, if_pos hlogged]
      obtain ⟨hs', hf'⟩ := notification_record_follows
        (r := serverNotification cbor method paramsJson tsUnixMs) h hf (by simp [serverNotification])
      exact ⟨hs', hf', (record_numbers b _ _ _).2⟩
    · simp only [c, if_neg hlogged]
      exact ⟨h, hf, trivial⟩
  obtain ⟨hs', hf', hid⟩ := hc
  show (if (method = messageDelta ∨ method = turnCompleted) ∧ received = false then c.stop
    else if method = turnCompleted then { c.completeTurn with currentTurnId := none }
    else c).Attributing
  by_cases hgone : (method = messageDelta ∨ method = turnCompleted) ∧ received = false
  · rw [if_pos hgone]
    exact attributing_stop hs'
  rw [if_neg hgone]
  by_cases hcompleted : method = turnCompleted
  · rw [if_pos hcompleted]
    have hcurrentId := hcond hcompleted (by simpa [hcompleted] using hgone)
    rw [← hid] at hcurrentId
    obtain ⟨id, hid'⟩ := ne_none_iff_exists'.mp hcurrentId
    unfold Following at hf'
    rw [hid'] at hf'
    obtain ⟨hnumber, file, hcurrent, hone⟩ := hf'
    have hdone := separate_completeTurn hs' fun log hlog => by
      obtain rfl : ⟨id, file⟩ = log := Option.some.inj (hcurrent.symm.trans hlog)
      exact ⟨hone, c.submitCounter, Nat.le_refl _, hnumber⟩
    refine ⟨separate_currentTurnId hdone none, ?_⟩
    intro _ log hlog
    rw [show _ = none from current_completeTurn c] at hlog
    cases hlog
  · rw [if_neg hcompleted]
    exact ⟨hs', fun _ => hf'⟩

theorem attributing_step {action : BridgeAction} (h : b.Attributing)
    (hcond : b.OneAtATime cbor action) (hstep : b.stepOption cbor action = some b') :
    b'.Attributing := by
  obtain ⟨hs, hf⟩ := h
  cases action with
    simp only [stepOption, ite_none_left_eq_some, ite_none_right_eq_some, Option.some.injEq] at hstep
  | start gc =>
    obtain ⟨-, rfl⟩ := hstep
    exact ⟨separate_start hs gc, fun _ _ hlog => by cases hlog⟩
  | prompt text tsUnixMs =>
    obtain ⟨-, rfl⟩ := hstep
    obtain ⟨hs', hf'⟩ := prompt_follows hs hcond
    exact ⟨hs', fun _ => hf'⟩
  | notification method paramsJson tsUnixMs received =>
    obtain ⟨hrunning, rfl⟩ := hstep
    exact notification_follows hs (hf hrunning) hcond
  | exit =>
    obtain ⟨-, rfl⟩ := hstep
    exact attributing_stop hs
  | crashInPrompt text tsUnixMs written =>
    obtain ⟨-, rfl⟩ := hstep
    exact attributing_stop (separate_recordPart hs (fun _ => nextSubmission_not_completed hs) _ _)
  | crashInNotification method paramsJson tsUnixMs written =>
    obtain ⟨⟨hrunning, -⟩, rfl⟩ := hstep
    exact attributing_stop (separate_recordPart hs (notified_not_completed hs (hf hrunning)) _ _)

variable {cbor : Cbor} {actions : List BridgeAction}

/-- In a run with one turn at a time, every log belongs to its turn. -/
theorem prompts_attributed (hrun : actions.foldlM (step cbor) new = .ok b)
    (hcond : Along (step cbor) (OneAtATime cbor) new actions) : b.Attributed := by
  have hnew : new.Attributing := by
    refine ⟨⟨⟨(nofun), (nofun), ?_⟩,
      (nofun), (nofun), (fun _ _ => rfl),
      (nofun), (nofun)⟩, nofun⟩
    intro pre _ _ _ hhistory
    cases pre <;> cases hhistory
  have hstep : ∀ u a v, u.Attributing → OneAtATime cbor u a → step cbor u a = .ok v →
      v.Attributing := by
    intro u a v hu ha hv
    unfold Bridge.step at hv
    cases hoption : u.stepOption cbor a with
    | none =>
      rw [hoption] at hv
      cases hv
    | some u' =>
      rw [hoption] at hv
      cases hv
      exact attributing_step hu ha hoption
  have h : b.Attributing := run_keeps_along hstep hnew hcond (prefix_refl actions) hrun
  exact h.1.toAttributed

end Bridge

theorem prompts_attributed_oneTurn :
    ∃ b, (oneTurn "a".toList).foldlM (Bridge.step ciborium) Bridge.new = .ok b ∧
      b.history.length = 3 ∧ b.Attributed := by
  have hcond : Along (Bridge.step ciborium) (Bridge.OneAtATime ciborium) Bridge.new
      (oneTurn "a".toList) := by
    refine ⟨trivial, fun t ht => ?_⟩
    cases ht
    refine ⟨⟨rfl, by decide, nofun⟩, fun t ht => ?_⟩
    cases ht
    exact ⟨(nofun), fun t ht => trivial⟩
  have hrun : ∃ b, (oneTurn "a".toList).foldlM (Bridge.step ciborium) Bridge.new = .ok b ∧
      b.history.length = 3 := ⟨_, rfl, rfl⟩
  obtain ⟨b, hrun, hlength⟩ := hrun
  exact ⟨b, hrun, hlength, Bridge.prompts_attributed hrun hcond⟩

/-- The second of two prompts goes to the log of the first. -/
theorem second_prompt_in_first_log :
    ∃ b, [.start ∅, .prompt "a".toList 1, .prompt "b".toList 2].foldlM
      (Bridge.step ciborium) Bridge.new = .ok b ∧ ¬b.Attributed := by
  have hrun : ∃ b, [.start ∅, .prompt "a".toList 1, .prompt "b".toList 2].foldlM
      (Bridge.step ciborium) Bridge.new = .ok b ∧
      .wrote (.submission 1) 0 (some (.submission 2)) ∈ b.history :=
    ⟨_, rfl, mem_cons_of_mem _ mem_cons_self⟩
  obtain ⟨b, hrun, hmem⟩ := hrun
  refine ⟨b, hrun, fun h => ?_⟩
  cases h.own _ _ _ hmem

end Codex.Desktop
