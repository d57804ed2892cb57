import Codex.Desktop.Supervisor
import Codex.Foundation.Run

/-!
# Turn logs over many runs

A name that an earlier run has used is used again: a completed log replaces the older one,
and an open one may begin behind a torn record. As long as neither happens, each file keeps
its records and a name.
-/

namespace Codex.Desktop

open Foundation List Function Option

namespace Bridge

variable {b b' : Bridge} {file : ℕ}

/-! ## Files -/

def Named (b : Bridge) (file : ℕ) : Prop :=
  ∃ turn, b.wal turn = some file ∨ b.done turn = some file

/-- A file holds its finished records, and perhaps a part of one more. -/
def Torn (b : Bridge) (file : ℕ) : Prop :=
  ∃ tail, b.contents file = (b.finished file).flatMap Record.encode ++ tail ∧
    (tail = [] ∨ ∃ r : Record, r.Fits ∧ ∃ n, 0 < n ∧ n < r.encode.length ∧ tail = r.encode.take n)

structure Kept (b : Bridge) : Prop where
  torn : ∀ file, b.Torn file
  fits : ∀ file, ∀ r ∈ b.finished file, r.Fits
  named : ∀ file, file < b.created → file ∉ b.pruned → b.Named file
  older : ∀ turn file, b.wal turn = some file ∨ b.done turn = some file → file < b.created
  fresh : ∀ file, b.created ≤ file → b.contents file = [] ∧ b.finished file = []
  opened : ∀ log, b.current = some log →
    b.wal log.turn = some log.file ∧
      b.contents log.file = (b.finished log.file).flatMap Record.encode

theorem carried_of_torn (hfits : ∀ r ∈ b.finished file, r.Fits) (h : b.Torn file) :
    carried (decodeRecords (b.contents file)) = b.finished file := by
  obtain ⟨tail, hcontents, htail⟩ := h
  rw [hcontents]
  rcases htail with rfl | ⟨r, hr, n, hpos, hlt, rfl⟩
  · rw [append_nil, decodeRecords_of_reads (framed.reads_all hfits)]
    rfl
  · obtain ⟨t, ht⟩ := nextRecord_part hr hpos hlt
    have hreads := framed.reads_append hfits (.failed ht)
    rw [append_nil] at hreads
    rw [decodeRecords_of_reads hreads]
    rfl

theorem kept_new : new.Kept where
  torn := fun _ => ⟨[], rfl, .inl rfl⟩
  fits := fun _ r hr => absurd hr not_mem_nil
  named := fun file hfile => absurd hfile (Nat.not_lt_zero file)
  older := fun turn file h => by rcases h with h | h <;> cases h
  fresh := fun _ _ => ⟨rfl, rfl⟩
  opened := fun log h => by cases h

/-- A file that is there already when its turn is opened ends with a whole record. -/
def OpensWhole (b : Bridge) (turn : TurnId) : Prop :=
  b.current = none → ∀ file, b.wal turn = some file →
    ∃ rs : List Record, b.contents file = rs.flatMap Record.encode ∧ ∀ r ∈ rs, r.Fits

def completing (b : Bridge) : TurnId := (b.current.map (·.turn)).getD b.notifiedTurn

def FreshNames (b : Bridge) : BridgeAction → Prop
  | .prompt _ _ => b.OpensWhole b.nextSubmission
  | .crashInPrompt _ _ _ => b.OpensWhole b.nextSubmission
  | .crashInNotification _ _ _ _ => b.OpensWhole b.notifiedTurn
  | .notification method _ _ received =>
    (logged method = true → b.OpensWhole b.notifiedTurn) ∧
      (method = turnCompleted → received = true → b.done b.completing = none)
  | _ => True

/-! ## Steps -/

theorem whole_of_torn (hfits : ∀ r ∈ b.finished file, r.Fits) (h : b.Torn file)
    {rs : List Record} (hrs : ∀ r ∈ rs, r.Fits) (hwhole : b.contents file = rs.flatMap Record.encode) :
    b.contents file = (b.finished file).flatMap Record.encode := by
  obtain ⟨tail, hcontents, htail⟩ := h
  rcases htail with rfl | ⟨r, hr, n, hpos, hlt, rfl⟩
  · rw [hcontents, append_nil]
  · obtain ⟨t, ht⟩ := nextRecord_part hr hpos hlt
    have hreads := framed.reads_append hfits (.failed ht)
    rw [← hcontents, hwhole] at hreads
    cases (hreads.unique (framed.reads_all hrs)).2

theorem Kept.stop (h : b.Kept) : b.stop.Kept :=
  ⟨h.torn, h.fits, h.named, h.older, h.fresh, nofun⟩

variable {turn : TurnId}

section
variable (h : b.Kept)
include h

theorem Kept.openTurn (hcurrent : b.current = none) (hwhole : b.OpensWhole turn) :
    (b.openTurn turn).Kept := by
  unfold Bridge.openTurn
  cases hwal : b.wal turn with
  | some file =>
    refine ⟨h.torn, h.fits, h.named, h.older, h.fresh, ?_⟩
    intro log hlog
    cases hlog
    obtain ⟨rs, hcontents, hrs⟩ := hwhole hcurrent file hwal
    exact ⟨hwal, whole_of_torn (h.fits file) (h.torn file) hrs hcontents⟩
  | none =>
    obtain ⟨hcontents, hfinished⟩ := h.fresh b.created (Nat.le_refl _)
    refine ⟨h.torn, h.fits, ?_, ?_, ?_, ?_⟩
    · intro file hfile hpruned
      by_cases hnew : file = b.created
      · exact ⟨turn, .inl (by simp [hnew])⟩
      · have hlt : file < b.created := Nat.lt_of_le_of_ne (Nat.le_of_lt_succ hfile) hnew
        obtain ⟨turn', hturn'⟩ := h.named file hlt hpruned
        refine ⟨turn', hturn'.imp ?_ id⟩
        intro hold
        have hne : turn' ≠ turn := by
          intro hturn
          rw [hturn, hwal] at hold
          cases hold
        exact (update_of_ne hne ..).trans hold
    · intro turn' file hfile
      by_cases hturn : turn' = turn
      · subst hturn
        rcases hfile with hfile | hfile
        · obtain rfl : b.created = file := by simpa using hfile
          exact Nat.lt_succ_self _
        · exact Nat.lt_succ_of_lt (h.older turn' file (.inr hfile))
      · apply Nat.lt_succ_of_lt
        apply h.older turn' file
        simpa [hturn] using hfile
    · exact fun file hfile => h.fresh file (Nat.le_of_succ_le hfile)
    · intro log hlog
      cases hlog
      exact ⟨update_self .., by rw [hfinished]; exact hcontents⟩

theorem Kept.ensureOpen (hwhole : b.OpensWhole turn) : (b.ensureOpen turn).Kept := by
  unfold Bridge.ensureOpen
  cases hcurrent : b.current with
  | some log => exact h
  | none => exact h.openTurn hcurrent hwhole

theorem Kept.append {log : TurnLog} (hlog : b.current = some log) (r : Record)
    (submission : Option TurnId) : (b.append log r submission).Kept := by
  unfold Bridge.append
  by_cases hr : r.Fits
  · rw [if_pos hr]
    obtain ⟨hwal, hcontents⟩ := h.opened log hlog
    have holder := h.older log.turn log.file (.inl hwal)
    refine ⟨?_, ?_, h.named, h.older, ?_, ?_⟩
    · intro file
      by_cases hfile : file = log.file
      · subst hfile
        exact ⟨[], by simp [hcontents], .inl rfl⟩
      · simpa [Torn, hfile] using h.torn file
    · intro file r' hr'
      by_cases hfile : file = log.file
      · subst hfile
        rcases mem_append.mp (by simpa using hr' : r' ∈ b.finished log.file ++ [r]) with hr' | hr'
        · exact h.fits log.file r' hr'
        · rw [mem_singleton.mp hr']
          exact hr
      · exact h.fits file r' (by simpa [hfile] using hr')
    · intro file hfile
      have hne : file ≠ log.file := fun heq => absurd (heq ▸ holder) (Nat.not_lt.mpr hfile)
      simpa [hne] using h.fresh file hfile
    · intro log' hlog'
      obtain rfl : log = log' := by simpa [hlog] using hlog'
      exact ⟨hwal, by simp [hcontents]⟩
  · rw [if_neg hr]
    exact h

theorem Kept.appendPart {log : TurnLog} (hlog : b.current = some log) {r : Record}
    (hr : r.Fits) {n : ℕ} (hlt : n < r.encode.length) : (b.appendPart log r n).stop.Kept := by
  obtain ⟨hwal, hcontents⟩ := h.opened log hlog
  have holder := h.older log.turn log.file (.inl hwal)
  refine ⟨?_, h.fits, h.named, h.older, ?_, nofun⟩
  · intro file
    by_cases hfile : file = log.file
    · subst hfile
      refine ⟨r.encode.take n, by simp [Bridge.appendPart, Bridge.stop, hcontents], ?_⟩
      rcases Nat.eq_zero_or_pos n with rfl | hpos
      · exact .inl rfl
      · exact .inr ⟨r, hr, n, hpos, hlt, rfl⟩
    · simpa [Torn, Bridge.appendPart, Bridge.stop, hfile] using h.torn file
  · intro file hfile
    have hne : file ≠ log.file := fun heq => absurd (heq ▸ holder) (Nat.not_lt.mpr hfile)
    simpa [Bridge.appendPart, Bridge.stop, hne] using h.fresh file hfile

theorem Kept.record (hwhole : b.OpensWhole turn) (r : Record)
    (submission : Option TurnId) : (b.record turn r submission).Kept := by
  have hopen := h.ensureOpen hwhole
  unfold Bridge.record
  cases hcurrent : (b.ensureOpen turn).current with
  | none => simpa [hcurrent] using hopen
  | some log => simpa [hcurrent] using hopen.append hcurrent r submission

theorem Kept.recordPart (hwhole : b.OpensWhole turn) {r : Record} (hr : r.Fits) {n : ℕ}
    (hlt : n < r.encode.length) : (b.recordPart turn r n).stop.Kept := by
  have hopen := h.ensureOpen hwhole
  unfold Bridge.recordPart
  cases hcurrent : (b.ensureOpen turn).current with
  | none => simpa [hcurrent] using hopen.stop
  | some log => simpa [hcurrent] using hopen.appendPart hcurrent hr hlt

theorem Kept.completeTurn
    (hdone : ∀ log, b.current = some log → b.done log.turn = none) : b.completeTurn.Kept := by
  unfold Bridge.completeTurn
  cases hcurrent : b.current with
  | none => exact h
  | some log =>
    obtain ⟨hwal, hcontents⟩ := h.opened log hcurrent
    have hfree := hdone log hcurrent
    refine ⟨h.torn, h.fits, ?_, ?_, h.fresh, nofun⟩
    · intro file hfile hpruned
      obtain ⟨turn, hturn⟩ := h.named file hfile hpruned
      by_cases hself : turn = log.turn
      · subst hself
        rcases hturn with hturn | hturn
        · obtain rfl : log.file = file := Option.some.inj (hwal.symm.trans hturn)
          exact ⟨log.turn, .inr (update_self ..)⟩
        · rw [hfree] at hturn
          cases hturn
      · refine ⟨turn, hturn.imp ?_ ?_⟩
        · exact (update_of_ne hself ..).trans
        · exact (update_of_ne hself ..).trans
    · intro turn file hfile
      by_cases hself : turn = log.turn
      · subst hself
        rcases hfile with hfile | hfile
        · simp at hfile
        · obtain rfl : log.file = file := by simpa using hfile
          exact h.older log.turn log.file (.inl hwal)
      · exact h.older turn file (by simpa [hself] using hfile)

theorem Kept.start (gc : Finset TurnId) : (b.start gc).Kept := by
  refine ⟨h.torn, h.fits, ?_, ?_, h.fresh, nofun⟩
  · intro file hfile hpruned
    have hpruned' : file ∉ b.pruned ∧ ∀ turn ∈ gc, b.done turn ≠ some file := by
      simpa [Bridge.start, not_or] using hpruned
    obtain ⟨turn, hturn⟩ := h.named file hfile hpruned'.1
    refine ⟨turn, hturn.imp id ?_⟩
    intro hdone
    have hkept : turn ∉ gc := fun hgc => hpruned'.2 turn hgc hdone
    simp [Bridge.start, hkept, hdone]
  · intro turn file hfile
    apply h.older turn file
    refine hfile.imp id ?_
    intro hdone
    by_cases hgc : turn ∈ gc
    · simp [Bridge.start, hgc] at hdone
    · simpa [Bridge.start, hgc] using hdone

end

theorem openTurn_spec (b : Bridge) (turn : TurnId) :
    ∃ log, (b.openTurn turn).current = some log ∧ log.turn = turn := by
  unfold openTurn
  cases b.wal turn with
  | some file | none => exact ⟨_, rfl, rfl⟩

theorem ensureOpen_spec (b : Bridge) (turn : TurnId) :
    ∃ log, (b.ensureOpen turn).current = some log ∧
      log.turn = (b.current.map (·.turn)).getD turn := by
  unfold ensureOpen
  cases hcurrent : b.current with
  | some log => exact ⟨log, hcurrent, rfl⟩
  | none => exact openTurn_spec b turn

theorem record_spec (b : Bridge) (turn : TurnId) (r : Record) (submission : Option TurnId) :
    ∃ log, (b.ensureOpen turn).current = some log ∧
      b.record turn r submission = (b.ensureOpen turn).append log r submission ∧
      (b.record turn r submission).current = some log ∧
      log.turn = (b.current.map (·.turn)).getD turn := by
  obtain ⟨log, hcurrent, hturn⟩ := ensureOpen_spec b turn
  have hrecord : b.record turn r submission = (b.ensureOpen turn).append log r submission := by
    unfold record
    simp only [hcurrent]
  refine ⟨log, hcurrent, hrecord, ?_, hturn⟩
  rw [hrecord]
  unfold append
  by_cases hr : r.Fits
  · rw [if_pos hr]
    exact hcurrent
  · rw [if_neg hr]
    exact hcurrent

theorem done_record (b : Bridge) (turn : TurnId) (r : Record) (submission : Option TurnId) :
    (b.record turn r submission).done = b.done := by
  obtain ⟨log, -, hrecord, -⟩ := record_spec b turn r submission
  rw [hrecord]
  unfold append ensureOpen openTurn
  split <;> split <;> first | rfl | (split <;> rfl)

theorem logged_turnCompleted : logged turnCompleted = true := by decide

theorem Kept.notification {cbor : Cbor} {method paramsJson : Text} {tsUnixMs : ℕ}
    {received : Bool} (h : b.Kept) (hwhole : logged method = true → b.OpensWhole b.notifiedTurn)
    (hdone : method = turnCompleted → received = true → b.done b.completing = none) :
    (b.notification cbor method paramsJson tsUnixMs received).Kept := by
  unfold Bridge.notification
  by_cases hlogged : logged method = true
  · obtain ⟨log, -, -, hcurrent, hturn⟩ :=
      record_spec b b.notifiedTurn (serverNotification cbor method paramsJson tsUnixMs) none
    have hrecorded := h.record (hwhole hlogged)
      (serverNotification cbor method paramsJson tsUnixMs) none
    simp only [if_pos hlogged]
    split
    · exact hrecorded.stop
    · next hreceived =>
      split
      · next hmethod =>
        have hcompleted := hrecorded.completeTurn fun log' hlog' => by
          obtain rfl : log = log' := Option.some.inj (hcurrent.symm.trans hlog')
          rw [done_record, hturn]
          exact hdone hmethod (by simpa [hmethod] using hreceived)
        exact ⟨hcompleted.torn, hcompleted.fits, hcompleted.named, hcompleted.older,
          hcompleted.fresh, hcompleted.opened⟩
      · exact hrecorded
  · simp only [if_neg hlogged]
    split
    · exact h.stop
    · split
      · next hmethod => exact absurd (hmethod ▸ logged_turnCompleted) hlogged
      · exact h

theorem Kept.step {cbor : Cbor} (h : b.Kept) {action : BridgeAction} (hfresh : b.FreshNames action)
    (hstep : b.stepOption cbor action = some b') : b'.Kept := by
  cases action with
    simp only [stepOption, ite_none_left_eq_some, ite_none_right_eq_some, Option.some.injEq] at hstep
  | start gc =>
    obtain ⟨-, rfl⟩ := hstep
    exact h.start gc
  | prompt text tsUnixMs =>
    obtain ⟨-, rfl⟩ := hstep
    have hcounted : ({ b with submitCounter := b.submitCounter + 1 } : Bridge).Kept :=
      ⟨h.torn, h.fits, h.named, h.older, h.fresh, h.opened⟩
    have hrecorded := hcounted.record hfresh (userOp cbor text tsUnixMs) (some b.nextSubmission)
    exact ⟨hrecorded.torn, hrecorded.fits, hrecorded.named, hrecorded.older, hrecorded.fresh,
      hrecorded.opened⟩
  | notification method paramsJson tsUnixMs received =>
    obtain ⟨-, rfl⟩ := hstep
    exact h.notification hfresh.1 hfresh.2
  | exit =>
    obtain ⟨-, rfl⟩ := hstep
    exact h.stop
  | crashInPrompt text tsUnixMs written =>
    obtain ⟨⟨-, hr, hlt⟩, rfl⟩ := hstep
    exact h.recordPart hfresh hr hlt
  | crashInNotification method paramsJson tsUnixMs written =>
    obtain ⟨⟨-, -, hr, hlt⟩, rfl⟩ := hstep
    exact h.recordPart hfresh hr hlt

/-- Each record of a file that is not pruned is returned by replaying a file with a name. -/
def Recovers (b : Bridge) : Prop :=
  ∀ file, file ∉ b.pruned → ∀ r ∈ b.finished file,
    ∃ file', b.Named file' ∧ r ∈ carried (decodeRecords (b.contents file'))

theorem Kept.recovers (h : b.Kept) : b.Recovers := by
  intro file hpruned r hr
  have holder : file < b.created := by
    by_contra hnew
    rw [(h.fresh file (Nat.le_of_not_lt hnew)).2] at hr
    cases hr
  refine ⟨file, h.named file holder hpruned, ?_⟩
  rw [carried_of_torn (h.fits file) (h.torn file)]
  exact hr

variable {cbor : Cbor} {actions : List BridgeAction}

/-- In a run that uses no name again, every file reads as its finished records and keeps a
name until it is pruned. -/
theorem finished_recovered (hrun : actions.foldlM (step cbor) new = .ok b)
    (hfresh : Along (step cbor) FreshNames new actions) :
    b.Recovers ∧ (∀ file, file < b.created → file ∉ b.pruned → b.Named file) ∧
      ∀ file, carried (decodeRecords (b.contents file)) = b.finished file := by
  have hstep : ∀ u a v, u.Kept → FreshNames u a → step cbor u a = .ok v → v.Kept := by
    intro u a v hu ha hv
    unfold Bridge.step at hv
    cases hoption : u.stepOption cbor a with
    | none =>
      rw [hoption] at hv
      cases hv
    | some u' =>
      rw [hoption] at hv
      cases hv
      exact hu.step ha hoption
  have h : b.Kept := run_keeps_along hstep kept_new hfresh (prefix_refl actions) hrun
  exact ⟨h.recovers, h.named, fun file => carried_of_torn (h.fits file) (h.torn file)⟩

end Bridge

/-! ## Two runs of one turn each -/

def cborHead (major : UInt8) (n : ℕ) : List UInt8 :=
  if n < 24 then [32 * major + UInt8.ofNat n]
  else if n < 256 then (32 * major + 24) :: (toLe 1 n).reverse
  else if n < 256 ^ 2 then (32 * major + 25) :: (toLe 2 n).reverse
  else if n < 256 ^ 4 then (32 * major + 26) :: (toLe 4 n).reverse
  else (32 * major + 27) :: (toLe 8 n).reverse

def cborText (text : Text) : List UInt8 :=
  let bytes := text.flatMap String.utf8EncodeChar
  cborHead 3 bytes.length ++ bytes

/-- Payloads are maps from the names of the fields. -/
def ciborium : Cbor where
  walUserOp := fun prompt tsUnixMs =>
    cborHead 5 2 ++ (cborText "prompt".toList ++ cborText prompt ++
      (cborText "ts_unix_ms".toList ++ cborHead 0 tsUnixMs))
  walNotif := fun method paramsJson tsUnixMs =>
    cborHead 5 3 ++ (cborText "method".toList ++ cborText method ++
      (cborText "params_json".toList ++ cborText paramsJson ++
        (cborText "ts_unix_ms".toList ++ cborHead 0 tsUnixMs)))

def oneTurn (text : Text) : List BridgeAction :=
  [.start ∅, .prompt text 1, .notification turnCompleted "{}".toList 2 true]

theorem finished_recovered_oneTurn :
    ∃ b, (oneTurn "a".toList).foldlM (Bridge.step ciborium) Bridge.new = .ok b ∧
      b.finished 0 ≠ [] ∧ b.Recovers := by
  have hfresh : Along (Bridge.step ciborium) Bridge.FreshNames Bridge.new (oneTurn "a".toList) := by
    refine ⟨trivial, fun t ht => ?_⟩
    cases ht
    refine ⟨(fun _ file hfile => nomatch hfile), fun t ht => ?_⟩
    cases ht
    exact ⟨⟨(nofun), fun _ _ => rfl⟩, fun t ht => trivial⟩
  have hrun : ∃ b, (oneTurn "a".toList).foldlM (Bridge.step ciborium) Bridge.new = .ok b ∧
      b.finished 0 ≠ [] := ⟨_, rfl, nofun⟩
  obtain ⟨b, hrun, hfinished⟩ := hrun
  exact ⟨b, hrun, hfinished, (Bridge.finished_recovered hrun hfresh).1⟩

/-- The second run numbers its prompt from one again, and its log takes the name of the
first one's. -/
theorem second_run_replaces_log :
    ∃ b, (oneTurn "a".toList ++ BridgeAction.exit :: oneTurn "b".toList).foldlM
      (Bridge.step ciborium) Bridge.new = .ok b ∧ ¬b.Recovers := by
  let lost := Bridge.userOp ciborium "a".toList 1
  let kept := [Bridge.userOp ciborium "b".toList 1,
    Bridge.serverNotification ciborium turnCompleted "{}".toList 2]
  have hrun : ∃ b, (oneTurn "a".toList ++ BridgeAction.exit :: oneTurn "b".toList).foldlM
      (Bridge.step ciborium) Bridge.new = .ok b ∧ b.pruned = ∅ ∧ lost ∈ b.finished 0 ∧
        b.finished 1 = kept ∧ b.Torn 1 ∧ ∀ file, b.Named file → file = 1 := by
    refine ⟨_, rfl, rfl, mem_cons_self, rfl, ⟨[], rfl, .inl rfl⟩, ?_⟩
    intro file ⟨turn, hturn⟩
    let s1 := TurnId.submission 1
    -- both runs open the log of `s1` and complete it
    change Function.update (Function.update (Function.update (Function.update (fun _ => none)
        s1 (some 0)) s1 none) s1 (some 1)) s1 none turn = some file ∨
      Function.update (fun turn => if turn ∈ (∅ : Finset TurnId) then none else
        Function.update (fun turn => if turn ∈ (∅ : Finset TurnId) then none else none)
          s1 (some 0) turn) s1 (some 1) turn = some file at hturn
    by_cases h : turn = s1
    · simpa [h, eq_comm] using hturn
    · simp [h] at hturn
  obtain ⟨b, hrun, hpruned, hlost, hkept, htorn, hnamed⟩ := hrun
  refine ⟨b, hrun, fun hrecovers => ?_⟩
  obtain ⟨file, hfile, hcarried⟩ := hrecovers 0 (by simp [hpruned]) lost hlost
  have hfits : ∀ r ∈ b.finished 1, r.Fits := by
    rw [hkept]
    decide
  rw [hnamed file hfile, Bridge.carried_of_torn hfits htorn, hkept] at hcarried
  exact absurd hcarried (by decide)

end Codex.Desktop
