import Codex.Foundation.FrameStream
import Codex.Foundation.Decimal

/-!
# The turn log, whole or damaged

A record is its length, its kind, its payload and a checksum. The length counts the kind
and the payload.

A log of whole records is read back, and a log cut anywhere gives the records that are
complete. Behind intact records the reader reports what it has, whatever follows, but for a
record of an unknown kind.
-/

namespace Codex.Desktop

open Foundation List

/-! ## The turn log -/

inductive RecordKind where
  | turnStarted
  | serverNotification
  | userOp
  | approvalDecision
  | turnCompleted
  | sentinel
deriving DecidableEq

namespace RecordKind

def toU8 : RecordKind → UInt8
  | .turnStarted => 0x01
  | .serverNotification => 0x02
  | .userOp => 0x03
  | .approvalDecision => 0x04
  | .turnCompleted => 0x05
  | .sentinel => 0x7F

def fromU8 (b : UInt8) : Option RecordKind :=
  if b = 0x01 then some .turnStarted
  else if b = 0x02 then some .serverNotification
  else if b = 0x03 then some .userOp
  else if b = 0x04 then some .approvalDecision
  else if b = 0x05 then some .turnCompleted
  else if b = 0x7F then some .sentinel
  else none

theorem fromU8_toU8 (kind : RecordKind) : fromU8 kind.toU8 = some kind := by
  cases kind <;> rfl

theorem toU8_of_fromU8 {b : UInt8} {kind : RecordKind} (h : fromU8 b = some kind) :
    kind.toU8 = b := by
  unfold fromU8 at h
  split_ifs at h with h1 h2 h3 h4 h5 h6 <;> cases h
  · exact h1.symm
  · exact h2.symm
  · exact h3.symm
  · exact h4.symm
  · exact h5.symm
  · exact h6.symm

end RecordKind

structure Record where
  kind : RecordKind
  payload : List UInt8
deriving DecidableEq

def updateCrcBit (crc : UInt32) : UInt32 :=
  let mask := 0 - (crc &&& 1)
  (crc >>> 1) ^^^ (0x82F63B78 &&& mask)

def updateCrc (crc : UInt32) (byte : UInt8) : UInt32 :=
  Nat.repeat updateCrcBit 8 (crc ^^^ byte.toUInt32)

def computeCrc32c (kind : RecordKind) (payload : List UInt8) : UInt32 :=
  payload.foldl updateCrc (updateCrc 0xFFFFFFFF kind.toU8) ^^^ 0xFFFFFFFF

def Record.length (r : Record) : ℕ := 1 + r.payload.length

def Record.encode (r : Record) : List UInt8 :=
  toLe 4 r.length ++ r.kind.toU8 :: (r.payload ++ toLe 4 (computeCrc32c r.kind r.payload).toNat)

def Record.Fits (r : Record) : Prop := r.length < 256 ^ 4

instance fitsDecidable (r : Record) : Decidable r.Fits := Nat.decLt ..

def appendRaw (file : List UInt8) (r : Record) : Option (List UInt8) :=
  if r.Fits then some (file ++ r.encode) else none

/-! ## Reading -/

inductive WalReadError where
  | truncated (recordsRecovered : ℕ) (records : List Record)
  | invalidKind (b : UInt8)
  | crcMismatch (index : ℕ) (records : List Record)
deriving DecidableEq

inductive ReadFault where
  | truncated
  | invalidKind (b : UInt8)
  | crcMismatch
deriving DecidableEq

def ReadFault.report (out : List Record) : ReadFault → WalReadError
  | .truncated => .truncated out.length out
  | .invalidKind b => .invalidKind b
  | .crcMismatch => .crcMismatch out.length out

def nextRecord (buf : List UInt8) : Except ReadFault (Option Record) × List UInt8 :=
  if buf = [] then (.ok none, [])
  else if buf.length < 4 then (.error .truncated, buf)
  else
    let len := fromLe (buf.take 4)
    let buf := buf.drop 4
    if len = 0 ∨ buf.length < len + 4 then (.error .truncated, buf)
    else
      match RecordKind.fromU8 (buf.headD 0) with
      | none => (.error (.invalidKind (buf.headD 0)), buf)
      | some kind =>
        let payload := (buf.take len).drop 1
        let storedCrc := fromLe ((buf.drop len).take 4)
        if storedCrc ≠ (computeCrc32c kind payload).toNat then
          (.error .crcMismatch, buf.drop (len + 4))
        else (.ok (some ⟨kind, payload⟩), buf.drop (len + 4))

variable {buf : List UInt8} {r : Record} {b : UInt8} {rs : List Record}

theorem nextRecord_shorter {rest : List UInt8} (h : nextRecord buf = (.ok (some r), rest)) :
    rest.length < buf.length := by
  unfold nextRecord at h
  split at h
  · cases h
  · split at h
    · cases h
    · simp only [] at h
      split at h
      · cases h
      · split at h
        · cases h
        · split at h
          · cases h
          · cases h
            simp only [length_drop]
            omega

def decodeRecordsFrom (out : List Record) (buf : List UInt8) : Except WalReadError (List Record) :=
  match _h : nextRecord buf with
  | (.ok none, _) => .ok out
  | (.ok (some r), rest) => decodeRecordsFrom (out ++ [r]) rest
  | (.error fault, _) => .error (fault.report out)
termination_by buf.length
decreasing_by exact nextRecord_shorter _h

def decodeRecords (buf : List UInt8) : Except WalReadError (List Record) :=
  decodeRecordsFrom [] buf

/-! ## One record -/

theorem nextRecord_frame {header payload crc rest : List UInt8} (hheader : header.length = 4)
    (hlen : fromLe header = 1 + payload.length) (hcrc : crc.length = 4) :
    nextRecord (header ++ b :: (payload ++ (crc ++ rest))) =
      match RecordKind.fromU8 b with
      | none => (.error (.invalidKind b), b :: (payload ++ (crc ++ rest)))
      | some kind =>
        if fromLe crc ≠ (computeCrc32c kind payload).toNat then (.error .crcMismatch, rest)
        else (.ok (some ⟨kind, payload⟩), rest) := by
  have hne : header ++ b :: (payload ++ (crc ++ rest)) ≠ [] := by simp
  have htake : (header ++ b :: (payload ++ (crc ++ rest))).take 4 = header := by
    rw [← hheader, take_left]
  have hdrop : (header ++ b :: (payload ++ (crc ++ rest))).drop 4 =
      b :: (payload ++ (crc ++ rest)) := by
    rw [← hheader, drop_left]
  have hpayload : ((b :: (payload ++ (crc ++ rest))).take (1 + payload.length)).drop 1 =
      payload := by
    rw [Nat.add_comm, take_succ_cons, drop_succ_cons, drop_zero, take_left]
  have hstored : ((b :: (payload ++ (crc ++ rest))).drop (1 + payload.length)).take 4 = crc := by
    rw [Nat.add_comm, drop_succ_cons, drop_left, ← hcrc, take_left]
  have hrest : (b :: (payload ++ (crc ++ rest))).drop (1 + payload.length + 4) = rest := by
    rw [Nat.add_comm 1, Nat.add_right_comm, drop_succ_cons, ← drop_drop,
      drop_left, ← hcrc, drop_left]
  have hlong : ¬(header ++ b :: (payload ++ (crc ++ rest))).length < 4 := by
    simp only [length_append]
    omega
  have henough : ¬(1 + payload.length = 0 ∨
      (b :: (payload ++ (crc ++ rest))).length < 1 + payload.length + 4) := by
    simp only [length_cons, length_append]
    omega
  unfold nextRecord
  rw [if_neg hne, if_neg hlong]
  simp only [htake, hdrop, hlen]
  rw [if_neg henough]
  cases hkind : RecordKind.fromU8 b <;>
    simp only [headD_cons, hkind, hpayload, hstored, hrest]

theorem length_encode (r : Record) : r.encode.length = r.length + 8 := by
  simp only [Record.encode, Record.length, length_append, length_cons, length_toLe]
  omega

theorem encode_append (r : Record) (rest : List UInt8) :
    r.encode ++ rest = toLe 4 r.length ++ r.kind.toU8 ::
      (r.payload ++ (toLe 4 (computeCrc32c r.kind r.payload).toNat ++ rest)) := by
  simp [Record.encode]

theorem crc_fits (crc : UInt32) : crc.toNat < 256 ^ 4 := by
  have hlt := crc.toNat_lt
  exact hlt

theorem nextRecord_encode (h : r.Fits) (rest : List UInt8) :
    nextRecord (r.encode ++ rest) = (.ok (some r), rest) := by
  have hlength : fromLe (toLe 4 r.length) = 1 + r.payload.length := fromLe_toLe h
  rw [encode_append, nextRecord_frame (length_toLe ..) hlength (length_toLe ..),
    RecordKind.fromU8_toU8]
  simp only [fromLe_toLe (crc_fits _), ne_eq, not_true_eq_false, if_false]

theorem nextRecord_short (hne : buf ≠ []) (h : buf.length < 4) :
    nextRecord buf = (.error .truncated, buf) := by
  unfold nextRecord
  rw [if_neg hne, if_pos h]

theorem nextRecord_incomplete (hne : buf ≠ []) (h : ¬buf.length < 4)
    (hshort : fromLe (buf.take 4) = 0 ∨ (buf.drop 4).length < fromLe (buf.take 4) + 4) :
    nextRecord buf = (.error .truncated, buf.drop 4) := by
  unfold nextRecord
  rw [if_neg hne, if_neg h]
  rw [if_pos hshort]

theorem nextRecord_part (h : r.Fits) {n : ℕ} (hpos : 0 < n) (hlt : n < r.encode.length) :
    ∃ t, nextRecord (r.encode.take n) = (.error .truncated, t) := by
  rw [length_encode] at hlt
  have hlength : (r.encode.take n).length = n := by
    rw [length_take, length_encode]
    omega
  have hne : r.encode.take n ≠ [] := by
    intro hnil
    rw [hnil] at hlength
    simp at hlength
    omega
  by_cases hheader : n < 4
  · exact ⟨_, nextRecord_short hne (by omega)⟩
  · have hfield : (r.encode.take n).take 4 = toLe 4 r.length := by
      rw [take_take, Nat.min_eq_left (by omega), Record.encode,
        take_left' (length_toLe ..)]
    refine ⟨_, nextRecord_incomplete hne (by omega) (.inr ?_)⟩
    rw [hfield, fromLe_toLe h, length_drop]
    omega

theorem frame_of_enough (h : ¬buf.length < 4)
    (henough : ¬(fromLe (buf.take 4) = 0 ∨ (buf.drop 4).length < fromLe (buf.take 4) + 4)) :
    ∃ header b payload crc rest, buf = header ++ b :: (payload ++ (crc ++ rest)) ∧
      header.length = 4 ∧ fromLe header = 1 + payload.length ∧ crc.length = 4 := by
  obtain ⟨hpos, hlong⟩ := not_or.mp henough
  have hheader : (buf.take 4).length = 4 := by
    rw [length_take]
    omega
  cases hbody : buf.drop 4 with
  | nil =>
    rw [hbody] at hlong
    simp at hlong
  | cons b body =>
    rw [hbody, length_cons] at hlong
    have hpayload : (body.take (fromLe (buf.take 4) - 1)).length = fromLe (buf.take 4) - 1 := by
      rw [length_take]
      omega
    refine ⟨buf.take 4, b, body.take (fromLe (buf.take 4) - 1),
      (body.drop (fromLe (buf.take 4) - 1)).take 4, (body.drop (fromLe (buf.take 4) - 1)).drop 4,
      ?_, hheader, ?_, ?_⟩
    · rw [take_append_drop, take_append_drop, ← hbody, take_append_drop]
    · rw [hpayload]
      omega
    · rw [length_take, length_drop]
      omega

theorem toLe_of_fromLe {bytes : List UInt8} {n : ℕ} (hlength : bytes.length = 4)
    (h : fromLe bytes = n) : bytes = toLe 4 n := by
  rw [← h, ← hlength, toLe_fromLe]

theorem nextRecord_exact (buf rest : List UInt8) (r : Record)
    (h : nextRecord buf = (.ok (some r), rest)) : r.Fits ∧ buf = r.encode ++ rest := by
  by_cases hne : buf = []
  · rw [hne] at h
    cases h
  by_cases hshort : buf.length < 4
  · rw [nextRecord_short hne hshort] at h
    cases h
  by_cases hincomplete :
    fromLe (buf.take 4) = 0 ∨ (buf.drop 4).length < fromLe (buf.take 4) + 4
  · rw [nextRecord_incomplete hne hshort hincomplete] at h
    cases h
  obtain ⟨header, b, payload, crc, tail, rfl, hheader, hlen, hcrc⟩ :=
    frame_of_enough hshort hincomplete
  rw [nextRecord_frame hheader hlen hcrc] at h
  cases hkind : RecordKind.fromU8 b with
  | none =>
    rw [hkind] at h
    cases h
  | some kind =>
    rw [hkind] at h
    by_cases hsum : fromLe crc = (computeCrc32c kind payload).toNat
    · simp only [hsum, ne_eq, not_true_eq_false, if_false, Prod.mk.injEq, Except.ok.injEq,
        Option.some.injEq] at h
      obtain ⟨rfl, rfl⟩ := h
      have hfield : header = toLe 4 (Record.length ⟨kind, payload⟩) := toLe_of_fromLe hheader hlen
      refine ⟨?_, ?_⟩
      · have hlt := fromLe_lt header
        rwa [hlen, hheader] at hlt
      · rw [encode_append, ← hfield, ← toLe_of_fromLe hcrc hsum,
          RecordKind.toU8_of_fromU8 hkind]
    · simp only [hsum, ne_eq, not_false_eq_true, if_true] at h
      cases h

/-! ## Whole buffers -/

theorem framed : Framed nextRecord Record.encode Record.Fits where
  atEnd := ⟨[], rfl⟩
  takes := fun _ h rest => nextRecord_encode h rest

theorem refusesParts :
    RefusesPartsAs nextRecord Record.encode Record.Fits (· = .truncated) := by
  intro r h n hpos hlt
  obtain ⟨t, ht⟩ := nextRecord_part h hpos hlt
  exact ⟨_, t, ht, rfl⟩

def decoded (out : List Record) : Except ReadFault Unit → Except WalReadError (List Record)
  | .ok _ => .ok out
  | .error fault => .error (fault.report out)

theorem decodeRecordsFrom_of_reads {r : Except ReadFault Unit} (h : Reads nextRecord buf rs r)
    (out : List Record) : decodeRecordsFrom out buf = decoded (out ++ rs) r := by
  induction h generalizing out with
  | ended h =>
    rw [decodeRecordsFrom.eq_def]
    split
    next h' => rw [append_nil]; rfl
    next h' => rw [h] at h'; cases h'
    next h' => rw [h] at h'; cases h'
  | failed h =>
    rw [decodeRecordsFrom.eq_def]
    split
    next h' => rw [h] at h'; cases h'
    next h' => rw [h] at h'; cases h'
    next h' =>
      rw [h] at h'
      cases h'
      rw [append_nil]
      rfl
  | message h hrest ih =>
    rw [decodeRecordsFrom.eq_def]
    split
    next h' => rw [h] at h'; cases h'
    next h' =>
      rw [h] at h'
      cases h'
      rw [ih, List.append_assoc]
      rfl
    next h' => rw [h] at h'; cases h'

theorem decodeRecords_of_reads {r : Except ReadFault Unit} (h : Reads nextRecord buf rs r) :
    decodeRecords buf = decoded rs r :=
  decodeRecordsFrom_of_reads h []

theorem exists_reads (buf : List UInt8) : ∃ rs r, Reads nextRecord buf rs r :=
  Reads.exists (fun _ _ _ h => nextRecord_shorter h) buf

def appendAll : List UInt8 → List Record → Option (List UInt8)
  | file, [] => some file
  | file, r :: rs => (appendRaw file r).bind fun file => appendAll file rs

theorem appendAll_eq_some {file bytes : List UInt8} : appendAll file rs = some bytes ↔
      (∀ r ∈ rs, r.Fits) ∧ bytes = file ++ rs.flatMap Record.encode := by
  induction rs generalizing file with
  | nil => simp [appendAll, eq_comm]
  | cons r rs ih =>
    by_cases hr : r.Fits
    · simp [appendAll, appendRaw, hr, ih]
    · simp [appendAll, appendRaw, hr]

/-- A log is read back as it was written, and a part of it gives the records that lie
wholly inside. -/
theorem cut_log_recovered {rs : List Record} {bytes : List UInt8} (h : appendAll [] rs = some bytes) :
    decodeRecords bytes = .ok rs ∧
      ∀ n ≤ bytes.length,
        (OnBoundary Record.encode rs n →
          decodeRecords (bytes.take n) = .ok (complete Record.encode rs n)) ∧
        (¬OnBoundary Record.encode rs n →
          decodeRecords (bytes.take n) =
            .error (.truncated (complete Record.encode rs n).length
              (complete Record.encode rs n))) := by
  obtain ⟨hfits, hbytes⟩ := appendAll_eq_some.mp h
  subst hbytes
  refine ⟨decodeRecords_of_reads (framed.reads_all hfits), fun n hn => ?_⟩
  obtain ⟨hon, hoff⟩ := framed.reads_take_as refusesParts hfits hn
  constructor
  · exact fun hb => decodeRecords_of_reads (hon hb)
  · intro hb
    obtain ⟨fault, hreads, rfl⟩ := hoff hb
    exact decodeRecords_of_reads hreads

/-! ## Logs that were damaged -/

def carried : Except WalReadError (List Record) → List Record
  | .ok records => records
  | .error (.truncated _ records) => records
  | .error (.invalidKind _) => []
  | .error (.crcMismatch _ records) => records

def UnknownKindFollows (bytes : List UInt8) : Prop :=
  ∃ rs : List Record, (∀ r ∈ rs, r.Fits) ∧ ∃ header b body,
    bytes = rs.flatMap Record.encode ++ (header ++ b :: body) ∧ header.length = 4 ∧
      0 < fromLe header ∧ fromLe header + 4 ≤ (b :: body).length ∧ RecordKind.fromU8 b = none

theorem nextRecord_invalidKind {t : List UInt8}
    (h : nextRecord buf = (.error (.invalidKind b), t)) :
    ∃ header body, buf = header ++ b :: body ∧ header.length = 4 ∧ 0 < fromLe header ∧
      fromLe header + 4 ≤ (b :: body).length ∧ RecordKind.fromU8 b = none := by
  by_cases hne : buf = []
  · rw [hne] at h
    cases h
  by_cases hshort : buf.length < 4
  · rw [nextRecord_short hne hshort] at h
    cases h
  by_cases hincomplete :
    fromLe (buf.take 4) = 0 ∨ (buf.drop 4).length < fromLe (buf.take 4) + 4
  · rw [nextRecord_incomplete hne hshort hincomplete] at h
    cases h
  obtain ⟨header, b', payload, crc, tail, rfl, hheader, hlen, hcrc⟩ :=
    frame_of_enough hshort hincomplete
  rw [nextRecord_frame hheader hlen hcrc] at h
  cases hkind : RecordKind.fromU8 b' with
  | none =>
    rw [hkind] at h
    cases h
    refine ⟨header, _, rfl, hheader, by omega, ?_, hkind⟩
    simp only [length_cons, length_append]
    omega
  | some kind =>
    rw [hkind] at h
    by_cases hsum : fromLe crc = (computeCrc32c kind payload).toNat
    · simp [hsum] at h
    · simp [hsum] at h

theorem nextRecord_unknown {header body : List UInt8} (hheader : header.length = 4)
    (hpos : 0 < fromLe header) (hlong : fromLe header + 4 ≤ (b :: body).length)
    (hkind : RecordKind.fromU8 b = none) :
    ∃ t, nextRecord (header ++ b :: body) = (.error (.invalidKind b), t) := by
  have htake : (header ++ b :: body).take 4 = header := take_left' hheader
  have hdrop : (header ++ b :: body).drop 4 = b :: body := drop_left' hheader
  have hshort : ¬(header ++ b :: body).length < 4 := by
    rw [length_append]
    omega
  have henough : ¬(fromLe ((header ++ b :: body).take 4) = 0 ∨
      ((header ++ b :: body).drop 4).length < fromLe ((header ++ b :: body).take 4) + 4) := by
    rw [htake, hdrop]
    omega
  obtain ⟨header', b', payload, crc, rest, hsplit, hheader', hlen, hcrc⟩ :=
    frame_of_enough hshort henough
  obtain ⟨rfl, hbody⟩ := append_inj hsplit (hheader.trans hheader'.symm)
  cases hbody
  rw [nextRecord_frame hheader hlen hcrc, hkind]
  exact ⟨_, rfl⟩

/-- The reader loses the intact records in front of it exactly where a whole frame of an
unknown kind follows. -/
theorem carried_intact_iff {rs : List Record} (hfits : ∀ r ∈ rs, r.Fits) (rest : List UInt8) :
    rs <+: carried (decodeRecords (rs.flatMap Record.encode ++ rest)) ↔
      rs = [] ∨ ¬UnknownKindFollows rest := by
  obtain ⟨more, r, hreads⟩ := exists_reads rest
  rw [decodeRecords_of_reads (framed.reads_append hfits hreads)]
  by_cases hunknown : UnknownKindFollows rest
  · obtain ⟨rs', hfits', header, b, body, rfl, hheader, hpos, hlong, hkind⟩ := hunknown
    obtain ⟨t, ht⟩ := nextRecord_unknown hheader hpos hlong hkind
    have hends := framed.reads_append hfits' (.failed ht)
    obtain ⟨-, rfl⟩ := hreads.unique hends
    have hunknown : UnknownKindFollows (rs'.flatMap Record.encode ++ (header ++ b :: body)) :=
      ⟨rs', hfits', header, b, body, rfl, hheader, hpos, hlong, hkind⟩
    simp [decoded, ReadFault.report, carried, hunknown]
  · have hcarried : carried (decoded (rs ++ more) r) = rs ++ more := by
      cases r with
      | ok => rfl
      | error fault =>
        cases fault with
        | truncated | crcMismatch => rfl
        | invalidKind b =>
          exfalso
          obtain ⟨hmore, t, hrest, hstop⟩ := hreads.frames nextRecord_exact
          obtain ⟨u, hu⟩ := hstop _ rfl
          obtain ⟨header, body, rfl, hheader, hpos, hlong, hkind⟩ := nextRecord_invalidKind hu
          exact hunknown ⟨more, hmore, header, b, body, hrest, hheader, hpos, hlong, hkind⟩
    rw [hcarried]
    simp [hunknown]

/-- A prompt, and behind it nine bytes in which only the kind is wrong. -/
def prompt : Record := ⟨.userOp, [7]⟩

def unknownKind : List UInt8 := [1, 0, 0, 0, 9, 0, 0, 0, 0]

theorem unknown_kind_loses_prompt :
    decodeRecords ([prompt].flatMap Record.encode ++ unknownKind) = .error (.invalidKind 9) ∧
      ¬[prompt] <+: carried (decodeRecords ([prompt].flatMap Record.encode ++ unknownKind)) := by
  have hstops : nextRecord unknownKind = (.error (.invalidKind 9), [9, 0, 0, 0, 0]) := by decide
  have hfits : ∀ r ∈ [prompt], r.Fits := by decide
  have hlost := decodeRecords_of_reads (framed.reads_append hfits (.failed hstops))
  refine ⟨hlost, ?_⟩
  rw [hlost]
  simp [decoded, ReadFault.report, carried]

theorem cut_log_recovered_prompt :
    decodeRecords (prompt.encode.take 5) = .error (.truncated 0 []) := by
  have hwritten : appendAll [] [prompt] = some prompt.encode := by decide
  have hcut : ¬OnBoundary Record.encode [prompt] 5 := by
    unfold OnBoundary
    decide
  exact ((cut_log_recovered hwritten).2 5 (by decide)).2 hcut

theorem carried_intact_prompt :
    [prompt] <+: carried (decodeRecords ([prompt].flatMap Record.encode ++ [1, 0])) := by
  refine (carried_intact_iff (by decide) [1, 0]).mpr (.inr ?_)
  intro h
  obtain ⟨rs, -, header, b, body, hbytes, hheader, -⟩ := h
  have hlength := congrArg List.length hbytes
  simp at hlength
  omega

end Codex.Desktop
