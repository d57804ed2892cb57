import Codex.Foundation.FrameStream
import Codex.JsonRpcFraming.Framing

/-!
# Framing round trips

What one framing writes is read back as the same messages. A header block that is cut
anywhere is refused, as is a body, so a cut stream gives the messages whose frames are
complete and then an error, or the end when no frame is cut.
-/

namespace Codex.JsonRpcFraming

open Foundation List

variable {line : Text}

section
variable {JsonError : Type}

/-! ## Lines -/

theorem takeLine_of_line {line : List UInt8} (h : 10 ∉ line) (rest : Stream) :
    takeLine (line ++ 10 :: rest) = (line ++ [10], rest) := by
  induction line with
  | nil => rfl
  | cons b line ih =>
    rw [mem_cons, not_or] at h
    rw [cons_append, takeLine, if_neg (Ne.symm h.1), ih h.2]
    rfl

theorem no_feed (hascii : Ascii line) (h : '\n' ∉ line) : 10 ∉ utf8 line :=
  fun hmem => h ((hascii.mem_utf8 (c := '\n') (by decide)).mp hmem)

theorem takeLine_of_last {line : List UInt8} (h : 10 ∉ line) : takeLine line = (line, []) := by
  induction line with
  | nil => rfl
  | cons b line ih =>
    rw [mem_cons, not_or] at h
    rw [takeLine, if_neg (Ne.symm h.1), ih h.2]

variable (JsonError) in
theorem readLine_nil :
    (readLine : Eff Stream (FramingError JsonError) (ℕ × Text)) [] = (.ok (0, []), []) := by
  have htext := fromUtf8_utf8 []
  rw [utf8_nil] at htext
  simp only [readLine, takeLine, htext, length_nil]

variable (JsonError) in
theorem readLine_of_line (h : 10 ∉ utf8 line) (rest : Stream) :
    (readLine : Eff Stream (FramingError JsonError) (ℕ × Text)) (utf8 line ++ 10 :: rest) =
      (.ok ((utf8 line).length + 1, line ++ ['\n']), rest) := by
  have htext := fromUtf8_utf8 (line ++ ['\n'])
  have hfeed : utf8 ['\n'] = [10] := by decide
  rw [utf8_append, hfeed] at htext
  simp only [readLine, takeLine_of_line h, htext, length_append, length_singleton]

variable (JsonError) in
theorem readLine_of_last (h : 10 ∉ utf8 line) :
    (readLine : Eff Stream (FramingError JsonError) (ℕ × Text)) (utf8 line) =
      (.ok ((utf8 line).length, line), []) := by
  simp only [readLine, takeLine_of_last h, fromUtf8_utf8]

theorem trim_append_feed (s : Text) : trim (s ++ ['\n']) = trim s := by
  have hfeed : isWhitespace '\n' = true := by decide
  unfold trim trimStart trimEnd
  rw [dropWhile_append]
  split
  · rename_i hempty
    rw [List.isEmpty_iff.mp hempty, dropWhile_cons_of_pos hfeed]
    rfl
  · rw [rdropWhile_concat_pos _ _ _ hfeed]

end

section
variable {Value JsonError : Type} (env : FramingEnv Value JsonError)

/-- What the JSON library writes for a value, without white space around it, and that it
reads this back as the value. -/
structure SerializesTo (value : Value) (text : Text) : Prop where
  written : env.toVec value = .ok (utf8 text)
  fromSlice : env.fromSlice (utf8 text) = .ok value
  fromStr : env.fromStr text = .ok value
  trimmed : trim text = text
  nonempty : text ≠ []

variable {env}

def written (write : JsonRpcMessage Value → Eff Stream (FramingError JsonError) Unit)
    (msg : JsonRpcMessage Value) : Stream := (write msg []).2

def writeMessages (write : JsonRpcMessage Value → Eff Stream (FramingError JsonError) Unit) :
    List (JsonRpcMessage Value) → Eff Stream (FramingError JsonError) Unit
  | [] => pure ()
  | msg :: msgs => do
    write msg
    writeMessages write msgs

theorem ndjson_read_nil : NdjsonReader.readMessage env [] = (.ok none, []) := by
  rw [NdjsonReader.readMessage]
  split
  · rename_i h
    rw [readLine_nil] at h
    cases h
  · rename_i h
    rw [readLine_nil] at h
    cases h
    rw [if_pos rfl]

theorem ndjson_read_line {value : Value} {text : Text} (h : SerializesTo env value text)
    (hfeed : 10 ∉ utf8 text) (rest : Stream) :
    NdjsonReader.readMessage env (utf8 text ++ 10 :: rest) = (.ok (some ⟨value⟩), rest) := by
  have htrim : trim (text ++ ['\n']) = text := (trim_append_feed text).trans h.trimmed
  rw [NdjsonReader.readMessage]
  split
  · rename_i hline
    rw [readLine_of_line JsonError hfeed] at hline
    cases hline
  · rename_i hline
    rw [readLine_of_line JsonError hfeed] at hline
    cases hline
    rw [if_neg (Nat.succ_ne_zero _)]
    simp only [htrim, if_neg h.nonempty, h.fromStr, parsed]

theorem ndjson_write {msg : JsonRpcMessage Value} {text : Text}
    (h : SerializesTo env msg.value text) (sink : Stream) :
    NdjsonWriter.writeMessage env msg sink = (.ok (), sink ++ (utf8 text ++ [10])) := by
  simp only [NdjsonWriter.writeMessage, h.written, writeAll]

def IsLine (env : FramingEnv Value JsonError) (msg : JsonRpcMessage Value) : Prop :=
  ∃ text, SerializesTo env msg.value text ∧ 10 ∉ utf8 text

theorem ndjson_framed :
    Framed (NdjsonReader.readMessage env) (written (NdjsonWriter.writeMessage env))
      (IsLine env) := by
  constructor
  · exact ⟨[], ndjson_read_nil⟩
  · rintro msg ⟨text, htext, hfeed⟩ rest
    unfold written
    rw [ndjson_write htext, nil_append, List.append_assoc, singleton_append]
    exact ndjson_read_line htext hfeed rest

/-! ## Header lines -/

def headerLine (len : ℕ) : Text := "Content-Length: ".toList ++ decimal len ++ ['\r']

theorem ascii_headerLine (len : ℕ) : Ascii (headerLine len) := by
  have hname : Ascii "Content-Length: ".toList := ascii_of_all rfl
  have hreturn : Ascii ['\r'] := ascii_of_all rfl
  exact (hname.append (ascii_decimal len)).append hreturn

theorem feed_not_mem_headerLine (len : ℕ) : '\n' ∉ headerLine len := by
  intro hmem
  rcases mem_append.mp hmem with hmem | hmem
  · rcases mem_append.mp hmem with hmem | hmem
    · exact absurd hmem (by decide)
    · exact absurd (isDigit_of_decimal hmem) (by decide)
  · exact absurd hmem (by decide)

theorem trim_space_decimal (len : ℕ) : trim (' ' :: decimal len) = decimal len := by
  have hdigits : ∀ c ∈ decimal len, isWhitespace c = false :=
    fun c hc => not_whitespace_of_isDigit (isDigit_of_decimal hc)
  have hself : trim (decimal len) = decimal len :=
    trim_eq_self (fun c hc => hdigits c (mem_of_mem_head? hc))
      (fun c hc => hdigits c (mem_of_getLast? hc))
  exact hself

theorem headerStep_headerLine {len : ℕ} (hlen : len < UInt64.size) (contentLength : Option ℕ) :
    headerStep env contentLength (headerLine len ++ ['\n']) = .header (some len) := by
  have hsuffix : headerLine len ++ ['\n'] =
      ("Content-Length: ".toList ++ decimal len) ++ ['\r', '\n'] := by
    exact List.append_assoc _ _ _
  have hline : stripLineEnd (headerLine len ++ ['\n']) =
      "Content-Length: ".toList ++ decimal len := by
    rw [hsuffix, stripLineEnd, if_pos (suffix_append _ _), length_append]
    exact take_left
  have hsplit : splitOnce ':' ("Content-Length: ".toList ++ decimal len) =
      some ("Content-Length".toList, ' ' :: decimal len) :=
    splitOnce_append (s := "Content-Length".toList) (by decide) _
  have hname : eqIgnoreAsciiCase "Content-Length".toList CONTENT_LENGTH = true := by decide
  unfold headerStep
  simp only [hline, hsplit, hname, trim_space_decimal, parseUsize_decimal hlen, if_true]
  rfl

theorem headerStep_blank (contentLength : Option ℕ) :
    headerStep env contentLength ['\r', '\n'] = .blank := rfl

theorem headerStep_ne_blank (hne : line ≠ []) (hfeed : '\n' ∉ line) (contentLength : Option ℕ) :
    headerStep env contentLength line ≠ .blank := by
  have hnot : ∀ {s : Text}, '\n' ∈ s → ¬ s <:+ line := fun hs hsuffix =>
    hfeed (hsuffix.subset hs)
  have hline : stripLineEnd line = line := by
    unfold stripLineEnd
    rw [if_neg (hnot (by decide)), if_neg (hnot (by decide))]
  unfold headerStep
  simp only [hline, if_neg hne]
  split
  · exact nofun
  · split
    · split <;> exact nofun
    · exact nofun

/-! ## Header blocks -/

section
variable {stream rest : Stream} {n : ℕ} {line : Text} {contentLength : Option ℕ}

theorem readHeaders_nil (saw : Bool) : readHeaders env contentLength saw [] =
      if saw then
        (.error (.invalidContentLength "unexpected EOF inside header block".toList), [])
      else (.ok none, []) := by
  rw [readHeaders]
  split
  · rename_i h
    rw [readLine_nil] at h
    cases h
  · rename_i h
    rw [readLine_nil] at h
    cases h
    rw [if_pos rfl]

variable (hline : (readLine : Eff Stream (FramingError JsonError) (ℕ × Text)) stream =
  (.ok (n + 1, line), rest))
include hline

theorem readHeaders_line (saw : Bool) : (headerStep env contentLength line = .blank →
        readHeaders env contentLength saw stream = (.ok (some contentLength), rest)) ∧
      (∀ length, headerStep env contentLength line = .header length →
        readHeaders env contentLength saw stream = readHeaders env length true rest) ∧
      ∀ message, headerStep env contentLength line = .malformed message →
        readHeaders env contentLength saw stream =
          (.error (.invalidContentLength message), rest) := by
  rw [readHeaders]
  split
  · rename_i h
    rw [hline] at h
    cases h
  · rename_i h
    rw [hline] at h
    cases h
    rw [if_neg (Nat.succ_ne_zero n)]
    refine ⟨fun hstep => ?_, fun length hstep => ?_, fun message hstep => ?_⟩
    · simp only [hstep]
    · simp only [hstep]
    · simp only [hstep]

end

theorem readHeaders_cut (hascii : Ascii line) (hne : line ≠ []) (hfeed : '\n' ∉ line)
    (contentLength : Option ℕ) (saw : Bool) :
    ∃ e t, readHeaders env contentLength saw (utf8 line) = (.error e, t) := by
  have hbytes := no_feed hascii hfeed
  obtain ⟨n, hn⟩ : ∃ n, (utf8 line).length = n + 1 := by
    refine Nat.exists_eq_succ_of_ne_zero fun h => hne ?_
    exact utf8_eq_nil.mp (eq_nil_of_length_eq_zero h)
  have hline := readLine_of_last JsonError hbytes
  rw [hn] at hline
  cases hstep : headerStep env contentLength line with
  | blank => exact absurd hstep (headerStep_ne_blank hne hfeed contentLength)
  | header length =>
    rw [(readHeaders_line hline saw).2.1 length hstep, readHeaders_nil]
    exact ⟨_, _, rfl⟩
  | malformed message =>
    rw [(readHeaders_line hline saw).2.2 message hstep]
    exact ⟨_, _, rfl⟩

theorem readHeaders_headerLine {len : ℕ} (hlen : len < UInt64.size) (contentLength : Option ℕ)
    (saw : Bool) (rest : Stream) :
    readHeaders env contentLength saw (utf8 (headerLine len) ++ 10 :: rest) =
      readHeaders env (some len) true rest := by
  have hbytes := no_feed (ascii_headerLine len) (feed_not_mem_headerLine len)
  exact (readHeaders_line (readLine_of_line JsonError hbytes rest) saw).2.1 _
    (headerStep_headerLine hlen contentLength)

theorem readHeaders_emptyLine (contentLength : Option ℕ) (saw : Bool) (rest : Stream) :
    readHeaders env contentLength saw (13 :: 10 :: rest) = (.ok (some contentLength), rest) := by
  have hreturn : utf8 ['\r'] = [13] := by decide
  have hbytes : 10 ∉ utf8 ['\r'] := by decide
  have hline := readLine_of_line JsonError hbytes rest
  exact (readHeaders_line hline saw).1 (headerStep_blank contentLength)

/-! ## Framed bodies -/

section
variable {maxSize : UInt64} {stream rest : Stream}

theorem lsp_read_of_headers {contentLength : Option ℕ}
    (h : readHeaders env none false stream = (.ok (some contentLength), rest)) :
    LspFramedReader.readMessage env maxSize stream = readBody env maxSize contentLength rest :=
  Eff.bind_run_ok h

theorem lsp_read_of_error {e : FramingError JsonError}
    (h : readHeaders env none false stream = (.error e, rest)) :
    LspFramedReader.readMessage env maxSize stream = (.error e, rest) :=
  Eff.bind_run_error h

theorem lsp_read_nil : LspFramedReader.readMessage env maxSize [] = (.ok none, []) := by
  have h : readHeaders env none false [] = (.ok none, []) := by
    rw [readHeaders_nil]
    rfl
  exact Eff.bind_run_ok h

theorem readBody_of_body {value : Value} {body : List UInt8} (hsize : body.length ≤ maxSize.toNat)
    (hbody : env.fromSlice body = .ok value) :
    readBody env maxSize (some body.length) (body ++ rest) = (.ok (some ⟨value⟩), rest) := by
  have hexact : (readExact body.length : Eff Stream (FramingError JsonError) (List UInt8))
      (body ++ rest) = (.ok body, rest) := by
    unfold readExact
    rw [if_pos (by simp), take_left, drop_left]
  unfold readBody
  simp only [if_neg (Nat.not_lt.mpr hsize)]
  rw [Eff.bind_run_ok hexact, parseBody, hbody, parsed]

theorem readBody_of_short {len : ℕ} (hsize : len ≤ maxSize.toNat) (hshort : stream.length < len) :
    readBody env maxSize (some len) stream = (.error (.io .unexpectedEof), []) := by
  have hexact : (readExact len : Eff Stream (FramingError JsonError) (List UInt8)) stream =
      (.error (.io .unexpectedEof), []) := by
    unfold readExact
    rw [if_neg (Nat.not_le.mpr hshort)]
  unfold readBody
  simp only [if_neg (Nat.not_lt.mpr hsize)]
  exact Eff.bind_run_error hexact

end

section
variable {maxSize : UInt64}

def lspFrame (body : List UInt8) : Stream :=
  utf8 (headerLine body.length) ++ 10 :: 13 :: 10 :: body

theorem lsp_write {msg : JsonRpcMessage Value} {text : Text}
    (h : SerializesTo env msg.value text) (sink : Stream) :
    LspFramedWriter.writeMessage env msg sink = (.ok (), sink ++ lspFrame (utf8 text)) := by
  have hend : utf8 "\n\r\n".toList = [10, 13, 10] := by decide
  have hheader : "Content-Length: ".toList ++ decimal (utf8 text).length ++
      "\r\n\r\n".toList = headerLine (utf8 text).length ++ "\n\r\n".toList := by
    exact (List.append_assoc _ ['\r'] _).symm
  simp only [LspFramedWriter.writeMessage, h.written]
  rw [hheader, utf8_append, hend]
  unfold lspFrame
  show (Except.ok (), _) = _
  simp

def Fits (env : FramingEnv Value JsonError) (maxSize : UInt64) (msg : JsonRpcMessage Value) :
    Prop :=
  ∃ text, SerializesTo env msg.value text ∧ (utf8 text).length ≤ maxSize.toNat

theorem lsp_framed :
    Framed (LspFramedReader.readMessage env maxSize) (written (LspFramedWriter.writeMessage env))
      (Fits env maxSize) := by
  constructor
  · exact ⟨[], lsp_read_nil⟩
  · rintro msg ⟨text, htext, hsize⟩ rest
    have hlen : (utf8 text).length < UInt64.size := Nat.lt_of_le_of_lt hsize maxSize.toNat_lt_size
    have hheaders : readHeaders env none false (lspFrame (utf8 text) ++ rest) =
        (.ok (some (some (utf8 text).length)), utf8 text ++ rest) := by
      unfold lspFrame
      rw [List.append_assoc, cons_append, cons_append, cons_append,
        readHeaders_headerLine hlen, readHeaders_emptyLine]
    unfold written
    rw [lsp_write htext, nil_append, lsp_read_of_headers hheaders]
    exact readBody_of_body hsize htext.fromSlice

theorem lspFrame_part {body : List UInt8} (hsize : body.length ≤ maxSize.toNat) {n : ℕ}
    (hpos : 0 < n) (hn : n < (lspFrame body).length) :
    ∃ e t, LspFramedReader.readMessage env maxSize ((lspFrame body).take n) = (.error e, t) := by
  have hlen : body.length < UInt64.size := Nat.lt_of_le_of_lt hsize maxSize.toNat_lt_size
  have hascii := ascii_headerLine body.length
  have hfeed := feed_not_mem_headerLine body.length
  have hrefused : ∀ s : Stream, (∃ e t, readHeaders env none false s = (.error e, t)) →
      ∃ e t, LspFramedReader.readMessage env maxSize s = (.error e, t) := by
    rintro s ⟨e, t, h⟩
    exact ⟨e, t, lsp_read_of_error h⟩
  unfold lspFrame at hn ⊢
  rw [length_append] at hn
  by_cases hle : n ≤ (utf8 (headerLine body.length)).length
  · -- inside the header line
    rw [take_append_of_le_length hle, hascii.take_utf8]
    refine hrefused _ (readHeaders_cut (hascii.take n) ?_ ?_ none false)
    · rw [hascii.length] at hle
      intro hnil
      rcases take_eq_nil_iff.mp hnil with hzero | hnil
      · omega
      · rw [hnil, length_nil] at hle
        omega
    · exact fun hmem => hfeed (mem_of_mem_take hmem)
  · obtain ⟨k, rfl⟩ : ∃ k, n = (utf8 (headerLine body.length)).length + (k + 1) :=
      ⟨n - (utf8 (headerLine body.length)).length - 1, by omega⟩
    rw [take_length_add_append, take_succ_cons]
    rcases k with _ | _ | k
    · -- behind the header line
      refine hrefused _ ?_
      rw [take_zero, readHeaders_headerLine hlen, readHeaders_nil, if_pos rfl]
      exact ⟨_, _, rfl⟩
    · -- inside the empty line
      have hreturn : utf8 ['\r'] = [13] := by decide
      refine hrefused _ ?_
      rw [take_succ_cons, take_zero, readHeaders_headerLine hlen, ← hreturn]
      exact readHeaders_cut (ascii_of_all rfl) (by decide) (by decide) _ _
    · -- in front of the last byte of the body
      have hshort : (body.take k).length < body.length := by
        simp only [length_cons, length_take] at hn ⊢
        omega
      have hheaders : readHeaders env none false (utf8 (headerLine body.length) ++
          10 :: List.take (k + 2) (13 :: 10 :: body)) =
          (.ok (some (some body.length)), body.take k) := by
        rw [readHeaders_headerLine hlen, take_succ_cons, take_succ_cons, readHeaders_emptyLine]
      rw [lsp_read_of_headers hheaders, readBody_of_short hsize hshort]
      exact ⟨_, _, rfl⟩

theorem lsp_refuses_parts : RefusesParts (LspFramedReader.readMessage env maxSize)
      (written (LspFramedWriter.writeMessage env)) (Fits env maxSize) := by
  rintro msg ⟨text, htext, hsize⟩ n hpos hn
  unfold written at hn ⊢
  rw [lsp_write htext, nil_append] at hn ⊢
  exact lspFrame_part hsize hpos hn

end

/-! ## Sequences of messages -/

theorem writeMessages_frames {write : JsonRpcMessage Value → Eff Stream (FramingError JsonError) Unit}
    {msgs : List (JsonRpcMessage Value)}
    (hwrite : ∀ msg ∈ msgs, ∀ sink, write msg sink = (.ok (), sink ++ written write msg))
    (sink : Stream) :
    writeMessages write msgs sink = (.ok (), sink ++ msgs.flatMap (written write)) := by
  induction msgs generalizing sink with
  | nil =>
    rw [flatMap_nil, append_nil]
    rfl
  | cons msg msgs ih =>
    have hrest := ih (fun m hm => hwrite m (mem_cons_of_mem _ hm))
    rw [writeMessages, Eff.bind_run_ok (hwrite msg mem_cons_self sink), hrest,
      flatMap_cons, List.append_assoc]

/-- Written messages are read back in both framings, and a stream of framed bodies that is
cut anywhere gives the messages in front of the cut, then the end between two frames and
an error inside one. -/
theorem framing_round_trip {maxSize : UInt64} {msgs : List (JsonRpcMessage Value)}
    (hmsgs : ∀ msg ∈ msgs, ∃ text, SerializesTo env msg.value text ∧ 10 ∉ utf8 text ∧
      (utf8 text).length ≤ maxSize.toNat) :
    (∃ stream, writeMessages (NdjsonWriter.writeMessage env) msgs [] = (.ok (), stream) ∧
        ∀ msgs' r, Reads (NdjsonReader.readMessage env) stream msgs' r ↔
          msgs' = msgs ∧ r = .ok ()) ∧
      ∃ stream, writeMessages (LspFramedWriter.writeMessage env) msgs [] = (.ok (), stream) ∧
        (∀ msgs' r, Reads (LspFramedReader.readMessage env maxSize) stream msgs' r ↔
          msgs' = msgs ∧ r = .ok ()) ∧
        ∀ n, n < stream.length →
          (OnBoundary (written (LspFramedWriter.writeMessage env)) msgs n →
            Reads (LspFramedReader.readMessage env maxSize) (stream.take n)
              (complete (written (LspFramedWriter.writeMessage env)) msgs n) (.ok ())) ∧
          (¬ OnBoundary (written (LspFramedWriter.writeMessage env)) msgs n →
            ∃ e, Reads (LspFramedReader.readMessage env maxSize) (stream.take n)
              (complete (written (LspFramedWriter.writeMessage env)) msgs n) (.error e)) := by
  have hline : ∀ msg ∈ msgs, IsLine env msg := by
    intro msg hmsg
    obtain ⟨text, htext, hfeed, -⟩ := hmsgs msg hmsg
    exact ⟨text, htext, hfeed⟩
  have hfits : ∀ msg ∈ msgs, Fits env maxSize msg := by
    intro msg hmsg
    obtain ⟨text, htext, -, hsize⟩ := hmsgs msg hmsg
    exact ⟨text, htext, hsize⟩
  have hndjson : ∀ msg ∈ msgs, ∀ sink, NdjsonWriter.writeMessage env msg sink =
      (.ok (), sink ++ written (NdjsonWriter.writeMessage env) msg) := by
    intro msg hmsg sink
    obtain ⟨text, htext, -⟩ := hmsgs msg hmsg
    rw [written, ndjson_write htext, ndjson_write htext, nil_append]
  have hlsp : ∀ msg ∈ msgs, ∀ sink, LspFramedWriter.writeMessage env msg sink =
      (.ok (), sink ++ written (LspFramedWriter.writeMessage env) msg) := by
    intro msg hmsg sink
    obtain ⟨text, htext, -⟩ := hmsgs msg hmsg
    rw [written, lsp_write htext, lsp_write htext, nil_append]
  constructor
  · exact ⟨_, writeMessages_frames hndjson [], (ndjson_framed.reads_all hline).iff⟩
  · refine ⟨_, writeMessages_frames hlsp [], (lsp_framed.reads_all hfits).iff, fun n hn => ?_⟩
    exact lsp_framed.reads_take lsp_refuses_parts hfits (Nat.le_of_lt hn)

end

def ping : Text :=
  "\x7b\"jsonrpc\":\"2.0\",\"method\":\"ping\"\x7d".toList

def pingEnv : FramingEnv Unit Unit where
  toVec _ := .ok (utf8 ping)
  fromStr text := if text = ping then .ok () else .error ()
  fromSlice bytes := if bytes = utf8 ping then .ok () else .error ()
  debug text := text

theorem ascii_ping : Ascii ping := ascii_of_all (by decide)

theorem ping_serializes : SerializesTo pingEnv () ping := by
  refine ⟨rfl, ?_, ?_, by decide, by decide⟩
  · simp only [pingEnv, if_true]
  · simp only [pingEnv, if_true]

theorem ping_size : (utf8 ping).length ≤ DEFAULT_MAX_MESSAGE_SIZE.toNat := by
  decide

theorem ping_fits : Fits pingEnv DEFAULT_MAX_MESSAGE_SIZE ⟨()⟩ := ⟨ping, ping_serializes, ping_size⟩

theorem ping_round_trip : ∃ stream,
      writeMessages (LspFramedWriter.writeMessage pingEnv) [⟨()⟩, ⟨()⟩] [] = (.ok (), stream) ∧
        Reads (LspFramedReader.readMessage pingEnv DEFAULT_MAX_MESSAGE_SIZE) stream [⟨()⟩, ⟨()⟩]
          (.ok ()) := by
  have hfeed := no_feed ascii_ping (by decide)
  obtain ⟨-, stream, hwrite, hread, -⟩ := @framing_round_trip Unit Unit pingEnv
    DEFAULT_MAX_MESSAGE_SIZE [⟨()⟩, ⟨()⟩] fun _ _ => ⟨ping, ping_serializes, hfeed, ping_size⟩
  exact ⟨stream, hwrite, (hread _ _).mpr ⟨rfl, rfl⟩⟩

end Codex.JsonRpcFraming
