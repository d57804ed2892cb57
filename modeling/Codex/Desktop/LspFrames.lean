import Codex.JsonRpcFraming.RoundTrip

/-!
# Frames of language servers

The supervisor of language servers has a framing of its own, next to the one all JSON-RPC
transports share. It takes the header block byte by byte up to the empty line and looks for
two spellings of the header name, where the other reads line by line and ignores case. On
streams that either of them wrote they agree, cut anywhere; on a header block by another
writer they do where the name has one of the two spellings (`lsp_framings_agree`).
-/

namespace Codex.Desktop

open Foundation JsonRpcFraming List

inductive LspFrameError (JsonError : Type) where
  | eofInHeader
  | nonUtf8Header
  | notANumber
  | missingContentLength
  | eofInBody
  | nonUtf8Body
  | json (error : JsonError)
deriving DecidableEq

section
variable {Value JsonError : Type}

/-! ## Reading -/

def readHeader : List UInt8 → Stream →
    Except (LspFrameError JsonError) (Option (List UInt8)) × Stream
  | header, [] => if header = [] then (.ok none, []) else (.error .eofInHeader, [])
  | header, b :: rest =>
    if [13, 10, 13, 10] <:+ header ++ [b] then (.ok (some (header ++ [b])), rest)
    else readHeader (header ++ [b]) rest

def splitCrlf : Text → List Text
  | [] => [[]]
  | '\r' :: '\n' :: s => [] :: splitCrlf s
  | c :: s =>
    match splitCrlf s with
    | line :: lines => (c :: line) :: lines
    | [] => [[c]]

def contentLengthStep (contentLength : Option ℕ) (line : Text) :
    Except (LspFrameError JsonError) (Option ℕ) :=
  match (stripPrefix "Content-Length:".toList line).orElse fun _ =>
      stripPrefix "content-length:".toList line with
  | some rest =>
    match parseUsize (trim rest) with
    | some n => .ok (some n)
    | none => .error .notANumber
  | none => .ok contentLength

def headerLength (header : List UInt8) : Except (LspFrameError JsonError) ℕ :=
  match fromUtf8 header with
  | none => .error .nonUtf8Header
  | some headerText => do
    match ← (splitCrlf headerText).foldlM contentLengthStep none with
    | some len => .ok len
    | none => .error .missingContentLength

def readHeaderLength : Eff Stream (LspFrameError JsonError) (Option ℕ) := fun stream =>
  match readHeader [] stream with
  | (.error e, rest) => (.error e, rest)
  | (.ok none, rest) => (.ok none, rest)
  | (.ok (some header), rest) => ((headerLength header).map some, rest)

def readLspBody (len : ℕ) : Eff Stream (LspFrameError JsonError) (Option Text) := fun stream =>
  if len ≤ stream.length then
    match fromUtf8 (stream.take len) with
    | some body => (.ok (some body), stream.drop len)
    | none => (.error .nonUtf8Body, stream.drop len)
  else (.error .eofInBody, [])

def readLspFrame : Eff Stream (LspFrameError JsonError) (Option Text) := do
  match ← readHeaderLength with
  | none => pure none
  | some len => readLspBody len

/-- A frame and its body parsed, as the callers of `read_lsp_frame` do it. -/
def readLspMessage (env : FramingEnv Value JsonError) :
    Eff Stream (LspFrameError JsonError) (Option (JsonRpcMessage Value)) := do
  match ← readLspFrame with
  | none => pure none
  | some text =>
    match env.fromStr text with
    | .ok value => pure (some ⟨value⟩)
    | .error e => Eff.fail (.json e)

def writeAllBytes (bytes : List UInt8) : Eff Stream (LspFrameError JsonError) Unit := fun sink =>
  (.ok (), sink ++ bytes)

def writeLspFrame (env : FramingEnv Value JsonError) (value : Value) :
    Eff Stream (LspFrameError JsonError) Unit :=
  match env.toVec value with
  | .ok body => do
    writeAllBytes (utf8 ("Content-Length: ".toList ++ decimal body.length ++ "\r\n\r\n".toList))
    writeAllBytes body
  | .error e => Eff.fail (.json e)

inductive FrameWriter where
  | lspd
  | framed

def writeMix (env : FramingEnv Value JsonError) : List (FrameWriter × JsonRpcMessage Value) →
    Eff Stream (LspFrameError JsonError ⊕ FramingError JsonError) Unit
  | [] => pure ()
  | (.lspd, msg) :: writes => do
    (writeLspFrame env msg.value).mapError .inl
    writeMix env writes
  | (.framed, msg) :: writes => do
    (LspFramedWriter.writeMessage env msg).mapError .inr
    writeMix env writes

/-! ## The end of a header block -/

theorem ends_empty_line {header : List UInt8} {b : UInt8} :
    [13, 10, 13, 10] <:+ header ++ [b] ↔ b = 10 ∧ [13, 10, 13] <:+ header := by
  rw [suffix_concat_iff]
  constructor
  · rintro (h | ⟨t, ht, hsuffix⟩)
    · cases h
    · obtain ⟨rfl, hb⟩ := append_inj' (show [13, 10, 13] ++ [10] = t ++ [b] from ht) rfl
      cases hb
      exact ⟨rfl, hsuffix⟩
  · rintro ⟨rfl, hsuffix⟩
    exact .inr ⟨[13, 10, 13], rfl, hsuffix⟩

variable (JsonError) in
theorem readHeader_pass {line : List UInt8} (hline : 10 ∉ line) (header : List UInt8)
    (rest : Stream) : (readHeader header (line ++ rest) : Except (LspFrameError JsonError) _ × _) =
      readHeader (header ++ line) rest := by
  induction line generalizing header with
  | nil => rw [nil_append, append_nil]
  | cons b line ih =>
    rw [mem_cons, not_or] at hline
    rw [cons_append, readHeader, if_neg fun h => hline.1 (ends_empty_line.mp h).1.symm,
      ih hline.2, List.append_assoc]
    rfl

variable (JsonError) in
theorem readHeader_cut {line : List UInt8} (hline : 10 ∉ line) {header : List UInt8}
    (hne : header ++ line ≠ []) :
    (readHeader header line : Except (LspFrameError JsonError) _ × _) =
      (.error .eofInHeader, []) := by
  have h := readHeader_pass JsonError hline header []
  rw [append_nil] at h
  rw [h, readHeader, if_neg hne]

variable (JsonError) in
theorem readHeader_line {line : List UInt8} (hline : 10 ∉ line) (hne : line ≠ [])
    (header : List UInt8) (rest : Stream) :
    (readHeader header (line ++ 13 :: 10 :: rest) : Except (LspFrameError JsonError) _ × _) =
      readHeader (header ++ line ++ [13, 10]) rest := by
  have hreturn : 10 ∉ [(13 : UInt8)] := by decide
  have hpass := readHeader_pass JsonError hreturn (header ++ line) (10 :: rest)
  rw [singleton_append] at hpass
  rw [readHeader_pass JsonError hline, hpass, readHeader, if_neg]
  · simp
  · intro h
    rcases suffix_concat_iff.mp (ends_empty_line.mp h).2 with h | ⟨t, ht, hsuffix⟩
    · cases h
    · obtain ⟨rfl, -⟩ := append_inj' (show [13, 10] ++ [13] = t ++ [13] from ht) rfl
      obtain ⟨front, hfront⟩ := hsuffix
      have hlast := congrArg List.getLast? hfront
      rw [List.getLast?_append_of_ne_nil _ hne] at hlast
      exact hline (mem_of_getLast? (hlast.symm.trans (by simp)))

variable (JsonError) in
theorem readHeader_end {header : List UInt8} (hend : [13, 10] <:+ header) (rest : Stream) :
    (readHeader header (13 :: 10 :: rest) : Except (LspFrameError JsonError) _ × _) =
      (.ok (some (header ++ [13, 10])), rest) := by
  have hreturn : 10 ∉ [(13 : UInt8)] := by decide
  have hpass := readHeader_pass JsonError hreturn header (10 :: rest)
  rw [singleton_append] at hpass
  rw [hpass, readHeader, if_pos]
  · simp
  · obtain ⟨front, rfl⟩ := hend
    exact ⟨front, by simp⟩

/-! ## Header blocks -/

structure HeaderField where
  name : Text
  value : Text

def HeaderField.line (field : HeaderField) : Text := field.name ++ ':' :: field.value

/-- The name has no colon, and the line no character of a line end. -/
structure HeaderField.WellFormed (field : HeaderField) : Prop where
  colon : ':' ∉ field.name
  noReturn : '\r' ∉ field.line
  noFeed : '\n' ∉ field.line

def headerLines (fields : List HeaderField) : Text :=
  fields.flatMap fun field => field.line ++ ['\r', '\n']

theorem utf8_headerLines_cons (field : HeaderField) (fields : List HeaderField) :
    utf8 (headerLines (field :: fields)) =
      utf8 field.line ++ 13 :: 10 :: utf8 (headerLines fields) := by
  have hcrlf : utf8 ['\r', '\n'] = [13, 10] := by decide
  rw [headerLines, flatMap_cons, utf8_append, utf8_append, hcrlf, List.append_assoc]
  rfl

def Spelled (name : Text) : Prop :=
  name = "Content-Length".toList ∨ name = "content-length".toList

instance decidableSpelled (name : Text) : Decidable (Spelled name) :=
  inferInstanceAs (Decidable (_ ∨ _))

theorem Spelled.eqIgnoreCase {name : Text} (h : Spelled name) :
    eqIgnoreAsciiCase name CONTENT_LENGTH = true := by
  rcases h with rfl | rfl
  · decide
  · decide

theorem line_ne_nil (field : HeaderField) : utf8 field.line ≠ [] := by
  intro h
  have hnil := utf8_eq_nil.mp h
  simp [HeaderField.line] at hnil

section
variable {field : HeaderField} (hfield : field.WellFormed)
include hfield

theorem feed_not_mem_line : 10 ∉ utf8 field.line :=
  fun h => hfield.noFeed (@mem_of_mem_utf8 _ '\n' (by decide) h)

theorem stripPrefix_line (name : Text) (hname : ':' ∉ name) :
    stripPrefix (name ++ [':']) field.line = if field.name = name then some field.value else none := by
  by_cases h : field.name = name
  · rw [if_pos h, HeaderField.line, h]
    exact stripPrefix_eq_some.mpr (by simp)
  · rw [if_neg h]
    cases hstrip : stripPrefix (name ++ [':']) field.line with
    | none => rfl
    | some rest =>
      have hline := stripPrefix_eq_some.mp hstrip
      rw [HeaderField.line, List.append_assoc] at hline
      have hsplit := splitOnce_append hfield.colon field.value
      rw [hline] at hsplit
      have hsplit' := splitOnce_append hname rest
      rw [singleton_append] at hsplit
      rw [hsplit', Option.some.injEq, Prod.mk.injEq] at hsplit
      exact absurd hsplit.1.symm h

variable (JsonError) in
theorem contentLengthStep_line (contentLength : Option ℕ) :
    (contentLengthStep contentLength field.line : Except (LspFrameError JsonError) _) =
      if Spelled field.name then
        match parseUsize (trim field.value) with
        | some n => .ok (some n)
        | none => .error .notANumber
      else .ok contentLength := by
  have hupper := stripPrefix_line hfield "Content-Length".toList (by decide)
  have hlower := stripPrefix_line hfield "content-length".toList (by decide)
  have hupper' : "Content-Length".toList ++ [':'] = "Content-Length:".toList := by decide
  have hlower' : "content-length".toList ++ [':'] = "content-length:".toList := by decide
  rw [hupper'] at hupper
  rw [hlower'] at hlower
  unfold contentLengthStep
  rw [hupper, hlower]
  by_cases h : field.name = "Content-Length".toList
  · rw [if_pos h, if_pos (show Spelled field.name from .inl h)]
    rfl
  · rw [if_neg h]
    by_cases h' : field.name = "content-length".toList
    · rw [if_pos h', if_pos (show Spelled field.name from .inr h')]
      rfl
    · rw [if_neg h', if_neg (show ¬ Spelled field.name from not_or.mpr ⟨h, h'⟩)]
      rfl

theorem headerStep_line (env : FramingEnv Value JsonError) (contentLength : Option ℕ) :
    headerStep env contentLength (field.line ++ ['\r'] ++ ['\n']) =
      if eqIgnoreAsciiCase field.name CONTENT_LENGTH then
        match parseUsize (trim field.value) with
        | some parsed => .header (some parsed)
        | none => .malformed ("non-numeric Content-Length: ".toList ++ env.debug (trim field.value))
      else .header contentLength := by
  have hstrip : stripLineEnd (field.line ++ ['\r'] ++ ['\n']) = field.line := by
    rw [List.append_assoc, singleton_append, stripLineEnd, if_pos (suffix_append _ _),
      length_append]
    exact take_left
  have hne : field.line ≠ [] := by simp [HeaderField.line]
  have hsplit : splitOnce ':' field.line = some (field.name, field.value) :=
    splitOnce_append hfield.colon field.value
  unfold headerStep
  rw [hstrip, if_neg hne, hsplit] <;> rfl

end

section
variable {fields : List HeaderField} (hfields : ∀ field ∈ fields, field.WellFormed)
include hfields

variable (JsonError) in
theorem readHeader_lines {header : List UInt8} (hstart : [13, 10] <:+ header ∨ fields ≠ [])
    (rest : Stream) : (readHeader header (utf8 (headerLines fields) ++ 13 :: 10 :: rest) :
        Except (LspFrameError JsonError) _ × _) =
      (.ok (some (header ++ utf8 (headerLines fields) ++ [13, 10])), rest) := by
  induction fields generalizing header with
  | nil =>
    rw [headerLines, flatMap_nil, utf8_nil, nil_append, append_nil]
    exact readHeader_end JsonError (hstart.resolve_right fun h => h rfl) rest
  | cons field fields ih =>
    have hfield := hfields field mem_cons_self
    rw [utf8_headerLines_cons, List.append_assoc, cons_append, cons_append,
      readHeader_line JsonError (feed_not_mem_line hfield) (line_ne_nil field),
      ih (fun f hf => hfields f (mem_cons_of_mem _ hf)) (.inl (suffix_append _ [13, 10]))]
    simp

omit hfields in
theorem splitCrlf_line {line : Text} (hline : '\r' ∉ line) (s : Text) :
    splitCrlf (line ++ '\r' :: '\n' :: s) = line :: splitCrlf s := by
  induction line with
  | nil => rw [nil_append, splitCrlf]
  | cons c line ih =>
    rw [mem_cons, not_or] at hline
    have hstep : ∀ s, splitCrlf (c :: s) =
        match splitCrlf s with
        | line :: lines => (c :: line) :: lines
        | [] => [[c]] := by
      intro s
      rw [splitCrlf]
      rintro s' hc
      exact absurd hc.symm hline.1
    rw [cons_append, hstep, ih hline.2]

theorem splitCrlf_lines :
    splitCrlf (headerLines fields ++ ['\r', '\n']) = fields.map HeaderField.line ++ [[], []] := by
  induction fields with
  | nil => rfl
  | cons field fields ih =>
    rw [headerLines, flatMap_cons, List.append_assoc, List.append_assoc, cons_append,
      cons_append, nil_append, splitCrlf_line (hfields field mem_cons_self).noReturn]
    exact congrArg (field.line :: ·) (ih fun f hf => hfields f (mem_cons_of_mem _ hf))

end

section
variable {before after : List HeaderField} {field : HeaderField} {len : ℕ}

/-- A block of header lines with one length among them. -/
structure AnnouncesLength (before : List HeaderField) (field : HeaderField)
    (after : List HeaderField) (len : ℕ) : Prop where
  wellFormed : ∀ f ∈ before ++ field :: after, f.WellFormed
  name : eqIgnoreAsciiCase field.name CONTENT_LENGTH = true
  value : parseUsize (trim field.value) = some len
  others : ∀ f ∈ before ++ after, eqIgnoreAsciiCase f.name CONTENT_LENGTH = false

def headerBlock (fields : List HeaderField) : Stream := utf8 (headerLines fields ++ ['\r', '\n'])

theorem foldlM_keeps {σ α ε : Type} {f : σ → α → Except ε σ} {s : σ} {l : List α}
    (h : ∀ a ∈ l, f s a = .ok s) : l.foldlM f s = .ok s := by
  induction l with
  | nil => rfl
  | cons a l ih =>
    rw [foldlM_cons, h a mem_cons_self]
    exact ih fun b hb => h b (mem_cons_of_mem _ hb)

variable (JsonError) in
theorem contentLengthStep_other {f : HeaderField} (hf : f.WellFormed)
    (hname : eqIgnoreAsciiCase f.name CONTENT_LENGTH = false) (contentLength : Option ℕ) :
    (contentLengthStep contentLength f.line : Except (LspFrameError JsonError) _) =
      .ok contentLength := by
  rw [contentLengthStep_line JsonError hf, if_neg]
  intro hspelled
  rw [hspelled.eqIgnoreCase] at hname
  cases hname

theorem headerBlock_append (fields : List HeaderField) (rest : Stream) :
    headerBlock fields ++ rest = utf8 (headerLines fields) ++ 13 :: 10 :: rest := by
  have hcrlf : utf8 ['\r', '\n'] = [13, 10] := by decide
  rw [headerBlock, utf8_append, hcrlf, List.append_assoc]
  rfl

theorem readHeaders_field {env : FramingEnv Value JsonError} {f : HeaderField}
    (hf : f.WellFormed) {contentLength length : Option ℕ}
    (hstep : headerStep env contentLength (f.line ++ ['\r'] ++ ['\n']) = .header length)
    (saw : Bool) (rest : Stream) :
    readHeaders env contentLength saw (utf8 f.line ++ 13 :: 10 :: rest) =
      readHeaders env length true rest := by
  have hreturn : utf8 ['\r'] = [13] := by decide
  have hbytes : 10 ∉ utf8 (f.line ++ ['\r']) := by
    rw [utf8_append, hreturn, mem_append]
    exact not_or.mpr ⟨feed_not_mem_line hf, by decide⟩
  have hline := readLine_of_line JsonError hbytes rest
  rw [utf8_append, hreturn, List.append_assoc] at hline
  exact (readHeaders_line hline saw).2.1 length hstep

theorem readHeaders_others (env : FramingEnv Value JsonError) {fields : List HeaderField}
    (hfields : ∀ f ∈ fields, f.WellFormed ∧ eqIgnoreAsciiCase f.name CONTENT_LENGTH = false)
    (contentLength : Option ℕ) (saw : Bool) (rest : Stream) :
    ∃ saw', readHeaders env contentLength saw (utf8 (headerLines fields) ++ rest) =
      readHeaders env contentLength saw' rest := by
  induction fields generalizing saw with
  | nil => exact ⟨saw, rfl⟩
  | cons f fields ih =>
    obtain ⟨hf, hname⟩ := hfields f mem_cons_self
    obtain ⟨saw', hrest⟩ := ih (fun g hg => hfields g (mem_cons_of_mem _ hg)) true
    refine ⟨saw', ?_⟩
    have hstep : headerStep env contentLength (f.line ++ ['\r'] ++ ['\n']) =
        .header contentLength := by
      rw [headerStep_line hf, if_neg (by simp [hname])]
    rw [utf8_headerLines_cons, List.append_assoc, cons_append, cons_append,
      readHeaders_field hf hstep, hrest]

variable (h : AnnouncesLength before field after len)
include h

variable (JsonError) in
theorem headerLength_block :
    (headerLength (headerBlock (before ++ field :: after)) : Except (LspFrameError JsonError) ℕ) =
      if Spelled field.name then .ok len else .error .missingContentLength := by
  have hother : ∀ contentLength, ∀ f ∈ before ++ after,
      (contentLengthStep contentLength f.line : Except (LspFrameError JsonError) _) =
        .ok contentLength := by
    intro contentLength f hf
    refine contentLengthStep_other JsonError (h.wellFormed f ?_) (h.others f hf) contentLength
    rcases mem_append.mp hf with hf | hf
    · exact mem_append_left _ hf
    · exact mem_append_right _ (mem_cons_of_mem _ hf)
  have hbefore : (before.map HeaderField.line).foldlM contentLengthStep none =
      (.ok none : Except (LspFrameError JsonError) _) := by
    refine foldlM_keeps fun line hline => ?_
    obtain ⟨f, hf, rfl⟩ := mem_map.mp hline
    exact hother none f (mem_append_left _ hf)
  have hafter : ∀ contentLength,
      (after.map HeaderField.line ++ [[], []]).foldlM contentLengthStep contentLength =
        (.ok contentLength : Except (LspFrameError JsonError) _) := by
    intro contentLength
    refine foldlM_keeps fun line hline => ?_
    rcases mem_append.mp hline with hline | hline
    · obtain ⟨f, hf, rfl⟩ := mem_map.mp hline
      exact hother contentLength f (mem_append_right _ hf)
    · obtain rfl : line = [] := by simpa using hline
      rfl
  have hsteps : (splitCrlf (headerLines (before ++ field :: after) ++ ['\r', '\n'])).foldlM
      contentLengthStep none =
        (.ok (if Spelled field.name then some len else none) :
          Except (LspFrameError JsonError) _) := by
    rw [splitCrlf_lines h.wellFormed, map_append, map_cons, List.append_assoc,
      foldlM_append, hbefore]
    show (field.line :: (after.map HeaderField.line ++ [[], []])).foldlM contentLengthStep none = _
    rw [foldlM_cons, contentLengthStep_line JsonError (h.wellFormed field (by simp)), h.value]
    split
    · exact hafter (some len)
    · exact hafter none
  unfold headerLength headerBlock
  simp only [fromUtf8_utf8, hsteps]
  split <;> rfl

variable (JsonError) in
theorem readHeaderLength_block (rest : Stream) :
    (readHeaderLength (headerBlock (before ++ field :: after) ++ rest) :
        Except (LspFrameError JsonError) _ × _) =
      (if Spelled field.name then .ok (some len) else .error .missingContentLength, rest) := by
  have hheader := @readHeader_lines JsonError _ h.wellFormed [] (.inr (by simp)) rest
  rw [← headerBlock_append, nil_append, ← headerBlock_append, append_nil] at hheader
  unfold readHeaderLength
  simp only [hheader, headerLength_block JsonError h]
  split <;> rfl

theorem readHeaders_block (env : FramingEnv Value JsonError) (rest : Stream) :
    readHeaders env none false (headerBlock (before ++ field :: after) ++ rest) =
      (.ok (some (some len)), rest) := by
  have hstep : headerStep env none (field.line ++ ['\r'] ++ ['\n']) = .header (some len) := by
    rw [headerStep_line (h.wellFormed field (by simp)), if_pos h.name, h.value]
  have hlines : utf8 (headerLines (before ++ field :: after)) =
      utf8 (headerLines before) ++ (utf8 field.line ++ 13 :: 10 :: utf8 (headerLines after)) := by
    rw [← utf8_headerLines_cons, ← utf8_append]
    simp [headerLines]
  obtain ⟨saw, hbefore⟩ := @readHeaders_others _ _ env before
    (fun f hf => ⟨h.wellFormed f (by simp [hf]), h.others f (by simp [hf])⟩) none false
    (utf8 field.line ++ 13 :: 10 :: (utf8 (headerLines after) ++ 13 :: 10 :: rest))
  obtain ⟨saw', hafter⟩ := @readHeaders_others _ _ env after
    (fun f hf => ⟨h.wellFormed f (by simp [hf]), h.others f (by simp [hf])⟩) (some len) true
    (13 :: 10 :: rest)
  rw [headerBlock_append, hlines, List.append_assoc, List.append_assoc, cons_append,
    cons_append, hbefore, readHeaders_field (h.wellFormed field (by simp)) hstep, hafter,
    readHeaders_emptyLine]

end

/-! ## Frames -/

def lengthField (len : ℕ) : HeaderField := ⟨"Content-Length".toList, ' ' :: decimal len⟩

theorem lengthField_line (len : ℕ) :
    (lengthField len).line = "Content-Length: ".toList ++ decimal len := by
  have hname : "Content-Length: ".toList = "Content-Length".toList ++ [':', ' '] := by decide
  rfl

theorem lengthField_announces {len : ℕ} (hlen : len < UInt64.size) :
    AnnouncesLength [] (lengthField len) [] len := by
  have hname : (lengthField len).name = "Content-Length".toList := rfl
  have hno : ∀ c : Char, c.isDigit = false → c ∉ "Content-Length: ".toList →
      c ∉ (lengthField len).line := by
    intro c hdigit hname hc
    rw [lengthField_line, mem_append] at hc
    rcases hc with hc | hc
    · exact hname hc
    · rw [isDigit_of_decimal hc] at hdigit
      cases hdigit
  refine ⟨?_, ?_, ?_, fun f hf => absurd hf not_mem_nil⟩
  · intro f hf
    rw [mem_singleton.mp hf]
    exact ⟨by rw [hname]; decide, hno _ (by decide) (by decide), hno _ (by decide) (by decide)⟩
  · rw [hname]
    decide
  · show parseUsize (trim (' ' :: decimal len)) = some len
    rw [trim_space_decimal, parseUsize_decimal hlen]

theorem lspFrame_eq (body : List UInt8) :
    lspFrame body = headerBlock [lengthField body.length] ++ body := by
  have hreturn : utf8 ['\r'] = [13] := by decide
  have hline : JsonRpcFraming.headerLine body.length = (lengthField body.length).line ++ ['\r'] := by
    rfl
  rw [headerBlock_append, utf8_headerLines_cons, lspFrame, hline, utf8_append, hreturn,
    List.append_assoc, List.append_assoc]
  rfl

variable (JsonError) in
theorem readHeaderLength_frame {body : List UInt8} (hlen : body.length < UInt64.size)
    (rest : Stream) :
    (readHeaderLength (lspFrame body ++ rest) : Except (LspFrameError JsonError) _ × _) =
      (.ok (some body.length), body ++ rest) := by
  have h := readHeaderLength_block JsonError (lengthField_announces hlen) (body ++ rest)
  rw [nil_append, if_pos (show Spelled (lengthField body.length).name from .inl rfl)] at h
  rw [lspFrame_eq, List.append_assoc, h]

variable {env : FramingEnv Value JsonError} {maxSize : UInt64}

theorem readLspMessage_nil : readLspMessage env [] = (.ok none, []) := rfl

theorem readLspMessage_of_error {stream rest : Stream} {e : LspFrameError JsonError}
    (h : readHeaderLength stream = (.error e, rest)) :
    readLspMessage env stream = (.error e, rest) :=
  Eff.bind_run_error (Eff.bind_run_error h)

theorem lspd_framed :
    Framed (readLspMessage env) (written (LspFramedWriter.writeMessage env)) (Fits env maxSize) := by
  constructor
  · exact ⟨[], readLspMessage_nil⟩
  · rintro msg ⟨text, htext, hsize⟩ rest
    have hlen : (utf8 text).length < UInt64.size := Nat.lt_of_le_of_lt hsize maxSize.toNat_lt_size
    have hbody : readLspBody (utf8 text).length (utf8 text ++ rest) =
        ((.ok (some text), rest) : Except (LspFrameError JsonError) _ × _) := by
      unfold readLspBody
      rw [if_pos (by simp), take_left, drop_left, fromUtf8_utf8]
    have hframe : readLspFrame (lspFrame (utf8 text) ++ rest) =
        ((.ok (some text), rest) : Except (LspFrameError JsonError) _ × _) :=
      (Eff.bind_run_ok (readHeaderLength_frame JsonError hlen rest)).trans hbody
    unfold written
    rw [lsp_write htext, nil_append, readLspMessage, Eff.bind_run_ok hframe]
    simp only [htext.fromStr]
    rfl

theorem readLspMessage_part {body : List UInt8} (hlen : body.length < UInt64.size) {n : ℕ}
    (hpos : 0 < n) (hn : n < (lspFrame body).length) :
    ∃ e t, readLspMessage env ((lspFrame body).take n) = (.error e, t) := by
  have hfield := (lengthField_announces hlen).wellFormed (lengthField body.length) (by simp)
  have hcut : ∀ s : Stream, (readHeader [] s : Except (LspFrameError JsonError) _ × _) =
      (.error .eofInHeader, []) → ∃ e t, readLspMessage env s = (.error e, t) := by
    intro s h
    refine ⟨.eofInHeader, [], readLspMessage_of_error ?_⟩
    simp only [readHeaderLength, h]
  have hframe : lspFrame body =
      (utf8 (lengthField body.length).line ++ [13]) ++ 10 :: 13 :: 10 :: body := by
    rw [lspFrame_eq, headerBlock_append, utf8_headerLines_cons, List.append_assoc,
      List.append_assoc]
    rfl
  have hline : 10 ∉ utf8 (lengthField body.length).line ++ [13] := by
    rw [mem_append]
    exact not_or.mpr ⟨feed_not_mem_line hfield, by decide⟩
  have hpassed : ∀ rest, (readHeader [] (utf8 (lengthField body.length).line ++ 13 :: 10 :: rest) :
      Except (LspFrameError JsonError) _ × _) =
        readHeader (utf8 (lengthField body.length).line ++ [13, 10]) rest :=
    readHeader_line JsonError (feed_not_mem_line hfield) (line_ne_nil _) []
  by_cases hle : n ≤ (utf8 (lengthField body.length).line ++ [13]).length
  · -- inside the header line
    rw [hframe, take_append_of_le_length hle]
    refine hcut _ (readHeader_cut JsonError (fun hmem => hline (mem_of_mem_take hmem)) ?_)
    intro hnil
    rcases take_eq_nil_iff.mp hnil with hzero | hnil
    · omega
    · exact absurd (append_eq_nil_iff.mp hnil).2 (by decide)
  · obtain ⟨k, rfl⟩ : ∃ k, n = (utf8 (lengthField body.length).line ++ [13]).length + (k + 1) :=
      ⟨n - (utf8 (lengthField body.length).line ++ [13]).length - 1, by omega⟩
    have htake : (lspFrame body).take
        ((utf8 (lengthField body.length).line ++ [13]).length + (k + 1)) =
          utf8 (lengthField body.length).line ++ 13 :: 10 :: (13 :: 10 :: body).take k := by
      rw [hframe, take_length_add_append, take_succ_cons, List.append_assoc]
      rfl
    rw [htake]
    rcases k with _ | _ | k
    · -- behind the header line
      refine hcut _ ?_
      rw [take_zero, hpassed, readHeader, if_neg (by simp)]
    · -- inside the empty line
      refine hcut _ ?_
      rw [take_succ_cons, take_zero, hpassed]
      exact readHeader_cut JsonError (by decide) (by simp)
    · -- in front of the last byte of the body
      have hshort : (body.take k).length < body.length := by
        rw [hframe] at hn
        simp only [length_append, length_cons, length_take] at hn ⊢
        omega
      have hheader := readHeaderLength_block JsonError (lengthField_announces hlen) (body.take k)
      rw [headerBlock_append, nil_append, utf8_headerLines_cons, List.append_assoc,
        if_pos (show Spelled (lengthField body.length).name from .inl rfl)] at hheader
      have hbody : readLspBody body.length (body.take k) =
          ((.error .eofInBody, []) : Except (LspFrameError JsonError) _ × _) := by
        rw [readLspBody, if_neg (Nat.not_le.mpr hshort)]
      refine ⟨.eofInBody, [], ?_⟩
      exact Eff.bind_run_error ((Eff.bind_run_ok hheader).trans hbody)

theorem lspd_refuses_parts :
    RefusesParts (readLspMessage env) (written (LspFramedWriter.writeMessage env))
      (Fits env maxSize) := by
  rintro msg ⟨text, htext, hsize⟩ n hpos hn
  unfold written at hn ⊢
  rw [lsp_write htext, nil_append] at hn ⊢
  exact readLspMessage_part (Nat.lt_of_le_of_lt hsize maxSize.toNat_lt_size) hpos hn

/-! ## Both framings -/

abbrev frameOf (env : FramingEnv Value JsonError) : JsonRpcMessage Value → Stream :=
  written (LspFramedWriter.writeMessage env)

theorem writeLspFrame_eq {msg : JsonRpcMessage Value} {text : Text}
    (h : SerializesTo env msg.value text) (sink : Stream) :
    writeLspFrame env msg.value sink = (.ok (), sink ++ frameOf env msg) := by
  have hsame : (LspFramedWriter.writeMessage env msg sink).2 =
      (writeLspFrame env msg.value sink).2 := by
    simp only [LspFramedWriter.writeMessage, writeLspFrame, h.written]
    rfl
  have hok : (writeLspFrame env msg.value sink).1 = .ok () := by
    simp only [writeLspFrame, h.written]
    rfl
  rw [lsp_write h] at hsame
  have hframe : frameOf env msg = lspFrame (utf8 text) := by
    rw [frameOf, written, lsp_write h, nil_append]
  rw [hframe]
  exact Prod.ext hok hsame.symm

theorem writeMix_frames {writes : List (FrameWriter × JsonRpcMessage Value)}
    (hwrites : ∀ write ∈ writes, ∃ text, SerializesTo env write.2.value text) (sink : Stream) :
    writeMix env writes sink = (.ok (), sink ++ (writes.map (·.2)).flatMap (frameOf env)) := by
  induction writes generalizing sink with
  | nil =>
    rw [map_nil, flatMap_nil, append_nil]
    rfl
  | cons write writes ih =>
    obtain ⟨text, htext⟩ := hwrites write mem_cons_self
    have hrest := ih fun w hw => hwrites w (mem_cons_of_mem _ hw)
    obtain ⟨writer, msg⟩ := write
    rw [map_cons, flatMap_cons, ← List.append_assoc, ← hrest]
    cases writer with
    | lspd => exact Eff.bind_run_ok (Eff.mapError_eq_ok.mpr (writeLspFrame_eq htext sink))
    | framed =>
      have hwrite : LspFramedWriter.writeMessage env msg sink =
          (.ok (), sink ++ written (LspFramedWriter.writeMessage env) msg) := by
        rw [written, lsp_write htext, lsp_write htext, nil_append]
      exact Eff.bind_run_ok (Eff.mapError_eq_ok.mpr hwrite)

/-- What both writers wrote in any order is read back by both readers, and up to the same
message where the stream is cut. A header block by another writer announces the same length
to both exactly if the name is spelled one of two ways. -/
theorem lsp_framings_agree {writes : List (FrameWriter × JsonRpcMessage Value)}
    (hwrites : ∀ write ∈ writes, Fits env maxSize write.2) :
    (∃ stream, writeMix env writes [] = (.ok (), stream) ∧
        (∀ msgs r, Reads (readLspMessage env) stream msgs r ↔
          msgs = writes.map (·.2) ∧ r = .ok ()) ∧
        (∀ msgs r, Reads (LspFramedReader.readMessage env maxSize) stream msgs r ↔
          msgs = writes.map (·.2) ∧ r = .ok ()) ∧
        ∀ n, n < stream.length →
          (OnBoundary (frameOf env) (writes.map (·.2)) n →
            Reads (readLspMessage env) (stream.take n)
                (complete (frameOf env) (writes.map (·.2)) n) (.ok ()) ∧
              Reads (LspFramedReader.readMessage env maxSize) (stream.take n)
                (complete (frameOf env) (writes.map (·.2)) n) (.ok ())) ∧
          (¬ OnBoundary (frameOf env) (writes.map (·.2)) n →
            (∃ e, Reads (readLspMessage env) (stream.take n)
                (complete (frameOf env) (writes.map (·.2)) n) (.error e)) ∧
              ∃ e, Reads (LspFramedReader.readMessage env maxSize) (stream.take n)
                (complete (frameOf env) (writes.map (·.2)) n) (.error e))) ∧
      ∀ before field after len, AnnouncesLength before field after len → ∀ rest,
        readHeaders env none false (headerBlock (before ++ field :: after) ++ rest) =
            (.ok (some (some len)), rest) ∧
          ((readHeaderLength (headerBlock (before ++ field :: after) ++ rest) :
              Except (LspFrameError JsonError) _ × _) = (.ok (some len), rest) ↔
            Spelled field.name) := by
  constructor
  · have hmsgs : ∀ msg ∈ writes.map (·.2), Fits env maxSize msg := by
      intro msg hmsg
      obtain ⟨write, hwrite, rfl⟩ := mem_map.mp hmsg
      exact hwrites write hwrite
    have htexts : ∀ write ∈ writes, ∃ text, SerializesTo env write.2.value text := by
      intro write hwrite
      obtain ⟨text, htext, -⟩ := hwrites write hwrite
      exact ⟨text, htext⟩
    refine ⟨_, writeMix_frames htexts [], (lspd_framed.reads_all hmsgs).iff,
      (lsp_framed.reads_all hmsgs).iff, fun n hn => ?_⟩
    obtain ⟨hon, hoff⟩ := lspd_framed.reads_take lspd_refuses_parts hmsgs (Nat.le_of_lt hn)
    obtain ⟨hon', hoff'⟩ := lsp_framed.reads_take lsp_refuses_parts hmsgs (Nat.le_of_lt hn)
    exact ⟨fun hb => ⟨hon hb, hon' hb⟩, fun hb => ⟨hoff hb, hoff' hb⟩⟩
  · intro before field after len h rest
    refine ⟨readHeaders_block h env rest, ?_⟩
    rw [readHeaderLength_block JsonError h]
    split
    · rename_i hspelled
      exact iff_of_true rfl hspelled
    · rename_i hnot
      refine iff_of_false (fun heq => ?_) hnot
      cases heq

end

def capitals : HeaderField := ⟨"CONTENT-LENGTH".toList, " 2".toList⟩

theorem capitals_announce : AnnouncesLength [] capitals [] 2 := by
  refine ⟨?_, by decide, by decide, fun f hf => absurd hf not_mem_nil⟩
  intro f hf
  rw [mem_singleton.mp hf]
  exact ⟨by decide, by decide, by decide⟩

/-- One reader takes the body and the other misses the header. -/
theorem capitals_refused :
    readHeaders pingEnv none false (headerBlock [capitals] ++ utf8 "\x7b\x7d".toList) =
        (.ok (some (some 2)), utf8 "\x7b\x7d".toList) ∧
      (readHeaderLength (headerBlock [capitals] ++ utf8 "\x7b\x7d".toList) :
          Except (LspFrameError Unit) _ × _) =
        (.error .missingContentLength, utf8 "\x7b\x7d".toList) := by
  refine ⟨readHeaders_block capitals_announce pingEnv _, ?_⟩
  have h := readHeaderLength_block Unit capitals_announce (utf8 "\x7b\x7d".toList)
  rwa [if_neg (by decide)] at h

theorem ping_framings_agree :
    ∃ stream, writeMix pingEnv [(.lspd, ⟨()⟩), (.framed, ⟨()⟩)] [] = (.ok (), stream) ∧
      Reads (readLspMessage pingEnv) stream [⟨()⟩, ⟨()⟩] (.ok ()) ∧
      Reads (LspFramedReader.readMessage pingEnv DEFAULT_MAX_MESSAGE_SIZE) stream [⟨()⟩, ⟨()⟩]
        (.ok ()) := by
  obtain ⟨⟨stream, hwrite, hlspd, hframed, -⟩, -⟩ := @lsp_framings_agree Unit Unit pingEnv
    DEFAULT_MAX_MESSAGE_SIZE [(.lspd, ⟨()⟩), (.framed, ⟨()⟩)] fun write _ => ping_fits
  exact ⟨stream, hwrite, (hlspd _ _).mpr ⟨rfl, rfl⟩, (hframed _ _).mpr ⟨rfl, rfl⟩⟩

end Codex.Desktop
