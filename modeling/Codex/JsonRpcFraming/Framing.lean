import Codex.Foundation.AsciiCase
import Codex.Foundation.Decimal
import Codex.Foundation.Run

/-!
# JSON-RPC framing

Messages on a byte stream, as lines of JSON or behind `Content-Length` headers. A reader
works on the bytes that are left; a writer appends to the bytes written so far. Both
transports are in memory: the one error a stream gives is that it ends too early.
-/

namespace Codex.JsonRpcFraming

open Foundation

def DEFAULT_MAX_MESSAGE_SIZE : UInt64 := 16 * 1024 * 1024

inductive IoErrorKind where
  | invalidData
  | unexpectedEof
deriving DecidableEq

inductive FramingError (JsonError : Type) where
  | io (kind : IoErrorKind)
  | parse (error : JsonError)
  | invalidContentLength (message : Text)
  | messageTooLarge (size limit : ℕ)
deriving DecidableEq

structure JsonRpcMessage (Value : Type) where
  value : Value
deriving DecidableEq

/-- The JSON library, and how a text is shown in an error. -/
structure FramingEnv (Value JsonError : Type) where
  toVec : Value → Except JsonError (List UInt8)
  fromStr : Text → Except JsonError Value
  fromSlice : List UInt8 → Except JsonError Value
  debug : Text → Text

abbrev Stream : Type := List UInt8

variable {Value JsonError : Type}

/-! ## The stream -/

def takeLine : Stream → List UInt8 × Stream
  | [] => ([], [])
  | b :: rest =>
    if b = 10 then ([b], rest)
    else
      let (line, rest) := takeLine rest
      (b :: line, rest)

def readLine : Eff Stream (FramingError JsonError) (ℕ × Text) := fun stream =>
  let line := (takeLine stream).1
  let rest := (takeLine stream).2
  match fromUtf8 line with
  | some text => (.ok (line.length, text), rest)
  | none => (.error (.io .invalidData), rest)

def readExact (len : ℕ) : Eff Stream (FramingError JsonError) (List UInt8) := fun stream =>
  if len ≤ stream.length then (.ok (stream.take len), stream.drop len)
  else (.error (.io .unexpectedEof), [])

def writeAll (bytes : List UInt8) : Eff Stream (FramingError JsonError) Unit := fun sink =>
  (.ok (), sink ++ bytes)

theorem takeLine_append (stream : Stream) : (takeLine stream).1 ++ (takeLine stream).2 = stream := by
  induction stream with
  | nil => rfl
  | cons b rest ih =>
    rw [takeLine]
    split
    · rfl
    · simp only [List.cons_append, ih]

theorem readLine_length {stream rest : Stream} {n : ℕ} {text : Text}
    (h : (readLine : Eff Stream (FramingError JsonError) (ℕ × Text)) stream =
      (.ok (n, text), rest)) : n + rest.length = stream.length := by
  unfold readLine at h
  simp only at h
  have hsplit := congrArg List.length (takeLine_append stream)
  rw [List.length_append] at hsplit
  split at h
  · cases h
    exact hsplit
  · cases h

def parsed (result : Except JsonError Value) :
    Except (FramingError JsonError) (Option (JsonRpcMessage Value)) :=
  match result with
  | .ok value => .ok (some ⟨value⟩)
  | .error error => .error (.parse error)

variable (env : FramingEnv Value JsonError)

def NdjsonReader.readMessage (stream : Stream) :
    Except (FramingError JsonError) (Option (JsonRpcMessage Value)) × Stream :=
  match _hline : readLine stream with
  | (.error e, rest) => (.error e, rest)
  | (.ok (n, buf), rest) =>
    if n = 0 then (.ok none, rest)
    else
      let trimmed := trim buf
      if trimmed = [] then NdjsonReader.readMessage rest
      else (parsed (env.fromStr trimmed), rest)
termination_by stream.length
decreasing_by
  have hlen := readLine_length _hline
  omega

def NdjsonWriter.writeMessage (msg : JsonRpcMessage Value) :
    Eff Stream (FramingError JsonError) Unit :=
  match env.toVec msg.value with
  | .ok bytes => writeAll (bytes ++ [10])
  | .error error => Eff.fail (.parse error)

/-! ## Headers -/

def CONTENT_LENGTH : Text := "content-length".toList

inductive HeaderStep where
  | blank
  | header (contentLength : Option ℕ)
  | malformed (message : Text)

def stripLineEnd (headerLine : Text) : Text :=
  if ['\r', '\n'] <:+ headerLine then headerLine.take (headerLine.length - 2)
  else if ['\n'] <:+ headerLine then headerLine.take (headerLine.length - 1)
  else headerLine

def headerStep (contentLength : Option ℕ) (headerLine : Text) : HeaderStep :=
  let line := stripLineEnd headerLine
  if line = [] then .blank
  else
    match splitOnce ':' line with
    | none => .malformed ("malformed header line: ".toList ++ env.debug line)
    | some (name, value) =>
      if eqIgnoreAsciiCase name CONTENT_LENGTH then
        match parseUsize (trim value) with
        | some parsed => .header (some parsed)
        | none => .malformed ("non-numeric Content-Length: ".toList ++ env.debug (trim value))
      else .header contentLength

def readHeaders (contentLength : Option ℕ) (sawAnyHeader : Bool) (stream : Stream) :
    Except (FramingError JsonError) (Option (Option ℕ)) × Stream :=
  match _hline : readLine stream with
  | (.error e, rest) => (.error e, rest)
  | (.ok (n, headerLine), rest) =>
    if n = 0 then
      if sawAnyHeader then
        (.error (.invalidContentLength "unexpected EOF inside header block".toList), rest)
      else (.ok none, rest)
    else
      match headerStep env contentLength headerLine with
      | .blank => (.ok (some contentLength), rest)
      | .header contentLength => readHeaders contentLength true rest
      | .malformed message => (.error (.invalidContentLength message), rest)
termination_by stream.length
decreasing_by
  have hlen := readLine_length _hline
  omega

def parseBody (body : List UInt8) :
    Eff Stream (FramingError JsonError) (Option (JsonRpcMessage Value)) := fun stream =>
  (parsed (env.fromSlice body), stream)

def readBody (maxSize : UInt64) (contentLength : Option ℕ) :
    Eff Stream (FramingError JsonError) (Option (JsonRpcMessage Value)) :=
  match contentLength with
  | none => Eff.fail (.invalidContentLength "missing Content-Length header".toList)
  | some len =>
    if maxSize.toNat < len then Eff.fail (.messageTooLarge len maxSize.toNat)
    else do
      let body ← readExact len
      parseBody env body

def LspFramedReader.readMessage (maxSize : UInt64) :
    Eff Stream (FramingError JsonError) (Option (JsonRpcMessage Value)) := do
  match ← readHeaders env none false with
  | none => pure none
  | some contentLength => readBody env maxSize contentLength

def LspFramedWriter.writeMessage (msg : JsonRpcMessage Value) :
    Eff Stream (FramingError JsonError) Unit :=
  match env.toVec msg.value with
  | .ok body => do
    writeAll (utf8 ("Content-Length: ".toList ++ decimal body.length ++ "\r\n\r\n".toList))
    writeAll body
  | .error error => Eff.fail (.parse error)

end Codex.JsonRpcFraming
