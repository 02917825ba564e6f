import OnceProxy.Cbor.Value
import OnceProxy.Envelope.Basic

/-!
# The bytes of an envelope

An envelope is a map of four fields. The reader accepts them in any order and passes over others.
-/

namespace OnceProxy.Envelope

open Cbor

/-- The fields of an envelope by name. -/
inductive Field where
  | status
  | headers
  | body
  | mime
  deriving DecidableEq, Repr

/-- The name of a field. -/
def Field.name : Field → String
  | .status => "status"
  | .headers => "headers"
  | .body => "body"
  | .mime => "mime"

/-- The field of a name. -/
def Field.ofName? (s : List UInt8) : Option Field :=
  [Field.status, .headers, .body, .mime].find? fun f => Text.Utf8.ofString f.name = s

/-- The bytes of one kept header. -/
def encodeHeader (h : String × String) : List UInt8 :=
  (Head.array (some 2)).encode ++ encodeText h.1 ++ encodeText h.2

/-- The bytes of an envelope: a map of its four fields. -/
def encode (e : Envelope) : List UInt8 :=
  (Head.map (some 4)).encode ++
    encodeText Field.status.name ++ (Head.positive e.status.toNat).encode ++
    encodeText Field.headers.name ++ (Head.array (some e.headers.length)).encode ++
      e.headers.flatMap encodeHeader ++
    encodeText Field.body.name ++ encodeBytes e.body ++
    encodeText Field.mime.name ++ encodeText e.mime

/-- The fields read so far. -/
structure Partial where
  status : Option Nat
  headers : Option (List (String × String))
  body : Option (List UInt8)
  mime : Option String

/-- No field read yet. -/
def Partial.empty : Partial := ⟨none, none, none, none⟩

/-- The envelope of fields that are all there; the first that is missing is named. -/
def Partial.complete (p : Partial) : Except ReadError Envelope :=
  match p.status, p.headers, p.body, p.mime with
  | some status, some headers, some body, some mime =>
    .ok ⟨UInt16.ofNat status, headers, body, mime⟩
  | none, _, _, _ => .error (.rejected (.missingField Field.status.name))
  | _, none, _, _ => .error (.rejected (.missingField Field.headers.name))
  | _, _, none, _ => .error (.rejected (.missingField Field.body.name))
  | _, _, _, none => .error (.rejected (.missingField Field.mime.name))

/-- The longest name of a field that is looked at. -/
def nameLimit : Nat := 4096

/-- Reads the name of a field: a text or a byte string of given length. Other names than the four
stand for fields that are passed over. -/
def readField (i : Input) : Except ReadError (Option Field × Input) := do
  let (head, start, j) ← readUntagged i
  match head with
  | .text (some n) =>
    if nameLimit < n then throw (.rejected (.wrongType head "str or bytes"))
    let (s, j) ← readBytes n j
    if (Text.Utf8.decode? s).isNone then throw (.malformed start)
    return (Field.ofName? s, j)
  | .bytes (some n) =>
    if nameLimit < n then throw (.rejected (.wrongType head "str or bytes"))
    let (s, j) ← readBytes n j
    return (Field.ofName? s, j)
  | head => throw (.rejected (.wrongType head "str or bytes"))

/-- Reads one kept header: a pair of texts. -/
def readHeader (i : Input) : Except ReadError ((String × String) × Input) := do
  let (s, i) ← readSequence i
  let (name, s, i) ← s.element readText (refuseByte "a string") 0 2 i
  let (value, _, i) ← s.element readText (refuseByte "a string") 1 2 i
  return ((name, value), i)

/-- Reads the kept headers. A byte string stands for them only if it is empty. -/
def readHeaders (i : Input) : Except ReadError (List (String × String) × Input) := do
  let (s, i) ← readSequence i
  match s with
  | .items n => readItems readHeader n i
  | .bytes [] => return ([], i)
  | .bytes (b :: _) => refuseByte "a tuple of size 2" b

/-- Reads the value of a field that has not been read before. -/
def readInto (p : Partial) (field : Option Field) (i : Input) :
    Except ReadError (Partial × Input) := do
  let repeated (f : Field) := ReadError.rejected (.duplicateField f.name)
  match field with
  | none =>
    let (_, i) ← Value.read (depthLimit - 1) i
    return (p, i)
  | some .status =>
    if p.status.isSome then throw (repeated .status)
    let (n, i) ← readBelow 0x10000 "u16" i
    return ({ p with status := some n }, i)
  | some .headers =>
    if p.headers.isSome then throw (repeated .headers)
    let (hs, i) ← readHeaders i
    return ({ p with headers := some hs }, i)
  | some .body =>
    if p.body.isSome then throw (repeated .body)
    let (s, i) ← readByteString i
    return ({ p with body := some s }, i)
  | some .mime =>
    if p.mime.isSome then throw (repeated .mime)
    let (s, i) ← readText i
    return ({ p with mime := some s }, i)

/-- Reads `n` fields. -/
def readCountedFields (p : Partial) : Nat → Input → Except ReadError (Partial × Input)
  | 0, i => .ok (p, i)
  | n + 1, i => do
    let (f, i) ← readField i
    let (p, i) ← readInto p f i
    readCountedFields p n i

/-- Reads fields up to a stop code; `n` bytes hold at most `n` of them. -/
def readFieldsUntilStop (p : Partial) : Nat → Input → Except ReadError (Partial × Input)
  | 0, _ => .error .endOfInput
  | n + 1, i => do
    let (head, j) ← Head.read i
    if head = .stop then return (p, j)
    let (f, j) ← readField (head.unread j)
    let (p, j) ← readInto p f j
    readFieldsUntilStop p n j

/-- Reads an envelope. -/
def read (i : Input) : Except ReadError (Envelope × Input) := do
  let (head, _, i) ← readUntagged i
  match head with
  | .map n =>
    let (p, i) ←
      match n with
      | some n => readCountedFields .empty n i
      | none => readFieldsUntilStop .empty i.rest.length i
    return (← p.complete, i)
  | head => throw (.rejected (.wrongType head "map"))

/-- Reads the envelope at the start of a byte string; the bytes after it do not matter. -/
def decode (s : List UInt8) : Except ProxyError Envelope :=
  match read ⟨0, s⟩ with
  | .ok (e, _) => .ok e
  | .error e => .error (.internal s!"decode envelope: {e.message}")

end OnceProxy.Envelope
