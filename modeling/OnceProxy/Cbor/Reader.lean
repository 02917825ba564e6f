import OnceProxy.Cbor.Error
import OnceProxy.Text.Utf8

/-!
# Readers of data items

Readers take data items apart piece by piece. Each head that is read makes the input shorter.
-/

namespace OnceProxy.Cbor

open Bytes

variable {α β σ : Type}

/-- The next `n` bytes. -/
def readBytes (n : Nat) (i : Input) : Except ReadError (List UInt8 × Input) :=
  let s := i.rest.take n
  if s.length < n then .error .endOfInput
  else .ok (s, i.skip n)

theorem length_of_readBytes {n : Nat} {i j : Input} {s : List UInt8}
    (h : readBytes n i = .ok (s, j)) : j.rest.length + n = i.rest.length := by
  simp only [readBytes, List.length_take] at h
  split at h
  · simp at h
  · simp only [Except.ok.injEq, Prod.mk.injEq] at h
    obtain ⟨-, rfl⟩ := h
    simp only [Input.length_skip]
    omega

/-- The head of the given major type with the argument `n`; an argument of `none` is an open end. -/
def Head.ofArgument (major : Nat) (n : Option Nat) : Option Head :=
  match major with
  | 0 => n.map .positive
  | 1 => n.map .negative
  | 2 => some (.bytes n)
  | 3 => some (.text n)
  | 4 => some (.array n)
  | 5 => some (.map n)
  | _ => n.map .tag

/-- The head of major type seven whose argument takes the given number of bytes. -/
def Head.ofSimple (width n : Nat) : Head :=
  match width with
  | 2 => .float (.ofHalf n)
  | 4 => .float (.ofSingle n)
  | 8 => .float ⟨UInt64.ofNat n⟩
  | _ => .simple n

/-- Reads a head in any of its forms. A form that does not exist is reported at its first byte. -/
def Head.read (i : Input) : Except ReadError (Head × Input) :=
  match i.rest with
  | [] => .error .endOfInput
  | b :: r =>
    let major := b.toNat / 32
    let info := b.toNat % 32
    let after : Input := ⟨i.offset + 1, r⟩
    if info = 31 then
      if major = 7 then .ok (.stop, after)
      else match Head.ofArgument major none with
        | some h => .ok (h, after)
        | none => .error (.malformed i.offset)
    else if 28 ≤ info then .error (.malformed i.offset)
    else
      let width := if info < 24 then 0 else 1 <<< (info - 24)
      match readBytes width after with
      | .error e => .error e
      | .ok (s, j) =>
        let n := if info < 24 then info else ofBigEndian s
        if major = 7 then .ok (Head.ofSimple width n, j)
        else match Head.ofArgument major (some n) with
          | some h => .ok (h, j)
          | none => .error (.malformed i.offset)

theorem Head.length_of_read {i j : Input} {h : Head} (e : Head.read i = .ok (h, j)) :
    j.rest.length < i.rest.length := by
  unfold Head.read at e
  split at e
  · simp at e
  · -- the first byte is always taken, and of the others never more than there are
    rename_i b r hr
    rw [hr, List.length_cons]
    simp only at e
    split at e
    · split at e
      · simp at e
        simp [← e.2]
      · split at e <;> simp at e
        simp [← e.2]
    · split at e
      · simp at e
      · split at e
        · simp at e
        · rename_i hb
          have := length_of_readBytes hb
          simp only at this
          split at e
          · simp at e
            rw [← e.2]
            omega
          · split at e <;> simp at e
            rw [← e.2]
            omega

/-- The first head that is no tag, and the offset it was read at. -/
def readUntagged (i : Input) : Except ReadError (Head × Nat × Input) :=
  match h : Head.read i with
  | .error e => .error e
  | .ok (.tag _, j) =>
    have := Head.length_of_read h
    readUntagged j
  | .ok (head, j) => .ok (head, i.offset, j)
termination_by i.rest.length

/-- How the content of a string is taken in, part by part: which heads open a segment and with what
length, how many bytes the next part may have, what a part does to the state, and whether a segment
may end in a state. A fault of `take` may name the offset of the segment. -/
structure Sink (σ : Type) where
  opens : Head → Option (Option Nat)
  room : σ → Nat
  take : σ → Nat → List UInt8 → Except ReadError σ
  ends : σ → Nat → Except ReadError σ

/-- Takes in the `unread` bytes of the segment at the offset `at_`. -/
def Sink.fill (k : Sink σ) (at_ unread : Nat) (s : σ) (i : Input) :
    Except ReadError (σ × Input) :=
  if unread = 0 then (k.ends s at_).map (·, i)
  else do
    let n := max 1 (min (k.room s) unread)
    let (part, j) ← readBytes n i
    let s ← k.take s at_ part
    k.fill at_ (unread - n) s j
termination_by unread

theorem Sink.length_of_fill {k : Sink σ} {at_ unread : Nat} {s t : σ} {i j : Input}
    (h : k.fill at_ unread s i = .ok (t, j)) : j.rest.length ≤ i.rest.length := by
  induction unread using Nat.strongRecOn generalizing s i with
  | ind unread ih =>
    unfold Sink.fill at h
    split at h
    · cases he : k.ends s at_ <;> simp [he, Except.map] at h
      simp [h]
    · simp only [bind, Except.bind] at h
      split at h
      · simp at h
      · rename_i v hb
        split at h
        · simp at h
        · have h1 := length_of_readBytes (s := v.1) (j := v.2) hb
          have h2 := ih _ (by omega) h
          omega

/-- Reads the segments of a string. With `nested` open ends around it, every segment up to their
stop codes belongs to the string; without one, the first segment is the whole. -/
def Sink.segments (k : Sink σ) (nested : Nat) (s : σ) (i : Input) : Except ReadError (σ × Input) :=
  match h : Head.read i with
  | .error e => .error e
  | .ok (head, j) =>
    have := Head.length_of_read h
    if head = .stop ∧ nested = 1 then .ok (s, j)
    else if head = .stop ∧ 1 < nested then k.segments (nested - 1) s j
    else match k.opens head with
      | none => .error (.malformed i.offset)
      | some none => k.segments (nested + 1) s j
      | some (some n) =>
        match hf : k.fill i.offset n s j with
        | .error e => .error e
        | .ok (s, l) =>
          have := Sink.length_of_fill hf
          if nested = 0 then .ok (s, l) else k.segments nested s l
termination_by i.rest.length

/-- The length of a byte string segment that a head opens. -/
def Head.opensBytes : Head → Option (Option Nat)
  | .bytes n => some n
  | _ => none

/-- The length of a text segment that a head opens. -/
def Head.opensText : Head → Option (Option Nat)
  | .text n => some n
  | _ => none

/-- Gathers the bytes of a byte string. -/
def byteSink : Sink (List UInt8) where
  opens := Head.opensBytes
  room _ := 4096
  take s _ part := .ok (s ++ part)
  ends s _ := .ok s

/-- The text read so far and up to three bytes that do not yet make a character. -/
structure TextState where
  text : List Char
  carried : List UInt8

/-- Gathers the characters of a text, in parts of 4096 bytes with those carried over. More than
three bytes that make no character are a fault, and so are any that are left when a segment ends.
-/
def textSink : Sink TextState where
  opens := Head.opensText
  room s := 4096 - s.carried.length
  take s at_ part :=
    let (cs, rest) := Text.Utf8.decodeRun (s.carried ++ part)
    if 3 < rest.length then .error (.malformed at_) else .ok ⟨s.text ++ cs, rest⟩
  ends s at_ := if s.carried.isEmpty then .ok s else .error (.malformed at_)

/-- The significant bytes of a big number: at most sixteen after the leading zeros. -/
def bignumSink : Sink (List UInt8) where
  opens := Head.opensBytes
  room _ := 16
  take s _ part :=
    let s := (s ++ part).dropWhile (· == 0)
    if 16 < s.length then .error (.rejected .bignumTooLarge) else .ok s
  ends s _ := .ok s

/-- Reads an integer as its sign and, for `-1 - n`, the number `n`. Tags 2 and 3 announce a big
number; other tags mean nothing. -/
def readInteger (i : Input) : Except ReadError ((Bool × Nat) × Input) :=
  match h : Head.read i with
  | .error e => .error e
  | .ok (.positive n, j) => .ok ((false, n), j)
  | .ok (.negative n, j) => .ok ((true, n), j)
  | .ok (.tag t, j) =>
    if t = 2 ∨ t = 3 then do
      let (head, l) ← Head.read j
      match head with
      | .bytes n =>
        let (s, l) ← bignumSink.segments 0 [] ((Head.bytes n).unread l)
        return ((t == 3, ofBigEndian s), l)
      | head => throw (.rejected (.wrongType head "bytes"))
    else
      have := Head.length_of_read h
      readInteger j
  | .ok (head, _) => .error (.rejected (.wrongType head "integer"))
termination_by i.rest.length

/-- Reads an unsigned integer of 64 bits. -/
def readUnsigned (i : Input) : Except ReadError (Nat × Input) := do
  let ((negative, n), j) ← readInteger i
  if negative then throw (.rejected .unexpectedNegative)
  if wordLimit ≤ n then throw (.rejected .integerTooLarge)
  return (n, j)

/-- Reads an unsigned integer below `limit`, the range that complaints call `wanted`. -/
def readBelow (limit : Nat) (wanted : String) (i : Input) : Except ReadError (Nat × Input) := do
  let (n, j) ← readUnsigned i
  if limit ≤ n then throw (.rejected (.outOfRange n wanted))
  return (n, j)

/-- Reads a text. -/
def readText (i : Input) : Except ReadError (String × Input) := do
  let (head, _, j) ← readUntagged i
  match head with
  | .text n =>
    let (s, j) ← textSink.segments 0 ⟨[], []⟩ ((Head.text n).unread j)
    return (String.ofList s.text, j)
  | head => throw (.rejected (.wrongType head "string"))

/-- Reads `n` items. -/
def readCounted (item : Input → Except ReadError (α × Input)) :
    Nat → Input → Except ReadError (List α × Input)
  | 0, i => .ok ([], i)
  | n + 1, i => do
    let (a, i) ← item i
    let (as, i) ← readCounted item n i
    return (a :: as, i)

/-- Reads items up to a stop code. Every item takes at least one byte, so `n` items are all that `n`
bytes can hold. -/
def readUntilStop (item : Input → Except ReadError (α × Input)) :
    Nat → Input → Except ReadError (List α × Input)
  | 0, _ => .error .endOfInput
  | n + 1, i => do
    let (head, j) ← Head.read i
    if head = .stop then return ([], j)
    let (a, j) ← item (head.unread j)
    let (as, j) ← readUntilStop item n j
    return (a :: as, j)

/-- Reads the items after a head with the given length. -/
def readItems (item : Input → Except ReadError (α × Input)) (length : Option Nat) (i : Input) :
    Except ReadError (List α × Input) :=
  match length with
  | some n => readCounted item n i
  | none => readUntilStop item i.rest.length i

/-- Reads a byte string, or an array of numbers that are bytes. -/
def readByteString (i : Input) : Except ReadError (List UInt8 × Input) := do
  let (head, _, j) ← readUntagged i
  match head with
  | .bytes n => byteSink.segments 0 [] ((Head.bytes n).unread j)
  | .array n =>
    let (ns, j) ← readItems (readBelow 256 "u8") n j
    return (ns.map UInt8.ofNat, j)
  | head => throw (.rejected (.wrongType head "byte buffer"))

/-- What stands where an array is read for: an array with the elements that are still to come, or a
byte string, each byte of which is then an element. -/
inductive Sequence where
  | items (length : Option Nat)
  | bytes (s : List UInt8)

/-- Opens an array or what stands for one. -/
def readSequence (i : Input) : Except ReadError (Sequence × Input) := do
  let (head, _, j) ← readUntagged i
  match head with
  | .array n => return (.items n, j)
  | .bytes n =>
    let (s, j) ← byteSink.segments 0 [] ((Head.bytes n).unread j)
    return (.bytes s, j)
  | head => throw (.rejected (.wrongType head "array"))

/-- Reads one element of a sequence, if there is one more: from an array with `item`, from a byte
string with `ofByte`. -/
def Sequence.next (item : Input → Except ReadError (α × Input))
    (ofByte : UInt8 → Except ReadError α) (s : Sequence) (i : Input) :
    Except ReadError (Option α × Sequence × Input) :=
  match s with
  | .items (some 0) => .ok (none, s, i)
  | .items (some (n + 1)) => do
    let (a, i) ← item i
    return (some a, .items (some n), i)
  | .items none => do
    let (head, j) ← Head.read i
    if head = .stop then return (none, s, j)
    let (a, j) ← item (head.unread j)
    return (some a, s, j)
  | .bytes [] => .ok (none, s, i)
  | .bytes (b :: r) => do
    let a ← ofByte b
    return (some a, .bytes r, i)

/-- Reads the element with the given place of a tuple of the given size. -/
def Sequence.element (item : Input → Except ReadError (α × Input))
    (ofByte : UInt8 → Except ReadError α) (place size : Nat) (s : Sequence) (i : Input) :
    Except ReadError (α × Sequence × Input) := do
  match ← s.next item ofByte i with
  | (some a, s, i) => return (a, s, i)
  | (none, _, _) => throw (.rejected (.tooShort place size))

/-- An element of a byte string where no number is read for. -/
def refuseByte (wanted : String) (b : UInt8) : Except ReadError α :=
  .error (.rejected (.wrongElement b wanted))

end OnceProxy.Cbor
