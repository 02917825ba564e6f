import OnceProxy.Input
import OnceProxy.Number.Bytes
import OnceProxy.Number.Shortest

/-!
# Heads of data items

The first bytes of a data item, which tell its kind and its length or value.
-/

namespace OnceProxy.Cbor

open Bytes

/-- What starts a data item. A length of `none` leaves the end to a later stop code, and a float is
held in double precision whatever its written width. -/
inductive Head where
  | positive (n : Nat)
  | negative (n : Nat)
  | bytes (length : Option Nat)
  | text (length : Option Nat)
  | array (length : Option Nat)
  | map (length : Option Nat)
  | tag (n : Nat)
  | simple (n : Nat)
  | float (x : Binary64)
  | stop
  deriving DecidableEq, Repr

/-- A first byte of the given major type with the shortest form of an argument below `2 ^ 64`. -/
def encodeArgument (major n : Nat) : List UInt8 :=
  let first (k : Nat) := UInt8.ofNat (major * 32 + k)
  if n < 24 then [first n]
  else if n < 0x100 then first 24 :: bigEndian 1 n
  else if n < 0x10000 then first 25 :: bigEndian 2 n
  else if n < 0x100000000 then first 26 :: bigEndian 4 n
  else first 27 :: bigEndian 8 n

/-- A first byte with the length of an item, or with the mark of an open end. -/
def encodeLength (major : Nat) : Option Nat → List UInt8
  | some n => encodeArgument major n
  | none => [UInt8.ofNat (major * 32 + 31)]

/-- The bytes of a head in shortest form. A float takes the least width that keeps it. -/
def Head.encode : Head → List UInt8
  | .positive n => encodeArgument 0 n
  | .negative n => encodeArgument 1 n
  | .bytes n => encodeLength 2 n
  | .text n => encodeLength 3 n
  | .array n => encodeLength 4 n
  | .map n => encodeLength 5 n
  | .tag n => encodeArgument 6 n
  | .simple n => if n < 24 then [UInt8.ofNat (0xE0 + n)] else [0xF8, UInt8.ofNat n]
  | .float x =>
    match x.toHalf?, x.toSingle? with
    | some n, _ => 0xF9 :: bigEndian 2 n
    | none, some n => 0xFA :: bigEndian 4 n
    | none, none => 0xFB :: bigEndian 8 x.bits.toNat
  | .stop => [0xFF]

/-- The input that starts with a head again, now in shortest form. After a head that was written
longer, the offsets up to its end run ahead by the difference. -/
def Head.unread (h : Head) (i : Input) : Input :=
  ⟨i.offset - h.encode.length, h.encode ++ i.rest⟩

end OnceProxy.Cbor
