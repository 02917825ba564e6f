import OnceProxy.Text.Utf8

/-!
# Percent-encoding

Bytes that may not stand in a part of a URL are written as `%` and two digits. Each part has a set
of such bytes of its own.
-/

namespace OnceProxy.Url.Percent

/-- The digit of a value below 16, in upper case. -/
def digit (n : Nat) : Char :=
  if n < 10 then Char.ofNat (48 + n) else Char.ofNat (55 + n)

/-- The value of a digit; letters of either case are the same. -/
def digitValue? (b : UInt8) : Option Nat :=
  let n := b.toNat
  if 48 ≤ n && n ≤ 57 then some (n - 48)
  else if 65 ≤ n && n ≤ 70 then some (n - 55)
  else if 97 ≤ n && n ≤ 102 then some (n - 87)
  else none

/-! ### Bytes that are encoded -/

/-- Control bytes and all that is not ASCII. -/
def controls (b : UInt8) : Bool :=
  b < 32 || 126 < b

/-- Whether a byte is one of the characters of a text. -/
def isOneOf (text : String) (b : UInt8) : Bool :=
  text.toList.any fun c => c.toNat = b.toNat

/-- What is encoded in a fragment. -/
def fragment (b : UInt8) : Bool :=
  controls b || isOneOf " \"<>\x60" b

/-- What is encoded in a path. -/
def path (b : UInt8) : Bool :=
  fragment b || isOneOf "#?^\x7b\x7d" b

/-- What is encoded in a user name or a password. -/
def userinfo (b : UInt8) : Bool :=
  path b || isOneOf "/:;=@[\\]|" b

/-- What is encoded in a query. -/
def query (b : UInt8) : Bool :=
  controls b || isOneOf " \"#<>" b

/-- What is encoded in a query of a special scheme. -/
def specialQuery (b : UInt8) : Bool :=
  query b || isOneOf "'" b

/-! ### Encoding and decoding -/

/-- A byte as it is written. -/
def encodeByte (set : UInt8 → Bool) (b : UInt8) : List Char :=
  if set b then ['%', digit (b.toNat / 16), digit (b.toNat % 16)] else [Char.ofNat b.toNat]

/-- Writes a text with the bytes of a set encoded. -/
def encode (set : UInt8 → Bool) (text : List Char) : List Char :=
  (Text.Utf8.encode text).flatMap (encodeByte set)

/-- Takes the encoding off. A `%` without two digits stands for itself. -/
def decode : List UInt8 → List UInt8
  | 37 :: a :: b :: rest =>
    match digitValue? a, digitValue? b with
    | some x, some y => UInt8.ofNat (16 * x + y) :: decode rest
    | _, _ => 37 :: decode (a :: b :: rest)
  | b :: rest => b :: decode rest
  | [] => []

/-- The bytes that a part of a URL stands for. -/
def bytes (part : List Char) : List UInt8 :=
  decode (Text.Utf8.encode part)

/-- The text that a part of a URL stands for, if its bytes are a text. -/
def text? (part : List Char) : Option String :=
  Text.Utf8.toString? (bytes part)

end OnceProxy.Url.Percent
