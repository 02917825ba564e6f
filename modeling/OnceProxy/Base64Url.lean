/-!
# Base64url without padding

Three bytes are four symbols. `decode` accepts the texts of `encode` alone.
-/

namespace OnceProxy.Base64Url

/-- Why a byte string is no unpadded base64url text. -/
inductive DecodeError where
  | invalidByte (offset : Nat) (byte : UInt8)
  | invalidLength
  | invalidLastSymbol (offset : Nat) (byte : UInt8)
  | invalidPadding
  deriving DecidableEq, Repr

/-- The wording of a decoding error. -/
def DecodeError.message : DecodeError → String
  | .invalidByte offset byte => s!"Invalid byte {byte}, offset {offset}."
  | .invalidLength => "Encoded text cannot have a 6-bit remainder."
  | .invalidLastSymbol offset byte => s!"Invalid last symbol {byte}, offset {offset}."
  | .invalidPadding => "Invalid padding"

/-- The padding sign, which a text never holds. -/
def pad : UInt8 := 61

/-- The symbol of a six-bit number. -/
def symbol (n : Nat) : UInt8 :=
  if n < 26 then UInt8.ofNat (65 + n)
  else if n < 52 then UInt8.ofNat (97 + (n - 26))
  else if n < 62 then UInt8.ofNat (48 + (n - 52))
  else if n = 62 then 45
  else 95

/-- The six-bit number of a symbol. -/
def value? (b : UInt8) : Option Nat :=
  let n := b.toNat
  if 65 ≤ n ∧ n ≤ 90 then some (n - 65)
  else if 97 ≤ n ∧ n ≤ 122 then some (n - 97 + 26)
  else if 48 ≤ n ∧ n ≤ 57 then some (n - 48 + 52)
  else if n = 45 then some 62
  else if n = 95 then some 63
  else none

theorem value?_symbol {n : Nat} (h : n < 64) : value? (symbol n) = some n := by
  revert n
  decide

/-- The six-bit numbers of a byte string, three bytes to four; the last is filled up with zeros. -/
def sextets : List UInt8 → List Nat
  | a :: b :: c :: r =>
    a.toNat / 4 :: (a.toNat % 4 * 16 + b.toNat / 16) :: (b.toNat % 16 * 4 + c.toNat / 64) ::
      c.toNat % 64 :: sextets r
  | [a, b] => [a.toNat / 4, a.toNat % 4 * 16 + b.toNat / 16, b.toNat % 16 * 4]
  | [a] => [a.toNat / 4, a.toNat % 4 * 16]
  | [] => []

/-- The bytes of six-bit numbers, four to three; what does not fill a byte is dropped. -/
def bytes : List Nat → List UInt8
  | a :: b :: c :: d :: r =>
    UInt8.ofNat (a * 4 + b / 16) :: UInt8.ofNat (b % 16 * 16 + c / 4) ::
      UInt8.ofNat (c % 4 * 64 + d) :: bytes r
  | [a, b, c] => [UInt8.ofNat (a * 4 + b / 16), UInt8.ofNat (b % 16 * 16 + c / 4)]
  | [a, b] => [UInt8.ofNat (a * 4 + b / 16)]
  | _ => []

/-- The bits of six-bit numbers that fill no byte are all zero. -/
def Tight (ns : List Nat) : Prop :=
  match ns.length % 4, ns.getLast? with
  | 2, some n => n % 16 = 0
  | 3, some n => n % 4 = 0
  | _, _ => True

instance (ns : List Nat) : Decidable (Tight ns) := by
  unfold Tight
  split <;> infer_instance

/-- The unpadded text of a byte string. -/
def encode (s : List UInt8) : List UInt8 :=
  (sextets s).map symbol

/-- The text of a byte string as a string. -/
def encodeString (s : List UInt8) : String :=
  String.ofList ((encode s).map fun b => Char.ofNat b.toNat)

/-- Reads symbols from the given offset on; a padding sign is no symbol. -/
def readSymbols (offset : Nat) : List UInt8 → Except DecodeError (List Nat)
  | [] => .ok []
  | b :: r =>
    match value? b with
    | none => .error (.invalidByte offset b)
    | some n => (readSymbols (offset + 1) r).map (n :: ·)

/-- Reads the closing group of up to eight bytes. `i` counts the bytes of the group before these,
and `padAt` is the place of its first padding sign. Padding may only stand third or fourth in a
group of four, with nothing but padding after it. -/
def readTail (start i : Nat) (padAt : Option Nat) :
    List UInt8 → Except DecodeError (List Nat × Option Nat)
  | [] => .ok ([], padAt)
  | b :: r =>
    if b = pad then
      if i % 4 < 2 then .error (.invalidByte (start + padAt.getD i) b)
      else readTail start (i + 1) (padAt.or (some i)) r
    else
      match padAt with
      | some p => .error (.invalidByte (start + p) pad)
      | none =>
        match value? b with
        | none => .error (.invalidByte (start + i) b)
        | some n => (readTail start (i + 1) none r).map fun (ns, p) => (n :: ns, p)

/-- The fault of a text whose length leaves one symbol over: a last byte that is no symbol is named
in preference to the length. -/
def remainderError (s : List UInt8) : DecodeError :=
  match s.getLast? with
  | some b =>
    if b ≠ pad ∧ value? b = none then .invalidByte (s.length - 1) b else .invalidLength
  | none => .invalidLength

/-- Reads an unpadded text. All groups of eight but the last are read first, then the last, then
its padding is refused, then what is left over of its last symbol. -/
def decode (s : List UInt8) : Except DecodeError (List UInt8) := do
  if s.length % 4 = 1 then throw (remainderError s)
  let start := (s.length - 1) / 8 * 8
  let front ← readSymbols 0 (s.take start)
  let (back, padAt) ← readTail start 0 none (s.drop start)
  if padAt.isSome then throw .invalidPadding
  if ¬ Tight back then
    throw (.invalidLastSymbol (start + back.length - 1) (symbol (back.getLast?.getD 0)))
  return bytes (front ++ back)

end OnceProxy.Base64Url
