import OnceProxy.Input
import OnceProxy.Json.Error
import OnceProxy.Json.Value
import OnceProxy.Number.Bytes

/-!
# Reading JSON

A reader of JSON texts with limited nesting, in which the first fault is reported.
-/

namespace OnceProxy.Json

variable {α : Type}

/-- A result, or a fault at a place. -/
abbrev Result (α : Type) := Except ReadError α

/-- Fails at the given place. -/
def fail (fault : Fault) (offset : Nat) : Result α :=
  .error ⟨fault, offset⟩

/-- The four blanks of JSON. -/
def isBlank (b : UInt8) : Bool :=
  b == 32 || b == 10 || b == 9 || b == 13

/-- A decimal digit. -/
def isDigit (b : UInt8) : Bool :=
  48 ≤ b && b ≤ 57

/-- The number of a decimal digit. -/
def digit (b : UInt8) : Nat :=
  b.toNat - 48

/-- The input after the bytes at its start that satisfy `p`. -/
def skipWhile (p : UInt8 → Bool) (i : Input) : Input :=
  i.skip (i.rest.takeWhile p).length

/-- The input after its blanks. -/
def skipBlanks (i : Input) : Input :=
  skipWhile isBlank i

/-- The next byte is a digit. -/
def atDigit (i : Input) : Bool :=
  i.next?.any isDigit

/-! ### Numbers -/

/-- Adds the next digits to a number, as long as it stays below `2 ^ 64`. -/
def takeDigits (n : Nat) : List UInt8 → Nat × Nat
  | [] => (n, 0)
  | b :: r =>
    if isDigit b ∧ 10 * n + digit b < wordLimit then
      let (m, k) := takeDigits (10 * n + digit b) r
      (m, k + 1)
    else (n, 0)

/-- The float of a significand below `2 ^ 64` and a power of ten. The significand is rounded first,
then multiplied or divided by the rounded power, in steps of `10 ^ 308` where it is too small for
one. None where the result is too large. -/
def scaled (x : Binary64) (e : Int) : Option Binary64 :=
  if x.magnitude = 0 then some x
  else if 0 ≤ e then
    if e ≤ 308 then
      let y := x.mul (.powerOfTen e.toNat)
      if y.isInfinite then none else some y
    else none
  else if -308 ≤ e then some (x.div (.powerOfTen (-e).toNat))
  else scaled (x.div (.powerOfTen 308)) (e + 308)
termination_by (-e).toNat

/-- The value of a number with the given sign, significand and power of ten. -/
def floatValue (negative : Bool) (n : Nat) (e : Int) (i : Input) : Result (Value × Input) :=
  match scaled (.ofInt n) e with
  | some x => .ok (.float (if negative then x.neg else x), i)
  | none => fail .numberOutOfRange i.offset

/-- The digits of an exponent below `2 ^ 31`. -/
def takeExponent (n : Nat) : List UInt8 → Nat × Nat
  | [] => (n, 0)
  | b :: r =>
    if isDigit b ∧ 10 * n + digit b < 0x80000000 then
      let (m, k) := takeExponent (10 * n + digit b) r
      (m, k + 1)
    else (n, 0)

/-- Reads the exponent of a number from its `e` on. One of `2 ^ 31` or more makes zero, or a number
out of range. -/
def readExponent (negative : Bool) (n : Nat) (e : Int) (i : Input) : Result (Value × Input) :=
  let i := i.skip 1
  let down := i.next? == some 45
  let i := if i.next? == some 43 || down then i.skip 1 else i
  match i.next? with
  | none => fail .endInValue i.offset
  | some b =>
    if !isDigit b then fail .invalidNumber (i.offset + 1)
    else
      let (m, k) := takeExponent 0 i.rest
      let j := i.skip k
      if atDigit j then
        if n ≠ 0 ∧ !down then fail .numberOutOfRange (j.offset + 1)
        else .ok (.float (.ofMagnitude negative 0), skipWhile isDigit j)
      else floatValue negative n (if down then e - m else e + m) j

/-- Reads what may follow the last digit of a number. -/
def readScale (negative : Bool) (n : Nat) (e : Int) (i : Input) : Result (Value × Input) :=
  match i.next? with
  | some 101 => readExponent negative n e i
  | some 69 => readExponent negative n e i
  | _ => floatValue negative n e i

/-- Reads the digits after the point of a number, from the point on. Those that would carry the
significand to `2 ^ 64` are dropped. -/
def readFraction (negative : Bool) (n : Nat) (e : Int) (i : Input) : Result (Value × Input) :=
  let i := i.skip 1
  let (m, k) := takeDigits n i.rest
  let j := i.skip k
  if atDigit j then readScale negative m (e - k) (skipWhile isDigit j)
  else if k = 0 then
    fail (if j.next?.isNone then .endInValue else .invalidNumber) j.afterNext
  else readScale negative m (e - k) j

/-- The value of a number without point and exponent; zero has a sign only as a float. -/
def integerValue (negative : Bool) (n : Nat) : Value :=
  if !negative then .integer n
  else if 0 < n ∧ n ≤ 0x8000000000000000 then .integer (-n)
  else .float (Binary64.ofInt n).neg

/-- Reads a number after its sign. -/
def readNumber (negative : Bool) (i : Input) : Result (Value × Input) :=
  match i.next? with
  | none => fail .endInValue i.offset
  | some b =>
    if !isDigit b then fail .invalidNumber (i.offset + 1)
    else
      let (n, k) := if b = 48 then (0, 1) else takeDigits 0 i.rest
      let j := i.skip k
      if b = 48 ∧ atDigit j then fail .invalidNumber j.afterNext
      else
        let long := skipWhile isDigit j
        let dropped := long.offset - j.offset
        match long.next? with
        | some 46 => readFraction negative n dropped long
        | some 101 => readExponent negative n dropped long
        | some 69 => readExponent negative n dropped long
        | _ =>
          if dropped = 0 then .ok (integerValue negative n, long)
          else floatValue negative n dropped long

/-! ### Strings -/

/-- The number of a hexadecimal digit. -/
def hexDigit? (b : UInt8) : Option Nat :=
  let n := b.toNat
  if 48 ≤ n ∧ n ≤ 57 then some (n - 48)
  else if 65 ≤ n ∧ n ≤ 70 then some (n - 55)
  else if 97 ≤ n ∧ n ≤ 102 then some (n - 87)
  else none

/-- Reads four hexadecimal digits. -/
def readHex (i : Input) : Result (Nat × Input) :=
  match i.rest with
  | a :: b :: c :: d :: _ =>
    match hexDigit? a, hexDigit? b, hexDigit? c, hexDigit? d with
    | some a, some b, some c, some d => .ok (a * 4096 + b * 256 + c * 16 + d, i.skip 4)
    | _, _, _, _ => fail .invalidEscape (i.offset + 4)
  | r => fail .endInString (i.offset + r.length)

/-- Reads a byte that must be `b` where a second surrogate is due. -/
def readSurrogateMark (b : UInt8) (i : Input) : Result Input :=
  match i.next? with
  | none => fail .endInString i.offset
  | some c => if c = b then .ok (i.skip 1) else fail .unfinishedSurrogates (i.offset + 1)

/-- Reads the code of a character after `\u`; a character above U+FFFF takes two codes. -/
def readCode (i : Input) : Result (Char × Input) := do
  let (n, i) ← readHex i
  if 0xDC00 ≤ n ∧ n ≤ 0xDFFF then fail .loneSurrogate i.offset
  else if 0xD800 ≤ n ∧ n ≤ 0xDBFF then
    let i ← readSurrogateMark 92 i
    let i ← readSurrogateMark 117 i
    let (m, i) ← readHex i
    if 0xDC00 ≤ m ∧ m ≤ 0xDFFF then
      return (Char.ofNat ((n - 0xD800) * 1024 + (m - 0xDC00) + 0x10000), i)
    else fail .loneSurrogate i.offset
  else return (Char.ofNat n, i)

/-- Reads an escape after its backslash. -/
def readEscape (i : Input) : Result (Char × Input) :=
  let short (c : Char) : Result (Char × Input) := .ok (c, i.skip 1)
  match i.next? with
  | none => fail .endInString i.offset
  | some 34 => short '"'
  | some 92 => short '\\'
  | some 47 => short '/'
  | some 98 => short (Char.ofNat 8)
  | some 102 => short (Char.ofNat 12)
  | some 110 => short '\n'
  | some 114 => short '\r'
  | some 116 => short '\t'
  | some 117 => readCode (i.skip 1)
  | some _ => fail .invalidEscape (i.offset + 1)

/-- A byte that stands for itself in a string. -/
def isPlain (b : UInt8) : Bool :=
  32 ≤ b && b != 34 && b != 92

/-- A part of a string: the bytes that stand for themselves, or the character of an escape. -/
inductive Piece where
  | plain (offset : Nat) (s : List UInt8)
  | escaped (c : Char)
  deriving Repr

/-- Reads a string after its first quote, in at most `n` pieces; `n` bytes have no more. -/
def readPieces : Nat → Input → Result (List Piece × Input)
  | 0, i => fail .endInString i.offset
  | n + 1, i => do
    let s := i.rest.takeWhile isPlain
    let j := i.skip s.length
    match j.next? with
    | none => fail .endInString j.offset
    | some 34 => return ([.plain i.offset s], j.skip 1)
    | some 92 =>
      let (c, j) ← readEscape (j.skip 1)
      let (ps, j) ← readPieces n j
      return (.plain i.offset s :: .escaped c :: ps, j)
    | some _ => fail .controlCharacter (j.offset + 1)

/-- The text of the pieces of a string. The first byte that is part of no character is at fault. -/
def textOfPieces : List Piece → Result (List Char)
  | [] => .ok []
  | .escaped c :: ps => (textOfPieces ps).map (c :: ·)
  | .plain offset s :: ps =>
    match Text.Utf8.decodeRun s with
    | (cs, []) => (textOfPieces ps).map (cs ++ ·)
    | (_, rest) => fail .invalidUnicode (offset + (s.length - rest.length) + 1)

/-- Reads a string after its first quote. -/
def readString (i : Input) : Result (String × Input) := do
  let (ps, i) ← readPieces (i.rest.length + 1) i
  return (String.ofList (← textOfPieces ps), i)

/-! ### Values -/

/-- Reads the letters of a name, after its first. -/
def readIdent : List UInt8 → Input → Result Input
  | [], i => .ok i
  | b :: bs, i =>
    match i.next? with
    | none => fail .endInValue i.offset
    | some c => if c = b then readIdent bs (i.skip 1) else fail .expectedIdent (i.offset + 1)

/-- Reads the elements of an array up to its end, in at most `n` steps; `first` says that none has
been read yet. -/
def readElements (element : Input → Result (α × Input)) :
    Nat → Bool → Input → Result (List α × Input)
  | 0, _, i => fail .endInList i.offset
  | n + 1, first, i => do
    let i := skipBlanks i
    match i.next? with
    | none => fail .endInList i.offset
    | some 93 => return ([], i.skip 1)
    | some b =>
      let i ←
        if first then pure i
        else if b ≠ 44 then fail .expectedListCommaOrEnd (i.offset + 1)
        else
          let j := skipBlanks (i.skip 1)
          match j.next? with
          | none => fail .endInValue j.offset
          | some 93 => fail .trailingComma (j.offset + 1)
          | some _ => pure j
      let (a, i) ← element i
      let (as, i) ← readElements element n false i
      return (a :: as, i)

/-- Reads the colon after the name of a member. -/
def readColon (i : Input) : Result Input :=
  let i := skipBlanks i
  match i.next? with
  | none => fail .endInObject i.offset
  | some 58 => .ok (i.skip 1)
  | some _ => fail .expectedColon (i.offset + 1)

/-- Reads the members of an object up to its end, in at most `n` steps; `first` says that none has
been read yet. -/
def readMembers (value : Input → Result (α × Input)) :
    Nat → Bool → Input → Result (List (String × α) × Input)
  | 0, _, i => fail .endInObject i.offset
  | n + 1, first, i => do
    let i := skipBlanks i
    match i.next? with
    | none => fail .endInObject i.offset
    | some 125 => return ([], i.skip 1)
    | some b =>
      let i ←
        if first then (if b = 34 then pure i else fail .keyMustBeString (i.offset + 1))
        else if b ≠ 44 then fail .expectedObjectCommaOrEnd (i.offset + 1)
        else
          let j := skipBlanks (i.skip 1)
          match j.next? with
          | none => fail .endInValue j.offset
          | some 34 => pure j
          | some 125 => fail .trailingComma (j.offset + 1)
          | some _ => fail .keyMustBeString (j.offset + 1)
      let (name, i) ← readString (i.skip 1)
      let (v, i) ← value (← readColon i)
      let (ms, i) ← readMembers value n false i
      return ((name, v) :: ms, i)

/-- Reads a value; arrays and objects may nest up to the given depth. -/
def Value.read : Nat → Input → Result (Value × Input)
  | depth, i => do
    let i := skipBlanks i
    let after := i.skip 1
    match i.next? with
    | none => fail .endInValue i.offset
    | some 110 => return (.null, ← readIdent [117, 108, 108] after)
    | some 116 => return (.bool true, ← readIdent [114, 117, 101] after)
    | some 102 => return (.bool false, ← readIdent [97, 108, 115, 101] after)
    | some 45 => readNumber true after
    | some 34 =>
      let (s, i) ← readString after
      return (.string s, i)
    | some 91 =>
      match depth with
      | 0 => fail .tooDeep (i.offset + 1)
      | d + 1 =>
        let (vs, i) ← readElements (Value.read d) (after.rest.length + 1) true after
        return (.array vs, i)
    | some 123 =>
      match depth with
      | 0 => fail .tooDeep (i.offset + 1)
      | d + 1 =>
        let (ms, i) ← readMembers (Value.read d) (after.rest.length + 1) true after
        return (.object (Table.ofList ms), i)
    | some b => if isDigit b then readNumber false i else fail .expectedValue (i.offset + 1)

/-- How deep arrays and objects may nest. -/
def depthLimit : Nat := 127

/-- Reads a whole text as one value, with blanks around it. -/
def Value.ofBytes (s : List UInt8) : Result Value := do
  let (v, i) ← Value.read depthLimit ⟨0, s⟩
  let i := skipBlanks i
  if i.rest.isEmpty then return v else fail .trailingCharacters (i.offset + 1)

end OnceProxy.Json
