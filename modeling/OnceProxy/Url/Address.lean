/-!
# Numeric addresses

Addresses of four bytes, whose parts may be decimal, octal or hexadecimal, and addresses of eight
pieces of sixteen bits.
-/

namespace OnceProxy.Url

/-- The parts of a text between dots. -/
def splitDots (text : List Char) : List (List Char) :=
  text.splitOn '.'

/-! ### Four bytes -/

namespace Ipv4

/-- A digit of a base. -/
def isDigit (base : Nat) (c : Char) : Bool :=
  let c := c.toLower
  if base = 16 then c.isDigit || ('a' ≤ c && c ≤ 'f') else '0' ≤ c && c.toNat < 48 + base

/-- The value of a digit. -/
def digitValue (c : Char) : Nat :=
  if c.isDigit then c.toNat - 48 else c.toLower.toNat - 87

/-- The base that a number is written in, and its digits. -/
def base : List Char → Nat × List Char
  | '0' :: 'x' :: digits => (16, digits)
  | '0' :: 'X' :: digits => (16, digits)
  | '0' :: c :: digits => (8, c :: digits)
  | digits => (10, digits)

/-- Reads a number of an address. It may be too large for one. -/
def number? (text : List Char) : Option Nat :=
  let (base, digits) := base text
  if text.isEmpty || !digits.all (isDigit base) then none
  else some (digits.foldl (fun n c => n * base + digitValue c) 0)

/-- Whether the last part of a name is a number, so that the name has to be an address. -/
def endsInNumber (text : List Char) : Bool :=
  let last := match (splitDots text).reverse with
    | [] :: last :: _ => last
    | last :: _ => last
    | [] => []
  (!last.isEmpty && last.all (·.isDigit)) || (number? last).isSome

/-- The number of an address of which the last part fills all bytes that the others leave. -/
def join : List Nat → Nat → Option Nat
  | [], _ => none
  | [last], free => if last < Nat.pow 256 free then some last else none
  | n :: ns, free =>
    if n < 256 then (join ns (free - 1)).map (n * Nat.pow 256 (free - 1) + ·) else none

/-- Reads an address. A dot at its end does not matter. -/
def ofText? (text : List Char) : Option Nat := do
  let parts := splitDots text
  let parts := if parts.getLast? = some [] then parts.dropLast else parts
  if 4 < parts.length then none
  join (← parts.mapM number?) 4

/-- The text of an address. -/
def toText (n : Nat) : List Char :=
  ['.'].intercalate ([n / 0x1000000, n / 0x10000 % 256, n / 256 % 256, n % 256].map
    (Nat.toDigits 10))

end Ipv4

/-! ### Eight pieces -/

namespace Ipv6

/-- A piece of at most four digits, and what follows it. -/
def piece (text : List Char) : List Char × List Char :=
  let digits := (text.take 4).takeWhile (Ipv4.isDigit 16)
  (digits, text.drop digits.length)

theorem length_piece_le (text : List Char) : (piece text).2.length ≤ text.length := by
  simp [piece]

/-- The value of hexadecimal digits. -/
def value (digits : List Char) : Nat :=
  digits.foldl (fun n c => n * 16 + Ipv4.digitValue c) 0

/-- A decimal number below 256 without needless zeros. -/
def byte? (digits : List Char) : Option Nat :=
  let n := Nat.ofDigitChars 10 digits 0
  if digits.isEmpty || !digits.all (·.isDigit) || 255 < n then none
  else if digits.head? = some '0' && digits.length ≠ 1 then none
  else some n

/-- The last two pieces, written as four bytes. -/
def bytes? (text : List Char) : Option (List Nat) := do
  match ← (splitDots text).mapM byte? with
  | [a, b, c, d] => some [256 * a + b, 256 * c + d]
  | _ => none

/-- The pieces that have been read, with the place of the gap that a double colon leaves. The gap
stands for at least one piece, which is among them. -/
structure Pieces where
  list : List Nat
  gap : Option Nat

/-- Adds the pieces of a text, at the start of which a piece or the second colon of two is due. -/
def Pieces.read (p : Pieces) (text : List Char) : Option Pieces :=
  match text with
  | [] => some p
  | c :: cs =>
    if 8 ≤ p.list.length then none
    else if c = ':' then
      if p.gap.isSome then none else read ⟨p.list ++ [0], some (p.list.length + 1)⟩ cs
    else
      let next := piece (c :: cs)
      if next.1.isEmpty then none
      else
        match _h : next.2 with
        | [] => some { p with list := p.list ++ [value next.1] }
        | '.' :: _ =>
          if 6 < p.list.length then none
          else (bytes? (c :: cs)).map fun last => { p with list := p.list ++ last }
        | ':' :: d :: ds => read { p with list := p.list ++ [value next.1] } (d :: ds)
        | _ => none
termination_by text.length
decreasing_by
  · simp
  · have := length_piece_le (c :: cs)
    simp only [next] at _h
    rw [_h] at this
    simp only [List.length_cons] at this ⊢
    omega

/-- The eight pieces, with zeros in the gap. -/
def Pieces.fill? (p : Pieces) : Option (List Nat) :=
  match p.gap with
  | none => if p.list.length = 8 then some p.list else none
  | some gap =>
    some (p.list.take gap ++ List.replicate (8 - p.list.length) 0 ++ p.list.drop gap)

/-- Reads an address. -/
def ofText? (text : List Char) : Option (List Nat) := do
  let p ← match text with
    | ':' :: ':' :: rest => Pieces.read ⟨[0], some 1⟩ rest
    | ':' :: _ => none
    | [_] => none
    | [] => none
    | text => Pieces.read ⟨[], none⟩ text
  p.fill?

/-- The number of zeros at the start. -/
def zeros (pieces : List Nat) : Nat :=
  (pieces.takeWhile (· = 0)).length

/-- The first of the longest runs of zeros, with its place and its length. -/
def longestZeros (place : Nat) : List Nat → Nat × Nat
  | [] => (place, 0)
  | n :: ns =>
    let here := zeros (n :: ns)
    let later := longestZeros (place + 1) ns
    if later.2 ≤ here then (place, here) else later

/-- The text of an address. Two colons stand for the longest run of several zeros. -/
def toText (pieces : List Nat) : List Char :=
  let written (ns : List Nat) : List Char := [':'].intercalate (ns.map (Nat.toDigits 16))
  let (place, count) := longestZeros 0 pieces
  if count < 2 then written pieces
  else written (pieces.take place) ++ [':', ':'] ++ written (pieces.drop (place + count))

end Ipv6

end OnceProxy.Url
