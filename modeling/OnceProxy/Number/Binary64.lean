/-!
# Floats of double precision

Floats by their bits, with arithmetic that is exact up to one rounding to the nearest.
-/

namespace OnceProxy

/-- A double-precision number, by its 64 bits: sign, eleven exponent bits, 52 fraction bits. -/
structure Binary64 where
  bits : UInt64
  deriving DecidableEq, Repr

namespace Binary64

/-- The patterns of magnitudes lie below this, which is the sign bit. -/
abbrev magnitudeLimit : Nat := 0x8000000000000000

/-- The fractions lie below this, which is the leading bit of the significand. -/
abbrev fractionLimit : Nat := 0x10000000000000

/-- The pattern with the given sign and the low 63 bits of `n`. -/
def ofMagnitude (negative : Bool) (n : Nat) : Binary64 :=
  ⟨UInt64.ofNat (n % magnitudeLimit + if negative then magnitudeLimit else 0)⟩

/-- All bits but the sign, as a number. -/
def magnitude (x : Binary64) : Nat :=
  x.bits.toNat % magnitudeLimit

/-- The sign bit. -/
def isNegative (x : Binary64) : Bool :=
  magnitudeLimit ≤ x.bits.toNat

/-- The exponent bits. -/
def exponentBits (x : Binary64) : Nat :=
  x.magnitude / fractionLimit

/-- The fraction bits. -/
def fraction (x : Binary64) : Nat :=
  x.magnitude % fractionLimit

/-- The magnitude of infinity. Larger magnitudes are no numbers. -/
def infinite : Nat :=
  0x7FF * fractionLimit

/-- Not a number. -/
def isNaN (x : Binary64) : Bool :=
  infinite < x.magnitude

/-- Infinity of either sign. -/
def isInfinite (x : Binary64) : Bool :=
  x.magnitude == infinite

/-- The integer `m` of a finite number `m * 2 ^ q`. -/
def significand (x : Binary64) : Nat :=
  if x.exponentBits = 0 then x.fraction else fractionLimit + x.fraction

/-- The exponent `q` of a finite number `m * 2 ^ q`. -/
def scale (x : Binary64) : Int :=
  if x.exponentBits = 0 then -1074 else (x.exponentBits : Int) - 1075

/-- The power of two with exponent `e`, where it is an integer, and one otherwise. -/
private def pow2 (e : Int) : Nat :=
  Nat.pow 2 e.toNat

/-- The quotient rounded to the nearest integer; a half goes to the even neighbour. -/
def divNearest (a b : Nat) : Nat :=
  let q := a / b
  let r := a % b
  if 2 * r < b then q
  else if b < 2 * r then q + 1
  else q + q % 2

/-- The number nearest to `a / b` for `b` above zero, a half going to the even neighbour; infinity
from half a unit above the largest number on. -/
def ofRatio (negative : Bool) (a b : Nat) : Binary64 :=
  if a = 0 then ofMagnitude negative 0
  else
    let low : Int := (a.log2 : Int) - (b.log2 : Int) - 53
    let wide := a * pow2 (-low) / (b * pow2 low)
    let e := max (-1074) (if wide < 2 * fractionLimit then low else low + 1)
    let m := divNearest (a * pow2 (-e)) (b * pow2 e)
    ofMagnitude negative (min infinite ((e + 1074).toNat * fractionLimit + m))

/-- The number nearest to an integer. -/
def ofInt (n : Int) : Binary64 :=
  ofRatio (n < 0) n.natAbs 1

/-- The product of two finite numbers, rounded once. -/
def mul (x y : Binary64) : Binary64 :=
  let q := x.scale + y.scale
  ofRatio (x.isNegative != y.isNegative) (x.significand * y.significand * pow2 q) (pow2 (-q))

/-- The quotient of two finite numbers, rounded once; the divisor is not zero. -/
def div (x y : Binary64) : Binary64 :=
  let q := x.scale - y.scale
  ofRatio (x.isNegative != y.isNegative) (x.significand * pow2 q) (y.significand * pow2 (-q))

/-- The number nearest to a power of ten. -/
def powerOfTen (e : Nat) : Binary64 :=
  ofRatio false (Nat.pow 10 e) 1

/-- The same number with the other sign. -/
def neg (x : Binary64) : Binary64 :=
  ofMagnitude (!x.isNegative) x.magnitude

/-- Widens a pattern of `e` exponent bits and `f` fraction bits. What is no number keeps its leading
fraction bits and becomes quiet. -/
def widen (e f : Nat) (negative : Bool) (n : Nat) : Binary64 :=
  let top := Nat.pow 2 e - 1
  let exponent := n / Nat.pow 2 f % Nat.pow 2 e
  let fraction := n % Nat.pow 2 f
  if exponent = top then
    if fraction = 0 then ofMagnitude negative infinite
    else
      let kept := fraction * Nat.pow 2 (52 - f)
      ofMagnitude negative (infinite + if 2 * kept < fractionLimit then kept + fractionLimit / 2 else kept)
  else
    let m := if exponent = 0 then fraction else Nat.pow 2 f + fraction
    let q : Int := (max 1 exponent : Nat) - (Nat.pow 2 (e - 1) - 1 : Nat) - f
    ofRatio negative (m * pow2 q) (pow2 (-q))

/-- Reads half precision. -/
def ofHalf (n : Nat) : Binary64 :=
  widen 5 10 (0x8000 ≤ n % 0x10000) (n % 0x8000)

/-- Reads single precision. -/
def ofSingle (n : Nat) : Binary64 :=
  widen 8 23 (0x80000000 ≤ n % 0x100000000) (n % 0x80000000)

/-- The nearest pattern of `e` exponent bits and `f` fraction bits, cut off and not rounded where it
is not exact. -/
def narrow (e f : Nat) (x : Binary64) : Nat :=
  let sign := if x.isNegative then Nat.pow 2 (e + f) else 0
  let top := (Nat.pow 2 e - 1) * Nat.pow 2 f
  if infinite ≤ x.magnitude then sign + top + x.fraction / Nat.pow 2 (52 - f)
  else
    let q : Int := x.scale + 52 - f
    let least : Int := 2 - (Nat.pow 2 (e - 1) : Nat) - f
    let m := x.significand / Nat.pow 2 (52 - f)
    if q < least then sign + m / pow2 (least - q)
    else if x.significand < fractionLimit then sign
    else sign + min top ((q - least).toNat * Nat.pow 2 f + m)

/-- Half precision, where it holds the number exactly. -/
def toHalf? (x : Binary64) : Option Nat :=
  let n := narrow 5 10 x
  if ofHalf n = x then some n else none

/-- Single precision, where it holds the number exactly. -/
def toSingle? (x : Binary64) : Option Nat :=
  let n := narrow 8 23 x
  if ofSingle n = x then some n else none

end Binary64

end OnceProxy
