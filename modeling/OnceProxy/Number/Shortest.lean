import OnceProxy.Number.Binary64

/-!
# Shortest decimals

The decimal of fewest digits that reads back as a given float.
-/

namespace OnceProxy

/-- The decimal number `digits * 10 ^ exponent`. -/
structure Decimal where
  digits : Nat
  exponent : Int
  deriving DecidableEq, Repr

/-- Where a number goes that lies half way between two decimals. -/
inductive Tie where
  | even
  | up
  deriving DecidableEq, Repr

namespace Binary64

private def pow (b : Nat) (e : Int) : Nat :=
  Nat.pow b e.toNat

/-- The multiple of `10 ^ p` that reads back as the finite number `x` and is nearest to it, if one
reads back. The decimals that read back lie between half a unit below and half a unit above, a
quarter below where the unit halves; the ends count if the significand is even. -/
def onGrid? (tie : Tie) (x : Binary64) (p : Int) : Option Nat :=
  let m := x.significand
  let q := x.scale - 2
  let a := pow 2 q * pow 10 (-p)
  let b := pow 10 p * pow 2 (-q)
  let value := 4 * m * a
  let low := (4 * m - if m = fractionLimit && 1 < x.exponentBits then 1 else 2) * a
  let high := (4 * m + 2) * a
  let inside (c : Nat) : Bool :=
    if m % 2 = 0 then low ≤ c * b && c * b ≤ high else low < c * b && c * b < high
  let c := value / b
  match inside c, inside (c + 1) with
  | false, false => none
  | true, false => some c
  | false, true => some (c + 1)
  | true, true =>
    let below := value - c * b
    let above := (c + 1) * b - value
    if below < above then some c
    else if above < below then some (c + 1)
    else match tie with
      | .even => some (c + c % 2)
      | .up => some (c + 1)

/-- Searches `n + 1` grids, from the exponent `p` downwards, for the first that holds a decimal that
reads back. -/
def coarsest (tie : Tie) (x : Binary64) (p : Int) : Nat → Decimal
  | 0 => ⟨(x.onGrid? tie p).getD 0, p⟩
  | n + 1 =>
    match x.onGrid? tie p with
    | some c => ⟨c, p⟩
    | none => coarsest tie x (p - 1) n

/-- The decimal of fewest digits that reads back as the magnitude of a finite number, the nearest of
those. No grid above `10 ^ 309` holds one, and that of `10 ^ -324` holds one for every number. -/
def shortest (tie : Tie) (x : Binary64) : Decimal :=
  if x.magnitude = 0 then ⟨0, 0⟩ else coarsest tie x 309 (309 + 342)

end Binary64

/-- The digits of a decimal without an exponent, and with a point only where digits follow it. -/
def Decimal.positional (d : Decimal) : String :=
  let s := (toString d.digits).toList
  if 0 ≤ d.exponent then String.ofList (s ++ List.replicate d.exponent.toNat '0')
  else
    let places := (-d.exponent).toNat
    let s := List.replicate (places + 1 - s.length) '0' ++ s
    String.ofList (s.take (s.length - places) ++ '.' :: s.drop (s.length - places))

end OnceProxy
