import OnceProxy.Crypto.Power
import OnceProxy.Crypto.Sha2

/-!
# Signatures over secp256k1

ECDSA with nonces that are computed from the secret and the digest, and with small second halves.
-/

namespace OnceProxy.Secp256k1

open Bytes

/-- The prime of the field. -/
abbrev prime : Nat := Nat.pow 2 256 - 0x1000003D1

/-- The prime order of the curve. -/
abbrev order : Nat := Nat.pow 2 256 - 432420386565659656852420866394968145599

/-- An element of the field. -/
abbrev Field := Fin prime

/-- A number modulo the order. -/
abbrev Scalar := Fin order

instance : @NeZero Nat Zero.ofOfNat0 prime := ⟨by decide⟩

instance : @NeZero Nat Zero.ofOfNat0 order := ⟨by decide⟩

/-- The inverse of an element; that of zero is zero. -/
def inverse (x : Field) : Field :=
  power 1 x (prime - 2)

/-- The inverse modulo the order; that of zero is zero. -/
def scalarInverse (x : Scalar) : Scalar :=
  power 1 x (order - 2)

/-- A point of the curve `y² = x³ + 7` in homogeneous coordinates `x / z`, `y / z`. -/
structure Point where
  x : Field
  y : Field
  z : Field
  deriving DecidableEq, Repr

namespace Point

/-- The point at infinity. -/
def zero : Point := ⟨0, 1, 0⟩

/-- The sum of two points; one formula serves all pairs. -/
def add (p q : Point) : Point :=
  let xx := p.x * q.x
  let yy := p.y * q.y
  let zz := 21 * (p.z * q.z)
  let xy := p.x * q.y + p.y * q.x
  let yz := p.y * q.z + p.z * q.y
  let xz := 21 * (p.x * q.z + p.z * q.x)
  ⟨xy * (yy - zz) - yz * xz, (yy + zz) * (yy - zz) + xz * (3 * xx), (yy + zz) * yz + 3 * xx * xy⟩

/-- The sum of `k` copies of a point. -/
def times (k : Nat) (p : Point) : Point :=
  multiple zero add k p

/-- The affine coordinates of a point; zeros for the point at infinity. -/
def affine (p : Point) : Field × Field :=
  let zi := inverse p.z
  (p.x * zi, p.y * zi)

/-- The 33 bytes of a point: the parity of `y`, then `x`. -/
def compressed (p : Point) : List UInt8 :=
  let (x, y) := p.affine
  UInt8.ofNat (2 + y.val % 2) :: bigEndian 32 x.val

/-- The 65 bytes of a point: a mark, `x` and `y`. -/
def uncompressed (p : Point) : List UInt8 :=
  let (x, y) := p.affine
  4 :: bigEndian 32 x.val ++ bigEndian 32 y.val

/-- Reads an element of the field from 32 bytes that write a number below the prime. -/
def field? (s : List UInt8) : Option Field :=
  let n := ofBigEndian s
  if h : n < prime then some ⟨n, h⟩ else none

/-- The point with the given `x` and parity of `y`, if there is one. -/
def ofX? (x : Field) (odd : Bool) : Option Point :=
  let square := x * x * x + 7
  let y := power 1 square ((prime + 1) / 4)
  if y * y = square then some ⟨x, if (y.val % 2 == 1) = odd then y else -y, 1⟩ else none

/-- Reads a point in one of its written forms: mark 2 or 3 and `x`, mark 5 and `x` for an even `y`,
or mark 4 and both coordinates. The point at infinity is refused. -/
def decode? : List UInt8 → Option Point
  | mark :: s =>
    if (mark = 2 ∨ mark = 3 ∨ mark = 5) ∧ s.length = 32 then do
      ofX? (← field? s) (mark == 3)
    else if mark = 4 ∧ s.length = 64 then do
      let x ← field? (s.take 32)
      let y ← field? (s.drop 32)
      if y * y = x * x * x + 7 then some ⟨x, y, 1⟩ else none
    else none
  | [] => none

end Point

/-- The base point. -/
def base : Point :=
  ⟨0x79BE667EF9DCBBAC55A06295CE870B07029BFCDB2DCE28D959F2815B16F81798,
    0x483ADA7726A3C4655DA4FBFC0E1108A8FD17B448A68554199C47D08FFB10D4B8, 1⟩

/-- A signature: two numbers modulo the order, neither of them zero. -/
structure Signature where
  r : Scalar
  s : Scalar
  deriving DecidableEq, Repr

/-- Reads a number modulo the order from 32 bytes; zero and what is not below the order is
refused. -/
def scalar? (s : List UInt8) : Option Scalar :=
  let n := ofBigEndian s
  if h : n < order then (if n = 0 then none else some ⟨n, h⟩) else none

/-- Reads the 64 bytes of a signature. -/
def Signature.ofBytes? (s : List UInt8) : Option Signature :=
  if s.length = 64 then do return ⟨← scalar? (s.take 32), ← scalar? (s.drop 32)⟩ else none

/-- The 64 bytes of a signature. -/
def Signature.toBytes (g : Signature) : List UInt8 :=
  bigEndian 32 g.r.val ++ bigEndian 32 g.s.val

/-- The number of a digest. -/
def ofDigest (digest : List UInt8) : Scalar :=
  Fin.ofNat order (ofBigEndian digest)

/-- A number in the upper half of the order. -/
def isHigh (s : Scalar) : Bool :=
  order / 2 < s.val

/-- Whether a signature of a digest holds for the public point; of the two numbers `s` and `-s` only
the lower is admitted. -/
def Point.verifies (key : Point) (digest : List UInt8) (g : Signature) : Bool :=
  !isHigh g.s &&
    let w := scalarInverse g.s
    let u := ofDigest digest * w
    let v := g.r * w
    let p := (base.times u.val).add (key.times v.val)
    Fin.ofNat order p.affine.1.val == g.r

/-- The nonce of a secret and a digest: a chain of keyed digests, from which the first number that
is neither zero nor above the order is taken, in at most `n + 1` tries. -/
def nonceFrom (key value : List UInt8) : Nat → Option Scalar
  | 0 => none
  | n + 1 =>
    let value := Sha2.keyed256 key value
    match scalar? value with
    | some k => some k
    | none =>
      let key := Sha2.keyed256 key (value ++ [0])
      nonceFrom key (Sha2.keyed256 key value) n

/-- The number of tries for a nonce. A try fails with a probability below `2 ^ -127`. -/
def nonceTries : Nat := 64

/-- The nonce of a secret and a digest. -/
def nonce? (secret : Scalar) (digest : List UInt8) : Option Scalar :=
  let seed := bigEndian 32 secret.val ++ bigEndian 32 (ofDigest digest).val
  let value := List.replicate 32 1
  let key := Sha2.keyed256 (List.replicate 32 0) (value ++ 0 :: seed)
  let value := Sha2.keyed256 key value
  let key := Sha2.keyed256 key (value ++ 1 :: seed)
  nonceFrom key (Sha2.keyed256 key value) nonceTries

/-- Signs a digest. The lower of `s` and `-s` is taken; a signature with a zero is none. -/
def sign? (secret : Scalar) (digest : List UInt8) : Option Signature := do
  let k ← nonce? secret digest
  let r : Scalar := Fin.ofNat order (base.times k.val).affine.1.val
  let s := scalarInverse k * (ofDigest digest + r * secret)
  if r = 0 ∨ s = 0 then none else some ⟨r, if isHigh s then -s else s⟩

/-- The public point of a secret. -/
def publicPoint (secret : Scalar) : Point :=
  let (x, y) := (base.times secret.val).affine
  ⟨x, y, 1⟩

end OnceProxy.Secp256k1
