import OnceProxy.Crypto.Power
import OnceProxy.Crypto.Sha2

/-!
# Ed25519

Signatures over the twisted Edwards curve modulo `2 ^ 255 - 19`.
-/

namespace OnceProxy.Ed25519

open Bytes

/-- The prime of the field. -/
abbrev prime : Nat := Nat.pow 2 255 - 19

/-- The prime order of the base point. -/
def order : Nat := Nat.pow 2 252 + 27742317777372353535851937790883648493

/-- An element of the field. -/
abbrev Field := Fin prime

instance : @NeZero Nat Zero.ofOfNat0 prime := ⟨by decide⟩

/-- The inverse of an element; that of zero is zero. -/
def inverse (x : Field) : Field :=
  power 1 x (prime - 2)

/-- The constant of the curve `-x² + y² = 1 + d x² y²`. -/
def curve : Field :=
  -121665 * inverse 121666

/-- A square root of `-1`. -/
def rootOfMinusOne : Field :=
  power 1 2 ((prime - 1) / 4)

/-- A point of the curve in extended coordinates: `x / z`, `y / z`, and `x y = z t`. -/
structure Point where
  x : Field
  y : Field
  z : Field
  t : Field
  deriving DecidableEq, Repr

namespace Point

/-- The neutral point. -/
def zero : Point := ⟨0, 1, 1, 0⟩

/-- The sum of two points; one formula serves all pairs. -/
def add (p q : Point) : Point :=
  let a := (p.y - p.x) * (q.y - q.x)
  let b := (p.y + p.x) * (q.y + q.x)
  let c := 2 * curve * p.t * q.t
  let d := 2 * p.z * q.z
  let e := b - a
  let f := d - c
  let g := d + c
  let h := b + a
  ⟨e * f, g * h, f * g, e * h⟩

/-- The opposite point. -/
def neg (p : Point) : Point :=
  ⟨-p.x, p.y, p.z, -p.t⟩

/-- The sum of `k` copies of a point. -/
def times (k : Nat) (p : Point) : Point :=
  multiple zero add k p

/-- The 32 bytes of a point: `y`, lowest byte first, with the parity of `x` in the top bit. -/
def encode (p : Point) : List UInt8 :=
  let zi := inverse p.z
  let x := p.x * zi
  let y := p.y * zi
  littleEndian 32 (y.val + x.val % 2 * Nat.pow 2 255)

/-- The even root of `u / v`, if there is one. -/
def rootOfRatio? (u v : Field) : Option Field :=
  let r := u * power 1 v 3 * power 1 (u * power 1 v 7) ((prime - 5) / 8)
  let check := v * r * r
  let even (r : Field) : Field := if r.val % 2 = 0 then r else -r
  if check = u then some (even r)
  else if check = -u then some (even (r * rootOfMinusOne))
  else none

/-- Reads 32 bytes as a point. A `y` above the prime is reduced, and the parity bit of `x = 0` does
not matter. -/
def decode? (s : List UInt8) : Option Point :=
  let n := ofLittleEndian s
  let y : Field := Fin.ofNat prime (n % Nat.pow 2 255)
  (rootOfRatio? (y * y - 1) (curve * y * y + 1)).map fun r =>
    let x := if Nat.pow 2 255 ≤ n then -r else r
    ⟨x, y, 1, x * y⟩

/-- The order of the point divides eight. -/
def isSmall (p : Point) : Bool :=
  let q := p.times 8
  q.x = 0 && q.y = q.z

end Point

/-- The base point, with even `x` and `y = 4 / 5`. -/
def base : Point :=
  (Point.decode? (littleEndian 32 (4 * inverse 5).val)).getD .zero

/-- The scalar of a hash: its number, lowest byte first, modulo the order. -/
def scalarOfHash (s : List UInt8) : Nat :=
  ofLittleEndian (Sha2.digest512 s) % order

/-- The secret scalar of a 32-byte seed, and the bytes that its nonces are made of. -/
def expandSeed (seed : List UInt8) : Nat × List UInt8 :=
  let h := Sha2.digest512 seed
  let n := ofLittleEndian (h.take 32)
  (n % Nat.pow 2 254 / 8 * 8 + Nat.pow 2 254, h.drop 32)

/-- The 32 bytes of the public key of a seed. -/
def publicKey (seed : List UInt8) : List UInt8 :=
  (base.times (expandSeed seed).1).encode

/-- The 64 bytes of a signature. -/
def sign (seed message : List UInt8) : List UInt8 :=
  let (secret, nonces) := expandSeed seed
  let r := scalarOfHash (nonces ++ message)
  let commitment := (base.times r).encode
  let k := scalarOfHash (commitment ++ publicKey seed ++ message)
  commitment ++ littleEndian 32 ((r + k * secret) % order)

/-- A public key: its 32 bytes as they were given, and the point that they encode. -/
structure PublicKey where
  bytes : List UInt8
  point : Point
  deriving DecidableEq, Repr

/-- Reads the 32 bytes of a public key. -/
def PublicKey.ofBytes? (s : List UInt8) : Option PublicKey :=
  (Point.decode? s).map (⟨s, ·⟩)

/-- Whether 64 bytes are a signature of a message, strictly: the scalar is reduced, neither point
has a small order, and the commitment comes out byte for byte. -/
def PublicKey.verifies (key : PublicKey) (message signature : List UInt8) : Bool :=
  let commitment := signature.take 32
  let s := ofLittleEndian (signature.drop 32)
  match Point.decode? commitment with
  | none => false
  | some r =>
    s < order && !r.isSmall && !key.point.isSmall &&
      let k := scalarOfHash (commitment ++ key.bytes ++ message)
      ((base.times s).add (key.point.neg.times k)).encode == commitment

end OnceProxy.Ed25519
