/-!
# Numbers as bytes

Numbers of a fixed width, with the highest or the lowest byte first.
-/

namespace OnceProxy

/-- The numbers of 64 bits lie below this. -/
abbrev wordLimit : Nat := 0x10000000000000000

namespace Bytes

/-- The last `width` bytes of a number, highest first. -/
def bigEndian (width n : Nat) : List UInt8 :=
  match width with
  | 0 => []
  | w + 1 => UInt8.ofNat (n / Nat.pow 256 w % 256) :: bigEndian w n

/-- The number that bytes write, highest first. -/
def ofBigEndian (s : List UInt8) : Nat :=
  s.foldl (fun n b => n * 256 + b.toNat) 0

/-- The last `width` bytes of a number, lowest first. -/
def littleEndian (width n : Nat) : List UInt8 :=
  match width with
  | 0 => []
  | w + 1 => UInt8.ofNat (n % 256) :: littleEndian w (n / 256)

/-- The number that bytes write, lowest first. -/
def ofLittleEndian (s : List UInt8) : Nat :=
  s.foldr (fun b n => n * 256 + b.toNat) 0

@[simp] theorem length_bigEndian (width n : Nat) : (bigEndian width n).length = width := by
  induction width with
  | zero => rfl
  | succ w ih => simp [bigEndian, ih]

@[simp] theorem length_littleEndian (width n : Nat) : (littleEndian width n).length = width := by
  induction width generalizing n with
  | zero => rfl
  | succ w ih => simp [littleEndian, ih]

end Bytes

end OnceProxy
