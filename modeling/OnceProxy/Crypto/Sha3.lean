import OnceProxy.Number.Bytes

/-!
# SHA3-256

The sponge over 25 lanes of 64 bits.
-/

namespace OnceProxy.Sha3

open Bytes

/-- The 25 lanes of the sponge; the lane of column `x` and row `y` has the place `x + 5 * y`. -/
abbrev State := Vector UInt64 25

/-- The lane of a column and a row, both counted modulo five. -/
def State.lane (s : State) (x y : Nat) : UInt64 :=
  s.get (Fin.ofNat 25 (x % 5 + 5 * (y % 5)))

/-- The state whose lanes are given by column and row. -/
def State.ofLanes (f : Nat → Nat → UInt64) : State :=
  Vector.ofFn fun i => f (i.val % 5) (i.val / 5)

/-- Rotates a word to the left. -/
def rotate (w : UInt64) (n : Nat) : UInt64 :=
  if n % 64 = 0 then w
  else w <<< UInt64.ofNat (n % 64) ||| w >>> UInt64.ofNat (64 - n % 64)

/-- How far each lane is rotated, by place. -/
def rotations : Vector Nat 25 :=
  #v[0, 1, 62, 28, 27, 36, 44, 6, 55, 20, 3, 10, 43, 25, 39, 41, 45, 15, 21, 8, 18, 2, 61, 56, 14]

/-- The constants of the 24 rounds. -/
def roundConstants : List UInt64 :=
  [0x0000000000000001, 0x0000000000008082, 0x800000000000808A, 0x8000000080008000,
    0x000000000000808B, 0x0000000080000001, 0x8000000080008081, 0x8000000000008009,
    0x000000000000008A, 0x0000000000000088, 0x0000000080008009, 0x000000008000000A,
    0x000000008000808B, 0x800000000000008B, 0x8000000000008089, 0x8000000000008003,
    0x8000000000008002, 0x8000000000000080, 0x000000000000800A, 0x800000008000000A,
    0x8000000080008081, 0x8000000000008080, 0x0000000080000001, 0x8000000080008008]

/-- Adds to each lane the parities of two neighbouring columns. -/
def theta (s : State) : State :=
  let parity : Vector UInt64 5 := Vector.ofFn fun x =>
    s.lane x 0 ^^^ s.lane x 1 ^^^ s.lane x 2 ^^^ s.lane x 3 ^^^ s.lane x 4
  let column (x : Nat) := parity.get (Fin.ofNat 5 x)
  State.ofLanes fun x y => s.lane x y ^^^ column (x + 4) ^^^ rotate (column (x + 1)) 1

/-- Rotates every lane and moves it to its new place. -/
def rhoPi (s : State) : State :=
  State.ofLanes fun x y =>
    let column := (x + 3 * y) % 5
    rotate (s.lane column x) (rotations.get (Fin.ofNat 25 (column + 5 * x)))

/-- Mixes each row with itself and adds the round constant to the first lane. -/
def chiIota (c : UInt64) (s : State) : State :=
  State.ofLanes fun x y =>
    let w := s.lane x y ^^^ (~~~ s.lane (x + 1) y &&& s.lane (x + 2) y)
    if x = 0 ∧ y = 0 then w ^^^ c else w

/-- The permutation of the sponge. -/
def permute (s : State) : State :=
  roundConstants.foldl (fun s c => chiIota c (rhoPi (theta s))) s

/-- The bytes that one step takes in. -/
def rate : Nat := 136

/-- Takes in one block. -/
def absorb (s : State) (block : List UInt8) : State :=
  permute (State.ofLanes fun x y =>
    s.lane x y ^^^ UInt64.ofNat (ofLittleEndian ((block.drop (8 * (x + 5 * y))).take 8)))

/-- The last block: what is left of the message, the mark `06`, zeros, and the closing bit. -/
def lastBlock (s : List UInt8) : List UInt8 :=
  let padded := s ++ 6 :: List.replicate (rate - s.length - 1) 0
  padded.take (rate - 1) ++ [padded.getLastD 0 ||| 0x80]

/-- Takes in a message from a given state on. -/
def absorbAll (state : State) (s : List UInt8) : State :=
  if s.length < rate then absorb state (lastBlock s)
  else absorbAll (absorb state (s.take rate)) (s.drop rate)
termination_by s.length
decreasing_by simp only [rate, List.length_drop] at *; omega

/-- The digest of 32 bytes. -/
def digest (s : List UInt8) : List UInt8 :=
  let state := absorbAll (Vector.replicate 25 0) s
  (List.range 4).flatMap fun x => littleEndian 8 (state.lane x 0).toNat

end OnceProxy.Sha3
