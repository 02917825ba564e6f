import OnceProxy.Number.Bytes

/-!
# SHA-256 and SHA-512

Both hash functions, and the keyed digest over the first.
-/

namespace OnceProxy

/-- The sizes of a hash function of the SHA-2 family: the bits of a word, the number of rounds, and
the rotations of its four mixing functions; the last number of the two schedule functions is a
shift. -/
structure Sha2 where
  bits : Nat
  rounds : Nat
  mixA : Nat × Nat × Nat
  mixE : Nat × Nat × Nat
  scheduleNear : Nat × Nat × Nat
  scheduleFar : Nat × Nat × Nat

namespace Sha2

open Bytes

/-- SHA-256. -/
def sha256 : Sha2 where
  bits := 32
  rounds := 64
  mixA := (2, 13, 22)
  mixE := (6, 11, 25)
  scheduleNear := (7, 18, 3)
  scheduleFar := (17, 19, 10)

/-- SHA-512. -/
def sha512 : Sha2 where
  bits := 64
  rounds := 80
  mixA := (28, 34, 39)
  mixE := (14, 18, 41)
  scheduleNear := (1, 8, 7)
  scheduleFar := (19, 61, 6)

/-- The largest number below `2 ^ bits` added to `low` whose `k`-th power is at most `n`, searched
bit by bit. -/
def rootFrom (k n low : Nat) : Nat → Nat
  | 0 => low
  | b + 1 => rootFrom k n (if Nat.pow (low + Nat.pow 2 b) k ≤ n then low + Nat.pow 2 b else low) b

/-- The first `bits` bits of the fraction of the `k`-th root of `n`. -/
def rootFraction (bits k n : Nat) : Nat :=
  rootFrom k (n * Nat.pow 2 (k * bits)) 0 (bits + 8) % Nat.pow 2 bits

/-- The primes below 410, of which there are eighty. -/
def primes : List Nat :=
  (List.range 410).filter fun n => 2 ≤ n && (List.range n).all fun d => d < 2 || n % d != 0

/-- The round constants: the fractions of the cube roots of the first primes. -/
def constants (h : Sha2) : List Nat :=
  (primes.take h.rounds).map (rootFraction h.bits 3)

/-- The first chaining value: the fractions of the square roots of the first eight primes. -/
def start (h : Sha2) : List Nat :=
  (primes.take 8).map (rootFraction h.bits 2)

/-- A word from any number. -/
def word (h : Sha2) (n : Nat) : Nat :=
  n % Nat.pow 2 h.bits

/-- Rotates a word to the right. -/
def rotate (h : Sha2) (w n : Nat) : Nat :=
  h.word (w >>> n ||| w <<< (h.bits - n))

/-- Three rotations of a word, added bit by bit. -/
def mix (h : Sha2) (by_ : Nat × Nat × Nat) (w : Nat) : Nat :=
  h.rotate w by_.1 ^^^ h.rotate w by_.2.1 ^^^ h.rotate w by_.2.2

/-- Two rotations and a shift of a word, added bit by bit. -/
def spread (h : Sha2) (by_ : Nat × Nat × Nat) (w : Nat) : Nat :=
  h.rotate w by_.1 ^^^ h.rotate w by_.2.1 ^^^ w >>> by_.2.2

/-- The eight working words. -/
structure Working where
  a : Nat
  b : Nat
  c : Nat
  d : Nat
  e : Nat
  f : Nat
  g : Nat
  h : Nat

/-- One round with a constant and a word of the schedule. -/
def round (h : Sha2) (s : Working) (constant scheduled : Nat) : Working :=
  let choice := (s.e &&& s.f) ^^^ ((Nat.pow 2 h.bits - 1 - s.e) &&& s.g)
  let majority := (s.a &&& s.b) ^^^ (s.a &&& s.c) ^^^ (s.b &&& s.c)
  let t := s.h + h.mix h.mixE s.e + choice + constant + scheduled
  ⟨h.word (t + h.mix h.mixA s.a + majority), s.a, s.b, s.c, h.word (s.d + t), s.e, s.f, s.g⟩

/-- The rounds over the constants. `window` holds the next sixteen words of the schedule, and each
round adds the word that comes sixteen later. -/
def runRounds (h : Sha2) : List Nat → List Nat → Working → Working
  | [], _, s => s
  | k :: ks, window, s =>
    match window with
    | [] => s
    | w :: rest =>
      let next := h.word (w + h.spread h.scheduleNear (rest.getD 0 0) + rest.getD 8 0 +
        h.spread h.scheduleFar (rest.getD 13 0))
      runRounds h ks (rest ++ [next]) (h.round s k w)

/-- The bytes of a block. -/
def blockSize (h : Sha2) : Nat :=
  2 * h.bits

/-- The words that bytes write, highest byte first. -/
def words (h : Sha2) (s : List UInt8) : List Nat :=
  (List.range 16).map fun i => ofBigEndian ((s.drop (i * (h.bits / 8))).take (h.bits / 8))

/-- Takes in one block. -/
def compress (h : Sha2) (constants chain : List Nat) (block : List UInt8) : List Nat :=
  let at_ (i : Nat) := chain.getD i 0
  let s := h.runRounds constants (h.words block)
    ⟨at_ 0, at_ 1, at_ 2, at_ 3, at_ 4, at_ 5, at_ 6, at_ 7⟩
  [s.a, s.b, s.c, s.d, s.e, s.f, s.g, s.h].zipWith (fun n m => h.word (n + m)) chain

/-- Takes in all blocks. -/
def absorb (h : Sha2) (constants chain : List Nat) (s : List UInt8) : List Nat :=
  if hs : s = [] then chain
  else
    have : (s.drop (max 1 h.blockSize)).length < s.length := by
      have := List.length_pos_iff.mpr hs
      simp only [List.length_drop]
      omega
    absorb h constants (h.compress constants chain (s.take h.blockSize))
      (s.drop (max 1 h.blockSize))
termination_by s.length

/-- A message with its closing bit, zeros, and its length in bits. -/
def padded (h : Sha2) (s : List UInt8) : List UInt8 :=
  let size := h.blockSize
  let tail := size / 8
  let zeros := (2 * size - tail - 1 - s.length % size) % size
  s ++ 0x80 :: List.replicate zeros 0 ++ bigEndian tail (8 * s.length)

/-- The digest of a message, for given constants. -/
def digestWith (h : Sha2) (constants start : List Nat) (s : List UInt8) : List UInt8 :=
  (h.absorb constants start (h.padded s)).flatMap (bigEndian (h.bits / 8))

/-- The round constants of SHA-256. -/
def constants256 : List Nat := sha256.constants

/-- The first chaining value of SHA-256. -/
def start256 : List Nat := sha256.start

/-- The round constants of SHA-512. -/
def constants512 : List Nat := sha512.constants

/-- The first chaining value of SHA-512. -/
def start512 : List Nat := sha512.start

/-- The SHA-256 digest, of 32 bytes. -/
def digest256 (s : List UInt8) : List UInt8 :=
  sha256.digestWith constants256 start256 s

/-- The SHA-512 digest, of 64 bytes. -/
def digest512 (s : List UInt8) : List UInt8 :=
  sha512.digestWith constants512 start512 s

/-- The keyed digest (HMAC) over SHA-256 for a key of at most one block. -/
def keyed256 (key message : List UInt8) : List UInt8 :=
  let key := key ++ List.replicate (sha256.blockSize - key.length) 0
  digest256 (key.map (· ^^^ 0x5C) ++ digest256 (key.map (· ^^^ 0x36) ++ message))

end Sha2

end OnceProxy
