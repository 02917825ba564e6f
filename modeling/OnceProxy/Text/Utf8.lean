/-!
# UTF-8

Characters as bytes, and readers that are strict or put U+FFFD for what is no character.
-/

namespace OnceProxy.Text.Utf8

/-- The bytes of one character. -/
def encodeChar (c : Char) : List UInt8 :=
  let n := c.toNat
  if n < 0x80 then [UInt8.ofNat n]
  else if n < 0x800 then [UInt8.ofNat (0xC0 + n / 64), UInt8.ofNat (0x80 + n % 64)]
  else if n < 0x10000 then
    [UInt8.ofNat (0xE0 + n / 4096), UInt8.ofNat (0x80 + n / 64 % 64), UInt8.ofNat (0x80 + n % 64)]
  else
    [UInt8.ofNat (0xF0 + n / 262144), UInt8.ofNat (0x80 + n / 4096 % 64),
      UInt8.ofNat (0x80 + n / 64 % 64), UInt8.ofNat (0x80 + n % 64)]

/-- The bytes of a text. -/
def encode (cs : List Char) : List UInt8 :=
  cs.flatMap encodeChar

/-- The bytes of a string. -/
def ofString (s : String) : List UInt8 :=
  encode s.toList

/-- A byte that continues a character. -/
def continues (b : UInt8) : Bool :=
  0x80 ≤ b && b ≤ 0xBF

/-- The number of bytes of a character whose first byte is `b`; none for a byte that starts no
character. -/
def length? (b : UInt8) : Option Nat :=
  if b < 0x80 then some 1
  else if 0xC2 ≤ b && b ≤ 0xDF then some 2
  else if 0xE0 ≤ b && b ≤ 0xEF then some 3
  else if 0xF0 ≤ b && b ≤ 0xF4 then some 4
  else none

/-- Which second bytes may follow a first byte: the overlong forms, the surrogates and what lies
above U+10FFFF are shut out here. -/
def seconds (first second : UInt8) : Bool :=
  if first == 0xE0 then 0xA0 ≤ second && second ≤ 0xBF
  else if first == 0xED then 0x80 ≤ second && second ≤ 0x9F
  else if first == 0xF0 then 0x90 ≤ second && second ≤ 0xBF
  else if first == 0xF4 then 0x80 ≤ second && second ≤ 0x8F
  else continues second

private def low (b : UInt8) : Nat :=
  b.toNat % 64

/-- The first character of a byte string and the bytes after it; none when the bytes do not start
with a whole character. -/
def next? : List UInt8 → Option (Char × List UInt8)
  | [] => none
  | a :: r =>
    match length? a, r with
    | some 1, r => some (Char.ofNat a.toNat, r)
    | some 2, b :: r =>
      if seconds a b then some (Char.ofNat (a.toNat % 32 * 64 + low b), r) else none
    | some 3, b :: c :: r =>
      if seconds a b && continues c then
        some (Char.ofNat (a.toNat % 16 * 4096 + low b * 64 + low c), r)
      else none
    | some 4, b :: c :: d :: r =>
      if seconds a b && continues c && continues d then
        some (Char.ofNat (a.toNat % 8 * 262144 + low b * 4096 + low c * 64 + low d), r)
      else none
    | _, _ => none

theorem next?_length {s : List UInt8} {c : Char} {r : List UInt8} (h : next? s = some (c, r)) :
    r.length < s.length := by
  unfold next? at h
  split at h
  · simp at h
  · split at h <;> simp_all <;> grind

/-- The longest run of whole characters at the start of a byte string, and the bytes after it. -/
def decodeRun (s : List UInt8) : List Char × List UInt8 :=
  match h : next? s with
  | none => ([], s)
  | some (c, r) =>
    have := next?_length h
    let (cs, rest) := decodeRun r
    (c :: cs, rest)
termination_by s.length

/-- The text that a byte string encodes, if it encodes one. -/
def decode? (s : List UInt8) : Option (List Char) :=
  match decodeRun s with
  | (cs, []) => some cs
  | _ => none

/-- The string that a byte string encodes, if it encodes one. -/
def toString? (s : List UInt8) : Option String :=
  (decode? s).map String.ofList

/-- The number of bytes, at the start of a byte string that starts with no whole character, that
one replacement character stands for: the longest run that could still have begun a character, or
one. -/
def damaged : List UInt8 → Nat
  | [] => 0
  | a :: r =>
    match length? a, r with
    | some 3, b :: _ => if seconds a b then 2 else 1
    | some 4, b :: c :: _ => if seconds a b then (if continues c then 3 else 2) else 1
    | some 4, [b] => if seconds a b then 2 else 1
    | _, _ => 1

/-- The text of a byte string, with U+FFFD in place of what is no character. -/
def decodeLossy (s : List UInt8) : List Char :=
  match s with
  | [] => []
  | a :: r =>
    match h : next? (a :: r) with
    | some (c, r') =>
      have := next?_length h
      c :: decodeLossy r'
    | none => Char.ofNat 0xFFFD :: decodeLossy (r.drop (damaged (a :: r) - 1))
termination_by s.length
decreasing_by
  · assumption
  · simp only [List.length_drop, List.length_cons]
    omega

end OnceProxy.Text.Utf8
