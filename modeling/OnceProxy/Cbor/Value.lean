import OnceProxy.Cbor.Reader

/-!
# Data items

Data items of any kind, with a writer that uses the shortest heads and a reader of all forms.
-/

namespace OnceProxy.Cbor

open Bytes

/-- A data item of any kind. Integers lie in `-2 ^ 64 .. 2 ^ 64 - 1`; larger ones are tagged byte
strings. -/
inductive Value where
  | integer (n : Int)
  | bytes (s : List UInt8)
  | text (s : String)
  | float (x : Binary64)
  | bool (b : Bool)
  | null
  | tag (n : Nat) (v : Value)
  | array (vs : List Value)
  | map (entries : List (Value × Value))
  deriving Repr

/-- The head of an integer. -/
def Head.ofInt (n : Int) : Head :=
  if 0 ≤ n then .positive n.toNat else .negative (-1 - n).toNat

/-- The bytes of a byte string. -/
def encodeBytes (s : List UInt8) : List UInt8 :=
  (Head.bytes (some s.length)).encode ++ s

/-- The bytes of a text. -/
def encodeText (s : String) : List UInt8 :=
  let content := Text.Utf8.ofString s
  (Head.text (some content.length)).encode ++ content

mutual

/-- The bytes of a data item, with every head in shortest form and no open ends. -/
def Value.encode : Value → List UInt8
  | .integer n => (Head.ofInt n).encode
  | .bytes s => encodeBytes s
  | .text s => encodeText s
  | .float x => (Head.float x).encode
  | .bool b => (Head.simple (if b then 21 else 20)).encode
  | .null => (Head.simple 22).encode
  | .tag n v => (Head.tag n).encode ++ v.encode
  | .array vs => (Head.array (some vs.length)).encode ++ encodeValues vs
  | .map entries => (Head.map (some entries.length)).encode ++ encodeEntries entries

/-- The bytes of the elements of an array. -/
def encodeValues : List Value → List UInt8
  | [] => []
  | v :: vs => v.encode ++ encodeValues vs

/-- The bytes of the entries of a map. -/
def encodeEntries : List (Value × Value) → List UInt8
  | [] => []
  | (k, v) :: entries => k.encode ++ v.encode ++ encodeEntries entries

end

/-- The content of a value that is a text. -/
def Value.asText? : Value → Option String
  | .text s => some s
  | _ => none

/-- The entries of a value that is a map; a tagged map is none. -/
def Value.asMap? : Value → Option (List (Value × Value))
  | .map entries => some entries
  | _ => none

/-- The value of a big number of at most sixteen bytes: an integer where it fits, and the tagged
bytes without leading zeros where it does not. A negative one must lie in the signed range of 128
bits. -/
def Value.ofBignum (negative : Bool) (s : List UInt8) : Except ReadError Value :=
  let n := ofBigEndian s
  if n < wordLimit then .ok (.integer (if negative then -1 - (n : Int) else n))
  else if negative ∧ Nat.pow 2 127 ≤ n then .error (.rejected .integerTooLarge)
  else .ok (.tag (if negative then 3 else 2) (.bytes (s.dropWhile (· == 0))))

/-- Reads a data item of any kind; arrays, maps and tags may nest up to the given depth. -/
def Value.read : Nat → Input → Except ReadError (Value × Input)
  | depth, i => do
    let (head, j) ← Head.read i
    match head with
    | .positive n => return (.integer n, j)
    | .negative n => return (.integer (-1 - n), j)
    | .bytes n =>
      let (s, j) ← byteSink.segments 0 [] ((Head.bytes n).unread j)
      return (.bytes s, j)
    | .text n =>
      let (s, j) ← textSink.segments 0 ⟨[], []⟩ ((Head.text n).unread j)
      return (.text (String.ofList s.text), j)
    | .float x => return (.float x, j)
    | .simple 20 => return (.bool false, j)
    | .simple 21 => return (.bool true, j)
    | .simple 22 => return (.null, j)
    | .simple 23 => return (.null, j)
    | .simple n => throw (.rejected (.wrongType (.simple n) "known simple value"))
    | .stop => throw (.rejected (.wrongType .stop "non-break"))
    | .array n =>
      match depth with
      | 0 => throw .tooDeep
      | d + 1 =>
        let (vs, j) ← readItems (Value.read d) n j
        return (.array vs, j)
    | .map n =>
      match depth with
      | 0 => throw .tooDeep
      | d + 1 =>
        let entry (i : Input) : Except ReadError ((Value × Value) × Input) := do
          let (k, i) ← Value.read d i
          let (v, i) ← Value.read d i
          return ((k, v), i)
        let (entries, j) ← readItems entry n j
        return (.map entries, j)
    | .tag t =>
      let (inner, l) ← Head.read j
      match inner with
      | .bytes (some n) =>
        if (t = 2 ∨ t = 3) ∧ n ≤ 16 then
          let (s, l) ← readBytes n l
          return (← Value.ofBignum (t == 3) s, l)
      | _ => pure ()
      match depth with
      | 0 => throw .tooDeep
      | d + 1 =>
        let (v, j) ← Value.read d (inner.unread l)
        return (.tag t v, j)

/-- How deep items may nest. -/
def depthLimit : Nat := 256

/-- Reads the data item at the start of a byte string; the bytes after it do not matter. -/
def Value.ofBytes (s : List UInt8) : Except ReadError Value :=
  (Value.read depthLimit ⟨0, s⟩).map (·.1)

end OnceProxy.Cbor
