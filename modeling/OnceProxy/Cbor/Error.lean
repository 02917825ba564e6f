import OnceProxy.Cbor.Head

/-!
# What can be wrong with data items

Complaints name what was found and what was wanted.
-/

namespace OnceProxy.Cbor

/-- Why a data item is not what is read for. -/
inductive Complaint where
  | wrongType (found : Head) (wanted : String)
  | wrongElement (byte : UInt8) (wanted : String)
  | outOfRange (n : Nat) (wanted : String)
  | tooShort (length size : Nat)
  | missingField (name : String)
  | duplicateField (name : String)
  | bignumTooLarge
  | integerTooLarge
  | unexpectedNegative
  deriving DecidableEq, Repr

/-- Why bytes cannot be read. -/
inductive ReadError where
  | endOfInput
  | malformed (offset : Nat)
  | rejected (complaint : Complaint)
  | tooDeep
  deriving DecidableEq, Repr

/-- The text of a float: all its digits, and always a point. -/
def floatText (x : Binary64) : String :=
  let sign := if x.isNegative then "-" else ""
  if x.isNaN then "NaN"
  else if x.isInfinite then sign ++ "inf"
  else
    let s := (x.shortest .up).positional
    sign ++ s ++ if s.contains '.' then "" else ".0"

/-- What a head stands for, as complaints name it. A negative integer is shown in 64 bits. -/
def Head.description : Head → String
  | .positive n => s!"integer `{n}`"
  | .negative n =>
    let shown := Int.bmod (-1 - (n : Int)) wordLimit
    s!"integer `{shown}`"
  | .bytes _ => "bytes"
  | .text _ => "string"
  | .array _ => "sequence"
  | .map _ => "map"
  | .tag _ => "tag"
  | .simple 20 => "boolean `false`"
  | .simple 21 => "boolean `true`"
  | .simple 22 => "null"
  | .simple 23 => "undefined"
  | .simple _ => "simple"
  | .float x => s!"floating point `{floatText x}`"
  | .stop => "break"

/-- The wording of a complaint. -/
def Complaint.message : Complaint → String
  | .wrongType found wanted => s!"invalid type: {found.description}, expected {wanted}"
  | .wrongElement byte wanted => s!"invalid type: integer `{byte}`, expected {wanted}"
  | .outOfRange n wanted => s!"invalid value: integer `{n}`, expected {wanted}"
  | .tooShort length size => s!"invalid length {length}, expected a tuple of size {size}"
  | .missingField name => s!"missing field `{name}`"
  | .duplicateField name => s!"duplicate field `{name}`"
  | .bignumTooLarge => "bigint too large"
  | .integerTooLarge => "integer too large"
  | .unexpectedNegative => "unexpected negative integer"

/-- The wording of a read error. -/
def ReadError.message : ReadError → String
  | .endOfInput =>
    "Io(Error \x7b kind: UnexpectedEof, message: \"failed to fill whole buffer\" \x7d)"
  | .malformed offset => s!"Syntax({offset})"
  | .rejected complaint => s!"Semantic(None, \"{complaint.message}\")"
  | .tooDeep => "RecursionLimitExceeded"

end OnceProxy.Cbor
