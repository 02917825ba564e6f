/-!
# Faults of JSON texts

A fault is reported by the line and the column after which reading stopped.
-/

namespace OnceProxy.Json

/-- What is wrong with a JSON text. -/
inductive Fault where
  | endInList
  | endInObject
  | endInString
  | endInValue
  | expectedColon
  | expectedListCommaOrEnd
  | expectedObjectCommaOrEnd
  | expectedIdent
  | expectedValue
  | invalidEscape
  | invalidNumber
  | numberOutOfRange
  | invalidUnicode
  | controlCharacter
  | keyMustBeString
  | loneSurrogate
  | trailingComma
  | trailingCharacters
  | unfinishedSurrogates
  | tooDeep
  deriving DecidableEq, Repr

/-- The wording of a fault. -/
def Fault.text : Fault → String
  | .endInList => "EOF while parsing a list"
  | .endInObject => "EOF while parsing an object"
  | .endInString => "EOF while parsing a string"
  | .endInValue => "EOF while parsing a value"
  | .expectedColon => "expected `:`"
  | .expectedListCommaOrEnd => "expected `,` or `]`"
  | .expectedObjectCommaOrEnd => "expected `,` or `\x7d`"
  | .expectedIdent => "expected ident"
  | .expectedValue => "expected value"
  | .invalidEscape => "invalid escape"
  | .invalidNumber => "invalid number"
  | .numberOutOfRange => "number out of range"
  | .invalidUnicode => "invalid unicode code point"
  | .controlCharacter => "control character (\\u0000-\\u001F) found while parsing a string"
  | .keyMustBeString => "key must be a string"
  | .loneSurrogate => "lone leading surrogate in hex escape"
  | .trailingComma => "trailing comma"
  | .trailingCharacters => "trailing characters"
  | .unfinishedSurrogates => "unexpected end of hex escape"
  | .tooDeep => "recursion limit exceeded"

/-- A fault, and how many bytes lie before the place that it is reported at. -/
structure ReadError where
  fault : Fault
  offset : Nat
  deriving DecidableEq, Repr

/-- The line that ends a byte string, counted from one, and the bytes of that line. -/
def position (s : List UInt8) : Nat × Nat :=
  s.foldl (fun p b => if b = 10 then (p.1 + 1, 0) else (p.1, p.2 + 1)) (1, 0)

/-- The wording of an error in the given text. -/
def ReadError.message (e : ReadError) (s : List UInt8) : String :=
  let (line, column) := position (s.take e.offset)
  s!"{e.fault.text} at line {line} column {column}"

end OnceProxy.Json
