import OnceProxy.Number.Shortest
import OnceProxy.Table
import OnceProxy.Text.Utf8

/-!
# JSON values

Values and their text. The members of an object are in the order of their names.
-/

namespace OnceProxy.Json

/-- A JSON value. Integers lie in `-2 ^ 63 .. 2 ^ 64 - 1`; all other numbers are floats. The members
of an object stand in the order of their names, each name once. -/
inductive Value where
  | null
  | bool (b : Bool)
  | integer (n : Int)
  | float (x : Binary64)
  | string (s : String)
  | array (vs : List Value)
  | object (members : List (String × Value))
  deriving Repr

/-- The member of a value with the given name; only objects have members. -/
def Value.member? (name : String) : Value → Option Value
  | .object ms => Table.get? name ms
  | _ => none

/-- The text of a float. Numbers from `10 ^ -5` up to `10 ^ 16` are written positionally, with at
least one digit after the point, the others with an exponent. -/
def floatText (x : Binary64) : List Char :=
  let d := x.shortest .even
  let digits := (toString d.digits).toList
  let point := (digits.length : Int) + d.exponent
  let sign := if x.isNegative then ['-'] else []
  if d.digits = 0 then sign ++ ['0', '.', '0']
  else if 0 ≤ d.exponent ∧ point ≤ 16 then
    sign ++ digits ++ List.replicate d.exponent.toNat '0' ++ ['.', '0']
  else if 0 < point ∧ point ≤ 16 then
    sign ++ digits.take point.toNat ++ '.' :: digits.drop point.toNat
  else if -5 < point ∧ point ≤ 0 then
    sign ++ '0' :: '.' :: List.replicate (-point).toNat '0' ++ digits
  else
    let fraction := if digits.length = 1 then [] else '.' :: digits.drop 1
    let plus := if 0 < point then ['+'] else []
    sign ++ digits.take 1 ++ fraction ++ 'e' :: plus ++ (toString (point - 1)).toList

/-- A character inside quotes: a quote, a backslash and control characters are escaped, in the short
form where there is one. -/
def quoteChar (c : Char) : List Char :=
  let n := c.toNat
  if c = '"' then ['\\', '"']
  else if c = '\\' then ['\\', '\\']
  else if n = 8 then ['\\', 'b']
  else if n = 9 then ['\\', 't']
  else if n = 10 then ['\\', 'n']
  else if n = 12 then ['\\', 'f']
  else if n = 13 then ['\\', 'r']
  else if n < 32 then ['\\', 'u', '0', '0', Nat.digitChar (n / 16), Nat.digitChar (n % 16)]
  else [c]

/-- A string in quotes. -/
def quote (s : String) : List Char :=
  '"' :: s.toList.flatMap quoteChar ++ ['"']

mutual

/-- The text of a value, without blanks. -/
def Value.render : Value → List Char
  | .null => ['n', 'u', 'l', 'l']
  | .bool true => ['t', 'r', 'u', 'e']
  | .bool false => ['f', 'a', 'l', 's', 'e']
  | .integer n => (toString n).toList
  | .float x => floatText x
  | .string s => quote s
  | .array vs => '[' :: renderElements vs ++ [']']
  | .object ms => '{' :: renderMembers ms ++ ['}']

/-- The texts of the elements of an array with commas between them. -/
def renderElements : List Value → List Char
  | [] => []
  | [v] => v.render
  | v :: vs => v.render ++ ',' :: renderElements vs

/-- The texts of the members of an object with commas between them. -/
def renderMembers : List (String × Value) → List Char
  | [] => []
  | [(n, v)] => quote n ++ ':' :: v.render
  | (n, v) :: ms => quote n ++ ':' :: v.render ++ ',' :: renderMembers ms

end

/-- The bytes of a value. -/
def Value.encode (v : Value) : List UInt8 :=
  Text.Utf8.encode v.render

end OnceProxy.Json
