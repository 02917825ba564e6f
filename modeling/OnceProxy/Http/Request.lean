import OnceProxy.Http.Header
import OnceProxy.Text.Blank

/-!
# Requests

A request names its target by a path, by a whole URL, of which only the path and the query count, by
an authority, or by a star.
-/

namespace OnceProxy.Http

/-- The target of a request: its path, and the path with the query as it was written. -/
structure Target where
  path : String
  pathAndQuery : String
  deriving DecidableEq, Repr

namespace Target

/-- The target whose path and query are `text`. -/
def ofPathAndQuery (text : List Char) : Target :=
  let orRoot (cs : List Char) : String := if cs.isEmpty then "/" else String.ofList cs
  ⟨orRoot (text.takeWhile (· ≠ '?')), orRoot text⟩

/-- What follows the authority of a whole URL. -/
def afterAuthority? (text : List Char) : Option (List Char) :=
  match text.dropWhile fun c => c.isAlphanum || c = '+' || c = '-' || c = '.' with
  | ':' :: '/' :: '/' :: rest => some (rest.dropWhile fun c => c ≠ '/' && c ≠ '?')
  | _ => none

/-- Reads the target of a request. A fragment does not count. -/
def ofString (s : String) : Target :=
  let text := s.toList.takeWhile (· ≠ '#')
  if text.head? = some '/' || text = ['*'] then ofPathAndQuery text
  else
    match afterAuthority? text with
    | some rest => ofPathAndQuery rest
    | none => ⟨"", ""⟩

end Target

/-- A request with its whole body. -/
structure Request where
  method : String
  target : Target
  headers : HeaderMap
  body : List UInt8
  deriving DecidableEq

/-- A method that changes nothing at the origin. -/
def isSafe (method : String) : Bool :=
  method == "GET" || method == "HEAD" || method == "OPTIONS" || method == "TRACE"

/-- The trimmed text of a header, or no text if it has none. -/
def Request.headerText (r : Request) (name : HeaderName) : String :=
  ((r.headers.text? name).map Text.trim).getD ""

end OnceProxy.Http
