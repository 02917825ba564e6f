import OnceProxy.Url.Host

/-!
# URLs

`Url.ofString` reads a URL without a base, and `Url.toString` writes it in its normal form. A URL of
the scheme `file` is read like one of an unknown scheme.
-/

namespace OnceProxy

open Url

/-- A URL. Its parts are in their normal, encoded form. -/
structure Url where
  scheme : String
  username : List Char
  password : Option (List Char)
  host : Option Host
  port : Option Nat
  path : List Char
  query : Option (List Char)
  fragment : Option (List Char)
  deriving DecidableEq, Repr

namespace Url

/-- The schemes that have a default port, with this port. -/
def defaultPorts : List (String × Nat) :=
  [("http", 80), ("https", 443), ("ws", 80), ("wss", 443), ("ftp", 21)]

/-- Whether URLs of a scheme always have a host. -/
def isSpecial (scheme : String) : Bool :=
  (defaultPorts.lookup scheme).isSome

/-! ### Parts -/

/-- Tabs and line ends, which do not count in a URL. -/
def isSkipped (c : Char) : Bool :=
  c = '\t' || c = '\n' || c = '\r'

/-- The characters of a text that count. -/
def significant (text : List Char) : List Char :=
  let isEdge (c : Char) : Bool := c.toNat ≤ 32
  (((text.dropWhile isEdge).reverse.dropWhile isEdge).reverse).filter (! isSkipped ·)

/-- A character of a scheme. -/
def isSchemeChar (c : Char) : Bool :=
  c.isAlphanum || c = '+' || c = '-' || c = '.'

/-- The scheme at the start of a text, in lower case, and what follows its colon. -/
def scheme? (text : List Char) : Option (String × List Char) :=
  match text.takeWhile isSchemeChar, text.dropWhile isSchemeChar with
  | c :: cs, ':' :: rest =>
    if c.isAlpha then some (String.ofList ((c :: cs).map Char.toLower), rest) else none
  | _, _ => none

/-- A character that ends a part of a path. In a special URL a backslash does so too. -/
def isSlash (special : Bool) (c : Char) : Bool :=
  c = '/' || (special && c = '\\')

/-- A character that ends the authority. -/
def endsAuthority (special : Bool) (c : Char) : Bool :=
  isSlash special c || c = '?' || c = '#'

/-- The user name and the password, which come before the last at sign of an authority. -/
structure Userinfo where
  username : List Char
  password : Option (List Char)

/-- Reads a user name and a password, which a colon divides. -/
def Userinfo.ofText (text : List Char) : Userinfo :=
  let password := (text.dropWhile (· ≠ ':')).drop 1
  ⟨Percent.encode Percent.userinfo (text.takeWhile (· ≠ ':')),
    if password.isEmpty then none else some (Percent.encode Percent.userinfo password)⟩

/-- Whether there is neither a name nor a password. -/
def Userinfo.isEmpty (u : Userinfo) : Bool :=
  u.username.isEmpty && u.password.isNone

/-- Divides what follows two slashes at the last at sign of the authority. -/
def readUserinfo (special : Bool) (text : List Char) : Except UrlError (Userinfo × List Char) :=
  let authority := text.takeWhile (! endsAuthority special ·)
  let host := (authority.reverse.takeWhile (· ≠ '@')).reverse
  if host.length = authority.length then .ok (⟨[], none⟩, text)
  else
    let user := authority.take (authority.length - host.length - 1)
    let rest := text.drop (user.length + 1)
    let ended := match rest with
      | c :: _ => endsAuthority special c
      | [] => false
    if user.isEmpty && ended then .error .emptyHost else .ok (.ofText user, rest)

/-- The text of the host, which ends before a colon outside of brackets. -/
def hostText (special : Bool) : Bool → List Char → List Char
  | _, [] => []
  | inBrackets, c :: cs =>
    if endsAuthority special c || (c = ':' && !inBrackets) then []
    else c :: hostText special (if c = '[' then true else if c = ']' then false else inBrackets) cs

/-- Reads the host, and tells what follows it. A special scheme needs one, and so does a port. -/
def readHost [ForeignNames] (special : Bool) (text : List Char) :
    Except UrlError (Host × List Char) := do
  let name := hostText special false text
  let rest := text.drop name.length
  if name.isEmpty && (special || rest.head? = some ':') then throw .emptyHost
  return (← if special then Host.ofText name else Host.ofPlainText name, rest)

/-- Reads the port, if there is one, and tells what follows it. The default one of the scheme does
not count. -/
def readPort (scheme : String) (text : List Char) : Except UrlError (Option Nat × List Char) := do
  let ':' :: rest := text
    | return (none, text)
  let digits := rest.takeWhile (·.isDigit)
  let rest := rest.dropWhile (·.isDigit)
  let n := Nat.ofDigitChars 10 digits 0
  if 65535 < n then throw .invalidPort
  if rest.head?.any (! endsAuthority true ·) then throw .invalidPort
  if digits.isEmpty || defaultPorts.lookup scheme = some n then return (none, rest)
  return (some n, rest)

/-! ### Paths -/

/-- The parts of a path between slashes. -/
def segments (special : Bool) : List Char → List (List Char)
  | [] => [[]]
  | c :: cs =>
    if isSlash special c then [] :: segments special cs
    else
      match segments special cs with
      | s :: ss => (c :: s) :: ss
      | [] => [[c]]

/-- A part with every written dot as a dot. -/
def undot : List Char → List Char
  | '%' :: '2' :: c :: cs =>
    if c = 'e' || c = 'E' then '.' :: undot cs else '%' :: undot ('2' :: c :: cs)
  | c :: cs => c :: undot cs
  | [] => []

/-- The parts of a path without those that stand for the one before or for none. -/
def resolve (before : List (List Char)) : List (List Char) → List (List Char)
  | [] => before
  | s :: ss =>
    let before :=
      if undot s = ['.', '.'] then if ss.isEmpty then before.dropLast ++ [[]] else before.dropLast
      else if undot s = ['.'] then if ss.isEmpty then before ++ [[]] else before
      else before ++ [s]
    resolve before ss

/-- The normal form of a path that follows an authority. -/
def pathText (special : Bool) (text : List Char) : List Char :=
  match text with
  | [] => if special then ['/'] else []
  | c :: cs =>
    let text := if isSlash special c then cs else text
    ((resolve [] (segments special text)).flatMap fun s => '/' :: Percent.encode Percent.path s)

/-! ### Whole URLs -/

/-- The query and the fragment of a text, each after its mark. -/
def queryAndFragment (special : Bool) (text : List Char) :
    Option (List Char) × Option (List Char) :=
  let fragment := match text.dropWhile (· ≠ '#') with
    | _ :: fragment => some (Percent.encode Percent.fragment fragment)
    | [] => none
  let query := match text.takeWhile (· ≠ '#') with
    | '?' :: query =>
      some (Percent.encode (if special then Percent.specialQuery else Percent.query) query)
    | _ => none
  (query, fragment)

/-- Whether a character ends the path. -/
def endsPath (c : Char) : Bool :=
  c = '?' || c = '#'

/-- Reads what follows the two slashes of a URL. -/
def ofAuthority [ForeignNames] (scheme : String) (text : List Char) : Except UrlError Url := do
  let special := isSpecial scheme
  let (user, rest) ← readUserinfo special text
  let (host, rest) ← readHost special rest
  let (port, rest) ← readPort scheme rest
  if host = .plain [] && !user.isEmpty then throw .emptyHost
  let (query, fragment) := queryAndFragment special (rest.dropWhile (! endsPath ·))
  return {
    scheme, port, query, fragment
    host := some host
    username := user.username
    password := user.password
    path := pathText special (rest.takeWhile (! endsPath ·)) }

/-- Reads what follows the colon of a URL that has no host. -/
def ofPath (scheme : String) (text : List Char) : Url :=
  let (query, fragment) := queryAndFragment false (text.dropWhile (! endsPath ·))
  let path := text.takeWhile (! endsPath ·)
  { scheme, query, fragment
    username := []
    password := none
    host := none
    port := none
    path := if path.head? = some '/' then pathText false path
      else Percent.encode Percent.controls path }

/-- Reads a URL that stands alone. After a special scheme any number of slashes will do. -/
def ofString [ForeignNames] (text : String) : Except UrlError Url :=
  match scheme? (significant text.toList) with
  | none => .error .relativeWithoutBase
  | some (scheme, rest) =>
    if isSpecial scheme then ofAuthority scheme (rest.dropWhile (isSlash true))
    else
      match rest with
      | '/' :: '/' :: rest => ofAuthority scheme rest
      | rest => .ok (ofPath scheme rest)

/-- The normal form of a URL. -/
def toString (u : Url) : String :=
  let optional (mark : Char) (part : Option (List Char)) : List Char :=
    (part.map (mark :: ·)).getD []
  let user := u.username ++ optional ':' u.password
  let port := optional ':' (u.port.map (Nat.toDigits 10))
  let authority := match u.host with
    | some host =>
      ['/', '/'] ++ user ++ (if user.isEmpty then [] else ['@']) ++ host.toText ++ port
    | none => []
  String.ofList (u.scheme.toList ++ [':'] ++ authority ++ u.path ++ optional '?' u.query ++
    optional '#' u.fragment)

end Url

end OnceProxy
