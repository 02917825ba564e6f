import OnceProxy.Network
import OnceProxy.Proxy.Error
import OnceProxy.Text.Decimal
import OnceProxy.Url.Basic

/-!
# Where the records are

The URL of a shared record store names a host or a file, and which of the databases there to use.
-/

namespace OnceProxy

open Url

/-- What is wrong with the URL of a record store. -/
inductive RecordAddressError where
  | unreadable
  | noHost
  | needsTls
  | noPath
  | invalidDatabase
  | invalidUsername
  | invalidPassword
  deriving DecidableEq, Repr

/-- The wording of an error. -/
def RecordAddressError.message (e : RecordAddressError) : String :=
  let text := match e with
    | .unreadable => "Redis URL did not parse"
    | .noHost => "Missing hostname"
    | .needsTls => "can't connect with TLS, the feature is not enabled"
    | .noPath => "Missing path"
    | .invalidDatabase => "Invalid database number"
    | .invalidUsername => "Username is not valid UTF-8 string"
    | .invalidPassword => "Password is not valid UTF-8 string"
  s!"{text}- InvalidClientConfig"

/-- Where a record store is. -/
inductive RecordPlace where
  | host (host : Host) (port : Nat)
  | file (path : List UInt8)
  deriving DecidableEq, Repr

/-- How to get at the records. -/
structure RecordAddress where
  place : RecordPlace
  database : Int
  username : Option String
  password : Option String
  deriving DecidableEq, Repr

namespace RecordAddress

/-- Reads a signed number of 64 bits. -/
def signed? (text : List Char) : Option Int :=
  let (negative, digits) := match text with
    | '-' :: digits => (true, digits)
    | '+' :: digits => (false, digits)
    | digits => (false, digits)
  if digits.isEmpty || !digits.all (·.isDigit) then none
  else
    let n := Nat.ofDigitChars 10 digits 0
    if negative then if n ≤ 0x8000000000000000 then some (-n) else none
    else if n < 0x8000000000000000 then some n else none

/-- Reads the number of a database. -/
def readDatabase (text : List Char) : Except RecordAddressError Int :=
  match signed? text with
  | some n => .ok n
  | none => .error .invalidDatabase

/-- A path without the slashes at its ends. -/
def trimSlashes (path : List Char) : List Char :=
  ((path.dropWhile (· = '/')).reverse.dropWhile (· = '/')).reverse

/-- The address in the URL of a host. -/
def ofHostUrl (u : Url) : Except RecordAddressError RecordAddress := do
  let some host := u.host.filter (· ≠ .plain [])
    | throw .noHost
  if u.scheme = "rediss" then throw .needsTls
  let path := trimSlashes u.path
  let database ← if path.isEmpty then .ok 0 else readDatabase path
  let some username := Percent.text? u.username
    | throw .invalidUsername
  let some password := Percent.text? (u.password.getD [])
    | throw .invalidPassword
  return {
    place := .host host (u.port.getD 6379)
    database
    username := if username.isEmpty then none else some username
    password := u.password.map fun _ => password }

/-- The text that a part of a query stands for. -/
def fieldText (part : List Char) : String :=
  let spaced := part.map fun c => if c = '+' then ' ' else c
  String.ofList (Text.Utf8.decodeLossy (Percent.bytes spaced))

/-- The last field of a query with a name. -/
def field? (query : List Char) (name : String) : Option String :=
  ((query.splitOn '&').map fun field =>
    (fieldText (field.takeWhile (· ≠ '=')), fieldText ((field.dropWhile (· ≠ '=')).drop 1)))
    |>.reverse.lookup name

/-- The address in the URL of a file. -/
def ofFileUrl (u : Url) : Except RecordAddressError RecordAddress := do
  let isHere := [none, some (Host.plain []), some (.plain "localhost".toList)].contains u.host
  if !isHere || u.path.head? ≠ some '/' then throw .noPath
  let query := u.query.getD []
  return {
    place := .file (Percent.bytes u.path)
    database := ← match field? query "db" with
      | some text => readDatabase text.toList
      | none => .ok 0
    username := field? query "user"
    password := field? query "pass" }

/-- Reads the address of a record store. -/
def ofString [Url.ForeignNames] (text : String) : Except RecordAddressError RecordAddress :=
  match Url.ofString text with
  | .error _ => .error .unreadable
  | .ok u =>
    if u.scheme = "redis" || u.scheme = "rediss" then ofHostUrl u
    else if u.scheme = "unix" || u.scheme = "redis+unix" then ofFileUrl u
    else .error .unreadable

/-- What an attempt to reach the records meets while the network is down. -/
def outage (a : RecordAddress) : NetworkError :=
  match a.place with
  | .host host _ => .ofHost host
  | .file _ => .noSuchFile

end RecordAddress

/-- A store that fails, with the words in which it says so. -/
def ProxyError.ofRecords (text : String) : ProxyError :=
  .internal s!"redis: {text}"

end OnceProxy
