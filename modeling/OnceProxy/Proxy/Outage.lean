import OnceProxy.Network
import OnceProxy.Proxy.Exchange

/-!
# Calls while the network is down

What a call to an origin fails with if no origin can be reached. Only plain HTTP is tried at all.
-/

namespace OnceProxy

open Url

/-- Why a connection to a host cannot be made. -/
def connectFailure (u : Url) : String :=
  if u.scheme ≠ "http" then "invalid URL, scheme is not http"
  else
    match u.host.map NetworkError.ofHost with
    | some .unknownHost => s!"dns error: {NetworkError.unknownHost.message}"
    | _ => s!"tcp connect error: {NetworkError.unreachable.message}"

/-- The URL without its user name and password, which go into a header. They stay where the name,
or a password that stands alone, is no text. -/
def withoutUser (u : Url) : Url :=
  match Percent.text? u.username with
  | none => u
  | some name =>
    if name.isEmpty && (u.password.bind Percent.text?).isNone then u
    else { u with username := [], password := none }

/-- Whether a URL can stand in the first line of a request. Some characters of names cannot, and
its length has a limit. -/
def isWritable (u : Url) : Bool :=
  let name := (u.host.map Host.toText).getD []
  !name.any ("\"\x60\x7b\x7d".toList.contains ·) && u.toString.length < 65535

/-- The wording of a failed call. -/
def callFailure (u : Url) : String :=
  let shown := (withoutUser u).toString
  if u.scheme ≠ "http" && u.scheme ≠ "https" then
    s!"builder error for url ({shown}): URL scheme is not allowed"
  else if !isWritable (withoutUser u) then
    s!"builder error for url ({shown}): Parsed Url is not a valid Uri"
  else s!"error sending request for url ({shown}): error trying to connect: {connectFailure u}"

/-- What becomes of every call. -/
def outageReply [ForeignNames] (call : OriginCall) : Reply where
  delay := 0
  result := .error (match Url.ofString call.url with
    | .ok u => s!"upstream request failed: {callFailure u}"
    | .error e => s!"upstream request failed: builder error: {e.message}")

end OnceProxy
