import OnceProxy.Config
import OnceProxy.Http.Request
import OnceProxy.Proxy.Error
import OnceProxy.Url.Basic

/-!
# The URL of the origin

A path that is the name of a URL variable stands for the URL of the variable. Any other path is a
path at the host that the request names.
-/

namespace OnceProxy

open Http

/-- The header that names the host of the origin. -/
def forwardedHost : HeaderName := ⟨"x-forwarded-host", by decide⟩

/-- The URL variable that a path names. -/
def urlVariable? (path : String) : Option String :=
  match path.toList with
  | '/' :: name =>
    let name := String.ofList name
    if Config.startsWith Config.Family.url.start name then some name else none
  | _ => none

/-- The URL of a variable. -/
def variableUrl (c : Config) (name : String) : Except ProxyError String :=
  let url := (Table.get? name c.urlVars).getD ""
  if Config.startsWith "http" url then .ok url else .error (.validation s!"invalid url: {url}")

/-- The URL of a path at the host that the request names. -/
def hostUrl (r : Request) : Except ProxyError String :=
  let host := r.headerText forwardedHost
  if host.isEmpty then .error (.missingHeader forwardedHost.text)
  else .ok s!"https://{host}{r.target.pathAndQuery}"

/-- What texts are URLs, and what is wrong with those that are none. That is all that requests need
to know of the URL of an origin. -/
class UrlRules where
  fault? : String → Option String

/-- The rules by which URLs are read here. -/
instance UrlRules.own [Url.ForeignNames] : UrlRules where
  fault? text :=
    match Url.ofString text with
    | .ok _ => none
    | .error e => some e.message

/-- The URL that a request is sent on to. It has to be a URL, but it is not brought into normal
form. -/
def originUrl [UrlRules] (c : Config) (r : Request) : Except ProxyError String := do
  let url ← match urlVariable? r.target.path with
    | some name => variableUrl c name
    | none => hostUrl r
  match UrlRules.fault? url with
  | none => return url
  | some fault => throw (.validation s!"invalid url: {fault}")

end OnceProxy
