import OnceProxy.Config
import OnceProxy.Store.RecordAddress

/-!
# Start

The proxy starts if its settings can be read and make sense, and if the shared records can be
reached where there are any. What keeps it from starting is reported.
-/

namespace OnceProxy

/-- What keeps the proxy from starting. -/
inductive StartError where
  | settings (e : ConfigError)
  | senseless (text : String)
  | store (e : ProxyError)
  deriving DecidableEq, Repr

namespace StartError

/-- The report of an error, with its cause on lines of its own if it has one. -/
def report : StartError → String
  | .settings e => s!"Error: {e.context}\n\nCaused by:\n    {e.cause}\n"
  | .senseless text => s!"Error: {text}\n"
  | .store e => s!"Error: {e.message}\n"

end StartError

/-- The address of the shared records, and that they can be reached. -/
def reachRecords [Url.ForeignNames] (reach : RecordAddress → Option NetworkError) (url : String) :
    Except ProxyError RecordAddress :=
  match RecordAddress.ofString url with
  | .error e => .error (.ofRecords e.message)
  | .ok address =>
    match reach address with
    | some e => .error (.ofRecords e.message)
    | none => .ok address

/-- The settings that the proxy starts with. `reach` tells why records cannot be reached. -/
def start [Url.ForeignNames] (reach : RecordAddress → Option NetworkError)
    (vars : List (String × String)) : Except StartError Config := do
  let c ← (Config.ofVars vars).mapError .settings
  if let some text := c.invalid? then throw (.senseless text)
  if let some url := c.redisUrl then
    let _ ← (reachRecords reach url).mapError .store
  return c

end OnceProxy
