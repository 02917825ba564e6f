import OnceProxy.Auth.Error

/-!
# Errors of requests

Everything that a proxied request can fail with, and how it is answered.
-/

namespace OnceProxy

/-- Everything that a proxied request can fail with. -/
inductive ProxyError where
  | auth (cause : AuthError)
  | forbidden (agent : String)
  | validation (text : String)
  | origin (text : String)
  | timeout
  | internal (text : String)
  deriving DecidableEq, Repr

namespace ProxyError

/-- A request without a header that it needs. -/
def missingHeader (name : String) : ProxyError :=
  .validation s!"missing header: {name}"

/-- Looking for an answer that nobody is making. -/
def notObtained : ProxyError := .internal "not obtained"

/-- Storing an answer without holding the entry. -/
def leaseLost : ProxyError := .internal "lease lost"

/-- Storing a second answer. -/
def alreadyStored : ProxyError := .internal "value already stored"

/-- The wording of an error. -/
def message : ProxyError → String
  | .auth cause => s!"proxy authentication failed: {cause.message}"
  | .forbidden agent => s!"agent {agent} is not allowed"
  | .validation text => text
  | .origin text => text
  | .timeout => "polling get cache timeout"
  | .internal text => text

/-- The status that an error is answered with. -/
def status : ProxyError → Nat
  | .auth _ => 401
  | .forbidden _ => 403
  | .validation _ => 400
  | .origin _ => 500
  | .timeout => 500
  | .internal _ => 500

end ProxyError

end OnceProxy
