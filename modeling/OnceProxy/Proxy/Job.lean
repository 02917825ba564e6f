import OnceProxy.Envelope.Mask
import OnceProxy.Proxy.Forward
import OnceProxy.Proxy.Resolve
import OnceProxy.Store.Key

/-!
# Jobs

What is left of a request when it has been let in: the key of its entry, the call that has to be
made if nobody makes it, and how the answer is to be kept.
-/

namespace OnceProxy

open Http

/-- A call to an origin. -/
structure OriginCall where
  method : String
  url : String
  headers : HeaderMap
  body : List UInt8
  deriving DecidableEq

/-- The answer of an origin. -/
structure OriginResponse where
  status : UInt16
  headers : HeaderMap
  body : List UInt8
  deriving DecidableEq

/-- The work that a request asks for. -/
structure Job where
  key : IdempotencyKey
  call : OriginCall
  allowList : String
  mask : String
  atRoot : Bool
  deriving DecidableEq

/-! ### Control headers -/

/-- The header with the key that the caller chose. -/
def idempotencyKeyHeader : HeaderName := ⟨"idempotency-key", by decide⟩

/-- The header with the names of the headers that are kept. -/
def responseHeaders : HeaderName := ⟨"response-headers", by decide⟩

/-- The header with the names of the members that are kept. -/
def jsonMask : HeaderName := ⟨"x-json-mask", by decide⟩

namespace Job

/-- Whether a request is for the path of the banner. -/
def isAtRoot (r : Request) : Bool :=
  r.target.path == "/"

/-- The job of a request by an agent. -/
def ofRequest [UrlRules] (c : Config) (agent : String) (r : Request) : Except ProxyError Job := do
  let url ← originUrl c r
  let key := r.headerText idempotencyKeyHeader
  if key.isEmpty then throw (.missingHeader idempotencyKeyHeader.text)
  return {
    key := ⟨agent, r.method, key⟩
    call := {
      method := r.method
      url
      headers := forwardHeaders r.headers c.headerVars
      body := if isSafe r.method then [] else r.body }
    allowList := r.headerText responseHeaders
    mask := r.headerText jsonMask
    atRoot := isAtRoot r }

/-- Whether answers with a status are kept. -/
def isFinal (status : UInt16) : Bool :=
  200 ≤ status && status ≤ 500

/-- What is kept of the answer of an origin. An answer that is not final is an error. -/
def envelope (job : Job) (r : OriginResponse) : Except ProxyError Envelope :=
  if isFinal r.status then
    ((Envelope.new r.status).withHeaders r.headers job.allowList).withBody r.body job.mask
  else .error (.origin (String.ofList (Text.Utf8.decodeLossy r.body)))

end Job

end OnceProxy
