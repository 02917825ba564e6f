import OnceProxy.Proxy.Job

/-!
# The gate

`examine` answers the requests that need no work, and makes jobs of the others. `GET /` is answered
before all else; every other request has to show who sends it.
-/

namespace OnceProxy

open Http

/-! ### Responses -/

/-- Whether a response tells its length. -/
def Http.Response.hasLength (r : Response) : Bool :=
  (r.headers.get? contentLength).isSome

/-- Adds the length to a response that does not tell it. -/
def Http.Response.withLength (r : Response) : Response :=
  if r.hasLength then r
  else { r with headers := r.headers.append contentLength (numberValue r.body.length) }

/-- A response to `HEAD`. -/
def Http.Response.withoutBody (r : Response) : Response :=
  { r with body := [] }

/-- The methods that the path of the banner answers to. -/
def bannerMethods : HeaderValue := ⟨Text.Utf8.ofString "GET,HEAD", by decide⟩

/-- Adds the methods of the banner to a response that names none. -/
def Http.Response.withMethods (r : Response) : Response :=
  if (r.headers.get? allow).isSome then r
  else { r with headers := r.headers.append allow bannerMethods }

/-- A response as it is sent. At the path of the banner it names the methods that this answers
to. -/
def Http.Response.sent (atRoot : Bool) (r : Response) : Response :=
  if atRoot then r.withMethods.withLength else r.withLength

/-- The response to a job that came to an end. -/
def Job.response (job : Job) (result : Except ProxyError Envelope) : Response :=
  .sent job.atRoot (match result with
    | .ok e => e.render
    | .error e => e.render)

/-- What the proxy says of itself. -/
def banner : Response :=
  (Response.ofText 200 "idempotent-proxy").withLength

/-- The response to a request with too large a body. -/
def tooLarge : Response :=
  .ofText 413 "Failed to buffer the request body: length limit exceeded"

/-! ### Identity -/

/-- The header with the token of the caller. -/
def proxyAuthorization : HeaderName := ⟨"proxy-authorization", by decide⟩

/-- The agent of every caller where there are no keys. -/
def anonymous : String := "ANON"

/-- The agent that a request comes from, at a time in seconds. -/
def agentOf (c : Config) (now : UInt64) (r : Request) : Except ProxyError String :=
  if c.trustedKeys.isEmpty then .ok anonymous
  else
    match c.trustedKeys.verifyBearer ((r.headers.text? proxyAuthorization).getD "") now with
    | .ok t => .ok t.message
    | .error e => .error (.auth e)

/-- The agent that a request comes from, if it is let in. -/
def authenticate (c : Config) (now : UInt64) (r : Request) : Except ProxyError String := do
  let agent ← agentOf c now r
  if !c.allowAgents.isEmpty && !c.allowAgents.contains agent then throw (.forbidden agent)
  return agent

/-! ### Admission -/

/-- What becomes of a request at once. -/
inductive Admission where
  | answered (r : Response)
  | admitted (job : Job)
  deriving DecidableEq

/-- Answers a request, or makes a job of it. -/
def examine [UrlRules] (c : Config) (now : UInt64) (r : Request) : Admission :=
  let atRoot := Job.isAtRoot r
  if atRoot && r.method == "GET" then .answered banner
  else
    let asksHead := atRoot && r.method == "HEAD"
    match authenticate c now r with
    | .error e =>
      let response := e.render.withLength
      .answered (if asksHead then response.withoutBody else response)
    | .ok agent =>
      if asksHead then .answered banner.withoutBody
      else if c.maxBodyBytes < r.body.length then .answered (.sent atRoot tooLarge)
      else
        match Job.ofRequest c agent r with
        | .ok job => .admitted job
        | .error e => .answered (.sent atRoot e.render)

end OnceProxy
