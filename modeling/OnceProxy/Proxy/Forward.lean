import OnceProxy.Config

/-!
# Forwarded headers

The headers for the proxy stay behind, and names of header variables are replaced by their values.
-/

namespace OnceProxy

open Http

/-- The headers that are meant for the proxy and not for the origin. -/
def strippedHeaders : List String :=
  ["host", "forwarded", "proxy-authorization", "x-forwarded-for", "x-forwarded-host",
    "x-forwarded-proto", "idempotency-key"]

/-- A header value as it is sent on. One that is the name of a header variable stands for the value
of the variable. -/
def substitute (vars : List (String × HeaderValue)) (v : HeaderValue) : HeaderValue :=
  match v.toString? with
  | some s =>
    if Config.startsWith Config.Family.header.start s then (Table.get? s vars).getD v else v
  | none => v

/-- The headers that a request is sent on with. -/
def forwardHeaders (headers : HeaderMap) (vars : List (String × HeaderValue)) : HeaderMap :=
  headers.toList.foldl (fun m (name, value) =>
    if strippedHeaders.contains name.text then m else m.append name (substitute vars value))
    .empty

end OnceProxy
