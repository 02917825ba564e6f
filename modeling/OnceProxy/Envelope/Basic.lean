import OnceProxy.Http.Message
import OnceProxy.Proxy.Error
import OnceProxy.Text.CommaList

/-!
# Envelopes

The part of an answer that is kept, and the response that replays it.
-/

namespace OnceProxy

/-- The answer of an origin as it is kept for replay. -/
structure Envelope where
  status : UInt16
  headers : List (String × String)
  body : List UInt8
  mime : String
  deriving DecidableEq, Repr

namespace Envelope

open Http

/-- The media type of a body that came without one. -/
def defaultMime : String := "text/plain"

/-- The default media type as a header value. -/
def defaultMimeValue : HeaderValue := ⟨Text.Utf8.ofString defaultMime, by decide⟩

/-- An envelope without headers and body. -/
def new (status : UInt16) : Envelope :=
  ⟨status, [], [], defaultMime⟩

/-- The names in an allow-list; letters of either case are the same. -/
def allowedNames (allowList : String) : List String :=
  Text.commaList (String.ofList (allowList.toList.map Char.toLower))

/-- Whether a header is kept for replay: its name is in the allow-list, or the list has no items.
The type and the length of the body are kept apart from the headers. -/
def keeps (allowed : List String) (name : HeaderName) : Bool :=
  name != contentType && name != contentLength && (allowed.isEmpty || allowed.contains name.text)

/-- Takes in one header of an answer; one whose value is no text is left out. -/
def withHeader (allowed : List String) (e : Envelope) (h : HeaderName × HeaderValue) : Envelope :=
  match h.2.toString? with
  | none => e
  | some value =>
    if h.1 = contentType then { e with mime := value }
    else if keeps allowed h.1 then { e with headers := e.headers ++ [(h.1.text, value)] }
    else e

/-- Takes in the headers of an answer, as far as the allow-list keeps them. -/
def withHeaders (e : Envelope) (headers : HeaderMap) (allowList : String) : Envelope :=
  headers.toList.foldl (withHeader (allowedNames allowList)) e

/-- Adds a kept header to a response, if it is legal. -/
def addHeader (m : HeaderMap) (h : String × String) : HeaderMap :=
  match HeaderName.ofString? h.1, HeaderValue.ofString? h.2 with
  | some name, some value => m.append name value
  | _, _ => m

/-- The media type that a response carries. -/
def mimeValue (e : Envelope) : HeaderValue :=
  (HeaderValue.ofString? e.mime).getD defaultMimeValue

/-- The response that replays an envelope. Its status is always 200; that of the answer is only in
the envelope. -/
def render (e : Envelope) : Response where
  status := 200
  headers :=
    ((e.headers.foldl addHeader .empty).insert contentType e.mimeValue).insert contentLength
      (numberValue e.body.length)
  body := e.body

/-- Adds a kept header to a response, if it is legal. There has to be room for it. -/
def addHeader? (limit : HeaderLimit) (m : HeaderMap) (h : String × String) : Option HeaderMap :=
  match HeaderName.ofString? h.1, HeaderValue.ofString? h.2 with
  | some name, some value => m.ifRoom limit (·.append name value)
  | _, _ => some m

/-- The response that replays an envelope, if there is room for its headers. Those of an answer have
room, but an envelope that comes from elsewhere can have any number of them. -/
def render? (limit : HeaderLimit) (e : Envelope) : Option Response := do
  let stored ← e.headers.foldlM (addHeader? limit) .empty
  let typed ← stored.ifRoom limit (·.insert contentType e.mimeValue)
  let headers ← typed.ifRoom limit (·.insert contentLength (numberValue e.body.length))
  return { status := 200, headers, body := e.body }

end Envelope

/-- The response to a request that failed. -/
def ProxyError.render (e : ProxyError) : Http.Response :=
  .ofText e.status e.message

end OnceProxy
