import OnceProxy.Cbor.Value
import OnceProxy.Envelope.Basic
import OnceProxy.Json.Reader

/-!
# Masks

A mask names the members that are kept of a JSON or CBOR body.
-/

namespace OnceProxy.Envelope

/-- Whether one text occurs within another. -/
def occursIn (part : List Char) : List Char → Bool
  | [] => part.isEmpty
  | c :: cs => part.isPrefixOf (c :: cs) || occursIn part cs

/-- The members of a value with the given names. -/
def selectMembers (mask : List String) (v : Json.Value) : List (String × Json.Value) :=
  mask.foldl (fun ms name =>
    match v.member? name with
    | some w => Table.insert name w ms
    | none => ms) []

/-- The JSON object of those members of a body that the mask names; a body that is no object has
none. -/
def maskJson (body : List UInt8) (mask : List String) : Except ProxyError (List UInt8) :=
  match Json.Value.ofBytes body with
  | .ok v => .ok (Json.Value.object (selectMembers mask v)).encode
  | .error e => .error (.internal s!"invalid JSON body: {e.message body}")

/-- Whether an entry of a map has a text for a key that the mask names. -/
def selects (mask : List String) (entry : Cbor.Value × Cbor.Value) : Bool :=
  entry.1.asText?.any mask.contains

/-- The CBOR map of those entries of a body that the mask names; a body that is no map has none. -/
def maskCbor (body : List UInt8) (mask : List String) : Except ProxyError (List UInt8) :=
  match Cbor.Value.ofBytes body with
  | .ok v => .ok (Cbor.Value.map ((v.asMap?.getD []).filter (selects mask))).encode
  | .error e => .error (.internal s!"invalid CBOR body: {e.message}")

/-- The body as it is kept: what the mask leaves of a JSON or CBOR body of a status below 300, and
any other body as it is. -/
def project (e : Envelope) (body : List UInt8) (mask : List String) :
    Except ProxyError (List UInt8) :=
  if 300 ≤ e.status ∨ mask = [] then .ok body
  else if occursIn "application/json".toList e.mime.toList then maskJson body mask
  else if occursIn "application/cbor".toList e.mime.toList then maskCbor body mask
  else .ok body

/-- Takes in the body of an answer, projected through the mask. The media type has to be known
before. -/
def withBody (e : Envelope) (body : List UInt8) (mask : String) : Except ProxyError Envelope :=
  (e.project body (Text.commaList mask)).map fun kept => { e with body := kept }

end OnceProxy.Envelope
