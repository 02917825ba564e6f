import OnceProxy.Auth.Error
import OnceProxy.Base64Url
import OnceProxy.Cbor.Value
import OnceProxy.Text.Blank

/-!
# Tokens

A token has one byte form, an array of three items, and travels in base64url behind `Bearer`.
-/

namespace OnceProxy

open Cbor

/-- A signed statement that a bearer is the agent `message` until `expireAt`, in seconds. -/
structure Token where
  expireAt : UInt64
  message : String
  signature : List UInt8
  deriving DecidableEq, Repr

namespace Token

/-- The bytes that a signature covers: the array of the expiry and the agent. -/
def payload (expireAt : UInt64) (message : String) : List UInt8 :=
  (Head.array (some 2)).encode ++ (Head.positive expireAt.toNat).encode ++ encodeText message

/-- The bytes of a token: the array of its three parts. -/
def encode (t : Token) : List UInt8 :=
  (Head.array (some 3)).encode ++ (Head.positive t.expireAt.toNat).encode ++
    encodeText t.message ++ encodeBytes t.signature

/-- Reads the three parts of a token. Elements after the third are left unread. -/
def read (i : Input) : Except ReadError (Token × Input) := do
  let (s, i) ← readSequence i
  let (expireAt, s, i) ← s.element readUnsigned (fun b => .ok b.toNat) 0 3 i
  let (message, s, i) ← s.element readText (refuseByte "a string") 1 3 i
  let (signature, _, i) ← s.element readByteString (refuseByte "byte array") 2 3 i
  return (⟨UInt64.ofNat expireAt, message, signature⟩, i)

/-- Reads the bytes of a token, all of them. -/
def decode (data : List UInt8) : Except AuthError Token :=
  match read ⟨0, data⟩ with
  | .error e => .error (.decode e.message)
  | .ok (t, i) =>
    if i.rest.isEmpty then .ok t
    else .error (.decode s!"{i.rest.length} trailing bytes after token")

/-- What an authorization value starts with. -/
def bearerScheme : List Char := "Bearer ".toList

/-- The authorization value of a byte string. -/
def bearerOfBytes (data : List UInt8) : String :=
  String.ofList bearerScheme ++ Base64Url.encodeString data

/-- The authorization value of a token. -/
def bearer (t : Token) : String :=
  bearerOfBytes t.encode

/-- The bytes in an authorization value. Blanks around their text do not matter. -/
def bytesOfBearer (header : String) : Except AuthError (List UInt8) :=
  let cs := header.toList
  if bearerScheme.isPrefixOf cs then
    let text := Text.trimChars (cs.drop bearerScheme.length)
    (Base64Url.decode (Text.Utf8.encode text)).mapError fun e => .decode s!"base64: {e.message}"
  else .error .missingBearer

end Token

end OnceProxy
