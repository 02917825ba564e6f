import OnceProxy.Auth.Token
import OnceProxy.Crypto.Ed25519
import OnceProxy.Crypto.Secp256k1
import OnceProxy.Crypto.Sha3

/-!
# Trusted keys

Signed tokens are checked against a set of public keys of one of two schemes. `Scheme` holds what
the schemes have in common, so that the checks do not depend on the arithmetic of either.
-/

namespace OnceProxy

/-- A way to sign tokens, with public keys `K` and signatures `S`: which bytes have the shape of a
signature, and whether one holds for a key and a payload. -/
structure Scheme (K S : Type) where
  name : String
  signature? : List UInt8 → Option S
  holds : K → List UInt8 → S → Bool

namespace Scheme

variable {K S : Type}

/-- The sum of two words, or the greatest word where the sum is too large. -/
def saturatingAdd (a b : UInt64) : UInt64 :=
  if a + b < a then 0xFFFFFFFFFFFFFFFF else a + b

/-- The seconds by which clocks may differ. -/
def permittedDrift : UInt64 := 10

/-- Whether a token is over at the time `now`. -/
def isExpired (t : Token) (now : UInt64) : Bool :=
  saturatingAdd t.expireAt permittedDrift < now

/-- The token in `data`, if it is current and signed by one of the keys. -/
def verify (scheme : Scheme K S) (keys : List K) (data : List UInt8) (now : UInt64) :
    Except AuthError Token := do
  let t ← Token.decode data
  if isExpired t now then throw (.expired t.expireAt)
  match scheme.signature? t.signature with
  | none => throw (.invalidSignature s!"{scheme.name}: signature error")
  | some g =>
    let payload := Token.payload t.expireAt t.message
    if keys.any fun key => scheme.holds key payload g then return t else throw .noMatchingKey

end Scheme

/-- Ed25519 over the payload itself. -/
def ed25519Scheme : Scheme Ed25519.PublicKey (List UInt8) where
  name := "ed25519"
  signature? s := if s.length = 64 then some s else none
  holds key payload g := key.verifies payload g

/-- ECDSA over the SHA3-256 digest of the payload. -/
def ecdsaScheme : Scheme Secp256k1.Point Secp256k1.Signature where
  name := "secp256k1"
  signature? := Secp256k1.Signature.ofBytes?
  holds key payload g := key.verifies (Sha3.digest payload) g

/-- The public keys that tokens are accepted from. -/
structure TrustedKeys where
  ecdsa : List Secp256k1.Point
  ed25519 : List Ed25519.PublicKey
  deriving DecidableEq, Repr

namespace TrustedKeys

/-- No keys: every caller is anonymous. -/
def isEmpty (keys : TrustedKeys) : Bool :=
  keys.ecdsa.isEmpty && keys.ed25519.isEmpty

/-- The token in `data`, under the ECDSA keys if there are any and else under the others. -/
def verifyWith {K S K' S' : Type} (ecdsa : Scheme K S) (ed25519 : Scheme K' S')
    (ecdsaKeys : List K) (ed25519Keys : List K') (data : List UInt8) (now : UInt64) :
    Except AuthError Token :=
  if !ecdsaKeys.isEmpty then ecdsa.verify ecdsaKeys data now
  else if !ed25519Keys.isEmpty then ed25519.verify ed25519Keys data now
  else .error .noPublicKey

/-- The token in `data`, if a trusted key signed it. -/
def verify (keys : TrustedKeys) (data : List UInt8) (now : UInt64) : Except AuthError Token :=
  verifyWith ecdsaScheme ed25519Scheme keys.ecdsa keys.ed25519 data now

/-- The token in an authorization value, if a trusted key signed it. -/
def verifyBearer (keys : TrustedKeys) (header : String) (now : UInt64) :
    Except AuthError Token := do
  keys.verify (← Token.bytesOfBearer header) now

end TrustedKeys

/-- The bytes of a key that is written as a trimmed base64url text. -/
def keyBytes (text : String) : Except AuthError (List UInt8) :=
  (Base64Url.decode (Text.Utf8.encode (Text.trimChars text.toList))).mapError fun e =>
    .invalidPublicKey s!"base64 decode: {e.message}"

/-- Reads the text of an Ed25519 public key. -/
def parseEd25519Key (text : String) : Except AuthError Ed25519.PublicKey := do
  let s ← keyBytes text
  if s.length ≠ 32 then throw (.invalidPublicKey s!"expected 32 bytes, got {s.length}")
  match Ed25519.PublicKey.ofBytes? s with
  | some key => return key
  | none =>
    throw (.invalidPublicKey
      "ed25519 parse error: signature error: Cannot decompress Edwards point")

/-- Reads the text of an ECDSA public key. -/
def parseEcdsaKey (text : String) : Except AuthError Secp256k1.Point := do
  match Secp256k1.Point.decode? (← keyBytes text) with
  | some key => return key
  | none => throw (.invalidPublicKey "secp256k1 parse error: signature error")

/-- Signs with an Ed25519 seed. -/
def signEd25519 (seed : List UInt8) (expireAt : UInt64) (message : String) : Token :=
  ⟨expireAt, message, Ed25519.sign seed (Token.payload expireAt message)⟩

/-- Signs with an ECDSA secret. -/
def signEcdsa (secret : Secp256k1.Scalar) (expireAt : UInt64) (message : String) :
    Except AuthError Token :=
  match Secp256k1.sign? secret (Sha3.digest (Token.payload expireAt message)) with
  | some g => .ok ⟨expireAt, message, g.toBytes⟩
  | none => .error (.signing "signature error")

end OnceProxy
