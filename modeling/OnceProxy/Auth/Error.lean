/-!
# Authentication errors

Everything that can be wrong with a token, a signature or a key.
-/

namespace OnceProxy

/-- Why a caller is not authenticated, or why a token or a key cannot be used. -/
inductive AuthError where
  | missingBearer
  | decode (cause : String)
  | encode (cause : String)
  | expired (expireAt : UInt64)
  | invalidSignature (cause : String)
  | invalidPublicKey (cause : String)
  | signing (cause : String)
  | noPublicKey
  | noMatchingKey
  deriving DecidableEq, Repr

/-- The wording of an authentication error. -/
def AuthError.message : AuthError → String
  | .missingBearer => "missing Bearer token"
  | .decode cause => s!"failed to decode token: {cause}"
  | .encode cause => s!"failed to encode token: {cause}"
  | .expired expireAt => s!"token expired at {expireAt}"
  | .invalidSignature cause => s!"invalid signature: {cause}"
  | .invalidPublicKey cause => s!"invalid public key: {cause}"
  | .signing cause => s!"signing failed: {cause}"
  | .noPublicKey => "no public key configured"
  | .noMatchingKey => "signature verification failed"

end OnceProxy
