import OnceProxy.Text.Utf8

/-!
# Idempotency keys

The name of an entry, and its address where entries are kept under flat names.
-/

namespace OnceProxy

/-- What makes two requests the same: the agent, the method, and the key that the caller chose. -/
structure IdempotencyKey where
  agent : String
  method : String
  key : String
  deriving DecidableEq, Repr

namespace IdempotencyKey

/-- A key as logs show it. -/
def display (k : IdempotencyKey) : String :=
  k.agent ++ ":" ++ k.method ++ ":" ++ k.key

/-- The flat address of a key. The length of the agent, in bytes, stands in front, so that colons in
its name confuse nothing. -/
def storageKey (k : IdempotencyKey) : String :=
  toString (Text.Utf8.ofString k.agent).length ++ ":" ++ k.display

/-- The address of a key in a record store that others use too. -/
def recordKey (k : IdempotencyKey) : String :=
  "idempotency:" ++ k.storageKey

end IdempotencyKey

end OnceProxy
