import OnceProxy.Auth.Keys
import OnceProxy.Http.Header
import OnceProxy.Number.Bytes
import OnceProxy.Table
import OnceProxy.Text.CommaList
import OnceProxy.Text.Decimal

/-!
# Settings

Settings are read from a list of named variables. The order of the list does not matter, and of
several variables with one name the last counts.
-/

namespace OnceProxy

open Http Text

/-- The settings of the proxy. Times are in milliseconds. -/
structure Config where
  host : String
  port : Nat
  requestTimeout : Nat
  pollInterval : Nat
  cacheTtl : Nat
  maxBodyBytes : Nat
  redisUrl : Option String
  allowAgents : List String
  trustedKeys : TrustedKeys
  urlVars : List (String × String)
  headerVars : List (String × HeaderValue)
  deriving DecidableEq

/-- What keeps the proxy from starting. -/
inductive ConfigError where
  | invalidNumber (name : String) (cause : NumberError)
  | invalidKey (name : String) (cause : AuthError)
  | invalidHeader (name : String)
  deriving DecidableEq, Repr

namespace ConfigError

/-- Which setting is at fault. -/
def context : ConfigError → String
  | .invalidNumber name _ => s!"Invalid {name}"
  | .invalidKey name _ => s!"Invalid {name}"
  | .invalidHeader name => s!"Invalid header value in {name}"

/-- What is wrong with it. -/
def cause : ConfigError → String
  | .invalidNumber _ cause => cause.message
  | .invalidKey _ cause => cause.message
  | .invalidHeader _ => "failed to parse header value"

/-- The wording of an error on one line. -/
def message (e : ConfigError) : String :=
  e.context ++ ": " ++ e.cause

end ConfigError

namespace Config

/-- The trimmed value of a variable; one that is blank does not count. -/
def setting? (vars : List (String × String)) (name : String) : Option String :=
  ((Table.get? name vars).map trim).filter (! ·.isEmpty)

/-- A number below `limit` from a variable, or the given one if it is not set. -/
def number (vars : List (String × String)) (name : String) (limit default : Nat) :
    Except ConfigError Nat :=
  match setting? vars name with
  | none => .ok default
  | some s => (readNumber limit s).mapError (.invalidNumber name)

/-- What a variable is for, by the start of its name. -/
inductive Family where
  | ecdsaKey
  | ed25519Key
  | url
  | header
  deriving DecidableEq, Repr

/-- The names of a family start with this. -/
def Family.start : Family → String
  | .ecdsaKey => "ECDSA_PUB_KEY"
  | .ed25519Key => "ED25519_PUB_KEY"
  | .url => "URL_"
  | .header => "HEADER_"

/-- Whether a text starts with another. -/
def startsWith (start s : String) : Bool :=
  start.toList.isPrefixOf s.toList

/-- The family of a variable. -/
def family? (name : String) : Option Family :=
  [Family.ecdsaKey, .ed25519Key, .url, .header].find? fun f => startsWith f.start name

/-- The keys and tables that are made of families of variables. -/
structure Tables where
  ecdsa : List Secp256k1.Point
  ed25519 : List Ed25519.PublicKey
  urls : List (String × String)
  headers : List (String × HeaderValue)

/-- Adds a variable to the tables. -/
def Tables.add (t : Tables) (e : String × String) : Except ConfigError Tables :=
  let (name, value) := e
  match family? name with
  | some .ecdsaKey =>
    match parseEcdsaKey value with
    | .ok key => .ok { t with ecdsa := t.ecdsa ++ [key] }
    | .error cause => .error (.invalidKey name cause)
  | some .ed25519Key =>
    match parseEd25519Key value with
    | .ok key => .ok { t with ed25519 := t.ed25519 ++ [key] }
    | .error cause => .error (.invalidKey name cause)
  | some .url => .ok { t with urls := t.urls ++ [(name, value)] }
  | some .header =>
    match HeaderValue.ofString? value with
    | some v => .ok { t with headers := t.headers ++ [(name, v)] }
    | none => .error (.invalidHeader name)
  | none => .ok t

/-- The tables of variables; the first that is at fault is reported. -/
def tables (vars : List (String × String)) : Except ConfigError Tables :=
  vars.foldlM Tables.add ⟨[], [], [], []⟩

/-- The items of a list in order, each once. -/
def agentSet (items : List String) : List String :=
  (Table.ofList (items.map (·, ()))).map (·.1)

/-- The settings that a list of variables makes. -/
def ofVars (given : List (String × String)) : Except ConfigError Config := do
  let vars := Table.ofList given
  let requestTimeout := max 1000 (← number vars "REQUEST_TIMEOUT" wordLimit 10000)
  let pollInterval := max 10 (← number vars "POLL_INTERVAL" wordLimit 100)
  let cacheTtl ← number vars "CACHE_TTL" wordLimit requestTimeout
  let t ← tables vars
  let port ← number vars "PORT" 0x10000 8080
  let maxBodyBytes ← number vars "MAX_BODY_BYTES" wordLimit 1048576
  return {
    host := (setting? vars "HOST").getD "0.0.0.0"
    port, requestTimeout, pollInterval, cacheTtl, maxBodyBytes
    redisUrl := setting? vars "REDIS_URL"
    allowAgents := agentSet (commaList ((setting? vars "ALLOW_AGENTS").getD ""))
    trustedKeys := ⟨t.ecdsa, t.ed25519⟩
    urlVars := t.urls
    headerVars := t.headers }

/-- How often a follower looks for the answer: as often as the poll interval fits into the request
timeout, at least once, and at most `2 ^ 32 - 1` times. -/
def pollAttempts (c : Config) : Nat :=
  max 1 (min 0xFFFFFFFF (c.requestTimeout / max 1 c.pollInterval))

/-- What is wrong with settings that could be read. -/
def invalid? (c : Config) : Option String :=
  if c.cacheTtl = 0 then some "CACHE_TTL must be greater than zero" else none

end Config

end OnceProxy
