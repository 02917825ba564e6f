import OnceProxy.Url.Host

/-!
# A network that is down

What an attempt to reach a host meets where there is no network: addresses cannot be reached, and
names other than that of the machine itself cannot be looked up.
-/

namespace OnceProxy

/-- Why something cannot be reached. -/
inductive NetworkError where
  | unreachable
  | unknownHost
  | noSuchFile
  deriving DecidableEq, Repr

namespace NetworkError

/-- The wording of an error. -/
def message : NetworkError → String
  | .unreachable => "Network is unreachable (os error 101)"
  | .unknownHost =>
    "failed to lookup address information: Temporary failure in name resolution"
  | .noSuchFile => "No such file or directory (os error 2)"

/-- What an attempt to reach a host by its name or the text of its address meets. -/
def ofName (name : List Char) : NetworkError :=
  if name = "localhost".toList || (Url.Ipv4.ofText? name).isSome then .unreachable
  else .unknownHost

/-- What an attempt to reach a host meets. -/
def ofHost : Url.Host → NetworkError
  | .domain name => ofName name
  | .plain name => ofName name
  | .ipv4 _ => .unreachable
  | .ipv6 _ => .unreachable

end NetworkError

end OnceProxy
