import OnceProxy.Url.Address
import OnceProxy.Url.Percent

/-!
# Hosts

The host of a URL of a special scheme is a domain name or a numeric address. That of any other is a
text, or an address of eight pieces.
-/

namespace OnceProxy.Url

/-- What is wrong with a text that is to be a URL. -/
inductive UrlError where
  | relativeWithoutBase
  | emptyHost
  | invalidPort
  | invalidIpv4
  | invalidIpv6
  | invalidDomainName
  | invalidHostCharacter
  deriving DecidableEq, Repr

/-- The wording of an error. -/
def UrlError.message : UrlError → String
  | .relativeWithoutBase => "relative URL without a base"
  | .emptyHost => "empty host"
  | .invalidPort => "invalid port number"
  | .invalidIpv4 => "invalid IPv4 address"
  | .invalidIpv6 => "invalid IPv6 address"
  | .invalidDomainName => "invalid international domain name"
  | .invalidHostCharacter => "invalid domain character"

/-! ### Domain names -/

/-- How domain names are written in ASCII that have characters of other scripts, or labels that stand
for such characters. The rules for this fill long tables, which grow from time to time, and nothing
here depends on what they say. -/
class ForeignNames where
  ascii? : List Char → Option (List Char)

/-- Where such names are not known, none of them is the name of a host. -/
instance ForeignNames.unknown : ForeignNames where
  ascii? _ := none

namespace DomainName

/-- An ASCII character that no domain name holds. -/
def isForbidden (c : Char) : Bool :=
  c.toNat ≤ 32 || c.toNat = 127 || "%#/:<>?@[\\]^|".toList.contains c

/-- What a label starts with that stands for other characters. -/
def encodedMark : List Char := "xn--".toList

/-- Whether a name is in ASCII and stands for itself. -/
def isPlain (name : List Char) : Bool :=
  name.all (·.toNat < 128) && (splitDots name).all (! encodedMark.isPrefixOf ·)

/-- The ASCII form of a domain name. -/
def ofText? [ForeignNames] (text : List Char) : Option (List Char) :=
  let name := text.map Char.toLower
  if isPlain name then if name.any isForbidden then none else some name
  else ForeignNames.ascii? text

end DomainName

/-! ### Hosts -/

/-- The host of a URL. -/
inductive Host where
  | domain (name : List Char)
  | ipv4 (number : Nat)
  | ipv6 (pieces : List Nat)
  | plain (text : List Char)
  deriving DecidableEq, Repr

namespace Host

/-- The text between brackets. -/
def inBrackets? : List Char → Option (Except UrlError (List Char))
  | '[' :: rest =>
    some (if rest.getLast? = some ']' then .ok rest.dropLast else .error .invalidIpv6)
  | _ => none

/-- Reads an address in brackets. -/
def ofBrackets (text : List Char) : Except UrlError Host :=
  match Ipv6.ofText? text with
  | some pieces => .ok (.ipv6 pieces)
  | none => .error .invalidIpv6

/-- Reads the host of a special scheme. -/
def ofText [ForeignNames] (text : List Char) : Except UrlError Host := do
  match inBrackets? text with
  | some inner => ofBrackets (← inner)
  | none =>
    let some decoded := Percent.text? text
      | throw .invalidDomainName
    let some name := DomainName.ofText? decoded.toList
      | throw .invalidDomainName
    if name.isEmpty then throw .emptyHost
    if Ipv4.endsInNumber name then
      match Ipv4.ofText? name with
      | some n => return .ipv4 n
      | none => throw .invalidIpv4
    return .domain name

/-- A character that no host holds. -/
def isForbidden (c : Char) : Bool :=
  c.toNat = 0 || "\t\n\r #/:<>?@[\\]^|".toList.contains c

/-- Reads the host of any other scheme. -/
def ofPlainText (text : List Char) : Except UrlError Host := do
  match inBrackets? text with
  | some inner => ofBrackets (← inner)
  | none =>
    if text.any isForbidden then throw .invalidHostCharacter
    return .plain (Percent.encode Percent.controls text)

/-- A host as it stands in a URL. -/
def toText : Host → List Char
  | .domain name => name
  | .ipv4 n => Ipv4.toText n
  | .ipv6 pieces => '[' :: Ipv6.toText pieces ++ [']']
  | .plain text => text

end Host

end OnceProxy.Url
