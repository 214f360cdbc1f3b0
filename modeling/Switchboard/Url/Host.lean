import Switchboard.Text.Percent
import Switchboard.Url.DomainName
import Switchboard.Url.Ipv4
import Switchboard.Url.Ipv6

/-!
Hosts of URLs, and the ways in which a URL can be malformed.
-/

namespace Switchboard

/-- A host: a domain or other name, or an address. -/
inductive Host where
  | name (text : String)
  | ipv4 (address : Ipv4)
  | ipv6 (address : Ipv6)
deriving DecidableEq, Repr

/-- Why a text is no URL. -/
inductive UrlError where
  | relativeWithoutBase
  | emptyHost
  | invalidDomainName
  | invalidHostCharacter
  | invalidPort
  | invalidIpv4
  | invalidIpv6
deriving DecidableEq, Repr

/-- What a user reads about a malformed URL. -/
def UrlError.message : UrlError → String
  | .relativeWithoutBase => "relative URL without a base"
  | .emptyHost => "empty host"
  | .invalidDomainName => "invalid international domain name"
  | .invalidHostCharacter => "invalid domain character"
  | .invalidPort => "invalid port number"
  | .invalidIpv4 => "invalid IPv4 address"
  | .invalidIpv6 => "invalid IPv6 address"

namespace Host

/-- The host as it stands in a URL. -/
def render : Host → String
  | name text => text
  | ipv4 address => address.render
  | ipv6 address => "[" ++ address.render ++ "]"

/-- An address in brackets. -/
def parseBracketed (cs : List Char) : Except UrlError Host :=
  if cs.getLast? = some ']' then
    match Ipv6.parse? (cs.drop 1).dropLast with
    | some a => .ok (ipv6 a)
    | none => .error .invalidIpv6
  else .error .invalidIpv6

/-- The host of a URL whose scheme is bound to a network: a domain name or an address. -/
def parseDomain (cs : List Char) : Except UrlError Host :=
  if cs.head? = some '[' then parseBracketed cs
  else
    match DomainName.toAscii (Percent.decode (Utf8.encode cs)) with
    | none => .error .invalidDomainName
    | some [] => .error .emptyHost
    | some ascii =>
      if Ipv4.endsInNumber ascii then
        match Ipv4.parse? ascii with
        | some a => .ok (ipv4 a)
        | none => .error .invalidIpv4
      else .ok (name (String.ofList ascii))

/-- The characters that no host holds. -/
def isForbidden (c : Char) : Bool := "\x00\t\n\r #/:<>?@[\\]^|".toList.contains c

/-- The characters that are percent-encoded everywhere in a URL. -/
def isControl (c : Char) : Bool := c.toNat < 0x20 || c.toNat == 0x7F

/-- The host of a URL with any other scheme. -/
def parseName (cs : List Char) : Except UrlError Host :=
  if cs.head? = some '[' then parseBracketed cs
  else if cs.any isForbidden then .error .invalidHostCharacter
  else .ok (name (String.ofList (Percent.encode isControl cs)))

end Host

end Switchboard
