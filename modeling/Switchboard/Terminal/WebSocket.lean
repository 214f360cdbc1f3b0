import Switchboard.Terminal.Stream
import Switchboard.Url.Basic

/-!
WebSocket connections, as far as they can be judged without a network: before a host is contacted,
the request for it has to be one. A connection that fails says so on its stream and is over.
-/

namespace Switchboard

namespace WebSocket

/-- Why no request can be made for an address. -/
inductive Fault where
  | tooLong
  | schemeTooLong
  | badCharacter
  | badAuthority
  | badFormat
  /-- Nothing tells which port to use. -/
  | unsupportedScheme
deriving DecidableEq, Repr

def Fault.message : Fault → String
  | tooLong => "HTTP format error: uri too long"
  | schemeTooLong => "HTTP format error: scheme too long"
  | badCharacter => "HTTP format error: invalid uri character"
  | badAuthority => "HTTP format error: invalid authority"
  | badFormat => "HTTP format error: invalid format"
  | unsupportedScheme => "URL error: URL scheme not supported"

/-- The longest address, in bytes. -/
def maxLength : Nat := 65534

def maxSchemeLength : Nat := 64

def maxColons : Nat := 8

/-! ## The parts of an address -/

def isSchemeChar (c : Char) : Bool := c.isAlphanum || c == '+' || c == '-' || c == '.'

/-- Splits off a scheme with `://` behind it. -/
def splitScheme (cs : List Char) : Option (List Char) × List Char :=
  match cs.dropWhile isSchemeChar with
  | ':' :: '/' :: '/' :: rest => (some (cs.takeWhile isSchemeChar), rest)
  | _ => (none, cs)

/-- Characters that end an authority. -/
def endsAuthority (c : Char) : Bool := c == '/' || c == '?' || c == '#'

/-- Characters that may stand in an address without being encoded. -/
def isAddressChar (c : Char) : Bool := c.isAlphanum || "!#$&'()*+,-./:;=?@[]_~".toList.contains c

/-- What has been seen of an authority. -/
structure Seen where
  /-- Colons that are neither in front of an `@` nor in brackets. -/
  colons : Nat
  opened : Bool
  closed : Bool
  /-- A percent sign that is neither in front of an `@` nor in brackets. -/
  percent : Bool
  /-- The character read last is an `@`. -/
  atLast : Bool
deriving DecidableEq, Repr

/-- Reads a character of an authority. -/
def Seen.step (s : Seen) (c : Char) : Except Fault Seen :=
  let s := { s with atLast := c == '@' }
  if c = ':' then
    if maxColons ≤ s.colons then .error .badAuthority else .ok { s with colons := s.colons + 1 }
  else if c = '[' then
    if s.percent || s.opened then .error .badAuthority else .ok { s with opened := true }
  else if c = ']' then
    if !s.opened || s.closed then .error .badAuthority
    else .ok { s with closed := true, colons := 0, percent := false }
  else if c = '@' then .ok { s with colons := 0, percent := false }
  else if c = '%' then .ok { s with percent := true }
  else if isAddressChar c then .ok s
  else .error .badCharacter

/-- Tells whether an authority may end here. -/
def Seen.isComplete (s : Seen) : Bool :=
  s.opened == s.closed && s.colons ≤ 1 && !s.atLast && !s.percent

/-- Judges an authority. -/
def checkAuthority (cs : List Char) : Except Fault Unit := do
  let seen ← cs.foldlM Seen.step ⟨0, false, false, false, false⟩
  if seen.isComplete then return () else throw .badAuthority

/-- Characters that a path may hold. -/
def isPathChar (c : Char) : Bool :=
  0x21 ≤ c.toNat && c != '#' && c != '<' && c != '>' && c != '?' && c != '\x60'

/-- Characters that a query may hold. -/
def isQueryChar (c : Char) : Bool :=
  0x21 ≤ c.toNat && c != '"' && c != '#' && c != '<' && c != '>'

/-- Judges a path with a query, up to the fragment. -/
def checkPath (cs : List Char) : Except Fault Unit :=
  let cs := cs.takeWhile (· != '#')
  let path := cs.takeWhile (· != '?')
  let query := (cs.dropWhile (· != '?')).drop 1
  if path.all isPathChar && query.all isQueryChar then .ok () else .error .badCharacter

/-- The number behind the last colon of an authority. -/
def port? (authority : List Char) : Option Nat := do
  guard (authority.contains ':')
  let digits := (authority.reverse.takeWhile (· != ':')).reverse
  let digits := match digits with
    | '+' :: rest => rest
    | digits => digits
  guard (!digits.isEmpty && digits.all Char.isDigit)
  let n := digits.foldl (fun n c => n * 10 + (c.toNat - '0'.toNat)) 0
  if n < 65536 then some n else none

/-- The port to contact. -/
def portFor? (scheme : Option (List Char)) (authority : List Char) : Option Nat :=
  (port? authority).or
    (if scheme = some "wss".toList then some 443
    else if scheme = some "ws".toList then some 80
    else none)

/-! ## Requests -/

/-- Judges a written address. Without a scheme it is an authority and nothing else. The result is
the port to contact. -/
def checkAddress (address : String) : Except Fault Nat := do
  if maxLength < address.utf8ByteSize then throw .tooLong
  let (scheme, rest) := splitScheme address.toList
  if maxSchemeLength < (scheme.getD []).length then throw .schemeTooLong
  let authority := rest.takeWhile (!endsAuthority ·)
  let path := rest.dropWhile (!endsAuthority ·)
  checkAuthority authority
  -- An authority alone has no path, and an address with a scheme has an authority.
  if scheme.isNone && !path.isEmpty then throw .badFormat
  if scheme.isSome && authority.isEmpty then throw .badFormat
  if scheme.isSome then checkPath path
  match portFor? scheme authority with
  | some port => return port
  | none => throw .unsupportedScheme

/-- Ends a stream because of a fault. -/
def fail (fault : Fault) (s : Stream) : Stream :=
  let s := (s.emit (.error (StreamError.connectFailed fault.message).message)).1
  (s.emit (.closed true)).1.dropPeer

/-- Begins to connect a stream to an address. If that cannot even be tried, the stream is over;
otherwise what happens next is up to the host. -/
def connect (u : Url) (s : Stream) : Stream :=
  match checkAddress u.render with
  | .ok _ => s
  | .error fault => fail fault s

end WebSocket

end Switchboard
