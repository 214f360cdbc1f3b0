import Switchboard.Url.Host

/-!
URLs by their parts. The parts are kept in their written form, percent-encoded where the place
demands it, so that `Url.render` only joins them.
-/

namespace Switchboard

/-- How a scheme treats the text behind it. -/
inductive SchemeKind where
  /-- Bound to a network: there is always a host, and `\` is as good as `/`. -/
  | network
  | file
  | other
deriving DecidableEq, Repr

/-- Tells the kinds that the standard lists by name. -/
def SchemeKind.isSpecial (k : SchemeKind) : Bool := k != .other

/-- The kind of a scheme. -/
def SchemeKind.of (scheme : String) : SchemeKind :=
  if ["ws", "wss", "http", "https", "ftp"].contains scheme then .network
  else if scheme == "file" then .file
  else .other

/-- The port that need not be written. -/
def defaultPort? (scheme : String) : Option Nat :=
  if scheme == "ws" || scheme == "http" then some 80
  else if scheme == "wss" || scheme == "https" then some 443
  else if scheme == "ftp" then some 21
  else none

namespace Url

/-- Where a URL leads, and as whom. -/
structure Authority where
  username : String
  password : Option String
  host : Option Host
  port : Option Nat
deriving DecidableEq, Repr

/-- A path of segments, each behind a `/`, or a text of its own. -/
inductive Path where
  | segments (names : List String)
  | text (t : String)
deriving DecidableEq, Repr

end Url

/-- A URL. -/
structure Url where
  scheme : String
  authority : Option Url.Authority
  path : Url.Path
  query : Option String
  fragment : Option String
deriving DecidableEq, Repr

namespace Url

/-- User name and password with the `@` behind them. -/
def Authority.renderUser (a : Authority) : String :=
  match a.password with
  | some p => a.username ++ ":" ++ p ++ "@"
  | none => if a.username.isEmpty then "" else a.username ++ "@"

/-- The host, empty where there is none. -/
def Authority.renderHost (a : Authority) : String := (a.host.map Host.render).getD ""

/-- The port with the colon in front of it. -/
def Authority.renderPort (a : Authority) : String := (a.port.map fun p => ":" ++ toString p).getD ""

def Authority.render (a : Authority) : String := a.renderUser ++ a.renderHost ++ a.renderPort

def Path.render : Path → String
  | segments names => String.join (names.map ("/" ++ ·))
  | text t => t

/-- Keeps a path from being read as a host where there is none. -/
def Path.guard : Path → String
  | segments ("" :: _ :: _) => "/."
  | _ => ""

/-- The written form. -/
def render (u : Url) : String :=
  u.scheme ++ ":" ++
    (match u.authority with
      | some a => "//" ++ a.render
      | none => u.path.guard) ++
    u.path.render ++ ((u.query.map ("?" ++ ·)).getD "") ++ ((u.fragment.map ("#" ++ ·)).getD "")

instance : ToString Url := ⟨render⟩

/-- The host, if the URL has one that is not empty. -/
def host? (u : Url) : Option Host := u.authority.bind (·.host)

/-- The written host, empty where there is none. -/
def hostText (u : Url) : String := (u.authority.map Authority.renderHost).getD ""

/-- The port, written or not. -/
def effectivePort? (u : Url) : Option Nat := (u.authority.bind (·.port)).or (defaultPort? u.scheme)

def kind (u : Url) : SchemeKind := .of u.scheme

end Url

end Switchboard
