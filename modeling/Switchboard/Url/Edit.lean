import Switchboard.Text.Form
import Switchboard.Url.Basic

/-!
Changing parts of a URL.
-/

namespace Switchboard.Url

/-- Adds pairs to the query. -/
def appendQuery (u : Url) (pairs : List (String × String)) : Url :=
  { u with query := some (String.ofList (Form.append ((u.query.map String.toList).getD []) pairs)) }

/-- The pairs in the query. -/
def queryPairs (u : Url) : List (String × String) :=
  (u.query.map fun q => Form.decodePairs q.toList).getD []

/-- Leads to another place of the same host. -/
def withPath (u : Url) (names : List String) : Url := { u with path := .segments names }

/-- Changes the scheme of a URL with a host to a network scheme. A port that the new scheme implies
is no longer written. -/
def withNetworkScheme? (u : Url) (scheme : String) : Option Url :=
  match u.authority with
  | some a =>
    if u.kind.isSpecial && a.host.isSome then
      some { u with
        scheme
        authority := some { a with port := a.port.filter (defaultPort? scheme != some ·) } }
    else none
  | none => none

end Switchboard.Url
