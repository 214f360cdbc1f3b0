import Switchboard.Terminal.Grid

/-!
Resize requests. A negotiator remembers the last grid it asked for and does not ask for the same one
again. Requests are never taken back, and how they end is not looked at.
-/

namespace Switchboard

/-- A request to resize the remote terminal. -/
structure ResizeRequest where
  id : String
  grid : Grid
  /-- When the request has run its course, in milliseconds. -/
  landsAt : Nat
deriving DecidableEq, Repr

/-- The requests made so far, the first one first, on a clock of milliseconds. -/
structure ResizeLog where
  now : Nat
  /-- The time that a request takes. -/
  delay : Nat
  requests : List ResizeRequest
deriving DecidableEq, Repr

namespace ResizeLog

def empty (delay : Nat) : ResizeLog := ⟨0, delay, []⟩

/-- Makes a request. -/
def request (log : ResizeLog) (id : String) (grid : Grid) : ResizeLog :=
  { log with requests := log.requests ++ [⟨id, grid, log.now + log.delay⟩] }

/-- The number of requests that have run their course. -/
def landed (log : ResizeLog) : Nat := (log.requests.filter (·.landsAt ≤ log.now)).length

/-- Lets time pass. -/
def advance (log : ResizeLog) (ms : Nat) : ResizeLog := { log with now := log.now + ms }

end ResizeLog

structure Negotiator where
  id : String
  last : Option Grid
deriving DecidableEq, Repr

namespace Negotiator

/-- A negotiator that has asked for nothing. -/
def withId (id : String) : Negotiator := ⟨id, none⟩

/-- Asks for a grid and waits until the request has run its course. -/
def negotiate (n : Negotiator) (log : ResizeLog) (grid : Grid) : ResizeLog :=
  (log.request n.id grid).advance log.delay

/-- Asks for a grid, unless it is the one asked for last. -/
def apply (n : Negotiator) (log : ResizeLog) (grid : Grid) : Negotiator × ResizeLog :=
  if n.last = some grid then (n, log) else ({ n with last := some grid }, log.request n.id grid)

end Negotiator

end Switchboard
