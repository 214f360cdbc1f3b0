import Switchboard.Terminal.Negotiator
import Switchboard.Terminal.Stream
import Switchboard.Url.Basic

/-!
The network as the terminals see it: the streams that have been opened, in the order of opening, and
the resize requests, on one clock. A stream is known by its place in that order and stays there when
it is over.
-/

namespace Switchboard

/-- A stream with the address it was opened on. -/
structure Connection where
  url : Url
  stream : Stream
deriving DecidableEq, Repr

structure Network where
  connections : List Connection
  resizes : ResizeLog
deriving DecidableEq, Repr

namespace Network

/-- No streams yet. A resize request will take the given time. -/
def start (delay : Nat) : Network := ⟨[], .empty delay⟩

/-- Opens a stream; the number is its place. -/
def dial (net : Network) (url : Url) (bidirectional : Bool) : Network × Nat :=
  ({ net with connections := net.connections ++ [⟨url, .opened bidirectional⟩] },
    net.connections.length)

/-- The stream at a place. -/
def stream? (net : Network) (i : Nat) : Option Stream := net.connections[i]?.map (·.stream)

/-- Replaces the stream at a place. -/
def set (net : Network) (i : Nat) (stream : Stream) : Network :=
  { net with connections := net.connections.modify i fun c => { c with stream } }

/-- Closes a stream from here. -/
def hangUp (net : Network) (i : Nat) : Network :=
  match net.stream? i with
  | some s => net.set i s.close
  | none => net

/-- Takes the events that are there. -/
def drain (net : Network) (i : Nat) : Network × List StreamEvent :=
  match net.stream? i with
  | some s => (net.set i s.drain.1, s.drain.2)
  | none => (net, [])

def isOpen (net : Network) (i : Nat) : Bool := ((net.stream? i).map Stream.isOpen).getD false

/-- Gives input to a stream. -/
def send (net : Network) (i : Nat) (bytes : Bytes) : Except StreamError Network :=
  match net.stream? i with
  | some s => net.set i <$> s.send bytes
  | none => .error .closed

/-! ## The remote sides -/

/-- The remote side of a stream sends an event. -/
def emit (net : Network) (i : Nat) (e : StreamEvent) : Option (Network × Stream.Emitted) :=
  (net.stream? i).map fun s => (net.set i (s.emit e).1, (s.emit e).2)

/-- The remote side of a stream goes away. -/
def dropPeer (net : Network) (i : Nat) : Option Network :=
  (net.stream? i).map fun s => net.set i s.dropPeer

/-! ## Time -/

def now (net : Network) : Nat := net.resizes.now

/-- Lets time pass. -/
def advance (net : Network) (ms : Nat) : Network :=
  { net with resizes := net.resizes.advance ms }

end Network

end Switchboard
