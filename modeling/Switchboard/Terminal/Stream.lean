import Switchboard.Terminal.Error
import Switchboard.Text.Utf8

/-!
Streams: a connection between a terminal and a remote side, seen from both ends. Events travel to
the terminal and input to the remote side, each in order and without loss. Either side may go
away first.
-/

namespace Switchboard

/-- What the remote side tells. -/
inductive StreamEvent where
  | data (bytes : Bytes)
  | error (text : String)
  | closed (hadError : Bool)
deriving DecidableEq, Repr

def StreamEvent.isClosed : StreamEvent → Bool
  | closed _ => true
  | _ => false

/-- Both ends of a connection. -/
structure Stream where
  /-- It was opened for input too. -/
  bidirectional : Bool
  /-- Events on their way to the terminal. -/
  queue : List StreamEvent
  /-- The terminal has been told that the stream is over. -/
  finished : Bool
  /-- The terminal has closed its end. -/
  shut : Bool
  /-- The remote side has been told of that. -/
  shutTold : Bool
  /-- The remote side no longer sends. -/
  senderGone : Bool
  /-- The remote side no longer takes input. -/
  receiverGone : Bool
  /-- The remote side no longer waits to hear that the terminal has closed its end. -/
  listenerGone : Bool
  /-- The input that has reached the remote side, the first one first. -/
  received : List Bytes
  /-- The input that the remote side has not read yet. -/
  unread : List Bytes
deriving DecidableEq, Repr

namespace Stream

/-- A stream that has just been opened. -/
def opened (bidirectional : Bool) : Stream :=
  { bidirectional, queue := [], finished := false, shut := false, shutTold := false
    senderGone := false, receiverGone := false, listenerGone := false, received := []
    unread := [] }

/-! ## The end of the terminal -/

/-- Input can be given: the stream was opened for it and has not been closed from here. -/
def takesInput (s : Stream) : Bool := s.bidirectional && !s.shut

/-- The end of the stream has neither been told nor made from here. -/
def isOpen (s : Stream) : Bool := !s.finished && !s.shut

/-- The next event. A remote side that went away without a word counts as closed by an error, and
behind a close there is nothing. -/
def next (s : Stream) : Stream × Option StreamEvent :=
  if s.finished then (s, none)
  else
    match s.queue with
    | e :: rest => ({ s with queue := rest, finished := e.isClosed }, some e)
    | [] => if s.senderGone then ({ s with finished := true }, some (.closed true)) else (s, none)

/-- Cuts events behind the first close. -/
def throughClose : List StreamEvent → List StreamEvent × List StreamEvent
  | [] => ([], [])
  | e :: rest =>
    if e.isClosed then ([e], rest)
    else
      let (taken, left) := throughClose rest
      (e :: taken, left)

/-- All the events that are there to be taken, one after the other. -/
def drain (s : Stream) : Stream × List StreamEvent :=
  if s.finished then (s, [])
  else
    let (taken, queue) := throughClose s.queue
    if taken.any StreamEvent.isClosed then ({ s with queue, finished := true }, taken)
    else if s.senderGone then ({ s with queue, finished := true }, taken ++ [.closed true])
    else ({ s with queue }, taken)

/-- Gives input to the remote side. -/
def send (s : Stream) (bytes : Bytes) : Except StreamError Stream :=
  if !s.takesInput then .error .readOnly
  else if s.finished || s.receiverGone then .error .closed
  else .ok { s with received := s.received ++ [bytes], unread := s.unread ++ [bytes] }

/-- Closes the stream from here. Once is as good as twice. -/
def close (s : Stream) : Stream :=
  { s with
    finished := true
    shut := true
    shutTold := s.shutTold || !s.listenerGone }

/-- Asking for an event changes nothing but what is on its way and whether the end has been told. -/
theorem exists_next_eq (s : Stream) :
    ∃ queue finished, s.next.1 = { s with queue, finished } := by
  unfold next
  split
  · exact ⟨s.queue, s.finished, rfl⟩
  · split
    · exact ⟨_, _, rfl⟩
    · split
      · exact ⟨s.queue, true, rfl⟩
      · exact ⟨s.queue, s.finished, rfl⟩

/-- And so does asking for all of them. -/
theorem exists_drain_eq (s : Stream) :
    ∃ queue finished, s.drain.1 = { s with queue, finished } := by
  unfold drain
  split
  · exact ⟨s.queue, s.finished, rfl⟩
  · dsimp only
    split
    · exact ⟨_, true, rfl⟩
    · split
      · exact ⟨_, true, rfl⟩
      · exact ⟨_, s.finished, rfl⟩

/-- Input is taken exactly if the stream was opened for it, is open, and has a remote side that
takes it. -/
theorem send_eq_ok_iff {s t : Stream} {bytes : Bytes} :
    s.send bytes = .ok t ↔
      (s.bidirectional = true ∧ s.isOpen = true ∧ s.receiverGone = false) ∧
        t = { s with received := s.received ++ [bytes], unread := s.unread ++ [bytes] } := by
  unfold send takesInput isOpen
  cases s.bidirectional <;> cases s.finished <;> cases s.shut <;> cases s.receiverGone <;>
    simp [eq_comm]

/-! ## The end of the remote side -/

/-- How sending an event went. -/
inductive Emitted where
  | ok
  /-- The terminal has closed its end. -/
  | gone
  /-- The remote side has stopped sending. -/
  | noPeer
deriving DecidableEq, Repr

/-- Sends an event to the terminal. -/
def emit (s : Stream) (e : StreamEvent) : Stream × Emitted :=
  if s.senderGone then (s, .noPeer)
  else if s.shut then (s, .gone)
  else ({ s with queue := s.queue ++ [e] }, .ok)

/-- The remote side stops sending. -/
def dropSender (s : Stream) : Stream := { s with senderGone := true }

/-- The remote side stops taking input. What it has not read is lost. -/
def dropReceiver (s : Stream) : Stream := { s with receiverGone := true, unread := [] }

/-- The remote side goes away. -/
def dropPeer (s : Stream) : Stream := { s.dropSender.dropReceiver with listenerGone := true }

/-- The remote side reads the next input, if there is any. -/
def readInput (s : Stream) : Stream × Option Bytes :=
  match s.unread with
  | bytes :: rest => ({ s with unread := rest }, some bytes)
  | [] => (s, none)

end Stream

end Switchboard
