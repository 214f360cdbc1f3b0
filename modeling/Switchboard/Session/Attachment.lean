import Switchboard.Decimal.Shortest
import Switchboard.Session.Descriptor
import Switchboard.Session.Endpoint
import Switchboard.Terminal.Network
import Switchboard.Terminal.Surface

/-!
Attachments: the tie between the stream of a session and the surface that it is drawn on. An
attachment opens its stream once, when it is given a surface; keeps the surface as large as its box
while it is visible, and tells the remote side of a shell the size; draws what the stream brings;
and says when the session should be closed.

An operation on an attachment may work on the network too, and then returns both.
-/

namespace Switchboard

/-- How far an attachment has come. -/
inductive Phase where
  /-- There is no surface yet. -/
  | unattached
  /-- The stream is open, and the surface has not been measured yet. -/
  | attaching
  | attached
  | closed
deriving DecidableEq, Repr

/-- What happens when a stream is lost, and whether the remote side is told about sizes. -/
structure AttachmentOptions where
  closeOnConnectionLost : Bool
  /-- The milliseconds from the loss of the stream to the end of the session. -/
  closeDelay : Option Nat
  remoteResize : Bool
deriving DecidableEq, Repr

structure Attachment (S : Type) where
  key : SessionKey
  streamUrl : Url
  options : AttachmentOptions
  visible : Bool
  fullscreen : Bool
  phase : Phase
  surface : Option S
  /-- The place of the stream on the network, while the attachment holds it. -/
  stream : Option Nat
  negotiator : Negotiator
  /-- A measurement was put off and is to be made up for. -/
  needsLayout : Bool
  /-- Changes of the layout are followed. -/
  listening : Bool
  /-- The attachment has been taken down for good. -/
  tornDown : Bool
  /-- Somebody wants to know when the session should be closed. -/
  observed : Bool
  /-- When the session should be closed for a stream that was lost before. -/
  deadlines : List Nat
  /-- The reasons given to the observer, the first one first. -/
  notified : List CloseReason

namespace Attachment

variable {S : Type}

/-- The attachment of a session, under an id for its resize requests. -/
def ofDescriptor (d : Descriptor) (options : AttachmentOptions) (id : String) (observed : Bool) :
    Attachment S :=
  { key := d.key, streamUrl := d.streamUrl, options, visible := d.visible, fullscreen := false
    phase := .unattached, surface := none, stream := none, negotiator := .withId id
    needsLayout := false, listening := false, tornDown := false, observed, deadlines := []
    notified := [] }

/-- The phase as others see it. -/
def state (a : Attachment S) : Phase := if a.tornDown then .closed else a.phase

def isInteractive (a : Attachment S) : Bool := a.key.isInteractive

/-- Only a shell has a size on the remote side. -/
def isResizable (a : Attachment S) : Bool := a.options.remoteResize && a.isInteractive

/-- The grid that the remote side was last asked for. -/
def negotiated (a : Attachment S) : Option Grid := a.negotiator.last

/-- The address that the stream is opened on. -/
def openUrl (a : Attachment S) : Url :=
  if a.isResizable then a.streamUrl.withResizeId a.negotiator.id else a.streamUrl

/-- The stream is held and open. -/
def streamOpen (a : Attachment S) (net : Network) : Bool :=
  (a.stream.map net.isOpen).getD false

/-- Gives a reason to the observer. -/
def notify (reason : CloseReason) (a : Attachment S) : Attachment S :=
  if a.observed then { a with notified := a.notified ++ [reason] } else a

/-- Closes the stream, if one is held, and lets go of it. -/
def dropStream (a : Attachment S) (net : Network) : Attachment S × Network :=
  match a.stream with
  | some i => ({ a with stream := none }, net.hangUp i)
  | none => (a, net)

section Layout

variable [Surface S]

/-- Gives the surface a grid, if it has another one. -/
def fitSurface (grid : Grid) (surface : S) : S :=
  if Surface.grid surface = grid then surface else Surface.resize grid surface

/-- Asks the remote side for a grid, if it can be asked. -/
def negotiate (grid : Grid) (a : Attachment S) (net : Network) : Attachment S × Network :=
  if a.isResizable && a.streamOpen net then
    let (negotiator, resizes) := a.negotiator.apply net.resizes grid
    ({ a with negotiator }, { net with resizes })
  else (a, net)

/-- A measurement has been made: the attachment is complete. -/
def settle (a : Attachment S) : Attachment S :=
  { a with
    needsLayout := false
    phase := if a.phase = .attaching then .attached else a.phase }

/-- Measures the surface and fits the grids on both sides to it. A hidden surface would measure as
nothing, so that is put off until it is shown. -/
def layOut (a : Attachment S) (net : Network) : Attachment S × Network :=
  if !a.listening || a.tornDown then (a, net)
  else if !a.visible then ({ a with needsLayout := true }, net)
  else
    match a.surface with
    | none => (a, net)
    | some surface =>
      match Surface.fitted? surface with
      | none => ({ a with needsLayout := true }, net)
      | some grid =>
        let (a, net) := { a with surface := some (fitSurface grid surface) }.negotiate grid net
        (a.settle, net)

/-- Binds a surface and opens the stream. That happens once; without a surface there is nothing to
do yet. -/
def attach (surface : Option S) (a : Attachment S) (net : Network) : Attachment S × Network :=
  match surface with
  | none => (a, net)
  | some surface =>
    if a.phase ≠ .unattached ∨ a.tornDown then (a, net)
    else
      let (net, i) := net.dial a.openUrl a.isInteractive
      { a with
        phase := .attaching
        surface := some surface
        stream := some i
        listening := true }.layOut net

/-- Shows or hides the surface. -/
def setVisible (visible : Bool) (a : Attachment S) (net : Network) : Attachment S × Network :=
  let a := { a with visible }
  if visible && a.needsLayout then a.layOut net else (a, net)

/-- Gives the surface the whole window, or takes it back. -/
def toggleFullscreen (a : Attachment S) (net : Network) : Attachment S × Network :=
  { a with fullscreen := !a.fullscreen }.layOut net

end Layout

section Output

variable [Surface S]

/-- Draws bytes, if there is a surface. -/
def draw (bytes : Bytes) (a : Attachment S) : Attachment S :=
  { a with surface := a.surface.map (Surface.write bytes) }

/-- Draws a line of the terminal's own, if there is a surface. -/
def drawNotice (text : String) (a : Attachment S) : Attachment S :=
  { a with surface := a.surface.map (Surface.writeLine text) }

/-- The notice of an error, in red. -/
def errorNotice (text : String) : String := "\x1b[31m" ++ text

def closedNotice : String := "Connection closed"

def delayedNotice (ms : Nat) : String :=
  closedNotice ++ ", will close in " ++ secondsText ms ++ " seconds"

/-- The delay between the loss of the stream and the end of the session, if there is one to wait for
and somebody to tell. -/
def deferral? (a : Attachment S) : Option Nat :=
  a.options.closeDelay.filter fun ms => 0 < ms && a.options.closeOnConnectionLost && a.observed

/-- The stream has gone away. The session is closed for that if the options say so, now or later;
otherwise it stays to show the notice. -/
def streamClosed (a : Attachment S) (now : Nat) : Attachment S :=
  if a.tornDown then a
  else
    let a := { a with phase := .closed }
    match a.deferral? with
    | some ms => { a with deadlines := a.deadlines ++ [now + ms] }.drawNotice (delayedNotice ms)
    | none =>
      let a := a.drawNotice closedNotice
      if a.options.closeOnConnectionLost then a.notify .lost else a

/-- Takes in one event. -/
def deliver (e : StreamEvent) (a : Attachment S) (net : Network) : Attachment S × Network :=
  match e with
  | .data bytes => (a.draw bytes, net)
  | .error text => (a.drawNotice (errorNotice text), net)
  | .closed _ =>
    -- The stream is let go of first, so that nothing behind the close is read.
    let (a, net) := a.dropStream net
    (a.streamClosed net.now, net)

/-- Takes in all events that are there, and says how many. -/
def pump (a : Attachment S) (net : Network) : Attachment S × Network × Nat :=
  match if a.tornDown then none else a.stream with
  | none => (a, net, 0)
  | some i =>
    let (net, events) := net.drain i
    let (a, net) := events.foldl (fun (a, net) e => a.deliver e net) (a, net)
    (a, net, events.length)

end Output

/-- Gives keystrokes to the stream of a shell. -/
def sendInput (bytes : Bytes) (a : Attachment S) (net : Network) : Except StreamError Network :=
  if !a.isInteractive then .error .readOnly
  else
    match a.stream with
    | some i => net.send i bytes
    | none => .error .closed

/-- The user kills the terminal. -/
def kill (a : Attachment S) (net : Network) : Attachment S × Network :=
  if a.tornDown then (a, net)
  else
    let (a, net) := a.dropStream net
    ({ a with phase := .closed }.notify .manual, net)

/-- Takes the attachment down: nothing is followed, told or expected any more, and the stream is
closed. -/
def close (a : Attachment S) (net : Network) : Attachment S × Network :=
  if a.tornDown then (a, net)
  else
    let (a, net) := a.dropStream net
    ({ a with
        phase := .closed
        listening := false
        tornDown := true
        observed := false
        deadlines := [] }, net)

/-- Tells the observer of every deadline that has passed. -/
def expire (now : Nat) (a : Attachment S) : Attachment S :=
  let due := a.deadlines.filter (· ≤ now)
  due.foldl (fun a _ => a.notify .lost) { a with deadlines := a.deadlines.filter (now < ·) }

end Attachment

end Switchboard
