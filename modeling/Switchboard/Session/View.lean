import Switchboard.Session.Attachment
import Switchboard.Session.Registry
import Switchboard.Session.Selection

/-!
The view of the open sessions: the registry, the highlighted selection, and one attachment for every
open session. What is open follows from the registry alone. A selection, a new scope or a new
inventory changes the registry, and the attachments are then brought in step with it; an attachment
that wants its session closed leaves a request, which is carried out by the next turn.

Wherever a surface may be needed, the operation takes what makes one for a session, or none if there
is nowhere to draw it yet.
-/

namespace Switchboard

/-- The wish of an attachment that its session be closed. -/
structure CloseRequest where
  key : SessionKey
  reason : CloseReason
  /-- The id of the attachment. -/
  sender : String
deriving DecidableEq, Repr

namespace CloseRequest

/-- What an attachment has asked for between two moments. -/
def between {S : Type} (before after : Attachment S) : List CloseRequest :=
  (after.notified.drop before.notified.length).map (⟨after.key, ·, after.negotiator.id⟩)

end CloseRequest

structure View (S : Type) where
  registry : Registry
  network : Network
  /-- The mounted attachments, the oldest one first. -/
  attachments : List (Attachment S)
  /-- The attachments that have been taken down. -/
  retired : List (Attachment S)
  highlighted : Option SessionKey
  options : AttachmentOptions
  /-- The requests that the next turn carries out. -/
  requests : List CloseRequest
  /-- The sessions that a surface was asked for, the first one first. -/
  asked : List SessionKey
  /-- The number of the next attachment. -/
  nextNumber : Nat

namespace View

variable {S : Type}

/-- A view without sessions. -/
def start (endpoint : Endpoint) (ns : String) (options : AttachmentOptions) (network : Network)
    (firstNumber : Nat) : View S :=
  { registry := .opened endpoint ns, network, attachments := [], retired := []
    highlighted := none, options, requests := [], asked := [], nextNumber := firstNumber }

/-- The id under which an attachment asks for sizes: its number in 32 hexadecimal digits. -/
def resizeId (number : Nat) : String :=
  String.ofList ((Nat.toDigits 16 number).leftpad 32 '0')

/-- The attachment of a session. -/
def attachment? (v : View S) (key : SessionKey) : Option (Attachment S) :=
  v.attachments.find? (·.key == key)

def keys (v : View S) : List SessionKey := v.attachments.map (·.key)

/-- The attachment that is shown. -/
def foreground? (v : View S) : Option (Attachment S) := v.attachments.find? (·.visible)

/-- Works on the attachment of a session, if it is mounted, and keeps what that asks for. -/
def workOn {α : Type} (key : SessionKey) (f : Attachment S → Network → Attachment S × Network × α)
    (v : View S) : View S × Option α :=
  match v.attachment? key with
  | none => (v, none)
  | some before =>
    let (after, network, result) := f before v.network
    ({ v with
        network
        attachments := v.attachments.map fun a => if a.key = key then after else a
        requests := v.requests ++ CloseRequest.between before after },
      some result)

/-- Works on the attachment of a session for its effect alone. -/
def update (key : SessionKey) (f : Attachment S → Network → Attachment S × Network) (v : View S) :
    View S :=
  (v.workOn key fun a net =>
    let (a, net) := f a net
    (a, net, ())).1

/-- Works on every mounted attachment in turn. -/
def updateAll (f : Attachment S → Network → Attachment S × Network) (v : View S) : View S :=
  v.keys.foldl (fun v key => v.update key f) v

/-- Takes down the attachments that are not wanted any more. -/
def unmount (wanted : Attachment S → Bool) (v : View S) : View S :=
  v.attachments.foldl
    (fun v a =>
      if wanted a then { v with attachments := v.attachments ++ [a] }
      else
        let (a, network) := a.close v.network
        { v with network, retired := v.retired ++ [a] })
    { v with attachments := [] }

section Sync

variable [Surface S]

/-- Mounts a session that has no attachment yet. -/
def mount (surface : Option S) (d : Descriptor) (v : View S) : View S :=
  let a := Attachment.ofDescriptor d v.options (resizeId v.nextNumber) true
  let (a, network) := a.attach surface v.network
  { v with network, attachments := v.attachments ++ [a], nextNumber := v.nextNumber + 1 }

/-- Asks for the surface of a session. -/
def ask (d : Descriptor) (v : View S) : View S := { v with asked := v.asked ++ [d.key] }

/-- Brings one session in step: it is mounted, bound as soon as there is a surface, and shown if it
is in the foreground. -/
def present (surfaces : Descriptor → Option S) (v : View S) (d : Descriptor) : View S :=
  match v.attachment? d.key with
  | none => (v.ask d).mount (surfaces d) d
  | some a =>
    let v := if a.state = .unattached then
        (v.ask d).update d.key fun a net => a.attach (surfaces d) net
      else v
    v.update d.key fun a net => a.setVisible d.visible net

/-- Brings the attachments in step with the registry. -/
def sync (surfaces : Descriptor → Option S) (v : View S) : View S :=
  let descriptors := v.registry.descriptors
  descriptors.foldl (present surfaces) (v.unmount fun a => descriptors.any (·.key == a.key))

/-! ## What the user and the cluster do -/

/-- Selects a session. Selecting the highlighted one again hides it. -/
def select (surfaces : Descriptor → Option S) (selection : Selection) (v : View S) : View S :=
  -- An incomplete selection hides what is shown, just as a repeated one does.
  let key := selection.key?.filter fun key => some key != v.highlighted
  { v with registry := v.registry.select key, highlighted := key }.sync surfaces

/-- Closes the sessions whose container is gone. -/
def refreshInventory (surfaces : Descriptor → Option S) (inventory : Inventory) (v : View S) :
    View S :=
  let (registry, removed) := v.registry.reconcile inventory
  let v := { v with registry }
  if removed.isEmpty then v else v.sync surfaces

/-- Takes over a registry in a new scope, if the scope is new. -/
def rescope (surfaces : Descriptor → Option S) (change : Registry × Bool) (v : View S) :
    View S × Bool :=
  let v := { v with registry := change.1 }
  (if change.2 then { v with highlighted := none }.sync surfaces else v, change.2)

/-- Moves to a namespace. -/
def updateNamespace (surfaces : Descriptor → Option S) (ns : String) (v : View S) :
    View S × Bool :=
  v.rescope surfaces (v.registry.updateNamespace ns)

/-- Moves to a context and a namespace. -/
def updateScope (surfaces : Descriptor → Option S) (context : Option String) (ns : String)
    (v : View S) : View S × Bool :=
  v.rescope surfaces (v.registry.updateScope context ns)

/-- The layout has changed. -/
def layOut (v : View S) : View S := v.updateAll fun a net => a.layOut net

/-- Gives keystrokes to the session in the foreground. -/
def sendInput (bytes : Bytes) (v : View S) : Except StreamError (View S) :=
  match v.foreground? with
  | some a => (fun network => { v with network }) <$> a.sendInput bytes v.network
  | none => .error .closed

/-! ## Turns -/

/-- Takes in the events of all streams, and says whether there were any. -/
def pumpAll (v : View S) : View S × Bool :=
  v.keys.foldl
    (fun (v, changed) key =>
      let (v, count) := v.workOn key fun a net => a.pump net
      (v, changed || count.any (0 < ·)))
    (v, false)

/-- Carries out one request, and says whether the session was there. -/
def carryOut (v : View S) (request : CloseRequest) : View S × Bool :=
  let (registry, removed) := v.registry.delete request.key request.reason
  ({ v with registry }, removed.isSome)

/-- Carries out all requests. -/
def carryOutAll (v : View S) : View S × Bool :=
  v.requests.foldl
    (fun (v, any) request =>
      let (v, removed) := v.carryOut request
      (v, any || removed))
    ({ v with requests := [] }, false)

/-- A highlight points at a deleted session if both are merged logs or both are of one container,
whether as a log or as a shell. -/
def pointsAt (highlighted deleted : SessionKey) : Bool :=
  highlighted.isMerged == deleted.isMerged && highlighted.target? == deleted.target?

/-- Takes back the highlight if it points at one of the deleted sessions. -/
def dropHighlight (deleted : List SessionKey) (v : View S) : View S :=
  { v with highlighted := v.highlighted.filter fun key => !deleted.any (pointsAt key) }

/-- One turn: takes in what the streams bring, then carries out the requests. Says whether there is
anything new to draw. -/
def pump (surfaces : Descriptor → Option S) (v : View S) : View S × Bool :=
  -- The announcements of earlier turns have been dealt with.
  let announced := v.registry.announced.length
  let (v, changed) := v.pumpAll
  let (v, closed) := v.carryOutAll
  let v := v.dropHighlight (v.registry.announced.drop announced)
  (if closed then v.sync surfaces else v, changed || closed)

end Sync

/-- Takes down the whole view. -/
def close (v : View S) : View S :=
  { v with registry := v.registry.close }.unmount fun _ => false

/-- Lets time pass. -/
def advance (ms : Nat) (v : View S) : View S :=
  { v with network := v.network.advance ms }.updateAll fun a net => (a.expire net.now, net)

end View

end Switchboard
