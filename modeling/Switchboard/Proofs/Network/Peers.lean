import Switchboard.Proofs.Network.Addresses

/-!
# The remote sides of a network

What the remote side of a stream does from its end, at the place of the stream. It changes nothing
but its own stream, and opens none.
-/

namespace Switchboard

/-- What the remote side of a stream does. -/
inductive PeerAct where
  | emit (e : StreamEvent)
  | leave
  /-- Input is no longer taken. -/
  | stopReading

namespace PeerAct

/-- The network once the remote side of the stream at a place has acted. -/
def apply (act : PeerAct) (place : Nat) (net : Network) : Network :=
  match act with
  | emit e => ((net.emit place e).map Prod.fst).getD net
  | leave => (net.dropPeer place).getD net
  | stopReading => ((net.stream? place).map fun s => net.set place s.dropReceiver).getD net

/-- The stream of a remote side that has acted. -/
def onStream (act : PeerAct) (s : Stream) : Stream :=
  match act with
  | emit e => (s.emit e).1
  | leave => s.dropPeer
  | stopReading => s.dropReceiver

theorem apply_eq (act : PeerAct) (place : Nat) (net : Network) :
    act.apply place net =
      match net.stream? place with
      | some s => net.set place (act.onStream s)
      | none => net := by
  cases act with
  | emit e =>
      unfold apply Network.emit
      cases net.stream? place <;> rfl
  | leave =>
      unfold apply Network.dropPeer
      cases net.stream? place <;> rfl
  | stopReading =>
      unfold apply
      cases net.stream? place <;> rfl

/-- A remote side changes nothing but its own stream. -/
theorem apply_cases (act : PeerAct) (place : Nat) (net : Network) :
    act.apply place net = net ∨ ∃ s, act.apply place net = net.set place s := by
  rw [act.apply_eq]
  cases net.stream? place with
  | none => exact .inl rfl
  | some s => exact .inr ⟨_, rfl⟩

/-- No remote side opens a stream. -/
theorem urls_apply (act : PeerAct) (place : Nat) (net : Network) :
    (act.apply place net).urls = net.urls := by
  rcases act.apply_cases place net with h | ⟨s, h⟩
  · rw [h]
  · rw [h, Network.urls_set]

/-- What the terminal has done at its end, and what has reached the other end, stays. -/
theorem exists_onStream_eq (act : PeerAct) (s : Stream) :
    ∃ queue senderGone receiverGone listenerGone unread, act.onStream s =
      { s with queue, senderGone, receiverGone, listenerGone, unread } := by
  cases act with
  | emit e =>
      show ∃ queue senderGone receiverGone listenerGone unread, (s.emit e).1 =
        { s with queue, senderGone, receiverGone, listenerGone, unread }
      unfold Stream.emit
      split
      · exact ⟨_, _, _, _, _, rfl⟩
      · split
        · exact ⟨_, _, _, _, _, rfl⟩
        · exact ⟨_, _, _, _, _, rfl⟩
  | leave => exact ⟨_, _, _, _, _, rfl⟩
  | stopReading => exact ⟨_, _, _, _, _, rfl⟩

theorem lines_apply (act : PeerAct) (place : Nat) (net : Network) :
    (act.apply place net).lines = net.lines := by
  rw [act.apply_eq]
  cases h : net.stream? place with
  | none => rfl
  | some s =>
      obtain ⟨_, _, _, _, _, hs⟩ := act.exists_onStream_eq s
      exact Network.lines_set h (by rw [hs])

theorem inputs_apply (act : PeerAct) (place : Nat) (net : Network) :
    (act.apply place net).inputs = net.inputs := by
  rw [act.apply_eq]
  cases h : net.stream? place with
  | none => rfl
  | some s =>
      obtain ⟨_, _, _, _, _, hs⟩ := act.exists_onStream_eq s
      exact Network.inputs_set h (by rw [hs])

end PeerAct

end Switchboard
