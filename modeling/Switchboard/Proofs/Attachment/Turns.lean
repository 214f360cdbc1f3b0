import Switchboard.Proofs.Attachment.Watch
import Switchboard.Proofs.Network.Live

/-!
# What a turn reads and what it touches

A pump works on an attachment and on the whole network. How much of that does it depend on? It
reads the stream that is held and the clock, and it works at the place of that stream alone
(`pump_of_held`). So the pumps of two attachments do not get in each other's way: neither sees what
the other does (`pump_congr`), and on the network they can be done in either order
(`touched_comm`). Taking down is even simpler: it reads nothing of the network (`close_fst_congr`).
-/

namespace Switchboard

/-- What a turn does to the stream: the events are taken, and it is closed if its end is among
them. -/
def Stream.turned (s : Stream) : Stream := if ends s.drain.2 then s.drain.1.close else s.drain.1

namespace Attachment

variable {S : Type}

/-! ## The network -/

/-- The stream that is held while the attachment is up. -/
def source? (a : Attachment S) : Option Nat := if a.tornDown then none else a.stream

theorem source?_eq_some_iff {a : Attachment S} {i : Nat} :
    a.source? = some i ↔ a.tornDown = false ∧ a.stream = some i := by
  unfold source?
  cases a.tornDown <;> simp

theorem source?_eq_none_iff {a : Attachment S} :
    a.source? = none ↔ a.tornDown = true ∨ a.stream = none := by
  unfold source?
  cases a.tornDown <;> simp

/-- The network once the stream of an attachment that is up has been worked on. -/
def touched (g : Stream → Stream) (net : Network) (a : Attachment S) : Network :=
  a.source?.elim net fun i => net.alter i g

@[simp] theorem now_touched (g : Stream → Stream) (net : Network) (a : Attachment S) :
    (touched g net a).now = net.now := by
  unfold touched
  cases a.source? <;> rfl

/-- **The same can be done for two attachments in either order.** -/
theorem touched_comm (g : Stream → Stream) (a b : Attachment S) (net : Network) :
    touched g (touched g net a) b = touched g (touched g net b) a := by
  unfold touched
  cases a.source? with
  | none => cases b.source? <;> rfl
  | some i =>
      cases b.source? with
      | none => rfl
      | some j =>
          by_cases hij : i = j
          · rw [hij]
          · exact net.alter_comm hij _ _

/-- The streams at other places are left alone. -/
theorem stream?_touched (g : Stream → Stream) {a : Attachment S} {i : Nat}
    (h : a.stream ≠ some i) (net : Network) : (touched g net a).stream? i = net.stream? i := by
  unfold touched
  cases ha : a.source? with
  | none => rfl
  | some j =>
      refine net.stream?_alter_of_ne ?_ _
      rintro rfl
      exact h (source?_eq_some_iff.mp ha).2

theorem stream?_foldl_touched (g : Stream → Stream) {l : List (Attachment S)} {i : Nat}
    (h : ∀ a ∈ l, a.stream ≠ some i) (net : Network) :
    (l.foldl (touched g) net).stream? i = net.stream? i := by
  induction l generalizing net with
  | nil => rfl
  | cons a rest ih =>
      obtain ⟨ha, hrest⟩ := List.forall_mem_cons.mp h
      rw [List.foldl_cons, ih hrest, stream?_touched g ha]

theorem dropStream_snd_congr {a b : Attachment S} (h : a.stream = b.stream) (net : Network) :
    (a.dropStream net).2 = (b.dropStream net).2 := by
  unfold dropStream
  rw [h]
  cases b.stream <;> rfl

theorem dropStream_snd_of_none {a : Attachment S} (h : a.stream = none) (net : Network) :
    (a.dropStream net).2 = net := by
  unfold dropStream
  rw [h]

theorem dropStream_snd_of_some {a : Attachment S} {i : Nat} (h : a.stream = some i)
    (net : Network) : (a.dropStream net).2 = net.alter i Stream.close := by
  unfold dropStream
  rw [h]
  exact net.hangUp_eq_alter i

/-! ## Taking down -/

theorem close_snd (a : Attachment S) (net : Network) :
    (a.close net).2 = touched Stream.close net a := by
  unfold touched
  cases ht : a.tornDown with
  | true => rw [close_of_tornDown ht, source?_eq_none_iff.mpr (.inl ht)]; rfl
  | false =>
      rw [close_eq ht]
      cases hs : a.stream with
      | none =>
          rw [source?_eq_none_iff.mpr (.inr hs)]
          exact dropStream_snd_of_none hs net
      | some i =>
          rw [source?_eq_some_iff.mpr ⟨ht, hs⟩]
          exact dropStream_snd_of_some hs net

theorem close_fst_congr (a : Attachment S) (net net' : Network) :
    (a.close net).1 = (a.close net').1 := by
  cases ht : a.tornDown with
  | true => rw [close_of_tornDown ht, close_of_tornDown ht]
  | false => rw [close_eq ht, close_eq ht]

section Surfaces

variable [Surface S]

/-! ## The events -/

/-- What an event makes of an attachment. -/
def hear (now : Nat) (a : Attachment S) : StreamEvent → Attachment S
  | .data bytes => a.draw bytes
  | .error text => a.drawNotice (errorNotice text)
  | .closed _ => ({ a with stream := none } : Attachment S).streamClosed now

def hearAll (now : Nat) (events : List StreamEvent) (a : Attachment S) : Attachment S :=
  events.foldl (hear now) a

theorem stream_hear_of_going (now : Nat) (a : Attachment S) {e : StreamEvent}
    (h : e.isClosed = false) : (a.hear now e).stream = a.stream := by
  cases e with
  | data bytes => rfl
  | error text => rfl
  | closed hadError => exact absurd h (by simp [StreamEvent.isClosed])

theorem stream_hear_of_closed (now : Nat) (a : Attachment S) {e : StreamEvent}
    (h : e.isClosed = true) : (a.hear now e).stream = none := by
  cases e with
  | closed hadError =>
      rcases (keeps_streamClosed { a with stream := none } now (.start 0)).stream with hs | hs
      · exact hs
      · exact hs
  | data bytes => exact absurd h (by simp [StreamEvent.isClosed])
  | error text => exact absurd h (by simp [StreamEvent.isClosed])

/-- An event concerns the network only if it is the end of the stream. -/
theorem deliver_eq (e : StreamEvent) (a : Attachment S) (net : Network) :
    a.deliver e net = (a.hear net.now e, if e.isClosed then (a.dropStream net).2 else net) := by
  cases e with
  | data bytes => rfl
  | error text => rfl
  | closed hadError =>
      have hnow : (a.dropStream net).2.now = net.now :=
        congrArg ResizeLog.now (resizes_dropStream a net)
      show ((a.dropStream net).1.streamClosed (a.dropStream net).2.now, (a.dropStream net).2) = _
      rw [dropStream_fst, hnow]
      rfl

/-- **What a sequence of events does.** The attachment hears them, and lets go of the stream if its
end is among them. -/
theorem deliverAll_eq (events : List StreamEvent) (a : Attachment S) (net : Network) :
    deliverAll events (a, net) =
      (a.hearAll net.now events,
        if Stream.ends events then (a.dropStream net).2 else net) := by
  induction events generalizing a net with
  | nil => rfl
  | cons e rest ih =>
      show deliverAll rest (a.deliver e net) = _
      rw [deliver_eq, Stream.ends_cons]
      cases he : e.isClosed with
      | false =>
          rw [if_neg (by simp), ih, dropStream_snd_congr (stream_hear_of_going net.now a he),
            Bool.false_or]
          rfl
      | true =>
          -- behind the end there is nothing to let go of
          have hnow : (a.dropStream net).2.now = net.now :=
            congrArg ResizeLog.now (resizes_dropStream a net)
          rw [if_pos rfl, ih, dropStream_snd_of_none (stream_hear_of_closed net.now a he), ite_self,
            hnow, Bool.true_or, if_pos rfl]
          rfl

/-! ## A turn -/

/-- **What a turn reads and what it touches**: the clock and the stream that is held. -/
theorem pump_of_held {a : Attachment S} {i : Nat} (h : a.source? = some i) (net : Network) :
    a.pump net =
      (a.hearAll net.now (net.drain i).2, net.alter i Stream.turned, (net.drain i).2.length) := by
  obtain ⟨ht, hs⟩ := source?_eq_some_iff.mp h
  have hnow : (net.drain i).1.now = net.now := congrArg ResizeLog.now (net.resizes_drain i)
  have hnet : (if Stream.ends (net.drain i).2 then (a.dropStream (net.drain i).1).2
      else (net.drain i).1) = net.alter i Stream.turned := by
    rw [dropStream_snd_of_some hs, net.drain_fst_eq_alter, Network.alter_alter]
    unfold Network.drain
    cases hi : net.stream? i with
    | none =>
        rw [Network.alter_of_none hi, Network.alter_of_none hi, Network.alter_of_none hi]
        rfl
    | some s =>
        -- the events are those of the stream that is there
        rw [← apply_ite (net.alter i)]
        refine Network.alter_congr fun t ht => ?_
        cases hi.symm.trans ht
        unfold Stream.turned
        dsimp only
        split <;> rfl
  rw [pump_of_stream ht hs, deliverAll_eq, hnow]
  dsimp only
  rw [hnet]

theorem pump_snd (a : Attachment S) (net : Network) :
    (a.pump net).2.1 = touched Stream.turned net a := by
  unfold touched
  cases h : a.source? with
  | none => rw [pump_of_idle (source?_eq_none_iff.mp h)]; rfl
  | some i => rw [pump_of_held h]; rfl

/-- **Neither sees what the other does.** A turn is the same on networks that have the stream and
the clock in common. -/
theorem pump_congr {a : Attachment S} {net net' : Network} (hnow : net'.now = net.now)
    (hs : ∀ i, a.stream = some i → net'.stream? i = net.stream? i) :
    (a.pump net').1 = (a.pump net).1 ∧ (a.pump net').2.2 = (a.pump net).2.2 := by
  cases h : a.source? with
  | none =>
      rw [pump_of_idle (source?_eq_none_iff.mp h), pump_of_idle (source?_eq_none_iff.mp h)]
      exact ⟨rfl, rfl⟩
  | some i =>
      have hdrain : (net'.drain i).2 = (net.drain i).2 := by
        unfold Network.drain
        rw [hs i (source?_eq_some_iff.mp h).2]
        cases net.stream? i <;> rfl
      rw [pump_of_held h, pump_of_held h, hnow, hdrain]
      exact ⟨rfl, rfl⟩

end Surfaces

end Attachment

end Switchboard
