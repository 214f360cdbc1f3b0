import Switchboard.Proofs.Network.Waning

/-!
# Which streams are live

A stream is live from its opening until the terminal shuts it down (`Live`). Whatever else is done
to a network, at one place or to the clock, leaves all streams live or shut as they are; closing the
stream at one place shuts that one (`live_hangUp_iff`), and opening one adds it (`live_dial_iff`).
All work at a place is `alter`, so that work at two places can be done in either order
(`alter_comm`).
-/

namespace Switchboard

namespace Network

/-! ## Work at one place -/

/-- Works on the stream at a place. -/
def alter (net : Network) (i : Nat) (g : Stream → Stream) : Network :=
  { net with connections := net.connections.modify i fun c => { c with stream := g c.stream } }

theorem stream?_alter (net : Network) (i j : Nat) (g : Stream → Stream) :
    (net.alter i g).stream? j = if i = j then (net.stream? j).map g else net.stream? j := by
  unfold stream? alter
  rw [List.getElem?_modify]
  cases net.connections[j]? with
  | none => simp
  | some c => by_cases h : i = j <;> simp [h]

theorem stream?_alter_of_ne (net : Network) {i j : Nat} (h : i ≠ j) (g : Stream → Stream) :
    (net.alter i g).stream? j = net.stream? j := by
  rw [stream?_alter, if_neg h]

/-- Only what is done to the stream that is there matters. -/
theorem alter_congr {net : Network} {i : Nat} {g h : Stream → Stream}
    (hgh : ∀ s, net.stream? i = some s → g s = h s) : net.alter i g = net.alter i h := by
  unfold alter
  refine congrArg (Network.mk · net.resizes) (List.ext_getElem? fun j => ?_)
  rw [List.getElem?_modify, List.getElem?_modify]
  cases hc : net.connections[j]? with
  | none => rfl
  | some c =>
      by_cases hij : i = j
      · subst hij
        have hs : net.stream? i = some c.stream := by
          unfold stream?
          rw [hc]
          rfl
        simp [hgh c.stream hs]
      · simp [hij]

/-- Where there is no stream, nothing can be done. -/
theorem alter_of_none {net : Network} {i : Nat} (h : net.stream? i = none) (g : Stream → Stream) :
    net.alter i g = net := by
  have hid : net.alter i g = net.alter i id :=
    alter_congr fun s hs => absurd (h.symm.trans hs) (by simp)
  rw [hid]
  exact congrArg (Network.mk · net.resizes) (List.modify_id i net.connections)

theorem alter_alter (net : Network) (i : Nat) (g h : Stream → Stream) :
    (net.alter i g).alter i h = net.alter i (h ∘ g) :=
  congrArg (Network.mk · net.resizes) (List.modify_modify_eq _ _ i net.connections)

/-- **Work at two places can be done in either order.** -/
theorem alter_comm (net : Network) {i j : Nat} (hij : i ≠ j) (g h : Stream → Stream) :
    (net.alter i g).alter j h = (net.alter j h).alter i g :=
  congrArg (Network.mk · net.resizes) (List.modify_modify_ne _ _ net.connections hij)

/-- To replace the stream that is there is to work on it. -/
theorem set_eq_alter {net : Network} {i : Nat} {s : Stream} (h : net.stream? i = some s)
    (g : Stream → Stream) : net.set i (g s) = net.alter i g := by
  have hconst : net.set i (g s) = net.alter i fun _ => g s := rfl
  rw [hconst]
  refine alter_congr fun t ht => ?_
  cases h.symm.trans ht
  rfl

theorem hangUp_eq_alter (net : Network) (i : Nat) : net.hangUp i = net.alter i Stream.close := by
  unfold hangUp
  cases hs : net.stream? i with
  | none => exact (alter_of_none hs _).symm
  | some s => exact set_eq_alter hs Stream.close

theorem drain_fst_eq_alter (net : Network) (i : Nat) :
    (net.drain i).1 = net.alter i fun s => s.drain.1 := by
  unfold drain
  cases hs : net.stream? i with
  | none => exact (alter_of_none hs _).symm
  | some s => exact set_eq_alter hs fun s => s.drain.1

/-! ## Live streams -/

/-- A stream has been opened at the place, and the terminal has not shut it down. -/
def Live (net : Network) (i : Nat) : Prop := ∃ s, net.stream? i = some s ∧ s.shut = false

theorem Live.lt {net : Network} {i : Nat} (h : net.Live i) : i < net.urls.length := by
  obtain ⟨s, hs, -⟩ := h
  obtain ⟨c, hc, -⟩ := Option.map_eq_some_iff.mp hs
  unfold urls
  rw [List.length_map]
  exact (List.getElem?_eq_some_iff.mp hc).1

/-- What is done at a place without shutting the stream down leaves all streams as live as they
are. -/
theorem live_alter_iff {g : Stream → Stream} (hg : ∀ s, (g s).shut = s.shut) (net : Network)
    (i j : Nat) : (net.alter i g).Live j ↔ net.Live j := by
  unfold Live
  rw [stream?_alter]
  split
  · simp only [Option.map_eq_some_iff]
    constructor
    · rintro ⟨-, ⟨s, hs, rfl⟩, hshut⟩
      exact ⟨s, hs, (hg s).symm.trans hshut⟩
    · rintro ⟨s, hs, hshut⟩
      exact ⟨g s, ⟨s, hs, rfl⟩, (hg s).trans hshut⟩
  · exact Iff.rfl

/-- **Closing a stream shuts that one.** -/
theorem live_hangUp_iff (net : Network) (i j : Nat) :
    (net.hangUp i).Live j ↔ net.Live j ∧ i ≠ j := by
  unfold Live
  rw [hangUp_eq_alter, stream?_alter]
  by_cases hij : i = j
  · rw [if_pos hij]
    refine iff_of_false ?_ fun h => h.2 hij
    rintro ⟨s, hs, hshut⟩
    obtain ⟨t, -, rfl⟩ := Option.map_eq_some_iff.mp hs
    exact absurd hshut (by simp [Stream.close])
  · rw [if_neg hij, and_iff_left hij]

/-- **Opening a stream adds a live one.** -/
theorem live_dial_iff (net : Network) (url : Url) (bidirectional : Bool) (j : Nat) :
    (net.dial url bidirectional).1.Live j ↔
      net.Live j ∨ (net.dial url bidirectional).2 = j := by
  by_cases hj : (net.dial url bidirectional).2 = j
  · refine iff_of_true ?_ (.inr hj)
    rw [← hj]
    exact ⟨_, net.stream?_dial url bidirectional, rfl⟩
  · unfold Live
    rw [stream?_dial_of_ne _ _ _ hj, or_iff_left hj]

theorem live_drain_iff (net : Network) (i j : Nat) : (net.drain i).1.Live j ↔ net.Live j := by
  rw [drain_fst_eq_alter]
  refine live_alter_iff (fun s => ?_) net i j
  obtain ⟨queue, finished, hs⟩ := s.exists_drain_eq
  rw [hs]

theorem live_send_iff {net net' : Network} {i : Nat} {bytes : Bytes}
    (h : net.send i bytes = .ok net') (j : Nat) : net'.Live j ↔ net.Live j := by
  obtain ⟨s, t, hs, ht, rfl⟩ := exists_send_of_send h
  obtain ⟨-, rfl⟩ := Stream.send_eq_ok_iff.mp ht
  rw [set_eq_alter hs fun s =>
    { s with received := s.received ++ [bytes], unread := s.unread ++ [bytes] }]
  refine live_alter_iff ?_ net i j
  exact fun _ => rfl

end Network

namespace PeerAct

theorem apply_eq_alter (act : PeerAct) (place : Nat) (net : Network) :
    act.apply place net = net.alter place act.onStream := by
  rw [act.apply_eq]
  cases hs : net.stream? place with
  | none => exact (Network.alter_of_none hs _).symm
  | some s => exact Network.set_eq_alter hs act.onStream

/-- No remote side shuts a stream down for the terminal. -/
theorem live_apply_iff (act : PeerAct) (place : Nat) (net : Network) (j : Nat) :
    (act.apply place net).Live j ↔ net.Live j := by
  rw [act.apply_eq_alter]
  refine Network.live_alter_iff (fun s => ?_) net place j
  obtain ⟨_, _, _, _, _, hs⟩ := act.exists_onStream_eq s
  rw [hs]

end PeerAct

end Switchboard
