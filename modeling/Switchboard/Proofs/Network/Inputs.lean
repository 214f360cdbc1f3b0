import Switchboard.Proofs.Network.Live

/-!
# The input that streams are given

What has reached the remote side of each stream (`received`)? Giving input to the stream at a place
adds to what that one has received (`received_set_given`). Everything else is `Mute`: the streams
stay opened for what they were opened for, others may come, and no remote side is given anything.
-/

namespace Switchboard

namespace Stream

/-- The stream once input has been given. -/
def given (bytes : Bytes) (s : Stream) : Stream :=
  { s with received := s.received ++ [bytes], unread := s.unread ++ [bytes] }

/-- Work on a stream that gives it no input and leaves it opened for what it was opened for. -/
def Mute (g : Stream → Stream) : Prop :=
  ∀ s, (g s).bidirectional = s.bidirectional ∧ (g s).received = s.received

theorem mute_close : Mute close := fun _ => ⟨rfl, rfl⟩

theorem mute_drain : Mute fun s => s.drain.1 := by
  intro s
  obtain ⟨queue, finished, hs⟩ := s.exists_drain_eq
  dsimp only
  rw [hs]
  exact ⟨rfl, rfl⟩

end Stream

theorem PeerAct.mute_onStream (act : PeerAct) : Stream.Mute act.onStream := by
  intro s
  obtain ⟨_, _, _, _, _, hs⟩ := act.exists_onStream_eq s
  rw [hs]
  exact ⟨rfl, rfl⟩

namespace Network

/-- The input that has reached the remote side of the stream at a place, the first one first. -/
def received (net : Network) (place : Nat) : List Bytes := (net.inputs[place]?).getD []

theorem received_eq (net : Network) (i : Nat) :
    net.received i = ((net.stream? i).map (·.received)).getD [] := by
  unfold received inputs stream?
  rw [List.getElem?_map, Option.map_map]
  rfl

/-- The stream at a place was opened for what its line says. -/
theorem bidirectional_of_lines {net : Network} {i : Nat} {s : Stream} {url : Url}
    {bidirectional : Bool} (hs : net.stream? i = some s)
    (hline : net.lines[i]? = some (url, bidirectional)) : s.bidirectional = bidirectional := by
  obtain ⟨c, hc, rfl⟩ := Option.map_eq_some_iff.mp hs
  rw [lines, List.getElem?_map, hc] at hline
  exact congrArg Prod.snd (Option.some.inj hline)

/-- **Input goes to the stream it is given to, and to no other.** -/
theorem received_set_given {net : Network} {i : Nat} {s : Stream} (hs : net.stream? i = some s)
    (bytes : Bytes) (j : Nat) :
    (net.set i (s.given bytes)).received j =
      net.received j ++ if i = j then [bytes] else [] := by
  rw [received_eq, received_eq]
  by_cases hij : i = j
  · subst hij
    rw [stream?_set_self hs, hs, if_pos rfl]
    rfl
  · rw [stream?_set_of_ne net hij, if_neg hij, List.append_nil]

/-! ## Where no input is given -/

/-- Streams may have been opened, and no remote side has been given anything. -/
structure Mute (before after : Network) : Prop where
  lines : before.lines <+: after.lines
  received : ∀ i, after.received i = before.received i

namespace Mute

theorem trans {net net' net'' : Network} (h : Mute net net') (h' : Mute net' net'') :
    Mute net net'' where
  lines := h.lines.trans h'.lines
  received i := (h'.received i).trans (h.received i)

/-- Nothing but the record of resize requests and the clock has changed. -/
theorem of_connections {net net' : Network} (h : net'.connections = net.connections) :
    Mute net net' where
  lines := ⟨[], by rw [List.append_nil, Network.lines, Network.lines, h]⟩
  received i := by rw [Network.received, Network.received, inputs, inputs, h]

theorem refl (net : Network) : Mute net net := .of_connections rfl

/-- A stream stays at its place opened for what it was opened for. -/
theorem line {net net' : Network} (h : Mute net net') {i : Nat} {line : Url × Bool}
    (hi : net.lines[i]? = some line) : net'.lines[i]? = some line := by
  obtain ⟨added, hadded⟩ := h.lines
  rw [← hadded, List.getElem?_append_left (List.getElem?_eq_some_iff.mp hi).1]
  exact hi

end Mute

/-- What all streams show stays as it is if work at one place changes nothing about it. -/
theorem map_connections_alter {α : Type} {g : Stream → Stream} {f : Connection → α}
    (h : ∀ c, f { c with stream := g c.stream } = f c) (net : Network) (i : Nat) :
    (net.alter i g).connections.map f = net.connections.map f := by
  unfold alter
  refine List.ext_getElem? fun j => ?_
  rw [List.getElem?_map, List.getElem?_map, List.getElem?_modify]
  cases net.connections[j]? with
  | none => rfl
  | some c => by_cases hij : i = j <;> simp [hij, h]

theorem mute_alter {g : Stream → Stream} (hg : Stream.Mute g) (net : Network) (i : Nat) :
    Mute net (net.alter i g) where
  lines := by
    have hlines : (net.alter i g).lines = net.lines :=
      map_connections_alter (fun c => by rw [(hg c.stream).1]) net i
    exact ⟨[], by rw [List.append_nil, hlines]⟩
  received j := by
    have hinputs : (net.alter i g).inputs = net.inputs :=
      map_connections_alter (fun c => (hg c.stream).2) net i
    rw [Network.received, Network.received, hinputs]

/-- A stream that has just been opened has received nothing. -/
theorem mute_dial (net : Network) (url : Url) (bidirectional : Bool) :
    Mute net (net.dial url bidirectional).1 where
  lines := by
    rw [lines_dial]
    exact List.prefix_append _ _
  received i := by
    rw [received_eq, received_eq]
    by_cases hi : (net.dial url bidirectional).2 = i
    · have hnone : net.stream? i = none := by
        rw [← hi]
        exact congrArg _ (List.getElem?_eq_none (Nat.le_refl net.connections.length))
      rw [← hi, stream?_dial, hi, hnone]
      rfl
    · rw [stream?_dial_of_ne _ _ _ hi]

theorem mute_hangUp (net : Network) (i : Nat) : Mute net (net.hangUp i) := by
  rw [hangUp_eq_alter]
  exact mute_alter Stream.mute_close net i

end Network

theorem PeerAct.mute_apply (act : PeerAct) (place : Nat) (net : Network) :
    net.Mute (act.apply place net) := by
  rw [act.apply_eq_alter]
  exact Network.mute_alter act.mute_onStream net place

end Switchboard
