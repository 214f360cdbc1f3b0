import Switchboard.Terminal.Network

/-!
# The streams of a network

Which streams have been opened, on which addresses, and which of them for input too (`lines`)?
Opening a stream adds one at the end, and whatever goes through a stream or ends it leaves that as
it is. Work on the stream at one place leaves the streams at all others alone.
-/

namespace Switchboard

namespace Network

/-! ## The stream at a place -/

theorem stream?_set_self {net : Network} {i : Nat} {old : Stream} (h : net.stream? i = some old)
    (s : Stream) : (net.set i s).stream? i = some s := by
  unfold stream? at h
  obtain ⟨c, hc, -⟩ := Option.map_eq_some_iff.mp h
  unfold stream? set
  rw [List.getElem?_modify_eq, hc]
  rfl

theorem stream?_set_of_ne (net : Network) {i j : Nat} (h : i ≠ j) (s : Stream) :
    (net.set i s).stream? j = net.stream? j := by
  unfold stream? set
  rw [List.getElem?_modify_ne _ _ h]

/-- A stream that has just been opened is at its place. -/
theorem stream?_dial (net : Network) (url : Url) (bidirectional : Bool) :
    (net.dial url bidirectional).1.stream? (net.dial url bidirectional).2 =
      some (.opened bidirectional) := by
  unfold stream? dial
  rw [List.getElem?_concat_length]
  rfl

/-- The streams opened before stay at theirs. -/
theorem stream?_dial_of_ne (net : Network) (url : Url) (bidirectional : Bool) {i : Nat}
    (h : (net.dial url bidirectional).2 ≠ i) :
    (net.dial url bidirectional).1.stream? i = net.stream? i := by
  have hi : net.connections.length ≠ i := h
  unfold stream? dial
  dsimp only
  rw [List.getElem?_append]
  split
  · rfl
  · rename_i hge
    have hnew : [(⟨url, .opened bidirectional⟩ : Connection)][i - net.connections.length]? = none :=
      List.getElem?_eq_none (by rw [List.length_singleton]; omega)
    have hold : net.connections[i]? = none := List.getElem?_eq_none (by omega)
    rw [hnew, hold]

/-! ## What has been opened -/

/-- The streams opened so far, the first one first: on which address, and whether for input too. -/
def lines (net : Network) : List (Url × Bool) :=
  net.connections.map fun c => (c.url, c.stream.bidirectional)

@[simp] theorem lines_dial (net : Network) (url : Url) (bidirectional : Bool) :
    (net.dial url bidirectional).1.lines = net.lines ++ [(url, bidirectional)] := List.map_append

/-- What all streams show stays as it is if a stream is replaced by one that shows the same. -/
theorem map_connections_set {α : Type} {net : Network} {i : Nat} {old s : Stream}
    (h : net.stream? i = some old) {g : Connection → α} (hg : ∀ url, g ⟨url, s⟩ = g ⟨url, old⟩) :
    (net.set i s).connections.map g = net.connections.map g := by
  unfold set
  refine List.ext_getElem? fun j => ?_
  rw [List.getElem?_map, List.getElem?_map, List.getElem?_modify]
  by_cases hij : i = j
  · subst hij
    obtain ⟨c, hc, rfl⟩ := Option.map_eq_some_iff.mp h
    simp [hc, hg c.url]
  · simp [hij]

/-- A stream that is worked on stays opened for what it was opened for. -/
theorem lines_set {net : Network} {i : Nat} {old s : Stream} (h : net.stream? i = some old)
    (hb : s.bidirectional = old.bidirectional) : (net.set i s).lines = net.lines :=
  map_connections_set h fun _ => by rw [hb]

@[simp] theorem lines_hangUp (net : Network) (i : Nat) : (net.hangUp i).lines = net.lines := by
  unfold hangUp
  cases h : net.stream? i with
  | none => rfl
  | some s => exact lines_set h rfl

@[simp] theorem lines_drain (net : Network) (i : Nat) : (net.drain i).1.lines = net.lines := by
  unfold drain
  cases h : net.stream? i with
  | none => rfl
  | some s =>
      obtain ⟨queue, finished, hs⟩ := s.exists_drain_eq
      exact lines_set h (by rw [hs])

/-- Input that is taken is taken by the stream at the place. -/
theorem exists_send_of_send {net net' : Network} {i : Nat} {bytes : Bytes}
    (h : net.send i bytes = .ok net') :
    ∃ s t, net.stream? i = some s ∧ s.send bytes = .ok t ∧ net' = net.set i t := by
  unfold send at h
  cases hs : net.stream? i with
  | none =>
      rw [hs] at h
      exact absurd h (by simp)
  | some s =>
      rw [hs] at h
      cases ht : s.send bytes with
      | error e =>
          simp only [ht] at h
          exact absurd h (by rintro ⟨⟩)
      | ok t =>
          simp only [ht] at h
          cases h
          exact ⟨s, t, rfl, ht, rfl⟩

theorem lines_send {net net' : Network} {i : Nat} {bytes : Bytes}
    (h : net.send i bytes = .ok net') : net'.lines = net.lines := by
  obtain ⟨s, t, hs, ht, rfl⟩ := exists_send_of_send h
  obtain ⟨-, rfl⟩ := Stream.send_eq_ok_iff.mp ht
  exact lines_set hs rfl

@[simp] theorem lines_advance (net : Network) (ms : Nat) : (net.advance ms).lines = net.lines := rfl

/-! ## What has been given in -/

/-- The input that has reached the remote side of each stream, the first stream first. -/
def inputs (net : Network) : List (List Bytes) := net.connections.map (·.stream.received)

theorem inputs_set {net : Network} {i : Nat} {old s : Stream} (h : net.stream? i = some old)
    (hr : s.received = old.received) : (net.set i s).inputs = net.inputs :=
  map_connections_set h fun _ => hr

@[simp] theorem inputs_hangUp (net : Network) (i : Nat) : (net.hangUp i).inputs = net.inputs := by
  unfold hangUp
  cases h : net.stream? i with
  | none => rfl
  | some s => exact inputs_set h rfl

end Network

end Switchboard
