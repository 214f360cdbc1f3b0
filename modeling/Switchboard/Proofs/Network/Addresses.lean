import Switchboard.Proofs.Network.Lines

/-!
# The addresses of a network

A stream stays at its place on the address it was opened on. Opening one adds an address at the
end; every other operation on a network, from either end, leaves the addresses as they are.
-/

namespace Switchboard

namespace Network

/-- The addresses on which streams have been opened, the first one first. -/
def urls (net : Network) : List Url := net.connections.map (·.url)

/-- The address of the stream at a place. -/
def url? (net : Network) (i : Nat) : Option Url := net.urls[i]?

/-- An address stays at its place when others are added. -/
theorem url?_of_prefix {net net' : Network} (h : net.urls <+: net'.urls) {i : Nat} {url : Url}
    (hi : net.url? i = some url) : net'.url? i = some url := by
  obtain ⟨added, ha⟩ := h
  unfold url? at *
  rw [← ha, List.getElem?_append_left (List.getElem?_eq_some_iff.mp hi).1]
  exact hi

@[simp] theorem urls_dial (net : Network) (url : Url) (bidirectional : Bool) :
    (net.dial url bidirectional).1.urls = net.urls ++ [url] := by
  simp [urls, dial]

@[simp] theorem dial_place (net : Network) (url : Url) (bidirectional : Bool) :
    (net.dial url bidirectional).2 = net.urls.length := by
  simp [urls, dial]

@[simp] theorem urls_set (net : Network) (i : Nat) (s : Stream) :
    (net.set i s).urls = net.urls := by
  unfold urls set
  refine List.ext_getElem? fun j => ?_
  rw [List.getElem?_map, List.getElem?_map, List.getElem?_modify]
  cases net.connections[j]? with
  | none => rfl
  | some c => by_cases h : i = j <;> simp [h]

@[simp] theorem urls_hangUp (net : Network) (i : Nat) : (net.hangUp i).urls = net.urls := by
  unfold hangUp
  cases net.stream? i with
  | none => rfl
  | some s => exact urls_set net i _

@[simp] theorem urls_drain (net : Network) (i : Nat) : (net.drain i).1.urls = net.urls := by
  unfold drain
  cases net.stream? i with
  | none => rfl
  | some s => exact urls_set net i _

@[simp] theorem urls_advance (net : Network) (ms : Nat) : (net.advance ms).urls = net.urls := rfl

/-- Input that is taken changes nothing but the stream that takes it. -/
theorem exists_set_of_send {net net' : Network} {i : Nat} {bytes : Bytes}
    (h : net.send i bytes = .ok net') : ∃ s, net' = net.set i s := by
  obtain ⟨-, t, -, -, hset⟩ := exists_send_of_send h
  exact ⟨t, hset⟩

end Network

end Switchboard
