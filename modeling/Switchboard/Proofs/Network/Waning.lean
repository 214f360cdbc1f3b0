import Switchboard.Proofs.Network.Peers

/-!
# Streams only close

Whatever goes through a stream, from either end, does not open it again, and a stream that the
terminal has shut down stays shut down (`Stream.Wanes`). So it is with all the streams of a network
(`Network.Wanes`), unless another one is opened.
-/

namespace Switchboard

namespace Stream

/-- The terminal has closed its end, and the remote side has been told if it waits to hear of it. -/
def IsShut (s : Stream) : Prop := s.shut = true ∧ (s.shutTold = true ∨ s.listenerGone = true)

/-- What a stream may become. -/
structure Wanes (before after : Stream) : Prop where
  isOpen : after.isOpen = true → before.isOpen = true
  isShut : before.IsShut → after.IsShut

namespace Wanes

theorem refl (s : Stream) : Wanes s s := ⟨id, id⟩

theorem trans {s t u : Stream} (h : Wanes s t) (h' : Wanes t u) : Wanes s u :=
  ⟨fun hu => h.isOpen (h'.isOpen hu), fun hs => h'.isShut (h.isShut hs)⟩

end Wanes

theorem isShut_close (s : Stream) : s.close.IsShut := by
  unfold IsShut close
  cases s.listenerGone <;> simp

theorem wanes_close (s : Stream) : Wanes s s.close where
  isOpen h := absurd h (by simp [close, isOpen])
  isShut _ := s.isShut_close

/-- Taking all events may tell of the end. -/
theorem wanes_drain (s : Stream) : Wanes s s.drain.1 := by
  cases hf : s.finished with
  | true =>
      have hsame : s.drain.1 = s := by
        unfold drain
        rw [if_pos hf]
      rw [hsame]
      exact Wanes.refl s
  | false =>
      obtain ⟨queue, finished, hdrain⟩ := s.exists_drain_eq
      rw [hdrain]
      refine ⟨fun hopen => ?_, id⟩
      unfold isOpen at hopen ⊢
      rw [hf]
      exact (Bool.and_eq_true_iff.mp hopen).2

theorem wanes_send {s t : Stream} {bytes : Bytes} (h : s.send bytes = .ok t) : Wanes s t := by
  obtain ⟨-, rfl⟩ := send_eq_ok_iff.mp h
  exact ⟨id, id⟩

end Stream

theorem PeerAct.wanes_onStream (act : PeerAct) (s : Stream) : s.Wanes (act.onStream s) := by
  cases act with
  | emit e =>
      show s.Wanes (s.emit e).1
      unfold Stream.emit
      split
      · exact Stream.Wanes.refl s
      · split
        · exact Stream.Wanes.refl s
        · exact ⟨id, id⟩
  | leave => exact ⟨id, fun h => ⟨h.1, .inr rfl⟩⟩
  | stopReading => exact ⟨id, id⟩

namespace Network

/-- Every stream is one that was there before, or what it may have become. -/
def Wanes (before after : Network) : Prop :=
  ∀ i t, after.stream? i = some t → ∃ s, before.stream? i = some s ∧ s.Wanes t

namespace Wanes

theorem refl (net : Network) : Wanes net net := fun _ t h => ⟨t, h, Stream.Wanes.refl t⟩

theorem trans {net net' net'' : Network} (h : Wanes net net') (h' : Wanes net' net'') :
    Wanes net net'' := by
  intro i u hu
  obtain ⟨t, ht, htu⟩ := h' i u hu
  obtain ⟨s, hs, hst⟩ := h i t ht
  exact ⟨s, hs, hst.trans htu⟩

/-- Only the stream at one place has changed. -/
theorem of_set {net : Network} {i : Nat} {s t : Stream} (hs : net.stream? i = some s)
    (h : s.Wanes t) : Wanes net (net.set i t) := by
  intro j u hu
  by_cases hij : i = j
  · subst hij
    cases (Network.stream?_set_self hs t).symm.trans hu
    exact ⟨s, hs, h⟩
  · rw [net.stream?_set_of_ne hij] at hu
    exact ⟨u, hu, Stream.Wanes.refl u⟩

/-- What is open was open. -/
theorem isOpen {net net' : Network} (h : Wanes net net') {i : Nat} (hi : net'.isOpen i = true) :
    net.isOpen i = true := by
  unfold Network.isOpen at hi ⊢
  cases ht : net'.stream? i with
  | none =>
      rw [ht] at hi
      exact absurd hi (by simp)
  | some t =>
      obtain ⟨s, hs, hst⟩ := h i t ht
      rw [ht] at hi
      rw [hs]
      exact hst.isOpen hi

end Wanes

/-- The stream at a place, if there is one, has been shut down. -/
def IsShut (net : Network) (i : Nat) : Prop := ∀ s, net.stream? i = some s → s.IsShut

theorem Wanes.isShut {net net' : Network} (h : Wanes net net') {i : Nat} (hi : net.IsShut i) :
    net'.IsShut i := by
  intro t ht
  obtain ⟨s, hs, hst⟩ := h i t ht
  exact hst.isShut (hi s hs)

theorem wanes_hangUp (net : Network) (i : Nat) : net.Wanes (net.hangUp i) := by
  unfold hangUp
  cases hs : net.stream? i with
  | none => exact Wanes.refl net
  | some s => exact Wanes.of_set hs s.wanes_close

theorem isShut_hangUp (net : Network) (i : Nat) : (net.hangUp i).IsShut i := by
  intro t ht
  unfold hangUp at ht
  cases hs : net.stream? i with
  | none =>
      rw [hs] at ht
      exact absurd (hs.symm.trans ht) (by simp)
  | some s =>
      rw [hs] at ht
      cases (Network.stream?_set_self hs s.close).symm.trans ht
      exact s.isShut_close

theorem wanes_drain (net : Network) (i : Nat) : net.Wanes (net.drain i).1 := by
  unfold drain
  cases hs : net.stream? i with
  | none => exact Wanes.refl net
  | some s => exact Wanes.of_set hs s.wanes_drain

theorem wanes_send {net net' : Network} {i : Nat} {bytes : Bytes}
    (h : net.send i bytes = .ok net') : net.Wanes net' := by
  obtain ⟨s, t, hs, ht, rfl⟩ := exists_send_of_send h
  exact Wanes.of_set hs (Stream.wanes_send ht)

end Network

theorem PeerAct.wanes_apply (act : PeerAct) (place : Nat) (net : Network) :
    net.Wanes (act.apply place net) := by
  rw [act.apply_eq]
  cases hs : net.stream? place with
  | none => exact Network.Wanes.refl net
  | some s => exact Network.Wanes.of_set hs (act.wanes_onStream s)

end Switchboard
