import Switchboard.Proofs.Network.Peers

/-!
# The resize requests of a network

Streams come and go and time passes without any resize request being made. Only a negotiator makes
one, and it goes behind those made before.
-/

namespace Switchboard

/-- What every step keeps, a fold keeps. -/
theorem foldl_kept {α β γ : Type} {f : β → α → β} {g : β → γ} (h : ∀ b x, g (f b x) = g b)
    (xs : List α) (b : β) : g (xs.foldl f b) = g b := by
  induction xs generalizing b with
  | nil => rfl
  | cons x rest ih => exact (ih (f b x)).trans (h b x)

theorem Negotiator.requests_apply (n : Negotiator) (log : ResizeLog) (grid : Grid) :
    log.requests <+: (n.apply log grid).2.requests := by
  unfold apply
  split
  · exact List.prefix_rfl
  · exact List.prefix_append _ _

namespace Network

/-- The resize requests made so far, the first one first. -/
def requests (net : Network) : List ResizeRequest := net.resizes.requests

@[simp] theorem requests_dial (net : Network) (url : Url) (bidirectional : Bool) :
    (net.dial url bidirectional).1.requests = net.requests := rfl

@[simp] theorem requests_advance (net : Network) (ms : Nat) :
    (net.advance ms).requests = net.requests := rfl

/-! Neither requests are made nor time passes when a stream is closed or read. -/

@[simp] theorem resizes_hangUp (net : Network) (i : Nat) :
    (net.hangUp i).resizes = net.resizes := by
  unfold hangUp
  cases net.stream? i <;> rfl

@[simp] theorem resizes_drain (net : Network) (i : Nat) :
    (net.drain i).1.resizes = net.resizes := by
  unfold drain
  cases net.stream? i <;> rfl

theorem requests_drain (net : Network) (i : Nat) : (net.drain i).1.requests = net.requests :=
  congrArg ResizeLog.requests (net.resizes_drain i)

end Network

/-- No remote side asks for a size or makes time pass. -/
theorem PeerAct.resizes_apply (act : PeerAct) (place : Nat) (net : Network) :
    (act.apply place net).resizes = net.resizes := by
  rcases act.apply_cases place net with h | ⟨s, h⟩
  · rw [h]
  · rw [h]
    rfl

theorem PeerAct.requests_apply (act : PeerAct) (place : Nat) (net : Network) :
    (act.apply place net).requests = net.requests :=
  congrArg ResizeLog.requests (act.resizes_apply place net)

end Switchboard
