import Mathlib.Data.List.Induction
import Switchboard.Proofs.Attachment.Identity
import Switchboard.Proofs.Network.Peers

/-!
# Runs of an attachment

What can be asked of an attachment and what goes on around it in the meantime: the remote sides of
the network act, time passes, and somebody else may work on the surface. Whatever happens, an
attachment stays the attachment of its session, under its options and its id (`identity_run`).
-/

namespace Switchboard

/-- What happens to an attachment. -/
inductive AttachmentAct (S : Type) where
  | attach (surface : Option S)
  | layOut
  | setVisible (visible : Bool)
  | toggleFullscreen
  | pump
  /-- Somebody else has found out that the stream has gone away. -/
  | streamClosed
  | kill
  | close
  | sendInput (bytes : Bytes)
  /-- The surface gets another box, or is drawn on by somebody else. -/
  | reshape (f : S → S)
  | peer (place : Nat) (act : PeerAct)
  | advance (ms : Nat)

namespace Attachment

variable {S : Type} [Surface S]

/-- The attachment and the network after an act. -/
def act (p : Attachment S × Network) : AttachmentAct S → Attachment S × Network
  | .attach surface => p.1.attach surface p.2
  | .layOut => p.1.layOut p.2
  | .setVisible visible => p.1.setVisible visible p.2
  | .toggleFullscreen => p.1.toggleFullscreen p.2
  | .pump =>
    let (a, net, _) := p.1.pump p.2
    (a, net)
  | .streamClosed => (p.1.streamClosed p.2.now, p.2)
  | .kill => p.1.kill p.2
  | .close => p.1.close p.2
  | .sendInput bytes =>
    match p.1.sendInput bytes p.2 with
    | .ok net => (p.1, net)
    | .error _ => p
  | .reshape f => ({ p.1 with surface := p.1.surface.map f }, p.2)
  | .peer place act => (p.1, act.apply place p.2)
  | .advance ms =>
    let net := p.2.advance ms
    (p.1.expire net.now, net)

/-- The attachment and the network after a sequence of acts. -/
def run (p : Attachment S × Network) (acts : List (AttachmentAct S)) : Attachment S × Network :=
  acts.foldl act p

theorem run_append (p : Attachment S × Network) (acts more : List (AttachmentAct S)) :
    run p (acts ++ more) = run (run p acts) more := List.foldl_append

theorem run_concat (p : Attachment S × Network) (acts : List (AttachmentAct S))
    (a : AttachmentAct S) : run p (acts ++ [a]) = act (run p acts) a := List.foldl_append

theorem run_cons (p : Attachment S × Network) (a : AttachmentAct S)
    (acts : List (AttachmentAct S)) : run p (a :: acts) = run (act p a) acts := rfl

/-- What every act of a run keeps, the run keeps. -/
theorem run_keeps {P : Attachment S × Network → Prop} {acts : List (AttachmentAct S)}
    (h : ∀ a ∈ acts, ∀ p, P p → P (act p a)) {p : Attachment S × Network} (hp : P p) :
    P (run p acts) := by
  induction acts generalizing p with
  | nil => exact hp
  | cons a rest ih =>
      exact ih (fun b hb => h b (List.mem_cons_of_mem a hb)) (h a List.mem_cons_self p hp)

/-- Input that is taken changes the network alone, and other input nothing. -/
theorem act_sendInput_cases (p : Attachment S × Network) (bytes : Bytes) :
    act p (.sendInput bytes) = p ∨
      ∃ net, p.1.sendInput bytes p.2 = .ok net ∧ act p (.sendInput bytes) = (p.1, net) := by
  have hact : act p (.sendInput bytes) =
      match p.1.sendInput bytes p.2 with | .ok net => (p.1, net) | .error _ => p := rfl
  rw [hact]
  cases p.1.sendInput bytes p.2 with
  | ok net => exact .inr ⟨net, rfl, rfl⟩
  | error e => exact .inl rfl

theorem act_sendInput_fst (p : Attachment S × Network) (bytes : Bytes) :
    (act p (.sendInput bytes)).1 = p.1 := by
  rcases act_sendInput_cases p bytes with h | ⟨net, -, h⟩ <;> rw [h]

/-! ## What an attachment stays -/

theorem identity_act (p : Attachment S × Network) (a : AttachmentAct S) :
    (act p a).1.identity = p.1.identity := by
  obtain ⟨b, net⟩ := p
  cases a with
  | attach surface =>
      show (b.attach surface net).1.identity = b.identity
      unfold attach
      split
      · rfl
      · split
        · rfl
        · exact (steady_layOut _ _).identity
  | layOut => exact (steady_layOut b net).identity
  | setVisible visible => exact (grows_setVisible visible b net).1.identity
  | toggleFullscreen => exact (steady_toggleFullscreen b net).identity
  | pump => exact (keeps_pump b net).identity
  | streamClosed => exact (keeps_streamClosed b net.now net).identity
  | kill => exact (keeps_kill b net).identity
  | close => exact (keeps_close b net).identity
  | sendInput bytes => exact congrArg identity (act_sendInput_fst (b, net) bytes)
  | reshape f => rfl
  | peer place act => rfl
  | advance ms => exact (keeps_expire (net.advance ms).now b (net.advance ms)).identity

theorem identity_run (p : Attachment S × Network) (acts : List (AttachmentAct S)) :
    (run p acts).1.identity = p.1.identity := by
  induction acts using List.reverseRecOn with
  | nil => rfl
  | append_singleton acts a ih =>
      rw [run_concat]
      exact (identity_act _ a).trans ih

theorem options_run (p : Attachment S × Network) (acts : List (AttachmentAct S)) :
    (run p acts).1.options = p.1.options := options_eq_of_identity_eq (identity_run p acts)

end Attachment

end Switchboard
