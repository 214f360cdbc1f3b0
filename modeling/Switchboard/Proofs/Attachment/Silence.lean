import Switchboard.Proofs.Attachment.Streams
import Switchboard.Proofs.Attachment.Watch

/-!
# Silence behind the end

What is left of an attachment that has been closed? It has no stream, no observer and no deadline
(`Down`), and nothing gives it one of them again. So its observer hears nothing more, no stream is
opened, nothing is asked for or given in, and the surface changes only by the hands of somebody else
(`Hushed`). One act after the other leaves it at that (`hushed_act`), whatever the attachment had
been through when it was closed (`silent_once_closed`).
-/

namespace Switchboard

namespace Attachment

variable {S : Type}

/-! ## What is left -/

/-- Nothing is left to end or to tell. -/
structure Down (a : Attachment S) : Prop where
  tornDown : a.tornDown = true
  phase : a.phase = .closed
  stream : a.stream = none
  observed : a.observed = false
  deadlines : a.deadlines = []

theorem Down.state {a : Attachment S} (h : a.Down) : a.state = .closed := by
  unfold Attachment.state
  rw [h.tornDown]
  rfl

/-- No input is forwarded. -/
theorem Down.sendInput {a : Attachment S} (h : a.Down) (bytes : Bytes) (net : Network) :
    ∃ e, a.sendInput bytes net = .error e := by
  unfold Attachment.sendInput
  split
  · exact ⟨_, rfl⟩
  · rw [h.stream]
    exact ⟨_, rfl⟩

/-! ## Nothing more is heard -/

/-- An attachment that is down stays so. Its observer hears nothing, no stream is opened, nothing is
asked for or given in, and only somebody else works on its surface, with the given changes. -/
structure Hushed (foreign : List (S → S)) (before after : Attachment S × Network) : Prop where
  down : after.1.Down
  notified : after.1.notified = before.1.notified
  surface : after.1.surface = before.1.surface.map fun s => foreign.foldl (fun s f => f s) s
  lines : after.2.lines = before.2.lines
  requests : after.2.requests = before.2.requests
  inputs : after.2.inputs = before.2.inputs
  wanes : before.2.Wanes after.2

namespace Hushed

theorem refl {p : Attachment S × Network} (h : p.1.Down) : Hushed [] p p :=
  ⟨h, rfl, by simp, rfl, rfl, rfl, Network.Wanes.refl _⟩

theorem trans {foreign more : List (S → S)} {p q r : Attachment S × Network}
    (h : Hushed foreign p q) (h' : Hushed more q r) : Hushed (foreign ++ more) p r where
  down := h'.down
  notified := h'.notified.trans h.notified
  surface := by
    rw [h'.surface, h.surface, Option.map_map]
    refine congrArg (Option.map · p.1.surface) (funext fun s => ?_)
    exact List.foldl_append.symm
  lines := h'.lines.trans h.lines
  requests := h'.requests.trans h.requests
  inputs := h'.inputs.trans h.inputs
  wanes := h.wanes.trans h'.wanes

/-- It may still be shown in another way. -/
theorem of_shown {a : Attachment S} (h : a.Down) (visible fullscreen : Bool) (net : Network) :
    Hushed [] (a, net) ({ a with visible, fullscreen }, net) :=
  { refl (p := (a, net)) h with
    down := ⟨h.tornDown, h.phase, h.stream, h.observed, h.deadlines⟩ }

end Hushed

/-- **Closing an attachment makes it fall silent**, however often it is closed. -/
theorem hushed_close {a : Attachment S} (h : a.tornDown = true → a.Down) (net : Network) :
    Hushed [] (a, net) (a.close net) := by
  cases ht : a.tornDown with
  | true =>
      rw [close_of_tornDown ht]
      exact Hushed.refl (h ht)
  | false =>
      rw [close_eq ht]
      exact
        { down := ⟨rfl, rfl, rfl, rfl, rfl⟩
          notified := rfl
          surface := by simp
          lines := lines_dropStream a net
          requests := congrArg ResizeLog.requests (resizes_dropStream a net)
          inputs := inputs_dropStream a net
          wanes := wanes_dropStream a net }

theorem expire_of_down {a : Attachment S} (h : a.Down) (now : Nat) : a.expire now = a := by
  unfold expire
  rw [h.deadlines]
  show ({ a with deadlines := [] } : Attachment S) = a
  rw [← h.deadlines]

section Acts

variable [Surface S]

theorem layOut_of_down {a : Attachment S} (h : a.Down) (net : Network) :
    a.layOut net = (a, net) := by
  unfold layOut
  rw [if_pos (by simp [h.tornDown])]

theorem setVisible_of_down {a : Attachment S} (h : a.Down) (visible : Bool) (net : Network) :
    a.setVisible visible net = ({ a with visible }, net) := by
  unfold setVisible
  dsimp only
  split
  · exact layOut_of_down (Hushed.of_shown h visible a.fullscreen net).down net
  · rfl

/-- **Nothing that is asked of an attachment that is down is heard.** -/
theorem hushed_act {p : Attachment S × Network} (h : p.1.Down) (a : AttachmentAct S) :
    Hushed a.foreign?.toList p (act p a) := by
  obtain ⟨b, net⟩ := p
  have hsame {q : Attachment S × Network} (hq : q = (b, net)) : Hushed [] (b, net) q := by
    rw [hq]
    exact Hushed.refl h
  cases a with
  | attach surface =>
      have hclosed : b.state ≠ .unattached := by
        rw [h.state]
        simp
      exact hsame (attach_of_idle (.inr hclosed) net)
  | layOut => exact hsame (layOut_of_down h net)
  | setVisible visible =>
      show Hushed [] (b, net) (b.setVisible visible net)
      rw [setVisible_of_down h]
      exact Hushed.of_shown h visible b.fullscreen net
  | toggleFullscreen =>
      have hshown := Hushed.of_shown h b.visible (!b.fullscreen) net
      show Hushed [] (b, net) (b.toggleFullscreen net)
      unfold toggleFullscreen
      rw [layOut_of_down hshown.down]
      exact hshown
  | pump =>
      refine hsame (q := act (b, net) .pump) ?_
      show ((b.pump net).1, (b.pump net).2.1) = (b, net)
      rw [pump_of_idle (.inl h.tornDown)]
  | streamClosed => exact hsame (congrArg (·, net) (streamClosed_of_tornDown h.tornDown net.now))
  | kill => exact hsame (kill_of_tornDown h.tornDown net)
  | close => exact hsame (close_of_tornDown h.tornDown net)
  | sendInput bytes =>
      rcases act_sendInput_cases (b, net) bytes with hidle | ⟨net', hsent, -⟩
      · exact hsame hidle
      · obtain ⟨e, he⟩ := h.sendInput bytes net
        exact absurd (he.symm.trans hsent) (by simp)
  | reshape f =>
      exact { Hushed.refl (p := (b, net)) h with
        down := ⟨h.tornDown, h.phase, h.stream, h.observed, h.deadlines⟩
        surface := rfl }
  | peer place act =>
      exact { Hushed.refl (p := (b, net)) h with
        lines := act.lines_apply place net
        requests := act.requests_apply place net
        inputs := act.inputs_apply place net
        wanes := act.wanes_apply place net }
  | advance ms =>
      show Hushed [] (b, net) (b.expire (net.advance ms).now, net.advance ms)
      rw [expire_of_down h]
      exact { Hushed.refl (p := (b, net)) h with wanes := Network.Wanes.refl net }

theorem hushed_run {p : Attachment S × Network} (h : p.1.Down) (acts : List (AttachmentAct S)) :
    Hushed (acts.filterMap AttachmentAct.foreign?) p (run p acts) := by
  induction acts generalizing p with
  | nil => exact Hushed.refl h
  | cons a rest ih =>
      have hfirst := hushed_act h a
      have hforeign : (a :: rest).filterMap AttachmentAct.foreign? =
          a.foreign?.toList ++ rest.filterMap AttachmentAct.foreign? := by
        rw [List.filterMap_cons]
        cases a.foreign? <;> rfl
      rw [hforeign, run_cons]
      exact hfirst.trans (ih hfirst.down)

/-- Whoever has been torn down is down. -/
theorem down_act {p : Attachment S × Network} (h : p.1.tornDown = true → p.1.Down)
    (a : AttachmentAct S) (ht : (act p a).1.tornDown = true) : (act p a).1.Down := by
  by_cases ha : a = .close
  · rw [ha]
    exact (hushed_close h p.2).down
  · exact (hushed_act (h ((tornDown_act p ha).symm.trans ht)) a).down

/-- **An attachment that has been closed is silent.** Whatever it had been through when it was
closed, and whatever is asked of it or happens around it from then on: it is closed; its observer
hears nothing more; no stream is opened, no resize request made, and no input taken or given in; its
surface undergoes just what somebody else does to it; and every stream that it ever opened has been
shut down. -/
theorem silent_once_closed (d : Descriptor) (options : AttachmentOptions) (id : String)
    (observed : Bool) (net : Network) (acts more : List (AttachmentAct S)) :
    let p := run ((ofDescriptor d options id observed : Attachment S), net) acts
    let q := run (act p .close) more
    q.1.state = .closed ∧
    q.1.notified = p.1.notified ∧
    q.2.lines = p.2.lines ∧
    q.2.requests = p.2.requests ∧
    q.1.surface = p.1.surface.map
      (fun s => (more.filterMap AttachmentAct.foreign?).foldl (fun s f => f s) s) ∧
    (q.2.inputs = p.2.inputs ∧ ∀ bytes, ∃ e, q.1.sendInput bytes q.2 = .error e) ∧
    ∀ i s, net.connections.length ≤ i → q.2.stream? i = some s → s.IsShut := by
  intro p q
  have hdown : p.1.tornDown = true → p.1.Down :=
    run_keeps (P := fun p => p.1.tornDown = true → p.1.Down) (fun a _ _ hp => down_act hp a)
      fun ht => absurd ht (by simp [ofDescriptor])
  have hnone : ∀ i, net.connections.length ≤ i → net.stream? i = none := fun i hi => by
    unfold Network.stream?
    rw [List.getElem?_eq_none hi]
    rfl
  -- the streams that are not held have been shut down already
  have hstreams : Plugged p ∧ ShutBut net.connections.length p :=
    run_keeps (P := fun p => Plugged p ∧ ShutBut net.connections.length p)
      (fun a _ _ hp => ⟨plugged_act hp.1 a, shutBut_act hp.2 hp.1 a⟩)
      ⟨⟨fun _ => rfl, fun i hi => absurd hi (by simp [ofDescriptor])⟩,
        fun i hi => .inr fun s hs => absurd ((hnone i hi).symm.trans hs) (by simp)⟩
  have hclose : Hushed [] p (act p .close) := hushed_close hdown p.2
  have hrest := hushed_run hclose.down more
  have hall := hclose.trans hrest
  refine ⟨hall.down.state, hall.notified, hall.lines, hall.requests, hall.surface,
    ⟨hall.inputs, fun bytes => hall.down.sendInput bytes q.2⟩, fun i s hi hs => ?_⟩
  rcases shutBut_act hstreams.2 hstreams.1 .close i hi with hheld | hshut
  · exact absurd (hclose.down.stream.symm.trans hheld) (by simp)
  · exact hrest.wanes.isShut hshut s hs

end Acts

end Attachment

end Switchboard
