import Switchboard.Proofs.Attachment.LayoutActs
import Switchboard.Proofs.Attachment.Lifecycle
import Switchboard.Proofs.Network.Waning
import Switchboard.Proofs.Terminal.Surfaces

/-!
# Acts that lay out, and acts that rest

An act of an attachment either ends in one layout, for which it has prepared the attachment
(`laidOut?`, `act_of_laidOut`), or it rests as far as sizes are concerned (`rests_act`): nothing is
measured or asked for, and the surface is at most written to. A layout in turn either fits the
surface to its box (`fitting?`, `layOut_of_fitting`) or leaves it due at most
(`layOut_of_not_fitting`). So what is to be shown of sizes in a run is to be shown of a surface that
is fitted, and of rest.
-/

namespace Switchboard

/-- The surface has been written to, and nothing else has been done to it. -/
def Written {S : Type} [Surface S] (before after : Option S) : Prop :=
  ∃ writes : List Bytes,
    after = before.map fun s => writes.foldl (fun s bytes => Surface.write bytes s) s

section Written

variable {S : Type} [Surface S]

theorem Written.refl (s : Option S) : Written s s := ⟨[], by simp⟩

theorem Written.trans {s t u : Option S} (h : Written s t) (h' : Written t u) : Written s u := by
  obtain ⟨writes, rfl⟩ := h
  obtain ⟨more, rfl⟩ := h'
  refine ⟨writes ++ more, ?_⟩
  cases s with
  | none => rfl
  | some s => exact congrArg some List.foldl_append.symm

theorem written_write (bytes : Bytes) (s : Option S) : Written s (s.map (Surface.write bytes)) :=
  ⟨[bytes], rfl⟩

theorem written_writeLine (text : String) (s : Option S) :
    Written s (s.map (Surface.writeLine text)) := ⟨[bytesOf text, LineEnding.crlf], rfl⟩

/-- Writing leaves the size of a steady surface alone. -/
theorem Written.exists_steady [SteadySurface S] {before after : Option S} (h : Written before after)
    {t : S} (ht : after = some t) :
    ∃ s, before = some s ∧ Surface.grid t = Surface.grid s ∧
      Surface.fitted? t = Surface.fitted? s := by
  obtain ⟨writes, hw⟩ := h
  rw [hw] at ht
  obtain ⟨s, hs, rfl⟩ := Option.map_eq_some_iff.mp ht
  refine ⟨s, hs, ?_, ?_⟩
  · exact foldl_kept (fun s bytes => SteadySurface.grid_write bytes s) writes s
  · exact foldl_kept (fun s bytes => SteadySurface.fitted_write bytes s) writes s

namespace Attachment

theorem grid_fitSurface [SizedSurface S] (grid : Grid) (surface : S) :
    Surface.grid (fitSurface grid surface) = grid := by
  unfold fitSurface
  split
  · assumption
  · exact SizedSurface.grid_resize grid surface

theorem fitted_fitSurface [SteadySurface S] (grid : Grid) (surface : S) :
    Surface.fitted? (fitSurface grid surface) = Surface.fitted? surface := by
  unfold fitSurface
  split
  · rfl
  · exact SteadySurface.fitted_resize grid surface

end Attachment

end Written

namespace Attachment

variable {S : Type}

/-! ## Rest -/

theorem exists_stream_of_open {a : Attachment S} {net : Network} (h : a.streamOpen net = true) :
    ∃ i, a.stream = some i ∧ net.isOpen i = true := by
  unfold streamOpen at h
  cases hs : a.stream with
  | none =>
      rw [hs] at h
      exact absurd h (by simp)
  | some i =>
      rw [hs] at h
      exact ⟨i, rfl, h⟩

/-- Nothing is measured or asked for, nothing is opened or bound, and a stream that is let go of is
shut down. An attachment may be shown if no measurement is due. -/
structure Rests [Surface S] (before after : Attachment S × Network) : Prop where
  identity : after.1.identity = before.1.identity
  negotiated : after.1.negotiated = before.1.negotiated
  requests : after.2.requests = before.2.requests
  needsLayout : after.1.needsLayout = before.1.needsLayout
  revealed : after.1.visible = true → before.1.visible = true ∨ before.1.needsLayout = false
  up : after.1.tornDown = false →
    before.1.tornDown = false ∧ after.1.listening = before.1.listening
  phase : after.1.phase = .unattached → before.1.phase = .unattached
  stream : after.1.stream = before.1.stream ∨ after.1.stream = none
  released : ∀ i, before.1.stream = some i → after.1.stream = some i ∨ after.2.IsShut i
  urls : after.2.urls = before.2.urls
  wanes : before.2.Wanes after.2
  surface : Written before.1.surface after.1.surface

namespace Rests

variable [Surface S]

theorem refl (p : Attachment S × Network) : Rests p p :=
  ⟨rfl, rfl, rfl, rfl, .inl, fun h => ⟨h, rfl⟩, id, .inl rfl, fun _ => .inl, rfl,
    Network.Wanes.refl _, Written.refl _⟩

theorem trans {p q r : Attachment S × Network} (h : Rests p q) (h' : Rests q r) : Rests p r where
  identity := h'.identity.trans h.identity
  negotiated := h'.negotiated.trans h.negotiated
  requests := h'.requests.trans h.requests
  needsLayout := h'.needsLayout.trans h.needsLayout
  revealed hr := by
    rcases h'.revealed hr with hq | hq
    · exact h.revealed hq
    · exact .inr (h.needsLayout.symm.trans hq)
  up hr := by
    obtain ⟨hq, hlisten⟩ := h'.up hr
    obtain ⟨hp, hlisten'⟩ := h.up hq
    exact ⟨hp, hlisten.trans hlisten'⟩
  phase hr := h.phase (h'.phase hr)
  stream := by
    rcases h'.stream with hr | hr
    · rw [hr]
      exact h.stream
    · exact .inr hr
  released i hi := by
    rcases h.released i hi with hq | hq
    · exact h'.released i hq
    · exact .inr (h'.wanes.isShut hq)
  urls := h'.urls.trans h.urls
  wanes := h.wanes.trans h'.wanes
  surface := h.surface.trans h'.surface

/-- A stream that is open afterwards was open before. -/
theorem streamOpen {p q : Attachment S × Network} (h : Rests p q)
    (hq : q.1.streamOpen q.2 = true) : p.1.streamOpen p.2 = true := by
  obtain ⟨i, hi, hopen⟩ := exists_stream_of_open hq
  have hp : p.1.stream = some i := by
    rcases h.stream with hs | hs
    · exact hs.symm.trans hi
    · exact absurd (hs.symm.trans hi) (by simp)
  unfold Attachment.streamOpen
  rw [hp]
  exact h.wanes.isOpen hopen

/-- Whether sizes are told stays as it is. -/
theorem isResizable_eq {p q : Attachment S × Network} (h : Rests p q) :
    q.1.isResizable = p.1.isResizable := by
  unfold isResizable isInteractive
  rw [options_eq_of_identity_eq h.identity, key_eq_of_identity_eq h.identity]

end Rests

theorem urls_dropStream (a : Attachment S) (net : Network) :
    (a.dropStream net).2.urls = net.urls := (keeps_dropStream a net).urls

theorem wanes_dropStream (a : Attachment S) (net : Network) :
    net.Wanes (a.dropStream net).2 := by
  unfold dropStream
  split
  · exact net.wanes_hangUp _
  · exact Network.Wanes.refl net

theorem isShut_dropStream {a : Attachment S} {i : Nat} (h : a.stream = some i) (net : Network) :
    (a.dropStream net).2.IsShut i := by
  unfold dropStream
  rw [h]
  exact net.isShut_hangUp i

section Rests

variable [Surface S]

/-- The attachment that lets go of its stream may do more in itself. -/
theorem rests_dropping {a b : Attachment S} {net : Network} (hid : b.identity = a.identity)
    (hasked : b.negotiated = a.negotiated) (hdue : b.needsLayout = a.needsLayout)
    (hvisible : b.visible = a.visible)
    (hup : b.tornDown = false → a.tornDown = false ∧ b.listening = a.listening)
    (hphase : b.phase = .unattached → a.phase = .unattached) (hstream : b.stream = none)
    (hsurface : Written a.surface b.surface) :
    Rests (a, net) (b, (a.dropStream net).2) where
  identity := hid
  negotiated := hasked
  requests := congrArg ResizeLog.requests (resizes_dropStream a net)
  needsLayout := hdue
  revealed h := .inl (hvisible.symm.trans h)
  up := hup
  phase := hphase
  stream := .inr hstream
  released _ hi := .inr (isShut_dropStream hi net)
  urls := urls_dropStream a net
  wanes := wanes_dropStream a net
  surface := hsurface

/-- Only the attachment has changed, and it holds the same stream. -/
theorem rests_attachment {a b : Attachment S} {net : Network} (hid : b.identity = a.identity)
    (hasked : b.negotiated = a.negotiated) (hdue : b.needsLayout = a.needsLayout)
    (hvisible : b.visible = true → a.visible = true ∨ a.needsLayout = false)
    (hup : b.tornDown = a.tornDown) (hlisten : b.listening = a.listening)
    (hphase : b.phase = .unattached → a.phase = .unattached) (hstream : b.stream = a.stream)
    (hsurface : Written a.surface b.surface) :
    Rests (a, net) (b, net) where
  identity := hid
  negotiated := hasked
  requests := rfl
  needsLayout := hdue
  revealed := hvisible
  up h := ⟨hup.symm.trans h, hlisten⟩
  phase := hphase
  stream := .inl hstream
  released _ hi := .inl (hstream.trans hi)
  urls := rfl
  wanes := Network.Wanes.refl net
  surface := hsurface

/-- Only the network has changed. -/
theorem rests_network (a : Attachment S) {net net' : Network} (hr : net'.requests = net.requests)
    (hu : net'.urls = net.urls) (hw : net.Wanes net') : Rests (a, net) (a, net') :=
  { Rests.refl (a, net) with requests := hr, urls := hu, wanes := hw, released := fun _ => .inl }

theorem rests_streamClosed (a : Attachment S) (now : Nat) (net : Network) :
    Rests (a, net) (a.streamClosed now, net) := by
  cases ht : a.tornDown with
  | true =>
      rw [streamClosed_of_tornDown ht]
      exact Rests.refl _
  | false =>
      obtain ⟨deadlines, notified, hc⟩ := exists_streamClosed_eq ht now
      rw [hc]
      exact rests_attachment rfl rfl rfl .inl rfl rfl (by simp) rfl (written_writeLine _ _)

theorem rests_deliver (e : StreamEvent) (a : Attachment S) (net : Network) :
    Rests (a, net) (a.deliver e net) := by
  cases e with
  | data bytes => exact rests_attachment rfl rfl rfl .inl rfl rfl id rfl (written_write _ _)
  | error text => exact rests_attachment rfl rfl rfl .inl rfl rfl id rfl (written_writeLine _ _)
  | closed hadError =>
      have hdropped : Rests (a, net) (a.dropStream net) := by
        have hd := dropStream_fst a net
        have hrests : Rests (a, net) ({ a with stream := none }, (a.dropStream net).2) :=
          rests_dropping rfl rfl rfl rfl (fun h => ⟨h, rfl⟩) id rfl (Written.refl _)
        rwa [← hd] at hrests
      exact hdropped.trans (rests_streamClosed _ _ _)

theorem rests_deliverAll (events : List StreamEvent) (p : Attachment S × Network) :
    Rests p (deliverAll events p) := by
  induction events generalizing p with
  | nil => exact Rests.refl p
  | cons e rest ih => exact (rests_deliver e p.1 p.2).trans (ih _)

theorem rests_pump (a : Attachment S) (net : Network) :
    Rests (a, net) ((a.pump net).1, (a.pump net).2.1) := by
  obtain ⟨events, net', hnet, hpump⟩ := exists_pump_eq a net
  have hdrained : Rests (a, net) (a, net') := by
    rcases hnet with rfl | ⟨i, rfl⟩
    · exact Rests.refl _
    · exact rests_network a (net.requests_drain i) (net.urls_drain i) (net.wanes_drain i)
  rw [hpump]
  exact hdrained.trans (rests_deliverAll events _)

theorem rests_kill (a : Attachment S) (net : Network) : Rests (a, net) (a.kill net) := by
  cases ht : a.tornDown with
  | true =>
      rw [kill_of_tornDown ht]
      exact Rests.refl _
  | false =>
      obtain ⟨notified, hk⟩ := exists_kill_eq ht net
      rw [hk]
      exact rests_dropping rfl rfl rfl rfl (fun h => ⟨h, rfl⟩) (by simp) rfl (Written.refl _)

theorem rests_close (a : Attachment S) (net : Network) : Rests (a, net) (a.close net) := by
  cases ht : a.tornDown with
  | true =>
      rw [close_of_tornDown ht]
      exact Rests.refl _
  | false =>
      rw [close_eq ht]
      exact rests_dropping rfl rfl rfl rfl (fun h => absurd h (by simp)) (by simp) rfl
        (Written.refl _)

theorem rests_expire (now : Nat) (a : Attachment S) (net : Network) :
    Rests (a, net) (a.expire now, net) := by
  obtain ⟨deadlines, notified, he⟩ := exists_expire_eq now a
  rw [he]
  exact rests_attachment rfl rfl rfl .inl rfl rfl id rfl (Written.refl _)

theorem rests_peer (act : PeerAct) (place : Nat) (a : Attachment S) (net : Network) :
    Rests (a, net) (a, act.apply place net) :=
  rests_network a (act.requests_apply place net) (act.urls_apply place net)
    (act.wanes_apply place net)

end Rests

/-! ## What is laid out -/

/-- The attachment and the network as an act prepares them to be laid out, if it does. -/
def laidOut? (p : Attachment S × Network) : AttachmentAct S → Option (Attachment S × Network)
  | .attach surface =>
    if p.1.state = .unattached then
      surface.map fun s =>
        (p.1.bound s (p.2.dial p.1.openUrl p.1.isInteractive).2,
          (p.2.dial p.1.openUrl p.1.isInteractive).1)
    else none
  | .layOut => some p
  | .setVisible visible =>
    if visible && p.1.needsLayout then some ({ p.1 with visible }, p.2) else none
  | .toggleFullscreen => some ({ p.1 with fullscreen := !p.1.fullscreen }, p.2)
  | _ => none

/-- An attachment is prepared by binding it, or at most by showing it in another way. -/
theorem laidOut?_cases {p q : Attachment S × Network} {a : AttachmentAct S}
    (h : laidOut? p a = some q) :
    (∃ surface, a = .attach (some surface) ∧ p.1.state = .unattached ∧
      q = (p.1.bound surface (p.2.dial p.1.openUrl p.1.isInteractive).2,
        (p.2.dial p.1.openUrl p.1.isInteractive).1)) ∨
    ∃ visible fullscreen, q = ({ p.1 with visible, fullscreen }, p.2) := by
  cases a with
  | attach surface =>
      simp only [laidOut?] at h
      split at h
      · rename_i hfree
        obtain ⟨s, rfl, rfl⟩ := Option.map_eq_some_iff.mp h
        exact .inl ⟨s, rfl, hfree, rfl⟩
      · exact absurd h (by simp)
  | setVisible visible =>
      simp only [laidOut?] at h
      split at h
      · cases h
        exact .inr ⟨visible, p.1.fullscreen, rfl⟩
      · exact absurd h (by simp)
  | layOut =>
      cases h
      exact .inr ⟨p.1.visible, p.1.fullscreen, rfl⟩
  | toggleFullscreen =>
      cases h
      exact .inr ⟨p.1.visible, !p.1.fullscreen, rfl⟩
  | _ => exact absurd h (by simp [laidOut?])

section Layout

variable [Surface S]

/-- Whatever is laid out is laid out last. -/
theorem act_of_laidOut {p q : Attachment S × Network} {a : AttachmentAct S}
    (h : laidOut? p a = some q) : act p a = q.1.layOut q.2 := by
  cases a with
  | attach surface =>
      simp only [laidOut?] at h
      split at h
      · rename_i hfree
        obtain ⟨hphase, hup⟩ := state_eq_unattached_iff.mp hfree
        obtain ⟨s, rfl, rfl⟩ := Option.map_eq_some_iff.mp h
        exact attach_of_free hphase hup s p.2
      · exact absurd h (by simp)
  | setVisible visible =>
      simp only [laidOut?] at h
      split at h
      · rename_i hdue
        cases h
        show p.1.setVisible visible p.2 = _
        unfold setVisible
        rw [if_pos hdue]
      · exact absurd h (by simp)
  | layOut =>
      cases h
      rfl
  | toggleFullscreen =>
      cases h
      rfl
  | _ => exact absurd h (by simp [laidOut?])

theorem attach_of_not_laidOut {surface : Option S} {a : Attachment S} {net : Network}
    (h : laidOut? (a, net) (.attach surface) = none) : a.attach surface net = (a, net) := by
  refine attach_of_idle ?_ net
  by_cases hfree : a.state = .unattached
  · left
    simpa [laidOut?, hfree] using h
  · exact .inr hfree

/-- It is shown or hidden, but no measurement is due on being shown. -/
theorem setVisible_of_not_laidOut {visible : Bool} {a : Attachment S} {net : Network}
    (h : laidOut? (a, net) (.setVisible visible) = none) :
    a.setVisible visible net = ({ a with visible }, net) ∧
      (visible = true → a.needsLayout = false) := by
  simp only [laidOut?] at h
  split at h
  · exact absurd h (by simp)
  · rename_i hdue
    refine ⟨?_, fun hshown => by simpa [hshown] using hdue⟩
    unfold setVisible
    rw [if_neg hdue]

/-- Where nothing is laid out, sizes rest, unless somebody else works on the surface. -/
theorem rests_act {p : Attachment S × Network} {a : AttachmentAct S} (h : laidOut? p a = none)
    (hf : a.foreign? = none) : Rests p (act p a) := by
  obtain ⟨b, net⟩ := p
  cases a with
  | attach surface =>
      show Rests (b, net) (b.attach surface net)
      rw [attach_of_not_laidOut h]
      exact Rests.refl _
  | layOut => exact absurd h (by simp [laidOut?])
  | toggleFullscreen => exact absurd h (by simp [laidOut?])
  | setVisible visible =>
      obtain ⟨hset, hdue⟩ := setVisible_of_not_laidOut h
      show Rests (b, net) (b.setVisible visible net)
      rw [hset]
      exact rests_attachment rfl rfl rfl (fun hshown => .inr (hdue hshown)) rfl rfl id rfl
        (Written.refl _)
  | pump => exact rests_pump b net
  | streamClosed => exact rests_streamClosed b net.now net
  | kill => exact rests_kill b net
  | close => exact rests_close b net
  | sendInput bytes =>
      rcases act_sendInput_cases (b, net) bytes with hsame | ⟨net', hsent, htaken⟩
      · rw [hsame]
        exact Rests.refl _
      · obtain ⟨i, -, hsend⟩ := exists_send_of_sendInput hsent
        rw [htaken]
        exact rests_network b (requests_sendInput hsent) (urls_sendInput hsent)
          (Network.wanes_send hsend)
  | reshape f => exact absurd hf (by simp [AttachmentAct.foreign?])
  | peer place act => exact rests_peer act place b net
  | advance ms =>
      have hlater : Rests (b, net) (b, net.advance ms) :=
        rests_network b (net.requests_advance ms) (net.urls_advance ms) (Network.Wanes.refl net)
      exact hlater.trans (rests_expire _ b _)

/-- The three kinds of acts: one that ends in a layout, one that rests, and the work of somebody
else on the surface. -/
theorem act_cases (p : Attachment S × Network) (a : AttachmentAct S) :
    (∃ q, laidOut? p a = some q ∧ act p a = q.1.layOut q.2) ∨
    (laidOut? p a = none ∧ Rests p (act p a)) ∨
    ∃ f, a = .reshape f := by
  cases hq : laidOut? p a with
  | some q => exact .inl ⟨q, rfl, act_of_laidOut hq⟩
  | none =>
      cases hf : a.foreign? with
      | none => exact .inr (.inl ⟨rfl, rests_act hq hf⟩)
      | some f =>
          cases a with
          | reshape g => exact .inr (.inr ⟨g, rfl⟩)
          | _ => exact absurd hf (by simp [AttachmentAct.foreign?])

end Layout

end Attachment

end Switchboard
