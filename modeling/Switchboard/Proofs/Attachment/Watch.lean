import Mathlib.Algebra.GroupWithZero.Nat
import Switchboard.Proofs.Attachment.Layouts
import Switchboard.Proofs.Stream.Delivery

/-!
# What an observer is to hear

Whether an attachment is up and what its observer hears and will hear (`watch`) concerns only the
acts that end something or let time pass (`watch_act`), and of these nothing but closing it tears an
attachment down (`tornDown_act`). A pump concerns it only if a close is among the events that it
takes in (`loses`). Then the close comes last, and it alone decides what is told, now or later
(`exists_act_eq_of_loses`).
-/

namespace Switchboard

/-- An act that neither ends the stream or the attachment nor lets time pass. -/
def AttachmentAct.IsCalm {S : Type} : AttachmentAct S → Prop
  | pump | streamClosed | kill | close | advance _ => False
  | _ => True

/-- The milliseconds that an act takes. -/
def AttachmentAct.millis {S : Type} : AttachmentAct S → Nat
  | advance ms => ms
  | _ => 0

namespace Attachment

variable {S : Type}

/-! ## What an observer is to hear -/

/-- Whether an attachment is up, whether somebody observes it, and what they hear and will hear. -/
structure Watch where
  tornDown : Bool
  observed : Bool
  deadlines : List Nat
  notified : List CloseReason

def watch (a : Attachment S) : Watch := ⟨a.tornDown, a.observed, a.deadlines, a.notified⟩

theorem watch_laidOut {p q : Attachment S × Network} {a : AttachmentAct S}
    (h : laidOut? p a = some q) : q.1.watch = p.1.watch := by
  rcases laidOut?_cases h with ⟨surface, -, -, rfl⟩ | ⟨visible, fullscreen, rfl⟩ <;> rfl

section Watch

variable [Surface S]

theorem watch_layOut (a : Attachment S) (net : Network) : (a.layOut net).1.watch = a.watch := by
  rcases layOut_cases a net with ⟨hl, -⟩ | ⟨hl, -⟩ | ⟨surface, grid, n, resizes, -, -, hl⟩
  · rw [hl]
  · rw [hl]
    rfl
  · rw [hl]
    rfl

/-- An act that ends nothing and takes no time is not heard. -/
theorem watch_act (p : Attachment S × Network) {a : AttachmentAct S} (ha : a.IsCalm) :
    (act p a).1.watch = p.1.watch := by
  obtain ⟨b, net⟩ := p
  cases hq : laidOut? (b, net) a with
  | some q =>
      rw [act_of_laidOut hq, watch_layOut]
      exact watch_laidOut hq
  | none =>
      cases a with
      | attach surface =>
          show (b.attach surface net).1.watch = b.watch
          rw [attach_of_not_laidOut hq]
      | layOut => exact watch_layOut b net
      | setVisible visible =>
          show (b.setVisible visible net).1.watch = b.watch
          rw [(setVisible_of_not_laidOut hq).1]
          rfl
      | toggleFullscreen => exact absurd hq (by simp [laidOut?])
      | pump => exact ha.elim
      | streamClosed => exact ha.elim
      | kill => exact ha.elim
      | close => exact ha.elim
      | sendInput bytes => exact congrArg watch (act_sendInput_fst (b, net) bytes)
      | reshape f => rfl
      | peer place act => rfl
      | advance ms => exact ha.elim

end Watch

/-! ## Deadlines -/

/-- Before a deadline nothing is told. -/
theorem expire_of_ahead {a : Attachment S} {now : Nat} (h : ∀ d ∈ a.deadlines, now < d) :
    a.expire now = a := by
  have hdue : a.deadlines.filter (· ≤ now) = [] :=
    List.filter_eq_nil_iff.mpr fun d hd => by simpa using h d hd
  have hkept : a.deadlines.filter (now < ·) = a.deadlines :=
    List.filter_eq_self.mpr fun d hd => by simpa using h d hd
  unfold expire
  dsimp only
  rw [hdue, hkept]
  rfl

/-- At a deadline the observer is told of the loss. -/
theorem expire_of_due {a : Attachment S} {due now : Nat} (hd : a.deadlines = [due])
    (h : due ≤ now) : a.expire now = { a with deadlines := [] }.notify .lost := by
  have hdue : a.deadlines.filter (· ≤ now) = [due] := by simp [hd, h]
  have hkept : a.deadlines.filter (now < ·) = [] := by simp [hd, h]
  unfold expire
  dsimp only
  rw [hdue, hkept]
  rfl

/-! ## Time -/

/-- The milliseconds that pass in a sequence of acts. -/
def elapsed (acts : List (AttachmentAct S)) : Nat := (acts.map AttachmentAct.millis).sum

@[simp] theorem elapsed_concat (acts : List (AttachmentAct S)) (a : AttachmentAct S) :
    elapsed (acts ++ [a]) = elapsed acts + a.millis := by
  unfold elapsed
  rw [List.map_append, List.sum_append]
  rfl

section Time

variable [Surface S]

theorem now_layOut (a : Attachment S) (net : Network) : (a.layOut net).2.now = net.now := by
  cases hfit : a.fitting? with
  | none =>
      rcases layOut_of_not_fitting hfit net with ⟨hl, -⟩ | ⟨hl, -⟩
      · rw [hl]
      · rw [hl]
  | some fits =>
      rw [layOut_of_fitting hfit]
      rcases negotiate_cases fits.2 (a.refit fits.2 fits.1) net with ⟨hn, -⟩ | ⟨-, hn⟩
      · rw [hn]
      · rw [hn]
        rfl

/-- **Time passes only where it is let pass.** -/
theorem now_act (p : Attachment S × Network) (a : AttachmentAct S) :
    (act p a).2.now = p.2.now + a.millis := by
  obtain ⟨b, net⟩ := p
  cases a with
  | attach surface =>
      show (b.attach surface net).2.now = net.now
      unfold attach
      split
      · rfl
      · split
        · rfl
        · exact now_layOut _ _
  | layOut => exact now_layOut b net
  | setVisible visible =>
      show (b.setVisible visible net).2.now = net.now
      unfold setVisible
      dsimp only
      split
      · exact now_layOut _ net
      · rfl
  | toggleFullscreen => exact now_layOut _ net
  | pump => exact congrArg ResizeLog.now (resizes_pump b net)
  | streamClosed => rfl
  | kill => exact congrArg ResizeLog.now (resizes_kill b net)
  | close => exact congrArg ResizeLog.now (resizes_close b net)
  | sendInput bytes =>
      rcases act_sendInput_cases (b, net) bytes with hsame | ⟨net', hsent, htaken⟩
      · rw [hsame]
        rfl
      · rw [htaken]
        exact congrArg ResizeLog.now (resizes_sendInput hsent)
  | reshape f => rfl
  | peer place act => exact congrArg ResizeLog.now (act.resizes_apply place net)
  | advance ms => rfl

theorem now_run (p : Attachment S × Network) (acts : List (AttachmentAct S)) :
    (run p acts).2.now = p.2.now + elapsed acts := by
  induction acts using List.reverseRecOn with
  | nil => rfl
  | append_singleton acts a ih => rw [run_concat, now_act, ih, elapsed_concat, Nat.add_assoc]

end Time

/-! ## Losses -/

/-- The events that an act takes in. -/
def taken (p : Attachment S × Network) : AttachmentAct S → List StreamEvent
  | .pump => if p.1.tornDown then [] else (p.1.stream.map fun i => (p.2.drain i).2).getD []
  | _ => []

/-- The act is a pump that takes in the close of the stream. -/
def loses (p : Attachment S × Network) (a : AttachmentAct S) : Bool := Stream.ends (taken p a)

theorem taken_of_idle {a : Attachment S} (h : a.tornDown = true ∨ a.stream = none)
    (net : Network) : taken (a, net) .pump = [] := by
  unfold taken
  rcases h with h | h <;> simp [h]

theorem taken_of_stream {a : Attachment S} {i : Nat} (ht : a.tornDown = false)
    (hs : a.stream = some i) (net : Network) : taken (a, net) .pump = (net.drain i).2 := by
  unfold taken
  simp [ht, hs]

/-- A close that is taken in is the last event, and it comes from a stream that is held. -/
theorem exists_of_loses {a : Attachment S} {net : Network} {b : AttachmentAct S}
    (h : loses (a, net) b = true) :
    b = .pump ∧ a.tornDown = false ∧ a.stream.isSome = true ∧
      ∃ before hadError, Stream.ends before = false ∧
        taken (a, net) b = before ++ [.closed hadError] := by
  unfold loses at h
  cases b with
  | pump =>
      cases ht : a.tornDown with
      | true =>
          rw [taken_of_idle (.inl ht)] at h
          exact absurd h (by simp)
      | false =>
          cases hs : a.stream with
          | none =>
              rw [taken_of_idle (.inr hs)] at h
              exact absurd h (by simp)
          | some i =>
              rw [taken_of_stream ht hs] at h ⊢
              refine ⟨rfl, rfl, rfl, ?_⟩
              unfold Network.drain at h ⊢
              cases hi : net.stream? i with
              | none =>
                  rw [hi] at h
                  exact absurd h (by simp)
              | some s =>
                  rw [hi] at h
                  exact Stream.exists_drain_snd_eq h
  | _ => exact absurd h (by simp [taken])

section Losses

variable [Surface S]

/-- A pump takes in its events, and no time passes. -/
theorem exists_act_pump_eq (a : Attachment S) (net : Network) :
    ∃ net' : Network, net'.now = net.now ∧
      act (a, net) .pump = deliverAll (taken (a, net) .pump) (a, net') := by
  show ∃ net' : Network, net'.now = net.now ∧ ((a.pump net).1, (a.pump net).2.1) = _
  cases ht : a.tornDown with
  | true =>
      refine ⟨net, rfl, ?_⟩
      rw [pump_of_idle (.inl ht), taken_of_idle (.inl ht)]
      rfl
  | false =>
      cases hs : a.stream with
      | none =>
          refine ⟨net, rfl, ?_⟩
          rw [pump_of_idle (.inr hs), taken_of_idle (.inr hs)]
          rfl
      | some i =>
          refine ⟨(net.drain i).1, congrArg ResizeLog.now (net.resizes_drain i), ?_⟩
          rw [pump_of_stream ht hs, taken_of_stream ht hs]

/-- Events without a close are drawn, and nothing else happens. -/
theorem exists_deliverAll_eq {events : List StreamEvent} (h : Stream.ends events = false)
    (a : Attachment S) (net : Network) :
    ∃ surface, deliverAll events (a, net) = ({ a with surface }, net) := by
  induction events generalizing a with
  | nil => exact ⟨a.surface, rfl⟩
  | cons e rest ih =>
      rw [Stream.ends_cons, Bool.or_eq_false_iff] at h
      cases e with
      | data bytes => exact ih h.2 (a.draw bytes)
      | error text => exact ih h.2 (a.drawNotice (errorNotice text))
      | closed hadError => exact absurd h.1 (by simp [StreamEvent.isClosed])

/-- A pump without a close only draws. -/
theorem exists_pump_eq_of_keeps {a : Attachment S} {net : Network}
    (h : loses (a, net) .pump = false) :
    ∃ surface, (act (a, net) .pump).1 = { a with surface } := by
  obtain ⟨net', -, hact⟩ := exists_act_pump_eq a net
  obtain ⟨surface, hdrawn⟩ := exists_deliverAll_eq h a net'
  exact ⟨surface, by rw [hact, hdrawn]⟩

/-- **A pump with a close lets go of the stream**, and the observer is told of the loss, now or
later, or not at all. -/
theorem exists_act_eq_of_loses {a : Attachment S} {net : Network} {b : AttachmentAct S}
    (h : loses (a, net) b = true) :
    ∃ surface, (act (a, net) b).1 =
      { a with
        phase := .closed
        surface
        stream := none
        deadlines := a.deadlines ++ a.deferral?.toList.map (net.now + ·)
        notified := a.notified ++ a.lossTidings } := by
  obtain ⟨rfl, hup, -, before, hadError, hgoing, htaken⟩ := exists_of_loses h
  obtain ⟨net', hnow, hact⟩ := exists_act_pump_eq a net
  obtain ⟨surface, hdrawn⟩ := exists_deliverAll_eq hgoing a net'
  have hlast : act (a, net) .pump =
      deliver (.closed hadError) ({ a with surface } : Attachment S) net' := by
    rw [hact, htaken]
    unfold deliverAll at hdrawn ⊢
    rw [List.foldl_append, hdrawn]
    rfl
  have hdropped : (({ a with surface } : Attachment S).dropStream net').2.now = net.now :=
    (congrArg ResizeLog.now (resizes_dropStream _ net')).trans hnow
  have hclosed : (act (a, net) .pump).1 =
      ({ a with surface, stream := none } : Attachment S).streamClosed net.now := by
    rw [hlast, ← hdropped, ← dropStream_fst { a with surface } net']
    rfl
  rw [hclosed, streamClosed_of_up (a := { a with surface, stream := none }) hup]
  exact ⟨_, rfl⟩

theorem tornDown_streamClosed (a : Attachment S) (now : Nat) :
    (a.streamClosed now).tornDown = a.tornDown := by
  cases ht : a.tornDown with
  | true => rw [streamClosed_of_tornDown ht, ht]
  | false =>
      rw [streamClosed_of_up ht]
      exact ht

/-- **Nothing but closing it tears an attachment down.** -/
theorem tornDown_act (p : Attachment S × Network) {a : AttachmentAct S} (ha : a ≠ .close) :
    (act p a).1.tornDown = p.1.tornDown := by
  obtain ⟨b, net⟩ := p
  have hcalm (h : a.IsCalm) : (act (b, net) a).1.tornDown = b.tornDown :=
    congrArg Watch.tornDown (watch_act (b, net) h)
  cases a with
  | pump =>
      cases hl : loses (b, net) .pump with
      | false =>
          obtain ⟨surface, hp⟩ := exists_pump_eq_of_keeps hl
          rw [hp]
      | true =>
          obtain ⟨surface, hp⟩ := exists_act_eq_of_loses hl
          rw [hp]
  | streamClosed => exact tornDown_streamClosed b net.now
  | kill =>
      show (b.kill net).1.tornDown = b.tornDown
      cases ht : b.tornDown with
      | true => rw [kill_of_tornDown ht, ht]
      | false =>
          obtain ⟨notified, hk⟩ := exists_kill_eq ht net
          rw [hk]
          exact ht
  | close => exact absurd rfl ha
  | advance ms =>
      show (b.expire (net.advance ms).now).tornDown = b.tornDown
      obtain ⟨deadlines, notified, he⟩ := exists_expire_eq (net.advance ms).now b
      rw [he]
  | _ => exact hcalm trivial

end Losses

end Attachment

end Switchboard
