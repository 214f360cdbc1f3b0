import Switchboard.Proofs.Network.Lines
import Switchboard.Session.Attachment

/-!
# What the operations on an attachment do

For each operation, what it can make of an attachment, field by field: a layout, the loss or the end
of the stream, an event that comes in, a deadline that passes. Whatever is to be shown of all
operations is shown from these forms, and the operations themselves need not be opened again.

No operation but a binding opens a stream: letting go of one and giving input to one leave the
streams that have been opened as they are (`lines_dropStream`, `lines_sendInput`).
-/

namespace Switchboard

namespace Attachment

variable {S : Type}

/-! ## Layouts -/

/-- The remote side is asked for a grid if the session has a size there, the stream is open, and it
was not the grid last asked for. -/
theorem negotiate_cases (grid : Grid) (a : Attachment S) (net : Network) :
    a.negotiate grid net = (a, net) ∧
      (a.isResizable = true → a.streamOpen net = true → a.negotiated = some grid) ∨
    (a.isResizable = true ∧ a.streamOpen net = true ∧ a.negotiated ≠ some grid) ∧
      a.negotiate grid net =
        ({ a with negotiator := { a.negotiator with last := some grid } },
          { net with resizes := net.resizes.request a.negotiator.id grid }) := by
  unfold negotiate
  split
  · rename_i hcan
    rw [Bool.and_eq_true] at hcan
    unfold Negotiator.apply
    by_cases hsame : a.negotiator.last = some grid
    · rw [if_pos hsame]
      exact .inl ⟨rfl, fun _ _ => hsame⟩
    · rw [if_neg hsame]
      exact .inr ⟨⟨hcan.1, hcan.2, hsame⟩, rfl⟩
  · rename_i hcannot
    rw [Bool.and_eq_true] at hcannot
    exact .inl ⟨rfl, fun hr ho => absurd ⟨hr, ho⟩ hcannot⟩

/-- Asking the remote side for a grid concerns only the negotiator and the record of requests. -/
theorem exists_negotiate_eq (grid : Grid) (a : Attachment S) (net : Network) :
    ∃ negotiator resizes, a.negotiate grid net = ({ a with negotiator }, { net with resizes }) := by
  rcases negotiate_cases grid a net with ⟨h, -⟩ | ⟨-, h⟩
  · exact ⟨a.negotiator, net.resizes, h⟩
  · exact ⟨_, _, h⟩

section Layout

variable [Surface S]

/-- The surface of an attachment and the grid of its box, if a layout fits the one to the other: the
layout is followed, and the surface is shown and can be measured. -/
def fitting? (a : Attachment S) : Option (S × Grid) :=
  if a.listening && !a.tornDown && a.visible then
    a.surface.bind fun surface => (Surface.fitted? surface).map (Prod.mk surface)
  else none

theorem fitting?_eq_some_iff {a : Attachment S} {surface : S} {grid : Grid} :
    a.fitting? = some (surface, grid) ↔
      a.listening = true ∧ a.tornDown = false ∧ a.visible = true ∧ a.surface = some surface ∧
        Surface.fitted? surface = some grid := by
  unfold fitting?
  rw [Option.ite_none_right_eq_some, Option.bind_eq_some_iff]
  simp only [Option.map_eq_some_iff, Prod.mk.injEq, Bool.and_eq_true, Bool.not_eq_true']
  constructor
  · rintro ⟨⟨⟨hl, ht⟩, hv⟩, s, hs, g, hf, rfl, rfl⟩
    exact ⟨hl, ht, hv, hs, hf⟩
  · rintro ⟨hl, ht, hv, hs, hf⟩
    exact ⟨⟨⟨hl, ht⟩, hv⟩, surface, hs, grid, hf, rfl, rfl⟩

/-- The attachment once its surface has been given a grid. -/
def refit (grid : Grid) (surface : S) (a : Attachment S) : Attachment S :=
  { a with surface := some (fitSurface grid surface) }

/-- The surface is fitted to its box, the remote side is asked for the same grid, and nothing is due
any longer. -/
theorem layOut_of_fitting {a : Attachment S} {surface : S} {grid : Grid}
    (h : a.fitting? = some (surface, grid)) (net : Network) :
    a.layOut net = (((a.refit grid surface).negotiate grid net).1.settle,
      ((a.refit grid surface).negotiate grid net).2) := by
  obtain ⟨hl, ht, hv, hs, hf⟩ := fitting?_eq_some_iff.mp h
  unfold layOut
  rw [if_neg (by simp [hl, ht]), if_neg (by simp [hv]), hs]
  dsimp only
  rw [hf]
  rfl

/-- Otherwise the layout is not followed or there is nothing to lay out, or it is put off. -/
theorem layOut_of_not_fitting {a : Attachment S} (h : a.fitting? = none) (net : Network) :
    a.layOut net = (a, net) ∧ (a.listening = false ∨ a.tornDown = true ∨ a.surface = none) ∨
    a.layOut net = ({ a with needsLayout := true }, net) ∧
      (a.visible = false ∨
        ∃ surface, a.surface = some surface ∧ Surface.fitted? surface = none) := by
  unfold layOut
  split
  · rename_i hoff
    rw [Bool.or_eq_true, Bool.not_eq_true'] at hoff
    exact .inl ⟨rfl, hoff.imp_right .inl⟩
  · rename_i hon
    rw [Bool.or_eq_true, Bool.not_eq_true', not_or, Bool.not_eq_false, Bool.not_eq_true] at hon
    split
    · rename_i hhidden
      exact .inr ⟨rfl, .inl (by simpa using hhidden)⟩
    · rename_i hshown
      split
      · rename_i hs
        exact .inl ⟨rfl, .inr (.inr hs)⟩
      · rename_i surface hs
        split
        · rename_i hf
          exact .inr ⟨rfl, .inr ⟨surface, hs, hf⟩⟩
        · rename_i grid hf
          have hfits : a.fitting? = some (surface, grid) :=
            fitting?_eq_some_iff.mpr ⟨hon.1, hon.2, by simpa using hshown, hs, hf⟩
          exact absurd (h.symm.trans hfits) (by simp)

/-- The ways in which a layout can go: it is not followed or there is nothing to lay out, it is put
off, or the surface is fitted to its box. -/
theorem layOut_cases (a : Attachment S) (net : Network) :
    a.layOut net = (a, net) ∧ (a.listening = false ∨ a.tornDown = true ∨ a.surface = none) ∨
    a.layOut net = ({ a with needsLayout := true }, net) ∧
      (a.visible = false ∨ ∃ surface, a.surface = some surface ∧ Surface.fitted? surface = none) ∨
    ∃ surface grid negotiator resizes, a.surface = some surface ∧
      Surface.fitted? surface = some grid ∧
      a.layOut net = ({ a with surface := some (fitSurface grid surface), negotiator }.settle,
        { net with resizes }) := by
  cases h : a.fitting? with
  | none =>
      rcases layOut_of_not_fitting h net with hidle | hdue
      · exact .inl hidle
      · exact .inr (.inl hdue)
  | some fits =>
      obtain ⟨surface, grid⟩ := fits
      obtain ⟨-, -, -, hs, hf⟩ := fitting?_eq_some_iff.mp h
      obtain ⟨negotiator, resizes, hn⟩ := exists_negotiate_eq grid (a.refit grid surface) net
      refine .inr (.inr ⟨surface, grid, negotiator, resizes, hs, hf, ?_⟩)
      rw [layOut_of_fitting h, hn]
      rfl

/-- A visible attachment that follows its layout and whose surface can be measured is fitted, and no
longer waits. -/
theorem layOut_of_fitted {a : Attachment S} {surface : S} {grid : Grid}
    (hl : a.listening = true) (ht : a.tornDown = false) (hv : a.visible = true)
    (hs : a.surface = some surface) (hf : Surface.fitted? surface = some grid) (net : Network) :
    ∃ negotiator resizes, a.layOut net =
      ({ a with surface := some (fitSurface grid surface), negotiator }.settle,
        { net with resizes }) := by
  have hfits : a.fitting? = some (surface, grid) :=
    fitting?_eq_some_iff.mpr ⟨hl, ht, hv, hs, hf⟩
  obtain ⟨negotiator, resizes, hn⟩ := exists_negotiate_eq grid (a.refit grid surface) net
  refine ⟨negotiator, resizes, ?_⟩
  rw [layOut_of_fitting hfits, hn]
  rfl

end Layout

/-! ## Binding -/

theorem state_eq_unattached_iff {a : Attachment S} :
    a.state = .unattached ↔ a.phase = .unattached ∧ a.tornDown = false := by
  unfold state
  cases a.tornDown <;> simp

/-- The attachment that has just been bound to a surface and to a stream. -/
def bound (surface : S) (place : Nat) (a : Attachment S) : Attachment S :=
  { a with
    phase := .attaching
    surface := some surface
    stream := some place
    listening := true }

/-- A first surface is bound and a stream opened for it. -/
theorem attach_of_free [Surface S] {a : Attachment S} (hp : a.phase = .unattached)
    (ht : a.tornDown = false) (surface : S) (net : Network) :
    a.attach (some surface) net =
      (a.bound surface (net.dial a.openUrl a.isInteractive).2).layOut
        (net.dial a.openUrl a.isInteractive).1 := by
  unfold attach
  dsimp only
  rw [if_neg (by simp [hp, ht])]
  rfl

/-- Without a surface, or behind the start, there is nothing to bind. -/
theorem attach_of_idle [Surface S] {a : Attachment S} {surface : Option S}
    (h : surface = none ∨ a.state ≠ .unattached) (net : Network) :
    a.attach surface net = (a, net) := by
  unfold attach
  cases surface with
  | none => rfl
  | some surface =>
      have hpast : a.phase ≠ .unattached ∨ a.tornDown = true := by
        have hstate := h.resolve_left (by simp)
        rw [ne_eq, state_eq_unattached_iff, Classical.not_and_iff_not_or_not] at hstate
        simpa using hstate
      dsimp only
      rw [if_pos hpast]

/-! ## The end of the stream -/

/-- A reason that is told changes nothing but what has been told. -/
theorem exists_notify_eq (reason : CloseReason) (a : Attachment S) :
    ∃ notified, a.notify reason = { a with notified } := by
  unfold notify
  split
  · exact ⟨_, rfl⟩
  · exact ⟨a.notified, rfl⟩

theorem dropStream_fst (a : Attachment S) (net : Network) :
    (a.dropStream net).1 = { a with stream := none } := by
  unfold dropStream
  split
  · rfl
  · rename_i hnone
    rw [← hnone]

@[simp] theorem lines_dropStream (a : Attachment S) (net : Network) :
    (a.dropStream net).2.lines = net.lines := by
  unfold dropStream
  split
  · exact net.lines_hangUp _
  · rfl

theorem inputs_dropStream (a : Attachment S) (net : Network) :
    (a.dropStream net).2.inputs = net.inputs := by
  unfold dropStream
  split
  · exact net.inputs_hangUp _
  · rfl

/-- What is drawn when the stream has gone away. -/
def lossNotice (a : Attachment S) : String :=
  match a.deferral? with
  | some ms => delayedNotice ms
  | none => closedNotice

/-- What the observer is told at once when the stream has gone away. -/
def lossTidings (a : Attachment S) : List CloseReason :=
  if a.deferral?.isNone && a.options.closeOnConnectionLost && a.observed then [.lost] else []

/-! An attachment that has been torn down neither hears of the loss of its stream nor can be killed
or closed. -/

theorem streamClosed_of_tornDown [Surface S] {a : Attachment S} (h : a.tornDown = true)
    (now : Nat) : a.streamClosed now = a := by
  unfold streamClosed
  rw [if_pos h]

theorem kill_of_tornDown {a : Attachment S} (h : a.tornDown = true) (net : Network) :
    a.kill net = (a, net) := by
  unfold kill
  rw [if_pos h]

theorem close_of_tornDown {a : Attachment S} (h : a.tornDown = true) (net : Network) :
    a.close net = (a, net) := by
  unfold close
  rw [if_pos h]

/-- The loss of the stream is written, and told to the observer at once, later or not at all. -/
theorem streamClosed_of_up [Surface S] {a : Attachment S} (h : a.tornDown = false) (now : Nat) :
    a.streamClosed now =
      { a with
        phase := .closed
        surface := a.surface.map (Surface.writeLine a.lossNotice)
        deadlines := a.deadlines ++ a.deferral?.toList.map (now + ·)
        notified := a.notified ++ a.lossTidings } := by
  have hdeferral : ({ a with phase := .closed } : Attachment S).deferral? = a.deferral? := rfl
  unfold streamClosed lossNotice lossTidings
  rw [if_neg (by simp [h])]
  dsimp only
  rw [hdeferral]
  cases a.deferral? with
  | some ms => simp [drawNotice]
  | none =>
      cases hlost : a.options.closeOnConnectionLost <;> cases a.observed <;>
        simp [drawNotice, notify, hlost]

/-- However the loss of the stream is dealt with: the attachment is closed and says so. -/
theorem exists_streamClosed_eq [Surface S] {a : Attachment S} (h : a.tornDown = false)
    (now : Nat) :
    ∃ deadlines notified, a.streamClosed now =
      { a with
        phase := .closed
        surface := a.surface.map (Surface.writeLine a.lossNotice)
        deadlines
        notified } := ⟨_, _, streamClosed_of_up h now⟩

/-- A kill closes the attachment and touches no surface. -/
theorem exists_kill_eq {a : Attachment S} (h : a.tornDown = false) (net : Network) :
    ∃ notified, a.kill net =
      ({ a with stream := none, phase := .closed, notified }, (a.dropStream net).2) := by
  unfold kill
  rw [if_neg (by simp [h])]
  dsimp only
  rw [dropStream_fst]
  obtain ⟨notified, hn⟩ := exists_notify_eq .manual { a with stream := none, phase := .closed }
  exact ⟨notified, congrArg (·, (a.dropStream net).2) hn⟩

theorem close_eq {a : Attachment S} (h : a.tornDown = false) (net : Network) :
    a.close net =
      ({ a with
          stream := none
          phase := .closed
          listening := false
          tornDown := true
          observed := false
          deadlines := [] }, (a.dropStream net).2) := by
  unfold close
  rw [if_neg (by simp [h])]
  dsimp only
  rw [dropStream_fst]

/-- A deadline that passes is struck off, and may be told. -/
theorem exists_expire_eq (now : Nat) (a : Attachment S) :
    ∃ deadlines notified, a.expire now = { a with deadlines, notified } := by
  unfold expire
  dsimp only
  generalize a.deadlines.filter (now < ·) = deadlines
  generalize a.deadlines.filter (· ≤ now) = due
  refine ⟨deadlines, ?_⟩
  generalize hb : ({ a with deadlines } : Attachment S) = b
  have hnone : ∃ notified, b = { a with deadlines, notified } := ⟨a.notified, hb.symm⟩
  clear hb
  induction due generalizing b with
  | nil => exact hnone
  | cons d rest ih =>
      obtain ⟨told, rfl⟩ := hnone
      exact ih _ (exists_notify_eq .lost _)

/-! ## Events -/

section Events

variable [Surface S]

/-- Takes in events, the first one first. -/
def deliverAll (events : List StreamEvent) (p : Attachment S × Network) : Attachment S × Network :=
  events.foldl (fun p e => p.1.deliver e p.2) p

theorem pump_of_idle {a : Attachment S} (h : a.tornDown = true ∨ a.stream = none) (net : Network) :
    a.pump net = (a, net, 0) := by
  unfold pump
  rcases h with h | h <;> simp [h]

theorem pump_of_stream {a : Attachment S} {i : Nat} (ht : a.tornDown = false)
    (hs : a.stream = some i) (net : Network) :
    a.pump net =
      ((deliverAll (net.drain i).2 (a, (net.drain i).1)).1,
        (deliverAll (net.drain i).2 (a, (net.drain i).1)).2, (net.drain i).2.length) := by
  unfold pump
  rw [if_neg (by simp [ht]), hs]
  rfl

/-- A pump takes in events that come from a stream, or none. -/
theorem exists_pump_eq (a : Attachment S) (net : Network) :
    ∃ events net', (net' = net ∨ ∃ i, net' = (net.drain i).1) ∧
      a.pump net = ((deliverAll events (a, net')).1, (deliverAll events (a, net')).2,
        events.length) := by
  cases ht : a.tornDown with
  | true => exact ⟨[], net, .inl rfl, pump_of_idle (.inl ht) net⟩
  | false =>
      cases hs : a.stream with
      | none => exact ⟨[], net, .inl rfl, pump_of_idle (.inr hs) net⟩
      | some i => exact ⟨(net.drain i).2, (net.drain i).1, .inr ⟨i, rfl⟩, pump_of_stream ht hs net⟩

end Events

/-! ## Input -/

/-- Input that is taken is taken by the stream that is held. -/
theorem exists_send_of_sendInput {bytes : Bytes} {a : Attachment S} {net net' : Network}
    (h : a.sendInput bytes net = .ok net') :
    ∃ i, a.stream = some i ∧ net.send i bytes = .ok net' := by
  unfold sendInput at h
  split at h
  · exact absurd h (by rintro ⟨⟩)
  · split at h
    · rename_i i hi
      exact ⟨i, hi, h⟩
    · exact absurd h (by rintro ⟨⟩)

theorem lines_sendInput {bytes : Bytes} {a : Attachment S} {net net' : Network}
    (h : a.sendInput bytes net = .ok net') : net'.lines = net.lines := by
  obtain ⟨i, -, hsent⟩ := exists_send_of_sendInput h
  exact Network.lines_send hsent

end Attachment

end Switchboard
