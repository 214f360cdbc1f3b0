import Switchboard.Proofs.Attachment.Holding
import Switchboard.Proofs.Network.Inputs

/-!
# Giving input to an attachment

An attachment opens its stream for input exactly if its session is a shell, so the stream that it
holds is `Apt` for the session. No operation but giving input gives any: all others are `Mute`. So
what becomes of input is decided by the kind of session and by the stream that is held: a log never
takes it (`sendInput_of_log`), and a shell does exactly if its stream does (`sendInput_of_takes`,
`sendInput_of_not_takes`).
-/

namespace Switchboard

theorem Stream.mute_turned : Mute turned := by
  intro s
  unfold turned
  split <;> exact mute_drain s

namespace Attachment

variable {S : Type}

/-- The stream that is held was opened for input exactly if the session is a shell. -/
def Apt (a : Attachment S) (net : Network) : Prop :=
  ∀ i, a.stream = some i → ∃ url, net.lines[i]? = some (url, a.isInteractive)

theorem apt_of_released {a : Attachment S} (h : a.stream = none) (net : Network) : a.Apt net :=
  fun _ hi => absurd (h.symm.trans hi) (by simp)

theorem Apt.mute {a : Attachment S} {net net' : Network} (h : a.Apt net) (hm : net.Mute net') :
    a.Apt net' := by
  intro i hi
  obtain ⟨url, hline⟩ := h i hi
  exact ⟨url, hm.line hline⟩

/-! ## Operations that give no input -/

/-- No input is given, and a stream that is opened is opened for what the session is. -/
structure Mute (p q : Attachment S × Network) : Prop where
  network : p.2.Mute q.2
  apt : p.1.Apt p.2 → q.1.Apt q.2

namespace Mute

variable {p q r : Attachment S × Network}

theorem trans (h : Mute p q) (h' : Mute q r) : Mute p r :=
  ⟨h.network.trans h'.network, fun ha => h'.apt (h.apt ha)⟩

theorem refl (p : Attachment S × Network) : Mute p p := ⟨.refl p.2, id⟩

/-- The stream that is held may be let go of, and no other is taken up. -/
theorem of_keeps (h : Keeps p q) (hm : p.2.Mute q.2) : Mute p q where
  network := hm
  apt ha := by
    have hkey : q.1.isInteractive = p.1.isInteractive :=
      congrArg SessionKey.isInteractive (key_eq_of_identity_eq h.identity)
    intro i hi
    rw [hkey]
    rcases h.stream with hs | hs
    · exact ha.mute hm i (hs.symm.trans hi)
    · exact absurd (hs.symm.trans hi) (by simp)

end Mute

theorem mute_touched {g : Stream → Stream} (hg : Stream.Mute g) (net : Network)
    (a : Attachment S) : net.Mute (touched g net a) := by
  unfold touched
  cases a.source? with
  | none => exact .refl net
  | some i => exact Network.mute_alter hg net i

theorem mute_kill (a : Attachment S) (net : Network) : Mute (a, net) (a.kill net) := by
  refine .of_keeps (keeps_kill a net) ?_
  show net.Mute (a.kill net).2
  cases ht : a.tornDown with
  | true =>
      rw [kill_of_tornDown ht]
      exact .refl net
  | false =>
      obtain ⟨notified, hk⟩ := exists_kill_eq ht net
      rw [hk]
      unfold dropStream
      cases a.stream with
      | none => exact .refl net
      | some i => exact net.mute_hangUp i

theorem mute_expire (now : Nat) (a : Attachment S) (net : Network) :
    Mute (a, net) (a.expire now, net) := .of_keeps (keeps_expire now a net) (.refl net)

section Surfaces

variable [Surface S]

theorem mute_layOut (a : Attachment S) (net : Network) : Mute (a, net) (a.layOut net) := by
  refine .of_keeps (steady_layOut a net).keeps (.of_connections ?_)
  rcases layOut_cases a net with ⟨h, -⟩ | ⟨h, -⟩ | ⟨_, _, _, _, -, -, h⟩ <;> rw [h]

theorem mute_toggleFullscreen (a : Attachment S) (net : Network) :
    Mute (a, net) (a.toggleFullscreen net) := by
  have hflip : Mute (a, net) ({ a with fullscreen := !a.fullscreen }, net) := ⟨.refl net, id⟩
  exact hflip.trans (mute_layOut _ net)

theorem mute_setVisible (visible : Bool) (a : Attachment S) (net : Network) :
    Mute (a, net) (a.setVisible visible net) := by
  have hset : Mute (a, net) ({ a with visible }, net) := ⟨.refl net, id⟩
  unfold setVisible
  dsimp only
  split
  · exact hset.trans (mute_layOut _ net)
  · exact hset

/-- The stream that is opened is held, and is the last one. -/
theorem mute_attach (surface : Option S) (a : Attachment S) (net : Network) :
    Mute (a, net) (a.attach surface net) := by
  by_cases hidle : surface = none ∨ a.state ≠ .unattached
  · rw [attach_of_idle hidle]
    exact .refl (a, net)
  · rw [not_or, not_not] at hidle
    obtain ⟨hsome, hstate⟩ := hidle
    obtain ⟨surface, rfl⟩ := Option.ne_none_iff_exists'.mp hsome
    obtain ⟨hp, ht⟩ := state_eq_unattached_iff.mp hstate
    have hbound : Mute (a, net) (a.bound surface (net.dial a.openUrl a.isInteractive).2,
        (net.dial a.openUrl a.isInteractive).1) := by
      refine ⟨net.mute_dial _ _, fun _ i hi => ⟨a.openUrl, ?_⟩⟩
      have hlast : net.lines.length = i := by
        rw [Network.lines, List.length_map]
        exact Option.some.inj hi
      rw [Network.lines_dial, ← hlast, List.getElem?_concat_length]
      rfl
    rw [attach_of_free hp ht]
    exact hbound.trans (mute_layOut _ _)

theorem mute_pump (a : Attachment S) (net : Network) :
    Mute (a, net) ((a.pump net).1, (a.pump net).2.1) := by
  refine .of_keeps (keeps_pump a net) ?_
  rw [pump_snd]
  exact mute_touched Stream.mute_turned net a

end Surfaces

/-! ## What becomes of input -/

/-- The stream that is held by a shell takes input: it is open, and its remote side takes it. -/
structure Takes (a : Attachment S) (net : Network) (place : Nat) (s : Stream) : Prop where
  interactive : a.isInteractive = true
  held : a.stream = some place
  there : net.stream? place = some s
  isOpen : s.isOpen = true
  read : s.receiverGone = false

theorem sendInput_of_log {a : Attachment S} (h : a.isInteractive = false) (bytes : Bytes)
    (net : Network) : a.sendInput bytes net = .error .readOnly := by
  unfold sendInput
  rw [if_pos (by simp [h])]

theorem sendInput_of_takes {a : Attachment S} {net : Network} {place : Nat} {s : Stream}
    (hapt : a.Apt net) (h : a.Takes net place s) (bytes : Bytes) :
    a.sendInput bytes net = .ok (net.set place (s.given bytes)) := by
  obtain ⟨url, hline⟩ := hapt place h.held
  have hb := (Network.bidirectional_of_lines h.there hline).trans h.interactive
  have hsent : s.send bytes = .ok (s.given bytes) :=
    Stream.send_eq_ok_iff.mpr ⟨⟨hb, h.isOpen, h.read⟩, rfl⟩
  unfold sendInput
  rw [if_neg (by simp [h.interactive]), h.held]
  show net.send place bytes = _
  rw [Network.send, h.there]
  show net.set place <$> s.send bytes = _
  rw [hsent]
  rfl

/-- A shell whose stream does not take input is told that it is closed, and not that it is
read-only: the stream that it holds was opened for input and has not been closed from here. -/
theorem sendInput_of_not_takes {a : Attachment S} {net : Network} (hapt : a.Apt net)
    (hlive : ∀ i, a.stream = some i → net.Live i) (hshell : a.isInteractive = true)
    (h : ∀ place s, ¬ a.Takes net place s) (bytes : Bytes) :
    a.sendInput bytes net = .error .closed := by
  unfold sendInput
  rw [if_neg (by simp [hshell])]
  cases hheld : a.stream with
  | none => rfl
  | some place =>
      obtain ⟨s, hs, hshut⟩ := hlive place hheld
      obtain ⟨url, hline⟩ := hapt place hheld
      have hb := (Network.bidirectional_of_lines hs hline).trans hshell
      have hgone : (s.finished || s.receiverGone) = true := by
        by_contra hthere
        rw [Bool.not_eq_true, Bool.or_eq_false_iff] at hthere
        exact h place s ⟨hshell, hheld, hs, by simp [Stream.isOpen, hthere.1, hshut], hthere.2⟩
      have hsent : s.send bytes = .error .closed := by
        simp [Stream.send, Stream.takesInput, hb, hshut, hgone]
      show net.send place bytes = _
      rw [Network.send, hs]
      show net.set place <$> s.send bytes = _
      rw [hsent]
      rfl

end Attachment

end Switchboard
