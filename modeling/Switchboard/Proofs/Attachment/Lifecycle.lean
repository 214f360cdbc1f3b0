import Switchboard.Proofs.Attachment.Operations
import Switchboard.Proofs.Attachment.Run

/-!
# The life of an attachment

An attachment goes through its phases in one direction, and each of them has its promise (`Staged`):
once it is bound and not closed it holds a surface and follows its layout, and while it still waits
to be measured, it knows that a measurement is due. A layout makes the second promise good by itself
(`proceeds_layOut`), so binding and showing need no argument of their own.

All acts but a first binding only proceed from there (`Proceeds`): the phase does not go back, no
stream is opened, and the surface is the one that was held, with some work done on it
(`proceeds_act`). A first binding of an attachment that waits for one opens the one stream of its
life (`binds_act`). Over a whole life that is `opens_once_and_moves_on`.
-/

namespace Switchboard

/-- The phases in the order in which they follow each other. -/
def Phase.rank : Phase → Nat
  | unattached => 0
  | attaching => 1
  | attached => 2
  | closed => 3

theorem Phase.rank_le (p : Phase) : p.rank ≤ 3 := by cases p <;> decide

theorem Phase.eq_unattached_of_rank_le {p : Phase} (h : p.rank ≤ 0) : p = .unattached := by
  cases p with
  | unattached => rfl
  | _ => exact absurd h (by decide)

theorem Phase.eq_closed_of_rank_le {p : Phase} (h : 3 ≤ p.rank) : p = .closed := by
  cases p with
  | closed => rfl
  | _ => exact absurd h (by decide)

/-- The surface with which an act would bind the attachment. -/
def AttachmentAct.surface? {S : Type} : AttachmentAct S → Option S
  | attach surface => surface
  | _ => none

/-! ## Work on a surface -/

/-- What is done to a surface. -/
inductive SurfaceWork (S : Type) where
  | resize (grid : Grid)
  | write (bytes : Bytes)
  /-- By somebody else. -/
  | reshape (f : S → S)

namespace SurfaceWork

variable {S : Type}

/-- What somebody else does. -/
def foreign? : SurfaceWork S → Option (S → S)
  | reshape f => some f
  | _ => none

def apply [Surface S] (s : S) : SurfaceWork S → S
  | resize grid => Surface.resize grid s
  | write bytes => Surface.write bytes s
  | reshape f => f s

end SurfaceWork

/-- What an act does to the surface on somebody else's behalf. -/
def AttachmentAct.foreign? {S : Type} : AttachmentAct S → Option (S → S)
  | reshape f => some f
  | _ => none

/-- The surface held later is the one held before, if one was, after it has been resized and written
to and has undergone just the given changes by somebody else, in their order. -/
def Worked {S : Type} [Surface S] (foreign : List (S → S)) (before after : Option S) : Prop :=
  ∃ works : List (SurfaceWork S),
    after = before.map (fun s => works.foldl SurfaceWork.apply s) ∧
      works.filterMap SurfaceWork.foreign? = foreign

section Worked

variable {S : Type} [Surface S]

theorem Worked.refl (s : Option S) : Worked [] s s := ⟨[], by simp, rfl⟩

theorem Worked.trans {s t u : Option S} {foreign more : List (S → S)} (h : Worked foreign s t)
    (h' : Worked more t u) : Worked (foreign ++ more) s u := by
  obtain ⟨works, rfl, rfl⟩ := h
  obtain ⟨others, rfl, rfl⟩ := h'
  refine ⟨works ++ others, ?_, List.filterMap_append⟩
  cases s with
  | none => rfl
  | some s => exact congrArg some List.foldl_append.symm

theorem Worked.eq_none {s : Option S} {foreign : List (S → S)} (h : Worked foreign none s) :
    s = none := by
  obtain ⟨works, rfl, -⟩ := h
  rfl

theorem worked_write (bytes : Bytes) (s : Option S) :
    Worked [] s (s.map (Surface.write bytes)) :=
  ⟨[.write bytes], by cases s <;> rfl, rfl⟩

theorem worked_writeLine (text : String) (s : Option S) :
    Worked [] s (s.map (Surface.writeLine text)) :=
  ⟨[.write (bytesOf text), .write LineEnding.crlf], by cases s <;> rfl, rfl⟩

theorem worked_reshape (f : S → S) (s : Option S) : Worked [f] s (s.map f) :=
  ⟨[.reshape f], by cases s <;> rfl, rfl⟩

end Worked

namespace Attachment

variable {S : Type}

/-! ## The promise of each phase -/

/-- What an attachment holds in each phase. -/
structure Placed (a : Attachment S) : Prop where
  bound : a.phase = .attaching ∨ a.phase = .attached →
    a.surface.isSome = true ∧ a.listening = true
  tornDown : a.tornDown = true → a.phase = .closed

/-- It also knows of the measurement that it waits for. -/
structure Staged (a : Attachment S) : Prop extends Placed a where
  attaching : a.phase = .attaching → a.needsLayout = true

theorem staged_ofDescriptor (d : Descriptor) (options : AttachmentOptions) (id : String)
    (observed : Bool) : (ofDescriptor d options id observed : Attachment S).Staged where
  bound h := by rcases h with h | h <;> exact absurd h (by simp [ofDescriptor])
  tornDown h := absurd h (by simp [ofDescriptor])
  attaching h := absurd h (by simp [ofDescriptor])

/-- A closed attachment has nothing to promise. -/
theorem staged_of_closed {a : Attachment S} (h : a.phase = .closed) : a.Staged where
  bound hp := by rcases hp with hp | hp <;> exact absurd (h.symm.trans hp) (by simp)
  tornDown _ := h
  attaching hp := absurd (h.symm.trans hp) (by simp)

/-- The phase that others see is the phase. -/
theorem Placed.state_eq {a : Attachment S} (h : a.Placed) : a.state = a.phase := by
  unfold state
  split
  · rename_i ht
    exact (h.tornDown ht).symm
  · rfl

/-- What has been torn down is closed. -/
theorem Placed.tornDown_eq_false {a : Attachment S} (h : a.Placed) (hp : a.phase ≠ .closed) :
    a.tornDown = false := by
  cases ht : a.tornDown with
  | false => rfl
  | true => exact absurd (h.tornDown ht) hp

/-- Nothing that a promise of a phase is about has changed. -/
theorem Placed.congr {a b : Attachment S} (h : a.Placed) (hp : b.phase = a.phase)
    (hs : b.surface.isSome = a.surface.isSome) (hl : b.listening = a.listening)
    (ht : b.tornDown = a.tornDown) : b.Placed where
  bound hb := by
    rw [hs, hl]
    exact h.bound (hp ▸ hb)
  tornDown hb := hp ▸ h.tornDown (ht ▸ hb)

/-- Once the surface has been fitted, the attachment no longer waits. -/
theorem Placed.settle {a : Attachment S} (h : a.Placed) :
    a.settle.Staged ∧ a.phase.rank ≤ a.settle.phase.rank := by
  by_cases hp : a.phase = .attaching
  · have hsettled : a.settle = { a with needsLayout := false, phase := .attached } := by
      unfold Attachment.settle
      rw [if_pos hp]
    rw [hsettled, hp]
    exact ⟨⟨⟨fun _ => h.bound (.inl hp), fun ht => absurd (h.tornDown ht) (by simp [hp])⟩,
      by simp⟩, by simp [Phase.rank]⟩
  · have hsettled : a.settle = { a with needsLayout := false } := by
      unfold Attachment.settle
      rw [if_neg hp]
    rw [hsettled]
    exact ⟨⟨h.congr rfl rfl rfl rfl, fun hwait => absurd hwait hp⟩, Nat.le_refl _⟩

/-! ## Proceeding -/

section Proceeding

variable [Surface S]

/-- The attachment has gone on without being bound: see the module's comment. -/
structure Proceeds (foreign : List (S → S)) (before after : Attachment S × Network) : Prop where
  staged : after.1.Staged
  rank : before.1.phase.rank ≤ after.1.phase.rank
  surface : Worked foreign before.1.surface after.1.surface
  lines : after.2.lines = before.2.lines

namespace Proceeds

theorem refl {p : Attachment S × Network} (h : p.1.Staged) : Proceeds [] p p :=
  ⟨h, Nat.le_refl _, Worked.refl _, rfl⟩

theorem trans {p q r : Attachment S × Network} {foreign more : List (S → S)}
    (h : Proceeds foreign p q) (h' : Proceeds more q r) : Proceeds (foreign ++ more) p r where
  staged := h'.staged
  rank := Nat.le_trans h.rank h'.rank
  surface := h.surface.trans h'.surface
  lines := h'.lines.trans h.lines

/-- An attachment that closes proceeds. -/
theorem of_closed {p q : Attachment S × Network} (hq : q.1.phase = .closed)
    (hs : Worked [] p.1.surface q.1.surface) (hl : q.2.lines = p.2.lines) : Proceeds [] p q where
  staged := staged_of_closed hq
  rank := by
    rw [hq]
    exact Phase.rank_le _
  surface := hs
  lines := hl

end Proceeds

/-! ## Layouts -/

theorem worked_fitSurface (grid : Grid) (surface : S) :
    Worked [] (some surface) (some (fitSurface grid surface)) := by
  unfold fitSurface
  split
  · exact Worked.refl _
  · exact ⟨[.resize grid], rfl, rfl⟩

/-- **A layout leaves no attachment waiting without its knowing.** -/
theorem proceeds_layOut {a : Attachment S} (h : a.Placed) (net : Network) :
    Proceeds [] (a, net) (a.layOut net) := by
  rcases layOut_cases a net with ⟨hl, hoff⟩ | ⟨hl, -⟩ | ⟨surface, grid, n, resizes, hs, -, hl⟩
  · -- an attachment that waits follows its layout, so it is none
    rw [hl]
    refine Proceeds.refl ⟨h, fun hwait => ?_⟩
    obtain ⟨hsurface, hlisten⟩ := h.bound (.inl hwait)
    rcases hoff with hdeaf | hdown | hnone
    · exact absurd (hlisten.symm.trans hdeaf) (by simp)
    · exact absurd (hwait.symm.trans (h.tornDown hdown)) (by simp)
    · rw [hnone] at hsurface
      exact absurd hsurface (by simp)
  · rw [hl]
    exact ⟨⟨h.congr rfl rfl rfl rfl, fun _ => rfl⟩, Nat.le_refl _, Worked.refl _, rfl⟩
  · rw [hl]
    have hfitted : Placed { a with surface := some (fitSurface grid surface), negotiator := n } :=
      h.congr rfl (by rw [hs]; rfl) rfl rfl
    refine ⟨hfitted.settle.1, hfitted.settle.2, ?_, rfl⟩
    show Worked [] a.surface (some (fitSurface grid surface))
    rw [hs]
    exact worked_fitSurface grid surface

theorem proceeds_setVisible {a : Attachment S} (h : a.Staged) (visible : Bool) (net : Network) :
    Proceeds [] (a, net) (a.setVisible visible net) := by
  have hset : Proceeds [] (a, net) ({ a with visible }, net) :=
    ⟨⟨h.toPlaced.congr rfl rfl rfl rfl, h.attaching⟩, Nat.le_refl _, Worked.refl _, rfl⟩
  unfold setVisible
  dsimp only
  split
  · exact hset.trans (proceeds_layOut hset.staged.toPlaced net)
  · exact hset

theorem proceeds_toggleFullscreen {a : Attachment S} (h : a.Staged) (net : Network) :
    Proceeds [] (a, net) (a.toggleFullscreen net) := by
  have hset : Proceeds [] (a, net) ({ a with fullscreen := !a.fullscreen }, net) :=
    ⟨⟨h.toPlaced.congr rfl rfl rfl rfl, h.attaching⟩, Nat.le_refl _, Worked.refl _, rfl⟩
  exact hset.trans (proceeds_layOut hset.staged.toPlaced net)

/-! ## Output and ends -/

theorem proceeds_streamClosed {a : Attachment S} (h : a.Staged) (now : Nat) (net : Network) :
    Proceeds [] (a, net) (a.streamClosed now, net) := by
  cases ht : a.tornDown with
  | true =>
      rw [streamClosed_of_tornDown ht]
      exact Proceeds.refl h
  | false =>
      obtain ⟨deadlines, notified, hc⟩ := exists_streamClosed_eq ht now
      rw [hc]
      exact Proceeds.of_closed rfl (worked_writeLine a.lossNotice a.surface) rfl

theorem proceeds_dropStream {a : Attachment S} (h : a.Staged) (net : Network) :
    Proceeds [] (a, net) (a.dropStream net) := by
  have hd := dropStream_fst a net
  have hphase : (a.dropStream net).1.phase = a.phase := by rw [hd]
  refine ⟨?_, Nat.le_of_eq (congrArg Phase.rank hphase.symm), ?_, lines_dropStream a net⟩
  · rw [hd]
    exact ⟨h.toPlaced.congr rfl rfl rfl rfl, h.attaching⟩
  · rw [hd]
    exact Worked.refl _

/-- Events are drawn, and a close ends the stream. -/
theorem proceeds_deliver {a : Attachment S} (h : a.Staged) (e : StreamEvent) (net : Network) :
    Proceeds [] (a, net) (a.deliver e net) := by
  cases e with
  | data bytes =>
      exact ⟨⟨h.toPlaced.congr rfl Option.isSome_map rfl rfl, h.attaching⟩, Nat.le_refl _,
        worked_write bytes a.surface, rfl⟩
  | error text =>
      exact ⟨⟨h.toPlaced.congr rfl Option.isSome_map rfl rfl, h.attaching⟩, Nat.le_refl _,
        worked_writeLine (errorNotice text) a.surface, rfl⟩
  | closed hadError =>
      have hdropped := proceeds_dropStream h net
      exact hdropped.trans (proceeds_streamClosed hdropped.staged _ _)

theorem proceeds_deliverAll (events : List StreamEvent) {p : Attachment S × Network}
    (h : p.1.Staged) : Proceeds [] p (deliverAll events p) := by
  induction events generalizing p with
  | nil => exact Proceeds.refl h
  | cons e rest ih =>
      have hfirst := proceeds_deliver h e p.2
      exact hfirst.trans (ih hfirst.staged)

theorem proceeds_pump {a : Attachment S} (h : a.Staged) (net : Network) :
    Proceeds [] (a, net) ((a.pump net).1, (a.pump net).2.1) := by
  obtain ⟨events, net', hnet, hpump⟩ := exists_pump_eq a net
  have hdrained : Proceeds [] (a, net) (a, net') := by
    rcases hnet with rfl | ⟨i, rfl⟩
    · exact Proceeds.refl h
    · exact ⟨h, Nat.le_refl _, Worked.refl _, net.lines_drain i⟩
  rw [hpump]
  exact hdrained.trans (proceeds_deliverAll events hdrained.staged)

theorem proceeds_kill {a : Attachment S} (h : a.Staged) (net : Network) :
    Proceeds [] (a, net) (a.kill net) := by
  cases ht : a.tornDown with
  | true =>
      rw [kill_of_tornDown ht]
      exact Proceeds.refl h
  | false =>
      obtain ⟨notified, hk⟩ := exists_kill_eq ht net
      rw [hk]
      exact Proceeds.of_closed rfl (Worked.refl _) (lines_dropStream a net)

theorem proceeds_close {a : Attachment S} (h : a.Staged) (net : Network) :
    Proceeds [] (a, net) (a.close net) := by
  cases ht : a.tornDown with
  | true =>
      rw [close_of_tornDown ht]
      exact Proceeds.refl h
  | false =>
      rw [close_eq ht]
      exact Proceeds.of_closed rfl (Worked.refl _) (lines_dropStream a net)

theorem proceeds_expire {a : Attachment S} (h : a.Staged) (now : Nat) (net : Network) :
    Proceeds [] (a, net) (a.expire now, net) := by
  obtain ⟨deadlines, notified, he⟩ := exists_expire_eq now a
  rw [he]
  exact ⟨⟨h.toPlaced.congr rfl rfl rfl rfl, h.attaching⟩, Nat.le_refl _, Worked.refl _, rfl⟩

/-! ## Every act -/

/-- **An act that binds nothing only proceeds.** It binds nothing if it comes without a surface, or
behind the start. -/
theorem proceeds_act {p : Attachment S × Network} (h : p.1.Staged) (act : AttachmentAct S)
    (hb : act.surface? = none ∨ p.1.phase ≠ .unattached) :
    Proceeds act.foreign?.toList p (Attachment.act p act) := by
  obtain ⟨a, net⟩ := p
  cases act with
  | attach surface =>
      show Proceeds [] (a, net) (a.attach surface net)
      have hidle : surface = none ∨ a.state ≠ .unattached :=
        hb.imp_right fun hbound hfree => hbound (state_eq_unattached_iff.mp hfree).1
      rw [attach_of_idle hidle]
      exact Proceeds.refl h
  | layOut => exact proceeds_layOut h.toPlaced net
  | setVisible visible => exact proceeds_setVisible h visible net
  | toggleFullscreen => exact proceeds_toggleFullscreen h net
  | pump => exact proceeds_pump h net
  | streamClosed => exact proceeds_streamClosed h net.now net
  | kill => exact proceeds_kill h net
  | close => exact proceeds_close h net
  | sendInput bytes =>
      show Proceeds [] (a, net) (Attachment.act (a, net) (.sendInput bytes))
      rcases act_sendInput_cases (a, net) bytes with hsame | ⟨net', hsent, htaken⟩
      · rw [hsame]
        exact Proceeds.refl h
      · rw [htaken]
        exact ⟨h, Nat.le_refl _, Worked.refl _, lines_sendInput hsent⟩
  | reshape f =>
      exact ⟨⟨h.toPlaced.congr rfl Option.isSome_map rfl rfl, h.attaching⟩, Nat.le_refl _,
        worked_reshape f a.surface, rfl⟩
  | peer place act => exact ⟨h, Nat.le_refl _, Worked.refl _, act.lines_apply place net⟩
  | advance ms =>
      have hlater : Proceeds [] (a, net) (a, net.advance ms) :=
        ⟨h, Nat.le_refl _, Worked.refl _, net.lines_advance ms⟩
      exact hlater.trans (proceeds_expire h _ _)

/-- **A first surface is bound**, and a stream is opened on the address of the session. -/
theorem binds_act {p : Attachment S × Network} (h : p.1.Staged) (hp : p.1.phase = .unattached)
    (surface : S) :
    (act p (.attach (some surface))).1.Staged ∧
      Phase.attaching.rank ≤ (act p (.attach (some surface))).1.phase.rank ∧
      Worked [] (some surface) (act p (.attach (some surface))).1.surface ∧
      (act p (.attach (some surface))).2.lines =
        p.2.lines ++ [(p.1.openUrl, p.1.isInteractive)] := by
  obtain ⟨a, net⟩ := p
  have hup : a.tornDown = false := h.tornDown_eq_false (ne_of_eq_of_ne hp (by simp))
  have hbound : (a.bound surface (net.dial a.openUrl a.isInteractive).2).Placed :=
    ⟨fun _ => ⟨rfl, rfl⟩, fun hdown => absurd (hup.symm.trans hdown) (by simp)⟩
  show (a.attach (some surface) net).1.Staged ∧ _ ≤ (a.attach (some surface) net).1.phase.rank ∧
    Worked [] (some surface) (a.attach (some surface) net).1.surface ∧
    (a.attach (some surface) net).2.lines = net.lines ++ [(a.openUrl, a.isInteractive)]
  rw [attach_of_free hp hup]
  have hlaid := proceeds_layOut hbound (net.dial a.openUrl a.isInteractive).1
  exact ⟨hlaid.staged, hlaid.rank, hlaid.surface, hlaid.lines.trans (net.lines_dial _ _)⟩

/-- Every act keeps the promises and goes forward. -/
theorem staged_act {p : Attachment S × Network} (h : p.1.Staged) (act : AttachmentAct S) :
    (Attachment.act p act).1.Staged ∧ p.1.phase.rank ≤ (Attachment.act p act).1.phase.rank := by
  by_cases hb : act.surface? = none ∨ p.1.phase ≠ .unattached
  · have hgone := proceeds_act h act hb
    exact ⟨hgone.staged, hgone.rank⟩
  · obtain ⟨hs, hp⟩ := not_or.mp hb
    have hfree : p.1.phase = .unattached := Decidable.not_not.mp hp
    cases act with
    | attach surface =>
        cases surface with
        | none => exact absurd rfl hs
        | some surface =>
            have hbinds := binds_act h hfree surface
            refine ⟨hbinds.1, ?_⟩
            rw [hfree]
            exact Nat.zero_le _
    | _ => exact absurd rfl hs

/-! ## Runs -/

theorem staged_run {p : Attachment S × Network} (h : p.1.Staged) (acts : List (AttachmentAct S)) :
    (run p acts).1.Staged ∧ p.1.phase.rank ≤ (run p acts).1.phase.rank := by
  induction acts generalizing p with
  | nil => exact ⟨h, Nat.le_refl _⟩
  | cons a rest ih =>
      obtain ⟨hnext, hfirst⟩ := staged_act h a
      obtain ⟨hlast, hrest⟩ := ih hnext
      exact ⟨hlast, Nat.le_trans hfirst hrest⟩

/-- A run that binds nothing only proceeds. -/
theorem proceeds_run {p : Attachment S × Network} (h : p.1.Staged) {acts : List (AttachmentAct S)}
    (hb : (∀ act ∈ acts, act.surface? = none) ∨ p.1.phase ≠ .unattached) :
    Proceeds (acts.filterMap AttachmentAct.foreign?) p (run p acts) := by
  induction acts generalizing p with
  | nil => exact Proceeds.refl h
  | cons a rest ih =>
      have hfirst := proceeds_act h a (hb.imp_left fun hnone => hnone a List.mem_cons_self)
      have hb' : (∀ act ∈ rest, act.surface? = none) ∨ (act p a).1.phase ≠ .unattached := by
        rcases hb with hnone | hbound
        · exact .inl fun act hact => hnone act (List.mem_cons_of_mem a hact)
        · refine .inr fun hback => ?_
          -- the phase would have gone back to the start
          have hrank := hfirst.rank
          rw [hback] at hrank
          exact hbound (Phase.eq_unattached_of_rank_le hrank)
      have hrun := hfirst.trans (ih hfirst.staged hb')
      have hforeign : (a :: rest).filterMap AttachmentAct.foreign? =
          a.foreign?.toList ++ rest.filterMap AttachmentAct.foreign? := by
        rw [List.filterMap_cons]
        cases a.foreign? <;> rfl
      rw [hforeign]
      exact hrun

/-- An attachment that waits to be measured is completed by showing it, if its surface can be
measured by then. -/
theorem attached_of_reveal {a : Attachment S} (h : a.Staged) (hp : a.phase = .attaching)
    (net : Network) :
    ∃ surface, a.surface = some surface ∧ ∀ grid, Surface.fitted? surface = some grid →
      (a.setVisible true net).1.state = .attached := by
  obtain ⟨hsome, hlisten⟩ := h.bound (.inl hp)
  obtain ⟨surface, hs⟩ := Option.isSome_iff_exists.mp hsome
  have hup : a.tornDown = false := h.tornDown_eq_false (ne_of_eq_of_ne hp (by simp))
  refine ⟨surface, hs, fun grid hf => ?_⟩
  obtain ⟨negotiator, resizes, hl⟩ :=
    layOut_of_fitted (a := { a with visible := true }) hlisten hup rfl hs hf net
  unfold setVisible
  rw [if_pos (by rw [h.attaching hp]; rfl), hl]
  unfold state settle
  rw [if_neg (by simp [hup]), if_pos hp]

/-! ## A whole life -/

/-- Until there is a surface nothing is opened, and an attachment that is given its first one at the
start is bound to that one from then on, on the one stream that it opens for it. -/
theorem bound_of_first_surface {p : Attachment S × Network} (h : p.1.Staged)
    (hfree : p.1.surface = none) {before : List (AttachmentAct S)}
    (hb : ∀ act ∈ before, act.surface? = none) (surface : S) (after : List (AttachmentAct S)) :
    if (run p before).1.state = .unattached then
      (run p (before ++ .attach (some surface) :: after)).2.lines =
          p.2.lines ++ [(p.1.openUrl, p.1.isInteractive)] ∧
        Worked (after.filterMap AttachmentAct.foreign?) (some surface)
          (run p (before ++ .attach (some surface) :: after)).1.surface
    else
      (run p (before ++ .attach (some surface) :: after)).2.lines = p.2.lines ∧
        (run p (before ++ .attach (some surface) :: after)).1.surface = none := by
  have hbefore := proceeds_run h (.inl hb)
  have hid := identity_run p before
  have hstate : (run p before).1.state = (run p before).1.phase := hbefore.staged.state_eq
  have hnone : (run p before).1.surface = none := by
    have hworked := hbefore.surface
    rw [hfree] at hworked
    exact hworked.eq_none
  rw [run_append, hstate]
  split
  · rename_i hstart
    obtain ⟨hstaged, hrank, hsurface, hlines⟩ := binds_act hbefore.staged hstart surface
    have hbound : (act (run p before) (.attach (some surface))).1.phase ≠ .unattached := by
      intro hback
      rw [hback] at hrank
      exact absurd hrank (by decide)
    have hafter : Proceeds (after.filterMap AttachmentAct.foreign?) _ _ :=
      proceeds_run hstaged (.inr hbound)
    refine ⟨?_, hsurface.trans hafter.surface⟩
    rw [run_cons, hafter.lines, hlines, hbefore.lines, openUrl_eq_of_identity_eq hid]
    unfold isInteractive
    rw [key_eq_of_identity_eq hid]
  · rename_i hpast
    have hafter : Proceeds _ _ (run (run p before) (.attach (some surface) :: after)) :=
      proceeds_run hbefore.staged (.inr hpast)
    refine ⟨hafter.lines.trans hbefore.lines, ?_⟩
    have hworked := hafter.surface
    rw [hnone] at hworked
    exact hworked.eq_none

/-- **The life of an attachment.** Its state only goes forward, and a closed attachment stays
closed. It opens no stream before it is given a surface; given the first one at the start, it opens
one stream, for input too if the session is a shell, with its id in the address if sizes are told
for the shell, and is bound to that surface for good; given the first one later, it never opens or
binds anything. While it is attaching, it knows of the measurement that is due, and completes when
it is shown with a surface that can be measured. -/
theorem opens_once_and_moves_on (d : Descriptor) (options : AttachmentOptions) (id : String)
    (observed : Bool) (net : Network) (acts : List (AttachmentAct S)) :
    let start := ((ofDescriptor d options id observed : Attachment S), net)
    let p := run start acts
    (∀ more, p.1.state.rank ≤ (run p more).1.state.rank ∧
      (p.1.state = .closed → (run p more).1.state = .closed)) ∧
    ((∀ act ∈ acts, act.surface? = none) → p.2.lines = net.lines ∧ p.1.surface = none) ∧
    (∀ before surface after, acts = before ++ .attach (some surface) :: after →
      (∀ act ∈ before, act.surface? = none) →
      if (run start before).1.state = .unattached then
        p.2.lines = net.lines ++
            [(if d.key.isInteractive && options.remoteResize then d.streamUrl.withResizeId id
              else d.streamUrl, d.key.isInteractive)] ∧
          Worked (after.filterMap AttachmentAct.foreign?) (some surface) p.1.surface
      else p.2.lines = net.lines ∧ p.1.surface = none) ∧
    (p.1.state = .attaching → p.1.needsLayout = true ∧
      ∃ surface, p.1.surface = some surface ∧ ∀ grid, Surface.fitted? surface = some grid →
        (p.1.setVisible true p.2).1.state = .attached) := by
  intro start p
  have hstart : start.1.Staged := staged_ofDescriptor d options id observed
  have hp : p.1.Staged := (staged_run hstart acts).1
  refine ⟨fun more => ?_, fun hnone => ?_, fun before surface after hacts hnone => ?_,
    fun hwait => ?_⟩
  · obtain ⟨hmore, hrank⟩ := staged_run hp more
    rw [hp.state_eq, hmore.state_eq]
    refine ⟨hrank, fun hclosed => ?_⟩
    rw [hclosed] at hrank
    exact Phase.eq_closed_of_rank_le hrank
  · have hgone := proceeds_run hstart (.inl hnone)
    exact ⟨hgone.lines, hgone.surface.eq_none⟩
  · have hfirst := bound_of_first_surface hstart rfl hnone surface after
    have hurl : start.1.openUrl = if d.key.isInteractive && options.remoteResize then
        d.streamUrl.withResizeId id else d.streamUrl := by
      show (if options.remoteResize && d.key.isInteractive then _ else _) = _
      rw [Bool.and_comm]
      rfl
    rw [hurl, ← hacts] at hfirst
    exact hfirst
  · have hphase : p.1.phase = .attaching := hp.state_eq.symm.trans hwait
    exact ⟨hp.attaching hphase, attached_of_reveal hp hphase p.2⟩

end Proceeding

end Attachment

end Switchboard
