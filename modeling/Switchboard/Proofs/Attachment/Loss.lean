import Switchboard.Proofs.Attachment.Rendering
import Switchboard.Proofs.Attachment.Streams
import Switchboard.Proofs.Attachment.Watch

/-!
# What follows on the loss of a stream

The stream of an attachment is lost in the pump that takes in its close. What its observer hears of
that depends on the options alone: nothing, the loss at once, or the loss after a wait
(`AttachmentOptions.deferral?`), unless the attachment is closed before the wait is over. An
attachment goes through three stages. It waits for a loss, with nothing told and nothing to tell
(`Waiting`); after the loss a deadline may be pending (`Pending`); in the end all that is ever told
has been told (`Told`). One act takes it from one stage to the next (`waiting_act`, `lost_act`,
`pending_act`, `told_act`), and when it does so can be read off the acts since the loss
(`sinceLoss?`, `runsOut`). Hence the observer hears of a loss once at most, and exactly when it is
to (`tells_of_loss_once`).
-/

namespace Switchboard

/-- The wait between the loss of the stream and the end of the session that the options ask for. -/
def AttachmentOptions.deferral? (options : AttachmentOptions) : Option Nat :=
  if options.closeOnConnectionLost then options.closeDelay.filter (0 < ·) else none

/-- What is to be told of a loss at once. -/
def AttachmentOptions.promptly (options : AttachmentOptions) : List CloseReason :=
  if options.closeOnConnectionLost && options.deferral?.isNone then [.lost] else []

/-- An act of a life in which the attachment is not killed and hears of the end of its stream from
the stream alone. -/
def AttachmentAct.FollowsStream {S : Type} : AttachmentAct S → Prop
  | kill | streamClosed => False
  | _ => True

theorem AttachmentAct.FollowsStream.ne_streamClosed {S : Type} {a : AttachmentAct S}
    (h : a.FollowsStream) : a ≠ .streamClosed := by
  rintro rfl
  exact h

def AttachmentAct.isClose {S : Type} : AttachmentAct S → Bool
  | close => true
  | _ => false

namespace Attachment

variable {S : Type}

/-! ## What the options ask for -/

theorem deferral?_eq_some_iff {options : AttachmentOptions} {ms : Nat} :
    options.deferral? = some ms ↔
      options.closeOnConnectionLost = true ∧ options.closeDelay = some ms ∧ 0 < ms := by
  unfold AttachmentOptions.deferral?
  cases options.closeOnConnectionLost <;> simp [Option.filter_eq_some_iff]

/-- What is to be told later is not told at once. -/
theorem promptly_of_deferral? {options : AttachmentOptions} {ms : Nat}
    (h : options.deferral? = some ms) : options.promptly = [] := by
  unfold AttachmentOptions.promptly
  rw [h]
  simp

theorem deferral?_of_observed {a : Attachment S} (h : a.observed = true) :
    a.deferral? = a.options.deferral? := by
  unfold deferral? AttachmentOptions.deferral?
  rw [h]
  cases a.options.closeOnConnectionLost <;> simp

theorem lossTidings_of_observed {a : Attachment S} (h : a.observed = true) :
    a.lossTidings = a.options.promptly := by
  unfold lossTidings AttachmentOptions.promptly
  rw [deferral?_of_observed h, h, Bool.and_true, Bool.and_comm]

theorem lossNotice_of_observed {a : Attachment S} (h : a.observed = true) :
    a.lossNotice = a.options.deferral?.elim closedNotice delayedNotice := by
  unfold lossNotice
  rw [deferral?_of_observed h]
  cases a.options.deferral? <;> rfl

/-- The notices of an immediate and of a delayed close can be told apart. -/
theorem delayedNotice_ne_closedNotice (ms : Nat) : delayedNotice ms ≠ closedNotice := by
  intro h
  have hlength := congrArg String.length h
  unfold delayedNotice at hlength
  simp only [String.length_append] at hlength
  have hcomma : (", will close in ").length = 16 := by decide
  omega

/-! ## The history of a loss -/

section History

variable [Surface S]

/-- The acts since the loss of the stream, if it has been lost. -/
def sinceLoss? (p : Attachment S × Network) :
    List (AttachmentAct S) → Option (List (AttachmentAct S))
  | [] => none
  | a :: rest => if loses p a then some rest else sinceLoss? (act p a) rest

end History

/-- The attachment has not been closed since the loss, and the wait is over in this act. -/
def runsOut (ms : Nat) (soon : List (AttachmentAct S)) (a : AttachmentAct S) : Bool :=
  !soon.any AttachmentAct.isClose && elapsed soon < ms && ms ≤ elapsed (soon ++ [a])

/-! ## Before the loss -/

/-- Nothing has been told and nothing is to be told, and the observer is there while the attachment
is up. -/
structure Waiting (a : Attachment S) : Prop where
  observed : a.observed = !a.tornDown
  deadlines : a.deadlines = []
  notified : a.notified = []

theorem Waiting.congr {a b : Attachment S} (h : a.Waiting) (hw : b.watch = a.watch) :
    b.Waiting where
  observed := by
    rw [show b.observed = a.observed from congrArg Watch.observed hw, h.observed]
    exact congrArg (!Watch.tornDown ·) hw.symm
  deadlines := (congrArg Watch.deadlines hw).trans h.deadlines
  notified := (congrArg Watch.notified hw).trans h.notified

section Acts

variable [Surface S] {p : Attachment S × Network}

/-- **As long as nothing is lost, nothing is told.** -/
theorem waiting_act (h : p.1.Waiting) {a : AttachmentAct S} (ha : a.FollowsStream)
    (hl : loses p a = false) : (act p a).1.Waiting := by
  obtain ⟨b, net⟩ := p
  cases a with
  | pump =>
      obtain ⟨surface, hp⟩ := exists_pump_eq_of_keeps hl
      rw [hp]
      exact h.congr rfl
  | streamClosed => exact ha.elim
  | kill => exact ha.elim
  | close =>
      show (b.close net).1.Waiting
      cases ht : b.tornDown with
      | true =>
          rw [close_of_tornDown ht]
          exact h
      | false =>
          rw [close_eq ht]
          exact ⟨rfl, rfl, h.notified⟩
  | advance ms =>
      show (b.expire (net.advance ms).now).Waiting
      rw [expire_of_ahead (by rw [h.deadlines]; simp)]
      exact h
  | _ => exact h.congr (watch_act (b, net) trivial)

end Acts

/-! ## Behind the loss -/

/-- The attachment has held a stream and holds none any more. -/
structure Settled (a : Attachment S) : Prop where
  stream : a.stream = none
  bound : a.phase ≠ .unattached

/-- All that will ever be told has been told. -/
structure Told (told : List CloseReason) (a : Attachment S) : Prop where
  deadlines : a.deadlines = []
  notified : a.notified = told

/-- The observer is to be told of the loss at a deadline. -/
def Pending (due : Nat) (a : Attachment S) : Prop := a.watch = ⟨false, true, [due], []⟩

theorem Settled.loses_eq_false {p : Attachment S × Network} (h : p.1.Settled)
    (a : AttachmentAct S) : loses p a = false := by
  obtain ⟨b, net⟩ := p
  cases hl : loses (b, net) a with
  | false => rfl
  | true =>
      obtain ⟨-, -, hheld, -⟩ := exists_of_loses hl
      rw [h.stream] at hheld
      exact absurd hheld (by simp)

section Acts

variable [Surface S] {p : Attachment S × Network}

/-- A stream is taken up only once. -/
theorem settled_act (h : p.1.Settled) (a : AttachmentAct S) : (act p a).1.Settled := by
  rcases act_cases p a with ⟨q, hq, hact⟩ | ⟨-, hrests⟩ | ⟨f, rfl⟩
  · rw [hact]
    have hsteady := steady_layOut q.1 q.2
    rcases laidOut?_cases hq with ⟨surface, -, hfree, rfl⟩ | ⟨visible, fullscreen, rfl⟩
    · exact absurd (state_eq_unattached_iff.mp hfree).1 h.bound
    · exact ⟨hsteady.stream.trans h.stream, fun hp => h.bound (hsteady.phase hp)⟩
  · refine ⟨?_, fun hp => h.bound (hrests.phase hp)⟩
    rcases hrests.stream with hs | hs
    · exact hs.trans h.stream
    · exact hs
  · exact ⟨h.stream, h.bound⟩

/-- **Nothing is told after all has been told.** -/
theorem told_act {told : List CloseReason} (hs : p.1.Settled) (h : p.1.Told told)
    {a : AttachmentAct S} (ha : a.FollowsStream) : (act p a).1.Told told := by
  obtain ⟨b, net⟩ := p
  have hcalm (hc : a.IsCalm) : (act (b, net) a).1.Told told := by
    have hwatch := watch_act (b, net) hc
    exact ⟨(congrArg Watch.deadlines hwatch).trans h.deadlines,
      (congrArg Watch.notified hwatch).trans h.notified⟩
  cases a with
  | pump =>
      obtain ⟨surface, hp⟩ := exists_pump_eq_of_keeps (hs.loses_eq_false .pump)
      rw [hp]
      exact ⟨h.deadlines, h.notified⟩
  | streamClosed => exact ha.elim
  | kill => exact ha.elim
  | close =>
      show (b.close net).1.Told told
      cases ht : b.tornDown with
      | true =>
          rw [close_of_tornDown ht]
          exact h
      | false =>
          rw [close_eq ht]
          exact ⟨rfl, h.notified⟩
  | advance ms =>
      show (b.expire (net.advance ms).now).Told told
      rw [expire_of_ahead (by rw [h.deadlines]; simp)]
      exact h
  | _ => exact hcalm trivial

/-- **A deadline stays until the attachment is closed or the deadline is reached**, and only in the
second case something is told. -/
theorem pending_act {due : Nat} (hs : p.1.Settled) (h : p.1.Pending due) (hahead : p.2.now < due)
    {a : AttachmentAct S} (ha : a.FollowsStream) :
    (a.isClose = true ∧ (act p a).1.Told []) ∨
    (a.isClose = false ∧ p.2.now + a.millis < due ∧ (act p a).1.Pending due) ∨
    (a.isClose = false ∧ due ≤ p.2.now + a.millis ∧ (act p a).1.Told [.lost]) := by
  obtain ⟨b, net⟩ := p
  have hup : b.tornDown = false := congrArg Watch.tornDown h
  have hobserved : b.observed = true := congrArg Watch.observed h
  have hdeadlines : b.deadlines = [due] := congrArg Watch.deadlines h
  have hnotified : b.notified = [] := congrArg Watch.notified h
  have hcalm (hc : a.IsCalm) : (act (b, net) a).1.Pending due := (watch_act (b, net) hc).trans h
  cases a with
  | pump =>
      obtain ⟨surface, hp⟩ := exists_pump_eq_of_keeps (hs.loses_eq_false .pump)
      rw [hp]
      exact .inr (.inl ⟨rfl, hahead, h⟩)
  | streamClosed => exact ha.elim
  | kill => exact ha.elim
  | close =>
      left
      refine ⟨rfl, ?_⟩
      show (b.close net).1.Told []
      rw [close_eq hup]
      exact ⟨rfl, hnotified⟩
  | advance ms =>
      right
      show _ ∧ net.now + ms < due ∧ (b.expire (net.now + ms)).Pending due ∨
        _ ∧ due ≤ net.now + ms ∧ (b.expire (net.now + ms)).Told [.lost]
      rcases Nat.lt_or_ge (net.now + ms) due with hearly | hlate
      · left
        rw [expire_of_ahead (by rw [hdeadlines]; simpa using hearly)]
        exact ⟨rfl, hearly, h⟩
      · right
        refine ⟨rfl, hlate, ?_⟩
        rw [expire_of_due hdeadlines hlate]
        unfold notify
        rw [if_pos hobserved]
        exact ⟨rfl, congrArg (· ++ [.lost]) hnotified⟩
  | _ => exact .inr (.inl ⟨rfl, hahead, hcalm trivial⟩)

end Acts

/-! ## The loss -/

/-- The stream has just been lost: what the options ask to be told at once has been told, and the
deadline has been set. -/
structure Lost (p : Attachment S × Network) : Prop where
  settled : p.1.Settled
  watch : p.1.watch = ⟨false, true, p.1.options.deferral?.toList.map (p.2.now + ·),
    p.1.options.promptly⟩

theorem Lost.told {p : Attachment S × Network} (h : Lost p) (hd : p.1.options.deferral? = none) :
    p.1.Told p.1.options.promptly := by
  have hwatch := h.watch
  rw [hd] at hwatch
  exact ⟨congrArg Watch.deadlines hwatch, congrArg Watch.notified hwatch⟩

theorem Lost.pending {p : Attachment S × Network} (h : Lost p) {ms : Nat}
    (hd : p.1.options.deferral? = some ms) : p.1.Pending (p.2.now + ms) := by
  have hwatch := h.watch
  rw [hd, promptly_of_deferral? hd] at hwatch
  exact hwatch

section Acts

variable [Surface S] {p : Attachment S × Network}

/-- **The pump that takes in the close is the loss.** -/
theorem lost_act (h : p.1.Waiting) {a : AttachmentAct S} (hl : loses p a = true) :
    Lost (act p a) ∧ (act p a).1.options = p.1.options ∧ (act p a).2.now = p.2.now := by
  obtain ⟨b, net⟩ := p
  obtain ⟨rfl, hup, -⟩ := exists_of_loses hl
  have hobserved : b.observed = true := by
    rw [h.observed, hup]
    rfl
  have hnow : (act (b, net) .pump).2.now = net.now := now_act (b, net) .pump
  obtain ⟨surface, hact⟩ := exists_act_eq_of_loses hl
  refine ⟨⟨?_, ?_⟩, ?_, hnow⟩
  · rw [hact]
    exact ⟨rfl, by simp⟩
  · rw [hact, hnow, h.deadlines, h.notified, deferral?_of_observed hobserved,
      lossTidings_of_observed hobserved]
    unfold watch
    rw [hup, hobserved]
    rfl
  · rw [hact]

/-- Every run either waits for a loss or has come from one. -/
theorem waiting_or_lost_run (h : p.1.Waiting) {acts : List (AttachmentAct S)}
    (hacts : ∀ a ∈ acts, a.FollowsStream) :
    (sinceLoss? p acts = none ∧ (run p acts).1.Waiting) ∨
    ∃ soon lost, sinceLoss? p acts = some soon ∧ (∀ a ∈ soon, a.FollowsStream) ∧
      Lost lost ∧ lost.1.options = p.1.options ∧ run p acts = run lost soon := by
  induction acts generalizing p with
  | nil => exact .inl ⟨rfl, h⟩
  | cons a rest ih =>
      have hrest : ∀ b ∈ rest, b.FollowsStream := fun b hb =>
        hacts b (List.mem_cons_of_mem a hb)
      unfold sinceLoss?
      cases hl : loses p a with
      | true =>
          obtain ⟨hlost, hoptions, -⟩ := lost_act h hl
          exact .inr ⟨rest, act p a, rfl, hrest, hlost, hoptions, rfl⟩
      | false =>
          have hoptions : (act p a).1.options = p.1.options :=
            options_eq_of_identity_eq (identity_act p a)
          rcases ih (waiting_act h (hacts a List.mem_cons_self) hl) hrest with
            hwaiting | ⟨soon, lost, hsoon, hplain, hlost, hsame, hrun⟩
          · exact .inl hwaiting
          · exact .inr ⟨soon, lost, hsoon, hplain, hlost, hsame.trans hoptions, hrun⟩

/-! ## Behind the loss -/

theorem settled_run (h : p.1.Settled) (acts : List (AttachmentAct S)) : (run p acts).1.Settled :=
  run_keeps (P := fun p => p.1.Settled) (fun a _ _ hp => settled_act hp a) h

theorem told_run {told : List CloseReason} (hs : p.1.Settled) (h : p.1.Told told)
    {acts : List (AttachmentAct S)} (hacts : ∀ a ∈ acts, a.FollowsStream) :
    (run p acts).1.Told told :=
  (run_keeps (P := fun p => p.1.Settled ∧ p.1.Told told)
    (fun a ha _ hp => ⟨settled_act hp.1 a, told_act hp.1 hp.2 (hacts a ha)⟩) ⟨hs, h⟩).2

/-- A deadline is pending as long as the attachment has not been closed and the wait is not over;
after that, all has been told. -/
theorem pending_run {ms : Nat} (hs : p.1.Settled) (h : p.1.Pending (p.2.now + ms)) (hms : 0 < ms)
    {acts : List (AttachmentAct S)} (hacts : ∀ a ∈ acts, a.FollowsStream) :
    (acts.any AttachmentAct.isClose = false ∧ elapsed acts < ms ∧
      (run p acts).1.Pending (p.2.now + ms)) ∨
    ((acts.any AttachmentAct.isClose = true ∨ ms ≤ elapsed acts) ∧
      ((run p acts).1.Told [] ∨ (run p acts).1.Told [.lost])) := by
  induction acts using List.reverseRecOn with
  | nil => exact .inl ⟨rfl, hms, h⟩
  | append_singleton acts a ih =>
      have ha := hacts a List.mem_concat_self
      have hsettled := settled_run hs acts
      rw [run_concat, elapsed_concat, List.any_append]
      rcases ih fun b hb => hacts b (List.mem_append_left [a] hb) with
        ⟨hopen, hearly, hpending⟩ | ⟨hover, htold⟩
      · have hnow := now_run p acts
        rw [hopen, Bool.false_or, List.any_cons, List.any_nil, Bool.or_false]
        rcases pending_act hsettled hpending (by omega) ha with
          ⟨hclose, htold⟩ | ⟨hclose, hahead, hpending'⟩ | ⟨hclose, hdue, htold⟩
        · exact .inr ⟨.inl hclose, .inl htold⟩
        · exact .inl ⟨hclose, by omega, hpending'⟩
        · exact .inr ⟨.inr (by omega), .inr htold⟩
      · right
        refine ⟨?_, ?_⟩
        · rcases hover with hclosed | hlate
          · left
            rw [hclosed]
            rfl
          · right
            omega
        · exact htold.imp (told_act hsettled · ha) (told_act hsettled · ha)

/-! ## What each act tells -/

/-- An attachment that waits for a loss tells what is to be told of it at once. -/
theorem notified_act_of_waiting (h : p.1.Waiting) {a : AttachmentAct S} (ha : a.FollowsStream) :
    (act p a).1.notified = if loses p a then p.1.options.promptly else [] := by
  cases hl : loses p a with
  | true =>
      obtain ⟨hlost, hoptions, -⟩ := lost_act h hl
      rw [← hoptions]
      exact congrArg Watch.notified hlost.watch
  | false => exact (waiting_act h ha hl).notified

/-- Behind a loss with a wait, only the act in which the wait runs out tells anything. -/
theorem notified_act_of_pending {ms : Nat} (hs : p.1.Settled)
    (h : p.1.Pending (p.2.now + ms)) (hms : 0 < ms) {soon : List (AttachmentAct S)}
    (hsoon : ∀ a ∈ soon, a.FollowsStream) {a : AttachmentAct S} (ha : a.FollowsStream) :
    (act (run p soon) a).1.notified =
      (run p soon).1.notified ++ if runsOut ms soon a then [.lost] else [] := by
  have hsettled := settled_run hs soon
  unfold runsOut
  rw [elapsed_concat]
  rcases pending_run hs h hms hsoon with ⟨hopen, hearly, hpending⟩ | ⟨hover, htold⟩
  · have hnow := now_run p soon
    have hquiet : (run p soon).1.notified = [] := congrArg Watch.notified hpending
    rw [hopen, hquiet]
    rcases pending_act hsettled hpending (by omega) ha with
      ⟨hclose, htold⟩ | ⟨-, hahead, hpending'⟩ | ⟨-, hdue, htold⟩
    · -- closing takes no time
      have hnotime : a.millis = 0 := by
        cases a with
        | close => rfl
        | _ => exact absurd hclose (by simp [AttachmentAct.isClose])
      rw [htold.notified, hnotime, if_neg (by simp)]
      rfl
    · have hnotified : (act (run p soon) a).1.notified = [] := congrArg Watch.notified hpending'
      rw [hnotified, if_neg (by simp; omega)]
      rfl
    · rw [htold.notified, if_pos (by simp; omega)]
      rfl
  · have hkept : (act (run p soon) a).1.notified = (run p soon).1.notified := by
      rcases htold with htold | htold
      · rw [(told_act hsettled htold ha).notified, htold.notified]
      · rw [(told_act hsettled htold ha).notified, htold.notified]
    have hnot : ¬ (!soon.any AttachmentAct.isClose && elapsed soon < ms &&
        ms ≤ elapsed soon + a.millis) = true := by
      rcases hover with hclosed | hlate
      · simp [hclosed]
      · simp
        omega
    rw [hkept, if_neg hnot, List.append_nil]

/-- **Without a wait**, the pump that takes in the close tells of the loss, and nothing else
does. -/
theorem notified_act_of_prompt (h : p.1.Waiting) (hd : p.1.options.deferral? = none)
    {acts : List (AttachmentAct S)} (hacts : ∀ a ∈ acts, a.FollowsStream)
    {a : AttachmentAct S} (ha : a.FollowsStream) :
    (act (run p acts) a).1.notified =
      (run p acts).1.notified ++ if loses (run p acts) a then p.1.options.promptly else [] := by
  rcases waiting_or_lost_run h hacts with
    ⟨-, hwaiting⟩ | ⟨soon, lost, -, hplain, hlost, hsame, hrun⟩
  · rw [notified_act_of_waiting hwaiting ha, hwaiting.notified, options_run]
    rfl
  · have hsettled := settled_run hlost.settled soon
    have htold := told_run hlost.settled (hlost.told (hsame ▸ hd)) hplain
    rw [hrun, hsettled.loses_eq_false, (told_act hsettled htold ha).notified, htold.notified]
    exact (List.append_nil _).symm

/-- **With a wait**, the act in which it runs out tells of the loss, and nothing else does. -/
theorem notified_act_of_deferred (h : p.1.Waiting) {ms : Nat}
    (hd : p.1.options.deferral? = some ms) {acts : List (AttachmentAct S)}
    (hacts : ∀ a ∈ acts, a.FollowsStream) {a : AttachmentAct S} (ha : a.FollowsStream) :
    (act (run p acts) a).1.notified = (run p acts).1.notified ++
      if (sinceLoss? p acts).any (runsOut ms · a) then [.lost] else [] := by
  rcases waiting_or_lost_run h hacts with
    ⟨hnone, hwaiting⟩ | ⟨soon, lost, hsoon, hplain, hlost, hsame, hrun⟩
  · rw [notified_act_of_waiting hwaiting ha, hnone, hwaiting.notified, options_run,
      promptly_of_deferral? hd, ite_self]
    rfl
  · rw [hrun, hsoon, Option.any_some]
    exact notified_act_of_pending hlost.settled (hlost.pending (hsame ▸ hd))
      (deferral?_eq_some_iff.mp hd).2.2 hplain ha

/-- What is lost has been waited for. -/
theorem waiting_run_of_loses (h : p.1.Waiting) {acts : List (AttachmentAct S)}
    (hacts : ∀ a ∈ acts, a.FollowsStream) {a : AttachmentAct S}
    (hl : loses (run p acts) a = true) : (run p acts).1.Waiting := by
  rcases waiting_or_lost_run h hacts with ⟨-, hwaiting⟩ | ⟨soon, lost, -, -, hlost, -, hrun⟩
  · exact hwaiting
  · rw [hrun, (settled_run hlost.settled soon).loses_eq_false] at hl
    exact absurd hl (by simp)

/-- In the end the observer has been told of the loss, or nothing. -/
theorem notified_run (h : p.1.Waiting) {acts : List (AttachmentAct S)}
    (hacts : ∀ a ∈ acts, a.FollowsStream) :
    (run p acts).1.notified = [] ∨
      p.1.options.closeOnConnectionLost = true ∧ (run p acts).1.notified = [.lost] := by
  rcases waiting_or_lost_run h hacts with
    ⟨-, hwaiting⟩ | ⟨soon, lost, -, hplain, hlost, hsame, hrun⟩
  · exact .inl hwaiting.notified
  · rw [hrun, ← hsame]
    cases hd : lost.1.options.deferral? with
    | none =>
        rw [(told_run hlost.settled (hlost.told hd) hplain).notified]
        unfold AttachmentOptions.promptly
        rw [hd]
        cases lost.1.options.closeOnConnectionLost <;> simp
    | some ms =>
        obtain ⟨hclosing, -, hms⟩ := deferral?_eq_some_iff.mp hd
        rcases pending_run hlost.settled (hlost.pending hd) hms hplain with
          ⟨-, -, hpending⟩ | ⟨-, htold | htold⟩
        · exact .inl (congrArg Watch.notified hpending)
        · exact .inl htold.notified
        · exact .inr ⟨hclosing, htold.notified⟩

end Acts

/-! ## The notice -/

/-- An attachment that holds a stream is bound to a surface. -/
theorem bound_of_held [Surface S] (d : Descriptor) (options : AttachmentOptions) (id : String)
    (observed : Bool) (net : Network) {acts : List (AttachmentAct S)}
    (hacts : ∀ a ∈ acts, a.FollowsStream)
    (h : (run ((ofDescriptor d options id observed : Attachment S), net) acts).1.stream.isSome) :
    let p := run ((ofDescriptor d options id observed : Attachment S), net) acts
    p.1.phase ≠ .unattached ∧ p.1.surface.isSome = true := by
  intro p
  have hplugged : Plugged p :=
    run_keeps (P := Plugged) (fun a _ _ hp => plugged_act hp a)
      ⟨fun _ => rfl, fun i hi => absurd hi (by simp [ofDescriptor])⟩
  have hreleased : p.1.Released :=
    run_keeps (P := fun p => p.1.Released)
      (fun a ha _ hp => released_act hp (hacts a ha).ne_streamClosed) (fun _ => rfl)
  have hstaged : p.1.Staged :=
    run_keeps (P := fun p => p.1.Staged) (fun a _ _ hp => (staged_act hp a).1)
      (staged_ofDescriptor d options id observed)
  have hnone (hs : p.1.stream = none) : False := by
    rw [hs] at h
    exact absurd h (by simp)
  cases hp : p.1.phase with
  | unattached => exact (hnone (hplugged.free hp)).elim
  | attaching => exact ⟨by simp, (hstaged.bound (.inl hp)).1⟩
  | attached => exact ⟨by simp, (hstaged.bound (.inr hp)).1⟩
  | closed => exact (hnone (hreleased hp)).elim

/-- The pump that takes in the close writes what it takes in, and the notice last. -/
theorem written_act_of_loses [Surface S] {p : Attachment (Recorded S) × Network}
    (h : p.1.Waiting) (hbound : p.1.phase ≠ .unattached) (hsurface : p.1.surface.isSome = true)
    {a : AttachmentAct (Recorded S)} (hl : loses p a = true) :
    ∃ writes, p.1.surface.map (·.writes) = some writes ∧
      (act p a).1.surface.map (·.writes) = some (writes ++ (taken p a).flatMap
        (rendering (p.1.options.deferral?.elim closedNotice delayedNotice))) := by
  obtain ⟨b, net⟩ := p
  obtain ⟨rfl, hup, -⟩ := exists_of_loses hl
  have hobserved : b.observed = true := by
    rw [h.observed, hup]
    rfl
  obtain ⟨r, hr⟩ := Option.isSome_iff_exists.mp hsurface
  have hshows : Shows (b.options.deferral?.elim closedNotice delayedNotice) r.writes b :=
    ⟨hbound, hup, lossNotice_of_observed hobserved, by rw [hr]; rfl⟩
  obtain ⟨net', -, hact⟩ := exists_act_pump_eq b net
  refine ⟨r.writes, hshows.written, ?_⟩
  rw [hact]
  exact (shows_deliverAll hshows _ net').1.written

/-! ## Whole runs -/

/-- **A loss is told once at most, and exactly when it is to be.** An attachment is observed, is not
killed, and hears of the end of its stream from the stream alone. In any run its observer hears at
most one reason, the loss, and none if losses are not to close the session. Without a wait it hears
it in the pump that takes in the close of the stream, and in no other act; with one, in the act in
which the wait after that pump runs out, if the attachment has not been closed by then, and in no
other act. The line that the pump writes for the close tells of a delayed close exactly if there is
a deadline to wait for. -/
theorem tells_of_loss_once [Surface S] (d : Descriptor) (options : AttachmentOptions) (id : String)
    (net : Network) (acts : List (AttachmentAct (Recorded S)))
    (hacts : ∀ a ∈ acts, a.FollowsStream) :
    let start := ((ofDescriptor d options id true : Attachment (Recorded S)), net)
    ((run start acts).1.notified = [] ∨
      options.closeOnConnectionLost = true ∧ (run start acts).1.notified = [.lost]) ∧
    ∀ before a after, acts = before ++ a :: after →
      let p := run start before
      let q := act p a
      (options.closeOnConnectionLost = true → options.deferral? = none →
        q.1.notified = p.1.notified ++ if loses p a then [.lost] else []) ∧
      (∀ ms, options.deferral? = some ms →
        q.1.notified =
          p.1.notified ++ if (sinceLoss? start before).any (runsOut ms · a) then [.lost] else []) ∧
      (loses p a = true → ∃ writes notice,
        p.1.surface.map (·.writes) = some writes ∧
        q.1.surface.map (·.writes) = some (writes ++ (taken p a).flatMap (rendering notice)) ∧
        (options.deferral? = none → notice = closedNotice ∧ q.1.deadlines = []) ∧
        ∀ ms, options.deferral? = some ms →
          notice = delayedNotice ms ∧ notice ≠ closedNotice ∧ q.1.deadlines = [p.2.now + ms]) := by
  intro start
  have hstart : start.1.Waiting := ⟨rfl, rfl, rfl⟩
  refine ⟨notified_run hstart hacts, ?_⟩
  rintro before a after rfl
  have hbefore : ∀ b ∈ before, b.FollowsStream := fun b hb =>
    hacts b (List.mem_append_left _ hb)
  have ha := hacts a (List.mem_append_right _ List.mem_cons_self)
  refine ⟨fun hclosing hd => ?_, fun ms hd => notified_act_of_deferred hstart hd hbefore ha,
    fun hl => ?_⟩
  · have hprompt : options.promptly = [.lost] := by
      unfold AttachmentOptions.promptly
      rw [hclosing, hd]
      rfl
    rw [notified_act_of_prompt hstart hd hbefore ha]
    exact congrArg (fun told => _ ++ if loses (run start before) a then told else []) hprompt
  · have hoptions : (run start before).1.options = options := options_run start before
    have hwaiting := waiting_run_of_loses hstart hbefore hl
    obtain ⟨hbound, hsurface⟩ := bound_of_held d options id true net hbefore
      (exists_of_loses hl).2.2.1
    obtain ⟨writes, hwrites, hwritten⟩ := written_act_of_loses hwaiting hbound hsurface hl
    obtain ⟨hlost, hkept, hnow⟩ := lost_act hwaiting hl
    have hdeadlines : (act (run start before) a).1.deadlines =
        options.deferral?.toList.map ((run start before).2.now + ·) := by
      rw [← hnow, ← hoptions, ← hkept]
      exact congrArg Watch.deadlines hlost.watch
    rw [hoptions] at hwritten
    refine ⟨writes, _, hwrites, hwritten, fun hd => ?_, fun ms hd => ?_⟩
    · rw [hdeadlines, hd]
      exact ⟨rfl, rfl⟩
    · rw [hdeadlines, hd]
      exact ⟨rfl, delayedNotice_ne_closedNotice ms, rfl⟩

/-- A log is lost with a wait of fifty milliseconds. After forty-nine nothing has been told, after
fifty the loss has. -/
theorem log_closed_after_its_delay :
    let log : Descriptor :=
      .opened (.single "a" "c" false) ⟨"ws", none, .segments [], none, none⟩ "default"
    let start : Attachment (Recorded Console) × Network :=
      (ofDescriptor log ⟨true, some 50, false⟩ "1" true, .start 0)
    let pumped : List (AttachmentAct (Recorded Console)) :=
      [.attach (some (.start .start)), .peer 0 .leave, .pump]
    let acts := pumped ++ [.advance 49, .advance 1]
    (∀ a ∈ acts, a.FollowsStream) ∧
      (run start pumped).1.surface.map (·.writes) = some (lineWrites (delayedNotice 50)) ∧
      (run start (pumped ++ [.advance 49])).1.notified = [] ∧
      (run start acts).1.notified = [.lost] := by
  intro log start pumped acts
  have hacts : ∀ a ∈ acts, a.FollowsStream := by
    simp [acts, pumped, AttachmentAct.FollowsStream]
  obtain ⟨-, hsteps⟩ := tells_of_loss_once log ⟨true, some 50, false⟩ "1" (.start 0) acts hacts
  obtain ⟨-, -, hwritten⟩ := hsteps (pumped.take 2) .pump [.advance 49, .advance 1] rfl
  obtain ⟨-, hearly, -⟩ := hsteps pumped (.advance 49) [.advance 1] rfl
  obtain ⟨-, hlate, -⟩ := hsteps (pumped ++ [.advance 49]) (.advance 1) [] rfl
  refine ⟨hacts, ?_, hearly 50 rfl, ?_⟩
  · obtain ⟨writes, notice, hbefore, hafter, -, hnotice⟩ := hwritten rfl
    obtain ⟨rfl, -⟩ := hnotice 50 rfl
    cases hbefore
    exact hafter
  · exact hlate 50 rfl

end Attachment

end Switchboard
