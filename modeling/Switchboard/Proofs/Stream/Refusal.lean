import Switchboard.Proofs.Stream.Protocol

/-!
# Why input is refused

Input that a stream does not take is refused as read-only or as closed. Is it read-only only where
the stream was opened that way? As long as the terminal has not closed its own end it is. But
closing that end also gives up the right to give input, and the right is asked for first, so from
then on a shell says the same as a log: the terminal hears that the stream is closed only if it was
the remote side that ended it (`refused_as_readOnly_or_closed`).
-/

namespace Switchboard

namespace Stream

variable {s : Stream} {bytes : Bytes}

/-- The right to give input is asked for before anything else. -/
theorem send_eq_readOnly_iff :
    s.send bytes = .error .readOnly ↔ s.bidirectional = false ∨ s.shut = true := by
  unfold send takesInput
  cases s.bidirectional <;> cases s.shut <;> cases s.finished || s.receiverGone <;> simp

/-- Who has the right is told that the stream is closed if its end has been told, or if nobody takes
the input. -/
theorem send_eq_closed_iff :
    s.send bytes = .error .closed ↔
      (s.bidirectional = true ∧ s.shut = false) ∧ (s.finished = true ∨ s.receiverGone = true) := by
  unfold send takesInput
  cases s.bidirectional <;> cases s.shut <;> cases s.finished <;> cases s.receiverGone <;> simp

end Stream

namespace Exchange

/-- **Why input is refused.** After any acts of the two ends of a new stream, whatever the input:

* it is refused as read-only exactly if the stream was not opened for input or the terminal has
  closed its own end; so it is for a stream that was opened for input, from the first such act on;
* it is refused as closed exactly if the stream was opened for input, the terminal has not closed
  its own end, and it has been told of a close or the remote side no longer takes input;
* otherwise it is taken. -/
theorem refused_as_readOnly_or_closed (bidirectional : Bool) (acts : List StreamAct)
    (bytes : Bytes) :
    let x := (opened bidirectional).run acts
    let shut := acts.any (·.isClose) = true
    (x.stream.send bytes = .error .readOnly ↔ bidirectional = false ∨ shut) ∧
    (x.stream.send bytes = .error .closed ↔
      (bidirectional = true ∧ ¬ shut) ∧
        (Stream.ends x.told = true ∨ acts.any (·.stopsReading) = true)) ∧
    ((∃ s, x.stream.send bytes = .ok s) ↔
      (bidirectional = true ∧ ¬ shut) ∧
        ¬ (Stream.ends x.told = true ∨ acts.any (·.stopsReading) = true)) := by
  intro x shut
  have hx : x.Sound := sound_run (sound_opened bidirectional) acts
  have hbi : x.stream.bidirectional = bidirectional :=
    bidirectional_run (opened bidirectional) acts
  have hreceiver : x.stream.receiverGone = acts.any (·.stopsReading) :=
    flag_run (·.stream.receiverGone) (fun x a => (letsGo_act x a).receiverGone) _ acts
  have hshut : x.stream.shut = acts.any (·.isClose) :=
    flag_run (·.stream.shut) (fun x a => (letsGo_act x a).shut) _ acts
  -- what a terminal has been told of the end counts only while its own end is not closed
  have hfinished : ¬ shut → (x.stream.finished = true ↔ Stream.ends x.told = true) := by
    intro hopen
    rw [hx.finished_iff, hshut, or_iff_left hopen]
  refine ⟨?_, ?_, ?_⟩
  · rw [Stream.send_eq_readOnly_iff, hbi, hshut]
  · rw [Stream.send_eq_closed_iff, hbi, hshut, hreceiver, ← Bool.not_eq_true]
    refine and_congr_right fun hright => ?_
    rw [hfinished hright.2]
  · simp only [Stream.send_eq_ok_iff, exists_and_left, exists_eq, and_true]
    rw [hbi, hreceiver, hx.isOpen_iff, hshut, ← Bool.not_eq_true]
    tauto

/-- A shell whose end has been closed from here refuses input as if it were a log, although the
stream is no longer open. -/
theorem closed_shell_refuses_as_readOnly :
    let x := (opened true).run [.close]
    x.stream.isOpen = false ∧ x.stream.send [0x78] = .error .readOnly ∧
      x.stream.send [0x78] ≠ .error .closed := by
  decide

end Exchange

end Switchboard
