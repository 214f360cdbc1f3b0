import Switchboard.Terminal.Stream

/-!
# What the terminal is told

A remote side sends events and may stop sending at some time. The terminal is to be told these
events up to the first close, and if there is none before the remote side stops, then a close by an
error behind them (`script`). It asks for the next one (`next_snd`) or for all that
there are (`drain_snd`), which is asking one by one (`drain_eq_next`), and may ask again and again
while more is being sent.

While no close has been told, what has been told and what is still on its way are together what was
sent (`Carries`). So what has been told and what would be told now (`toCome`) are together the
script at every moment (`Carries.told_append_toCome`).
-/

namespace Switchboard

namespace Stream

/-! ## Cutting behind the first close -/

/-- The events up to the first close. -/
def cut (es : List StreamEvent) : List StreamEvent := (throughClose es).1

/-- A close is among the events. -/
def ends (es : List StreamEvent) : Bool := es.any StreamEvent.isClosed

theorem cut_cons (e : StreamEvent) (es : List StreamEvent) :
    cut (e :: es) = e :: if e.isClosed then [] else cut es := by
  unfold cut
  rw [throughClose]
  split <;> rfl

@[simp] theorem ends_nil : ends [] = false := rfl

@[simp] theorem ends_cons (e : StreamEvent) (es : List StreamEvent) :
    ends (e :: es) = (e.isClosed || ends es) := List.any_cons

@[simp] theorem ends_append (es more : List StreamEvent) :
    ends (es ++ more) = (ends es || ends more) := List.any_append

/-- What comes behind a close is cut, and without a close nothing is. -/
theorem cut_append (es more : List StreamEvent) :
    cut (es ++ more) = cut es ++ if ends es then [] else cut more := by
  induction es with
  | nil => rfl
  | cons e rest ih =>
      rw [List.cons_append, cut_cons, cut_cons, ends_cons]
      cases e.isClosed with
      | true => rfl
      | false => exact congrArg (e :: ·) ih

theorem cut_of_going {es : List StreamEvent} (h : ends es = false) : cut es = es := by
  induction es with
  | nil => rfl
  | cons e rest ih =>
      rw [ends_cons, Bool.or_eq_false_iff] at h
      rw [cut_cons, h.1, ih h.2]
      rfl

theorem throughClose_snd_of_going {es : List StreamEvent} (h : ends es = false) :
    (throughClose es).2 = [] := by
  induction es with
  | nil => rfl
  | cons e rest ih =>
      rw [ends_cons, Bool.or_eq_false_iff] at h
      rw [throughClose, h.1]
      exact ih h.2

/-- The first close is left. -/
theorem ends_cut (es : List StreamEvent) : ends (cut es) = ends es := by
  induction es with
  | nil => rfl
  | cons e rest ih =>
      rw [cut_cons, ends_cons, ends_cons]
      cases e.isClosed with
      | true => rfl
      | false => exact ih

/-- A close that is left comes last. -/
theorem exists_cut_eq {es : List StreamEvent} (h : ends es = true) :
    ∃ before hadError, ends before = false ∧ cut es = before ++ [.closed hadError] := by
  induction es with
  | nil => exact absurd h (by simp)
  | cons e rest ih =>
      rw [cut_cons]
      cases hc : e.isClosed with
      | true =>
          obtain ⟨hadError, rfl⟩ : ∃ hadError, e = .closed hadError := by
            cases e with
            | closed hadError => exact ⟨hadError, rfl⟩
            | _ => exact absurd hc (by simp [StreamEvent.isClosed])
          exact ⟨[], hadError, rfl, rfl⟩
      | false =>
          rw [ends_cons, hc, Bool.false_or] at h
          obtain ⟨before, hadError, hgoing, hcut⟩ := ih h
          refine ⟨e :: before, hadError, ?_, congrArg (e :: ·) hcut⟩
          rw [ends_cons, hc, hgoing]
          rfl

/-- No second close is left. -/
theorem countP_isClosed_cut_le (es : List StreamEvent) :
    (cut es).countP StreamEvent.isClosed ≤ 1 := by
  induction es with
  | nil => exact Nat.zero_le 1
  | cons e rest ih =>
      rw [cut_cons]
      cases hc : e.isClosed with
      | true => simp [hc]
      | false => simpa [hc] using ih

/-! ## The script -/

/-- What a remote side that has stopped sending is taken to say last. -/
def farewell (senderGone : Bool) : List StreamEvent := if senderGone then [.closed true] else []

/-- What the terminal is to be told, given what the remote side has sent and whether it has stopped
sending. -/
def script (sent : List StreamEvent) (senderGone : Bool) : List StreamEvent :=
  cut (sent ++ farewell senderGone)

/-- What the terminal would be told now, if the remote side did nothing more. -/
def toCome (s : Stream) : List StreamEvent :=
  if s.finished then [] else script s.queue s.senderGone

/-- The script only grows when more is sent. -/
theorem script_prefix (sent more : List StreamEvent) (senderGone : Bool) :
    script sent false <+: script (sent ++ more) senderGone := by
  show cut (sent ++ []) <+: cut ((sent ++ more) ++ farewell senderGone)
  rw [List.append_nil, List.append_assoc, cut_append]
  exact List.prefix_append _ _

/-- It also only grows when the remote side stops sending. -/
theorem script_prefix_gone (sent : List StreamEvent) (senderGone : Bool) :
    script sent senderGone <+: script sent true := by
  cases senderGone with
  | true => exact List.prefix_rfl
  | false =>
      have hgrown := script_prefix sent [] true
      rwa [List.append_nil] at hgrown

/-- Once a close has been sent, the script stays as it is, whatever the remote side does. -/
theorem script_of_ends {sent : List StreamEvent} (h : ends sent = true) (more : List StreamEvent)
    (gone senderGone : Bool) : script (sent ++ more) gone = script sent senderGone := by
  unfold script
  rw [List.append_assoc, cut_append, cut_append sent, h]
  rfl

/-- What goes on before is told before. -/
theorem script_of_going {told : List StreamEvent} (h : ends told = false)
    (sent : List StreamEvent) (senderGone : Bool) :
    script (told ++ sent) senderGone = told ++ script sent senderGone := by
  unfold script
  rw [List.append_assoc, cut_append, h, cut_of_going h]
  rfl

theorem toCome_of_unfinished {s : Stream} (h : s.finished = false) :
    s.toCome = script s.queue s.senderGone := by
  unfold toCome
  rw [h]
  rfl

/-- A script has a close exactly if one was sent or the remote side has stopped sending. -/
theorem ends_script (sent : List StreamEvent) (senderGone : Bool) :
    ends (script sent senderGone) = (ends sent || senderGone) := by
  unfold script
  rw [ends_cut, ends_append]
  cases senderGone <;> rfl

/-! ## One event, or all of them -/

/-- Asking for the next event gives the first of those to come. -/
theorem next_snd (s : Stream) : s.next.2 = s.toCome.head? := by
  unfold next toCome script
  cases s.finished with
  | true => rfl
  | false =>
      cases s.queue with
      | nil => cases s.senderGone <;> rfl
      | cons e rest =>
          rw [List.cons_append, cut_cons]
          rfl

/-- All that is there to be taken is all that is to come. -/
theorem drain_snd (s : Stream) : s.drain.2 = s.toCome := by
  unfold drain toCome
  cases s.finished with
  | true => rfl
  | false =>
      show (if ends (cut s.queue) then _ else _ : Stream × List StreamEvent).2 = script _ _
      unfold script
      rw [ends_cut, cut_append]
      cases ends s.queue with
      | true => exact (List.append_nil _).symm
      | false =>
          cases s.senderGone with
          | true => rfl
          | false => exact (List.append_nil _).symm

/-- A close that is taken is taken last. -/
theorem exists_drain_snd_eq {s : Stream} (h : ends s.drain.2 = true) :
    ∃ before hadError, ends before = false ∧ s.drain.2 = before ++ [.closed hadError] := by
  rw [drain_snd] at h ⊢
  unfold toCome at h ⊢
  cases hf : s.finished with
  | true =>
      rw [hf] at h
      exact absurd h (by simp)
  | false =>
      rw [hf] at h
      unfold script at h
      rw [if_neg (by simp), ends_cut] at h
      exact exists_cut_eq h

/-- Asking for all of them is asking for the next one until there is none. -/
theorem drain_eq_next (s : Stream) :
    s.drain = match s.next with
      | (t, some e) => (t.drain.1, e :: t.drain.2)
      | (t, none) => (t, []) := by
  obtain ⟨bidirectional, queue, finished, shut, shutTold, senderGone, receiverGone, listenerGone,
    received, unread⟩ := s
  cases finished with
  | true => rfl
  | false =>
      cases queue with
      | nil => cases senderGone <;> rfl
      | cons e rest =>
          unfold next drain
          cases he : e.isClosed with
          | true => simp [throughClose, he]
          | false =>
              simp only [throughClose, he, List.any_cons, Bool.false_or, Bool.false_eq_true,
                if_false]
              -- whatever ends the rest ends the whole
              split
              · rfl
              · split <;> rfl

/-! ## While no close has been told -/

/-- The stream goes on: what has been told and what is on its way are together what was sent. -/
structure Carries (s : Stream) (sent told : List StreamEvent) : Prop where
  unfinished : s.finished = false
  unshut : s.shut = false
  order : told ++ s.queue = sent
  going : ends told = false

theorem carries_opened (bidirectional : Bool) : Carries (opened bidirectional) [] [] :=
  ⟨rfl, rfl, rfl, rfl⟩

section Carries

variable {s : Stream} {sent told : List StreamEvent}

/-- **What has been told and what is to come are together the script.** -/
theorem Carries.told_append_toCome (h : Carries s sent told) :
    told ++ s.toCome = script sent s.senderGone := by
  rw [toCome_of_unfinished h.unfinished, ← h.order, script_of_going h.going]

/-- Only the way and the end matter for that. -/
theorem Carries.congr {t : Stream} (h : Carries s sent told) (hf : t.finished = s.finished)
    (hs : t.shut = s.shut) (hq : t.queue = s.queue) : Carries t sent told :=
  ⟨hf.trans h.unfinished, hs.trans h.unshut, hq ▸ h.order, h.going⟩

/-- A remote side that has not stopped sending gets its event on the way. -/
theorem Carries.emit (h : Carries s sent told) (hg : s.senderGone = false) (e : StreamEvent) :
    s.emit e = ({ s with queue := s.queue ++ [e] }, .ok) ∧
      Carries (s.emit e).1 (sent ++ [e]) told := by
  have hemit : s.emit e = ({ s with queue := s.queue ++ [e] }, .ok) := by
    unfold Stream.emit
    rw [if_neg (by simp [hg]), if_neg (by simp [h.unshut])]
  refine ⟨hemit, ?_⟩
  rw [hemit]
  exact ⟨h.unfinished, h.unshut, by rw [← h.order, List.append_assoc], h.going⟩

/-- An event that is told goes from the way to what has been told. -/
theorem Carries.next (h : Carries s sent told) :
    s.next = (s, none) ∨
    ∃ e, s.next.2 = some e ∧ (e.isClosed = false → Carries s.next.1 sent (told ++ [e])) ∧
      s.next.1.finished = e.isClosed ∧ s.next.1.shut = false := by
  unfold Stream.next
  rw [if_neg (by simp [h.unfinished])]
  cases hq : s.queue with
  | cons e rest =>
      refine .inr ⟨e, rfl, fun he => ⟨he, h.unshut, ?_, ?_⟩, rfl, h.unshut⟩
      · rw [← h.order, hq]
        exact List.append_assoc told [e] rest
      · rw [ends_append, h.going, ends_cons, he]
        rfl
  | nil =>
      cases s.senderGone with
      | false => exact .inl rfl
      | true => exact .inr ⟨.closed true, rfl, fun he => absurd he (by decide), rfl, h.unshut⟩

/-- If no close comes, everything that was there has been told and the stream goes on. -/
theorem Carries.drain (h : Carries s sent told) (hgoing : ends s.toCome = false) :
    Carries s.drain.1 sent (told ++ s.toCome) := by
  have hscript := toCome_of_unfinished h.unfinished
  have hnone : (ends s.queue || s.senderGone) = false := by
    rw [← ends_script, ← hscript, hgoing]
  obtain ⟨hq, hg⟩ := Bool.or_eq_false_iff.mp hnone
  have hwhole : s.toCome = s.queue := by
    rw [hscript, hg]
    show cut (s.queue ++ []) = s.queue
    rw [List.append_nil, cut_of_going hq]
  have hdrain : s.drain.1 = { s with queue := (throughClose s.queue).2 } := by
    unfold Stream.drain
    rw [if_neg (by simp [h.unfinished])]
    show (if ends (cut s.queue) then _ else _ : Stream × List StreamEvent).1 = _
    rw [ends_cut, hq, hg]
    rfl
  rw [hdrain]
  refine ⟨h.unfinished, h.unshut, ?_, by rw [ends_append, h.going, hgoing]; rfl⟩
  show told ++ s.toCome ++ (throughClose s.queue).2 = sent
  rw [hwhole, throughClose_snd_of_going hq, List.append_nil, h.order]

end Carries

end Stream

end Switchboard
