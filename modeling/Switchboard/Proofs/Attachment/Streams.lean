import Switchboard.Proofs.Attachment.Layouts

/-!
# The stream that an attachment holds

An attachment holds its stream on the address of its session (`Plugged`), and lets go of none
without shutting it down: every stream that it has ever opened is the one it holds or has been shut
down (`ShutBut`). Once it is closed it has let go of its stream (`Released`), unless it has heard of
the end of the stream from somebody else.
-/

namespace Switchboard

namespace Attachment

variable {S : Type} {p q : Attachment S × Network}

/-! ## On the address of the session -/

/-- A stream is held on the address of the session, and not before one is opened. -/
structure Plugged (p : Attachment S × Network) : Prop where
  free : p.1.phase = .unattached → p.1.stream = none
  address : ∀ i, p.1.stream = some i → p.2.url? i = some p.1.openUrl

/-- No stream is taken up and none is moved. -/
theorem Plugged.congr (h : Plugged p) (hid : q.1.identity = p.1.identity)
    (hp : q.1.phase = .unattached → p.1.phase = .unattached)
    (hs : q.1.stream = p.1.stream ∨ q.1.stream = none) (hu : q.2.urls = p.2.urls) : Plugged q where
  free hq := by
    rcases hs with hs | hs
    · exact hs.trans (h.free (hp hq))
    · exact hs
  address i hi := by
    rcases hs with hs | hs
    · rw [hs] at hi
      unfold Network.url?
      rw [hu, openUrl_eq_of_identity_eq hid]
      exact h.address i hi
    · rw [hs] at hi
      exact absurd hi (by simp)

theorem Plugged.laidOut (h : Plugged p) {a : AttachmentAct S} (hq : laidOut? p a = some q) :
    Plugged q := by
  rcases laidOut?_cases hq with ⟨surface, -, -, rfl⟩ | ⟨visible, fullscreen, rfl⟩
  · refine ⟨fun hp => absurd hp (by simp [bound]), fun i hi => ?_⟩
    -- the new stream is the last one
    cases hi
    show (p.2.dial p.1.openUrl p.1.isInteractive).1.urls[_]? = some p.1.openUrl
    rw [Network.urls_dial, Network.dial_place, List.getElem?_concat_length]
  · exact h.congr rfl id (.inl rfl) rfl

theorem identity_laidOut {a : AttachmentAct S} (h : laidOut? p a = some q) :
    q.1.identity = p.1.identity := by
  rcases laidOut?_cases h with ⟨surface, -, -, rfl⟩ | ⟨visible, fullscreen, rfl⟩ <;> rfl

section Plugged

variable [Surface S]

theorem plugged_act (h : Plugged p) (a : AttachmentAct S) : Plugged (act p a) := by
  rcases act_cases p a with ⟨q, hq, hact⟩ | ⟨-, hrests⟩ | ⟨f, rfl⟩
  · rw [hact]
    have hsteady := steady_layOut q.1 q.2
    exact (h.laidOut hq).congr hsteady.identity hsteady.phase (.inl hsteady.stream) hsteady.urls
  · exact h.congr hrests.identity hrests.phase hrests.stream hrests.urls
  · exact h.congr rfl id (.inl rfl) rfl

end Plugged

/-! ## Shut down behind the attachment -/

/-- Every stream from a place on has been shut down, but for the one that is held. -/
def ShutBut (first : Nat) (p : Attachment S × Network) : Prop :=
  ∀ i, first ≤ i → p.1.stream = some i ∨ p.2.IsShut i

theorem ShutBut.laidOut {first : Nat} (h : ShutBut first p) (hp : Plugged p) {a : AttachmentAct S}
    (hq : laidOut? p a = some q) : ShutBut first q := by
  rcases laidOut?_cases hq with ⟨surface, -, hfree, rfl⟩ | ⟨visible, fullscreen, rfl⟩
  · intro i hi
    have hnone := hp.free (state_eq_unattached_iff.mp hfree).1
    by_cases hnew : (p.2.dial p.1.openUrl p.1.isInteractive).2 = i
    · exact .inl (congrArg some hnew)
    · right
      intro s hs
      rw [Network.stream?_dial_of_ne _ _ _ hnew] at hs
      rcases h i hi with hheld | hshut
      · exact absurd (hnone.symm.trans hheld) (by simp)
      · exact hshut s hs
  · exact h

section ShutBut

variable [Surface S]

theorem stream?_layOut (a : Attachment S) (net : Network) (i : Nat) :
    (a.layOut net).2.stream? i = net.stream? i := by
  rcases layOut_cases a net with ⟨hl, -⟩ | ⟨hl, -⟩ | ⟨surface, grid, n, resizes, -, -, hl⟩
  · rw [hl]
  · rw [hl]
  · rw [hl]
    rfl

theorem shutBut_act {first : Nat} (h : ShutBut first p) (hp : Plugged p) (a : AttachmentAct S) :
    ShutBut first (act p a) := by
  rcases act_cases p a with ⟨q, hq, hact⟩ | ⟨-, hrests⟩ | ⟨f, rfl⟩
  · rw [hact]
    intro i hi
    rw [(steady_layOut q.1 q.2).stream]
    refine (h.laidOut hp hq i hi).imp_right fun hshut s hs => ?_
    rw [stream?_layOut] at hs
    exact hshut s hs
  · intro i hi
    rcases h i hi with hheld | hshut
    · exact hrests.released i hheld
    · exact .inr (hrests.wanes.isShut hshut)
  · exact h

end ShutBut

/-! ## Attachments that are closed -/

/-- An attachment that is closed has let go of its stream. -/
def Released (a : Attachment S) : Prop := a.phase = .closed → a.stream = none

theorem released_laidOut (h : p.1.Released) {a : AttachmentAct S} (hq : laidOut? p a = some q) :
    q.1.Released := by
  rcases laidOut?_cases hq with ⟨surface, -, -, rfl⟩ | ⟨visible, fullscreen, rfl⟩
  · exact fun hp => absurd hp (by simp [bound])
  · exact h

section Released

variable [Surface S]

theorem released_layOut {a : Attachment S} (h : a.Released) (net : Network) :
    (a.layOut net).1.Released := by
  intro hclosed
  rw [(steady_layOut a net).stream]
  refine h ?_
  rcases layOut_cases a net with ⟨hl, -⟩ | ⟨hl, -⟩ | ⟨surface, grid, n, resizes, -, -, hl⟩
  · rwa [hl] at hclosed
  · rwa [hl] at hclosed
  · rw [hl] at hclosed
    unfold settle at hclosed
    dsimp only at hclosed
    split at hclosed
    · exact absurd hclosed (by simp)
    · exact hclosed

theorem released_deliverAll (events : List StreamEvent) {p : Attachment S × Network}
    (h : p.1.Released) : (deliverAll events p).1.Released := by
  induction events generalizing p with
  | nil => exact h
  | cons e rest ih =>
      refine ih (p := p.1.deliver e p.2) ?_
      cases e with
      | data bytes => exact h
      | error text => exact h
      | closed hadError =>
          intro _
          have hnone : (p.1.dropStream p.2).1.stream = none := by rw [dropStream_fst]
          rcases (keeps_streamClosed (p.1.dropStream p.2).1 (p.1.dropStream p.2).2.now p.2).stream
            with hs | hs
          · exact hs.trans hnone
          · exact hs

theorem released_pump {a : Attachment S} (h : a.Released) (net : Network) :
    (a.pump net).1.Released := by
  obtain ⟨events, net', -, hpump⟩ := exists_pump_eq a net
  rw [hpump]
  exact released_deliverAll events h

/-- Only who hears of the end of the stream from somebody else may close and still hold it. -/
theorem released_act (h : p.1.Released) {a : AttachmentAct S} (ha : a ≠ .streamClosed) :
    (act p a).1.Released := by
  obtain ⟨b, net⟩ := p
  cases hq : laidOut? (b, net) a with
  | some q =>
      rw [act_of_laidOut hq]
      exact released_layOut (released_laidOut h hq) q.2
  | none =>
      cases a with
      | attach surface =>
          show (b.attach surface net).1.Released
          rw [attach_of_not_laidOut hq]
          exact h
      | setVisible visible =>
          show (b.setVisible visible net).1.Released
          rw [(setVisible_of_not_laidOut hq).1]
          exact h
      | layOut => exact released_layOut h net
      | toggleFullscreen => exact absurd hq (by simp [laidOut?])
      | pump => exact released_pump h net
      | streamClosed => exact absurd rfl ha
      | kill =>
          show (b.kill net).1.Released
          cases ht : b.tornDown with
          | true =>
              rw [kill_of_tornDown ht]
              exact h
          | false =>
              obtain ⟨notified, hk⟩ := exists_kill_eq ht net
              rw [hk]
              exact fun _ => rfl
      | close =>
          show (b.close net).1.Released
          cases ht : b.tornDown with
          | true =>
              rw [close_of_tornDown ht]
              exact h
          | false =>
              rw [close_eq ht]
              exact fun _ => rfl
      | sendInput bytes =>
          rw [act_sendInput_fst]
          exact h
      | reshape f => exact h
      | peer place act => exact h
      | advance ms =>
          show (b.expire (net.advance ms).now).Released
          obtain ⟨deadlines, notified, he⟩ := exists_expire_eq (net.advance ms).now b
          rw [he]
          exact h

end Released

end Attachment

end Switchboard
