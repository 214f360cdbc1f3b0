import Switchboard.Proofs.Attachment.Operations
import Switchboard.Proofs.Network.Addresses

/-!
# What an attachment stays

An attachment is made for one session, under one id, and remains that. Three kinds of operation
are told apart by what else they leave alone:

* `Steady` — layouts: the stream, the visibility and what has been told stay too;
* `Keeps` — output, kills, tear-downs and deadlines: the stream may be let go of and reasons may be
  told, but no stream is opened and nothing is shown or hidden;
* `Grows` — binding and showing: what is told and what is held stay, and if a stream is opened it
  is held from then on, on the address of the session.
-/

namespace Switchboard

namespace Attachment

variable {S : Type}

/-- Whose session an attachment draws, where it opens the stream of it, and under which options and
id. -/
structure Identity where
  key : SessionKey
  streamUrl : Url
  options : AttachmentOptions
  id : String

def identity (a : Attachment S) : Identity :=
  { key := a.key, streamUrl := a.streamUrl, options := a.options, id := a.negotiator.id }

theorem key_eq_of_identity_eq {a b : Attachment S} (h : a.identity = b.identity) :
    a.key = b.key := congrArg Identity.key h

theorem streamUrl_eq_of_identity_eq {a b : Attachment S} (h : a.identity = b.identity) :
    a.streamUrl = b.streamUrl := congrArg Identity.streamUrl h

theorem options_eq_of_identity_eq {a b : Attachment S} (h : a.identity = b.identity) :
    a.options = b.options := congrArg Identity.options h

theorem id_eq_of_identity_eq {a b : Attachment S} (h : a.identity = b.identity) :
    a.negotiator.id = b.negotiator.id := congrArg Identity.id h

theorem openUrl_eq_of_identity_eq {a b : Attachment S} (h : a.identity = b.identity) :
    a.openUrl = b.openUrl := by
  unfold openUrl isResizable isInteractive
  rw [key_eq_of_identity_eq h, streamUrl_eq_of_identity_eq h, options_eq_of_identity_eq h,
    id_eq_of_identity_eq h]

/-! ## Steady operations -/

/-- Nothing but the surface, its layout and what the remote side was asked for may change. -/
structure Steady (before after : Attachment S × Network) : Prop where
  identity : after.1.identity = before.1.identity
  visible : after.1.visible = before.1.visible
  stream : after.1.stream = before.1.stream
  notified : after.1.notified = before.1.notified
  urls : after.2.urls = before.2.urls
  phase : after.1.phase = .unattached → before.1.phase = .unattached

namespace Steady

theorem refl (p : Attachment S × Network) : Steady p p := ⟨rfl, rfl, rfl, rfl, rfl, id⟩

theorem trans {p q r : Attachment S × Network} (h : Steady p q) (h' : Steady q r) : Steady p r where
  identity := h'.identity.trans h.identity
  visible := h'.visible.trans h.visible
  stream := h'.stream.trans h.stream
  notified := h'.notified.trans h.notified
  urls := h'.urls.trans h.urls
  phase hp := h.phase (h'.phase hp)

end Steady

private theorem id_apply (n : Negotiator) (log : ResizeLog) (grid : Grid) :
    (n.apply log grid).1.id = n.id := by
  unfold Negotiator.apply
  split <;> rfl

theorem steady_negotiate (grid : Grid) (a : Attachment S) (net : Network) :
    Steady (a, net) (a.negotiate grid net) := by
  unfold negotiate
  split
  · -- the negotiator remembers the grid, under the id that it has
    have hid := id_apply a.negotiator net.resizes grid
    exact ⟨congrArg (Identity.mk a.key a.streamUrl a.options) hid, rfl, rfl, rfl, rfl, fun hp => hp⟩
  · exact Steady.refl _

/-- Settling moves on, and never back to the start. -/
theorem steady_settle (a : Attachment S) (net : Network) : Steady (a, net) (a.settle, net) := by
  refine ⟨rfl, rfl, rfl, rfl, rfl, fun hp => ?_⟩
  have hp' : (if a.phase = .attaching then .attached else a.phase) = Phase.unattached := hp
  split at hp'
  · exact absurd hp' (by simp)
  · exact hp'

section Layout

variable [Surface S]

theorem steady_layOut (a : Attachment S) (net : Network) : Steady (a, net) (a.layOut net) := by
  unfold layOut
  split
  · exact Steady.refl _
  · split
    · exact ⟨rfl, rfl, rfl, rfl, rfl, id⟩
    · split
      · exact Steady.refl _
      · rename_i surface _
        split
        · exact ⟨rfl, rfl, rfl, rfl, rfl, id⟩
        · rename_i grid _
          have hfit : Steady (a, net) ({ a with surface := some (fitSurface grid surface) }, net) :=
            ⟨rfl, rfl, rfl, rfl, rfl, id⟩
          have hask := hfit.trans (steady_negotiate grid _ net)
          exact hask.trans (steady_settle _ _)

theorem steady_toggleFullscreen (a : Attachment S) (net : Network) :
    Steady (a, net) (a.toggleFullscreen net) := by
  have hflip : Steady (a, net) ({ a with fullscreen := !a.fullscreen }, net) :=
    ⟨rfl, rfl, rfl, rfl, rfl, id⟩
  exact hflip.trans (steady_layOut _ net)

end Layout

/-! ## Operations that may let go of the stream -/

/-- The attachment stays what it is and where it is shown; no stream is opened, the one held may be
let go of, and reasons may be told. -/
structure Keeps (before after : Attachment S × Network) : Prop where
  identity : after.1.identity = before.1.identity
  visible : after.1.visible = before.1.visible
  stream : after.1.stream = before.1.stream ∨ after.1.stream = none
  notified : before.1.notified <+: after.1.notified
  urls : after.2.urls = before.2.urls
  phase : after.1.phase = .unattached → before.1.phase = .unattached

theorem Steady.keeps {p q : Attachment S × Network} (h : Steady p q) : Keeps p q where
  identity := h.identity
  visible := h.visible
  stream := .inl h.stream
  notified := h.notified ▸ List.prefix_rfl
  urls := h.urls
  phase := h.phase

namespace Keeps

theorem refl (p : Attachment S × Network) : Keeps p p := (Steady.refl p).keeps

theorem trans {p q r : Attachment S × Network} (h : Keeps p q) (h' : Keeps q r) : Keeps p r where
  identity := h'.identity.trans h.identity
  visible := h'.visible.trans h.visible
  stream := by
    rcases h'.stream with hs | hs
    · rw [hs]
      exact h.stream
    · exact .inr hs
  notified := h.notified.trans h'.notified
  urls := h'.urls.trans h.urls
  phase hp := h.phase (h'.phase hp)

/-- A fold keeps what its steps keep. -/
theorem foldl {α : Type} {f : Attachment S × Network → α → Attachment S × Network}
    (hf : ∀ p x, Keeps p (f p x)) (xs : List α) (p : Attachment S × Network) :
    Keeps p (xs.foldl f p) := by
  induction xs generalizing p with
  | nil => exact refl p
  | cons x rest ih => exact (hf p x).trans (ih (f p x))

end Keeps

theorem keeps_notify (reason : CloseReason) (a : Attachment S) (net : Network) :
    Keeps (a, net) (a.notify reason, net) := by
  unfold notify
  split
  · exact ⟨rfl, rfl, .inl rfl, List.prefix_append _ _, rfl, id⟩
  · exact Keeps.refl _

theorem keeps_dropStream (a : Attachment S) (net : Network) :
    Keeps (a, net) (a.dropStream net) := by
  unfold dropStream
  split
  · exact ⟨rfl, rfl, .inr rfl, List.prefix_rfl, net.urls_hangUp _, id⟩
  · exact Keeps.refl _

theorem keeps_kill (a : Attachment S) (net : Network) : Keeps (a, net) (a.kill net) := by
  unfold kill
  split
  · exact Keeps.refl _
  · have hclosed : Keeps (a.dropStream net)
        ({ (a.dropStream net).1 with phase := .closed }, (a.dropStream net).2) :=
      ⟨rfl, rfl, .inl rfl, List.prefix_rfl, rfl, by simp⟩
    exact (keeps_dropStream a net).trans (hclosed.trans (keeps_notify .manual _ _))

theorem keeps_close (a : Attachment S) (net : Network) : Keeps (a, net) (a.close net) := by
  unfold close
  split
  · exact Keeps.refl _
  · have hdown := keeps_dropStream a net
    exact ⟨hdown.identity, hdown.visible, hdown.stream, hdown.notified, hdown.urls, by simp⟩

theorem keeps_expire (now : Nat) (a : Attachment S) (net : Network) :
    Keeps (a, net) (a.expire now, net) := by
  unfold expire
  have hcut : Keeps (a, net) ({ a with deadlines := a.deadlines.filter (now < ·) }, net) :=
    ⟨rfl, rfl, .inl rfl, List.prefix_rfl, rfl, id⟩
  refine hcut.trans ?_
  -- each deadline that has passed tells one reason
  generalize a.deadlines.filter (· ≤ now) = due
  generalize { a with deadlines := a.deadlines.filter (now < ·) } = b
  induction due generalizing b with
  | nil => exact Keeps.refl _
  | cons d rest ih => exact (keeps_notify .lost b net).trans (ih (b.notify .lost))

section Output

variable [Surface S]

theorem keeps_draw (bytes : Bytes) (a : Attachment S) (net : Network) :
    Keeps (a, net) (a.draw bytes, net) := ⟨rfl, rfl, .inl rfl, List.prefix_rfl, rfl, id⟩

theorem keeps_drawNotice (text : String) (a : Attachment S) (net : Network) :
    Keeps (a, net) (a.drawNotice text, net) := ⟨rfl, rfl, .inl rfl, List.prefix_rfl, rfl, id⟩

theorem keeps_streamClosed (a : Attachment S) (now : Nat) (net : Network) :
    Keeps (a, net) (a.streamClosed now, net) := by
  unfold streamClosed
  split
  · exact Keeps.refl _
  · dsimp only
    split
    · exact ⟨rfl, rfl, .inl rfl, List.prefix_rfl, rfl, fun hp => absurd hp (by simp [drawNotice])⟩
    · have hnotice : Keeps (a, net) (({ a with phase := .closed } : Attachment S).drawNotice
          closedNotice, net) :=
        ⟨rfl, rfl, .inl rfl, List.prefix_rfl, rfl, fun hp => absurd hp (by simp [drawNotice])⟩
      split
      · exact hnotice.trans (keeps_notify .lost _ net)
      · exact hnotice

theorem keeps_deliver (e : StreamEvent) (a : Attachment S) (net : Network) :
    Keeps (a, net) (a.deliver e net) := by
  unfold deliver
  split
  · exact keeps_draw _ a net
  · exact keeps_drawNotice _ a net
  · exact (keeps_dropStream a net).trans (keeps_streamClosed _ _ _)

theorem keeps_pump (a : Attachment S) (net : Network) :
    Keeps (a, net) ((a.pump net).1, (a.pump net).2.1) := by
  unfold pump
  split
  · exact Keeps.refl _
  · rename_i i _
    have hdrained : Keeps (a, net) (a, (net.drain i).1) :=
      ⟨rfl, rfl, .inl rfl, List.prefix_rfl, net.urls_drain i, id⟩
    exact hdrained.trans (Keeps.foldl (fun p e => keeps_deliver e p.1 p.2) _ _)

end Output

/-! ## Operations that may open the stream -/

/-- The attachment stays what it is and tells nothing; it lets go of no stream, and a stream that is
opened is on its address and held by it. -/
structure Grows (before after : Attachment S × Network) : Prop where
  identity : after.1.identity = before.1.identity
  notified : after.1.notified = before.1.notified
  urls : before.2.urls <+: after.2.urls
  held : ∀ i, before.1.stream = some i → after.1.stream = some i
  opened : ∀ i, before.2.urls.length ≤ i → i < after.2.urls.length → after.1.stream = some i
  stream : ∀ i, after.1.stream = some i →
    before.1.stream = some i ∨ after.2.url? i = some before.1.openUrl
  phase : after.1.phase = .unattached →
    before.1.phase = .unattached ∧ after.1.stream = before.1.stream

theorem Steady.grows {p q : Attachment S × Network} (h : Steady p q) : Grows p q where
  identity := h.identity
  notified := h.notified
  urls := h.urls ▸ List.prefix_rfl
  held i hi := by rw [h.stream, hi]
  opened i hle hlt := by
    rw [h.urls] at hlt
    omega
  stream i hi := by
    rw [h.stream] at hi
    exact .inl hi
  phase hp := ⟨h.phase hp, h.stream⟩

namespace Grows

theorem refl (p : Attachment S × Network) : Grows p p := (Steady.refl p).grows

theorem trans {p q r : Attachment S × Network} (h : Grows p q) (h' : Grows q r) : Grows p r where
  identity := h'.identity.trans h.identity
  notified := h'.notified.trans h.notified
  urls := h.urls.trans h'.urls
  held i hi := h'.held i (h.held i hi)
  opened i hle hlt := by
    -- a stream of the first part is still held after the second
    by_cases hmid : i < q.2.urls.length
    · exact h'.held i (h.opened i hle hmid)
    · exact h'.opened i (by omega) hlt
  stream i hi := by
    rcases h'.stream i hi with hq | hurl
    · rcases h.stream i hq with hp | hurl
      · exact .inl hp
      · exact .inr (Network.url?_of_prefix h'.urls hurl)
    · rw [openUrl_eq_of_identity_eq h.identity] at hurl
      exact .inr hurl
  phase hp := by
    obtain ⟨hq, hs⟩ := h'.phase hp
    obtain ⟨hp, hs'⟩ := h.phase hq
    exact ⟨hp, hs.trans hs'⟩

end Grows

/-- The stream of an attachment that has just bound a surface. -/
theorem grows_dial {a bound : Attachment S} {net : Network} (hid : bound.identity = a.identity)
    (htold : bound.notified = a.notified) (hfree : a.stream = none)
    (hphase : bound.phase ≠ .unattached) (hstream : bound.stream = some net.urls.length) :
    Grows (a, net) (bound, (net.dial a.openUrl a.isInteractive).1) where
  identity := hid
  notified := htold
  urls := by
    rw [Network.urls_dial]
    exact List.prefix_append _ _
  held i hi := by
    rw [hfree] at hi
    exact absurd hi (by simp)
  opened i hle hlt := by
    rw [Network.urls_dial, List.length_append, List.length_singleton] at hlt
    have hi : i = net.urls.length := by
      have hle' : net.urls.length ≤ i := hle
      omega
    rw [hi]
    exact hstream
  stream i hi := by
    rw [hstream, Option.some.injEq] at hi
    right
    unfold Network.url?
    rw [Network.urls_dial, ← hi, List.getElem?_concat_length]
  phase hp := absurd hp hphase

section Binding

variable [Surface S]

/-- Binding opens the stream, unless there is no surface or that has been done. -/
theorem grows_attach (surface : Option S) {a : Attachment S} (net : Network)
    (hfree : a.phase = .unattached → a.stream = none) :
    Grows (a, net) (a.attach surface net) ∧ (a.attach surface net).1.visible = a.visible := by
  unfold attach
  split
  · exact ⟨Grows.refl _, rfl⟩
  · rename_i surface
    split
    · exact ⟨Grows.refl _, rfl⟩
    · rename_i hnew
      have hphase : a.phase = .unattached := by
        by_cases hp : a.phase = .unattached
        · exact hp
        · exact absurd (.inl hp) hnew
      dsimp only
      have hlaid := steady_layOut
        { a with
          phase := .attaching
          surface := some surface
          stream := some (net.dial a.openUrl a.isInteractive).2
          listening := true }
        (net.dial a.openUrl a.isInteractive).1
      refine ⟨Grows.trans (grows_dial ?_ ?_ (hfree hphase) ?_ ?_) hlaid.grows, hlaid.visible⟩
      · rfl
      · rfl
      · simp
      · exact congrArg some (net.dial_place a.openUrl a.isInteractive)

/-- Showing and hiding sets the visibility and opens nothing. -/
theorem grows_setVisible (visible : Bool) (a : Attachment S) (net : Network) :
    Grows (a, net) (a.setVisible visible net) ∧ (a.setVisible visible net).1.visible = visible := by
  have hset : Grows (a, net) ({ a with visible }, net) := by
    have hrest := Grows.refl (a, net)
    exact ⟨hrest.identity, hrest.notified, hrest.urls, hrest.held, hrest.opened, hrest.stream,
      hrest.phase⟩
  unfold setVisible
  dsimp only
  split
  · have hlaid := steady_layOut { a with visible } net
    exact ⟨hset.trans hlaid.grows, hlaid.visible⟩
  · exact ⟨hset, rfl⟩

end Binding

/-- Input that is taken changes nothing but the stream that takes it. -/
theorem exists_set_of_sendInput {bytes : Bytes} {a : Attachment S} {net net' : Network}
    (h : a.sendInput bytes net = .ok net') : ∃ i s, net' = net.set i s := by
  obtain ⟨i, -, hsent⟩ := exists_send_of_sendInput h
  exact ⟨i, Network.exists_set_of_send hsent⟩

theorem urls_sendInput {bytes : Bytes} {a : Attachment S} {net net' : Network}
    (h : a.sendInput bytes net = .ok net') : net'.urls = net.urls := by
  obtain ⟨i, s, rfl⟩ := exists_set_of_sendInput h
  exact net.urls_set i s

end Attachment

end Switchboard
