import Switchboard.Proofs.Attachment.Identity
import Switchboard.Proofs.Keyed
import Switchboard.Session.View

/-!
# Work on mounted attachments

Layouts, input, output, kills and deadlines work on the attachments that are mounted, one or all of
them. `Undisturbed` says what all of these have in common: the registry and the highlight stay, the
same attachments are mounted and shown, no stream is opened, and the only trace outside an
attachment is a close request in its name.
-/

namespace Switchboard

namespace View

variable {S : Type}

/-- What the view sees of an attachment: which one it is, and whether it is shown. -/
def badge (a : Attachment S) : Attachment.Identity × Bool := (a.identity, a.visible)

/-- An attachment asked for the closing of its session. -/
def AskedBy (a : Attachment S) (r : CloseRequest) : Prop :=
  a.key = r.key ∧ a.negotiator.id = r.sender

theorem AskedBy.of_identity_eq {a b : Attachment S} {r : CloseRequest} (h : AskedBy a r)
    (hid : b.identity = a.identity) : AskedBy b r :=
  ⟨(Attachment.key_eq_of_identity_eq hid).trans h.1,
    (Attachment.id_eq_of_identity_eq hid).trans h.2⟩

/-- The work of mounted attachments: see the module's comment. -/
structure Undisturbed (v w : View S) : Prop where
  registry : w.registry = v.registry
  highlighted : w.highlighted = v.highlighted
  options : w.options = v.options
  retired : w.retired = v.retired
  asked : w.asked = v.asked
  nextNumber : w.nextNumber = v.nextNumber
  urls : w.network.urls = v.network.urls
  badges : w.attachments.map badge = v.attachments.map badge
  streams : ∀ b ∈ w.attachments, ∃ a ∈ v.attachments, b.identity = a.identity ∧
    (b.stream = a.stream ∨ b.stream = none) ∧ (b.phase = .unattached → a.phase = .unattached)
  requests : ∃ sent, w.requests = v.requests ++ sent ∧
    ∀ r ∈ sent, ∃ a ∈ v.attachments, AskedBy a r

theorem keys_eq_of_badges_eq {v w : View S}
    (h : w.attachments.map badge = v.attachments.map badge) : w.keys = v.keys := by
  have hk := congrArg (List.map fun b => b.1.key) h
  rwa [List.map_map, List.map_map] at hk

namespace Undisturbed

theorem refl (v : View S) : Undisturbed v v where
  registry := rfl
  highlighted := rfl
  options := rfl
  retired := rfl
  asked := rfl
  nextNumber := rfl
  urls := rfl
  badges := rfl
  streams b hb := ⟨b, hb, rfl, .inl rfl, id⟩
  requests := ⟨[], (List.append_nil _).symm, by simp⟩

theorem trans {u v w : View S} (h : Undisturbed u v) (h' : Undisturbed v w) : Undisturbed u w where
  registry := h'.registry.trans h.registry
  highlighted := h'.highlighted.trans h.highlighted
  options := h'.options.trans h.options
  retired := h'.retired.trans h.retired
  asked := h'.asked.trans h.asked
  nextNumber := h'.nextNumber.trans h.nextNumber
  urls := h'.urls.trans h.urls
  badges := h'.badges.trans h.badges
  streams := by
    intro c hc
    obtain ⟨b, hb, hcb, hcs, hcp⟩ := h'.streams c hc
    obtain ⟨a, ha, hba, hbs, hbp⟩ := h.streams b hb
    refine ⟨a, ha, hcb.trans hba, ?_, fun hp => hbp (hcp hp)⟩
    rcases hcs with hcs | hcs
    · rw [hcs]
      exact hbs
    · exact .inr hcs
  requests := by
    obtain ⟨s, hs, hask⟩ := h.requests
    obtain ⟨s', hs', hask'⟩ := h'.requests
    refine ⟨s ++ s', by rw [hs', hs, List.append_assoc], ?_⟩
    intro r hr
    rcases List.mem_append.mp hr with hr | hr
    · exact hask r hr
    · obtain ⟨b, hb, hbr⟩ := hask' r hr
      obtain ⟨a, ha, hba, -⟩ := h.streams b hb
      exact ⟨a, ha, hbr.of_identity_eq hba.symm⟩

theorem keys {v w : View S} (h : Undisturbed v w) : w.keys = v.keys :=
  keys_eq_of_badges_eq h.badges

/-- Whoever was mounted still is, under the same badge. -/
theorem exists_badge {v w : View S} (h : Undisturbed v w) {a : Attachment S}
    (ha : a ∈ v.attachments) : ∃ b ∈ w.attachments, badge b = badge a := by
  have hm : badge a ∈ w.attachments.map badge := by
    rw [h.badges]
    exact List.mem_map_of_mem ha
  exact List.mem_map.mp hm

/-- Whoever is mounted was so before, under the same badge. -/
theorem exists_badge_before {v w : View S} (h : Undisturbed v w) {b : Attachment S}
    (hb : b ∈ w.attachments) : ∃ a ∈ v.attachments, badge b = badge a := by
  have hm : badge b ∈ v.attachments.map badge := by
    rw [← h.badges]
    exact List.mem_map_of_mem hb
  obtain ⟨a, ha, he⟩ := List.mem_map.mp hm
  exact ⟨a, ha, he.symm⟩

/-- A fold over steps that disturb nothing disturbs nothing, as long as each key is mounted
once. -/
theorem foldl {α : Type} {f : View S → α → View S}
    (hf : ∀ v x, v.keys.Nodup → Undisturbed v (f v x)) (xs : List α) {v : View S}
    (hv : v.keys.Nodup) : Undisturbed v (xs.foldl f v) := by
  induction xs generalizing v with
  | nil => exact refl v
  | cons x rest ih =>
      have hx := hf v x hv
      have hx' : (f v x).keys.Nodup := by
        rw [hx.keys]
        exact hv
      exact hx.trans (ih hx')

end Undisturbed

/-! ## One attachment -/

theorem attachment?_eq_some_iff {v : View S} (h : v.keys.Nodup) {key : SessionKey}
    {a : Attachment S} : v.attachment? key = some a ↔ a ∈ v.attachments ∧ a.key = key :=
  Keyed.find?_eq_some_iff h

theorem attachment?_eq_none_iff {v : View S} {key : SessionKey} :
    v.attachment? key = none ↔ key ∉ v.keys :=
  Keyed.find?_eq_none_iff

theorem mem_keys {v : View S} {key : SessionKey} :
    key ∈ v.keys ↔ ∃ a ∈ v.attachments, a.key = key := List.mem_map

/-- Everything that an attachment has asked for in the course of its work bears its name. -/
theorem askedBy_of_mem_between {before after : Attachment S}
    (h : after.identity = before.identity) {r : CloseRequest}
    (hr : r ∈ CloseRequest.between before after) : AskedBy before r := by
  obtain ⟨reason, -, rfl⟩ := List.mem_map.mp hr
  exact ⟨(Attachment.key_eq_of_identity_eq h).symm, (Attachment.id_eq_of_identity_eq h).symm⟩

theorem undisturbed_workOn {α : Type} {v : View S} (hv : v.keys.Nodup) (key : SessionKey)
    {f : Attachment S → Network → Attachment S × Network × α}
    (hf : ∀ a net, Attachment.Keeps (a, net) ((f a net).1, (f a net).2.1)) :
    Undisturbed v (v.workOn key f).1 := by
  unfold workOn
  cases hfind : v.attachment? key with
  | none => exact Undisturbed.refl v
  | some before =>
      obtain ⟨hmem, rfl⟩ := (attachment?_eq_some_iff hv).mp hfind
      have hkeep := hf before v.network
      -- with one attachment a key, only the one that worked is replaced
      have hone : ∀ a ∈ v.attachments, a.key = before.key → a = before := fun a ha hk =>
        Keyed.eq_of_key_eq hv ha hmem hk
      refine ⟨rfl, rfl, rfl, rfl, rfl, rfl, hkeep.urls, ?_, ?_, _, rfl, ?_⟩
      · -- the badges
        show (v.attachments.map _).map badge = v.attachments.map badge
        rw [List.map_map]
        refine List.map_congr_left fun a ha => ?_
        show badge (if a.key = before.key then _ else a) = badge a
        split
        · rename_i hk
          rw [hone a ha hk]
          exact Prod.ext hkeep.identity hkeep.visible
        · rfl
      · -- the streams
        intro b hb
        obtain ⟨a, ha, hab⟩ := List.mem_map.mp hb
        refine ⟨a, ha, ?_⟩
        rw [← hab]
        split
        · rename_i hk
          rw [hone a ha hk]
          exact ⟨hkeep.identity, hkeep.stream, hkeep.phase⟩
        · exact ⟨rfl, .inl rfl, id⟩
      · intro r hr
        exact ⟨before, hmem, askedBy_of_mem_between hkeep.identity hr⟩

theorem undisturbed_update {v : View S} (hv : v.keys.Nodup) (key : SessionKey)
    {f : Attachment S → Network → Attachment S × Network}
    (hf : ∀ a net, Attachment.Keeps (a, net) (f a net)) : Undisturbed v (v.update key f) :=
  undisturbed_workOn hv key hf

/-! ## All attachments -/

theorem undisturbed_updateAll {v : View S} (hv : v.keys.Nodup)
    {f : Attachment S → Network → Attachment S × Network}
    (hf : ∀ a net, Attachment.Keeps (a, net) (f a net)) : Undisturbed v (v.updateAll f) :=
  Undisturbed.foldl (fun _ key hw => undisturbed_update hw key hf) v.keys hv

/-- A change of the network that opens no stream. -/
theorem undisturbed_network {v : View S} {network : Network}
    (h : network.urls = v.network.urls) : Undisturbed v { v with network } :=
  { Undisturbed.refl v with urls := h }

theorem undisturbed_advance {v : View S} (hv : v.keys.Nodup) (ms : Nat) :
    Undisturbed v (v.advance ms) := by
  have hclock : Undisturbed v { v with network := v.network.advance ms } :=
    undisturbed_network (v.network.urls_advance ms)
  have hkeys : ({ v with network := v.network.advance ms } : View S).keys.Nodup := hv
  exact hclock.trans
    (undisturbed_updateAll hkeys fun a net => Attachment.keeps_expire net.now a net)

/-- Input that is taken goes to the stream of an attachment. -/
theorem sendInput_eq_ok {v w : View S} {bytes : Bytes} (h : v.sendInput bytes = .ok w) :
    ∃ (a : Attachment S) (network : Network),
      a.sendInput bytes v.network = .ok network ∧ w = { v with network } := by
  unfold sendInput at h
  split at h
  · rename_i a _
    cases hs : a.sendInput bytes v.network with
    | error e =>
        rw [hs] at h
        exact absurd h (by rintro ⟨⟩)
    | ok network =>
        rw [hs] at h
        cases h
        exact ⟨a, network, hs, rfl⟩
  · exact absurd h (by rintro ⟨⟩)

theorem undisturbed_sendInput {v w : View S} {bytes : Bytes} (h : v.sendInput bytes = .ok w) :
    Undisturbed v w := by
  obtain ⟨a, network, hs, rfl⟩ := sendInput_eq_ok h
  exact undisturbed_network (Attachment.urls_sendInput hs)

section Surfaces

variable [Surface S]

theorem undisturbed_layOut {v : View S} (hv : v.keys.Nodup) : Undisturbed v v.layOut :=
  undisturbed_updateAll hv fun a net => (Attachment.steady_layOut a net).keeps

omit [Surface S] in
/-- A fold that also counts disturbs nothing if its first part does not. -/
theorem Undisturbed.foldl_fst {α β : Type} {f : View S × β → α → View S × β}
    (hf : ∀ p x, p.1.keys.Nodup → Undisturbed p.1 (f p x).1) (xs : List α) {p : View S × β}
    (hp : p.1.keys.Nodup) : Undisturbed p.1 (xs.foldl f p).1 := by
  induction xs generalizing p with
  | nil => exact Undisturbed.refl p.1
  | cons x rest ih =>
      have hx := hf p x hp
      have hx' : (f p x).1.keys.Nodup := by
        rw [hx.keys]
        exact hp
      exact hx.trans (ih hx')

theorem undisturbed_pumpAll {v : View S} (hv : v.keys.Nodup) : Undisturbed v v.pumpAll.1 := by
  unfold pumpAll
  refine Undisturbed.foldl_fst (p := (v, false)) ?_ v.keys hv
  intro p key hp
  exact undisturbed_workOn hp key Attachment.keeps_pump

end Surfaces

end View

end Switchboard
