import Switchboard.Proofs.View.AttachmentId
import Switchboard.Proofs.View.Frame

/-!
# Sound views

Whatever a view does, its attachments are in order: each key is mounted once, no two attachments
that there have ever been share an id, and each mounted one has its stream, if it holds one, on its
own address (`Sound`). The work of mounted attachments keeps that (`Undisturbed.sound`), and so
does taking attachments down (`Sound.unmount`).
-/

namespace Switchboard

namespace View

variable {S : Type}

/-- All the attachments that there have been, the mounted ones first. -/
def identities (v : View S) : List Attachment.Identity :=
  (v.attachments ++ v.retired).map (·.identity)

/-- The attachments are in order: see the module's comment. -/
structure Sound (v : View S) : Prop where
  nodup : v.keys.Nodup
  ids : (v.identities.map (·.id)).Nodup
  numbered : ∀ x ∈ v.identities, ∃ n < v.nextNumber, x.id = resizeId n
  options : ∀ a ∈ v.attachments, a.options = v.options
  dialled : ∀ a ∈ v.attachments, ∀ i, a.stream = some i → v.network.url? i = some a.openUrl
  unbound : ∀ a ∈ v.attachments, a.phase = .unattached → a.stream = none

theorem mem_identities {v : View S} {a : Attachment S} (h : a ∈ v.attachments) :
    a.identity ∈ v.identities :=
  List.mem_map_of_mem (List.mem_append_left _ h)

theorem mem_identities_of_retired {v : View S} {a : Attachment S} (h : a ∈ v.retired) :
    a.identity ∈ v.identities :=
  List.mem_map_of_mem (List.mem_append_right _ h)

/-- Two attachments of one id are one attachment. -/
theorem Sound.eq_of_id_eq {v : View S} (h : v.Sound) {x y : Attachment.Identity}
    (hx : x ∈ v.identities) (hy : y ∈ v.identities) (hid : x.id = y.id) : x = y :=
  Keyed.eq_of_key_eq h.ids hx hy hid

theorem sound_start (endpoint : Endpoint) (ns : String) (options : AttachmentOptions)
    (network : Network) (firstNumber : Nat) :
    (start endpoint ns options network firstNumber : View S).Sound where
  nodup := List.nodup_nil
  ids := List.nodup_nil
  numbered := by simp [identities, start]
  options := by simp [start]
  dialled := by simp [start]
  unbound := by simp [start]

/-- Soundness depends on the attachments and the addresses alone. -/
theorem Sound.congr {v w : View S} (hv : v.Sound) (ha : w.attachments = v.attachments)
    (hr : w.retired = v.retired) (ho : w.options = v.options) (hn : w.nextNumber = v.nextNumber)
    (hu : w.network.urls = v.network.urls) : w.Sound := by
  have hids : w.identities = v.identities := by
    unfold identities
    rw [ha, hr]
  have hkeys : w.keys = v.keys := by
    unfold keys
    rw [ha]
  refine ⟨hkeys ▸ hv.nodup, hids ▸ hv.ids, ?_, ?_, ?_, ha ▸ hv.unbound⟩
  · rw [hids, hn]
    exact hv.numbered
  · rw [ha, ho]
    exact hv.options
  · unfold Network.url?
    rw [ha, hu]
    exact hv.dialled

/-! ## Work -/

theorem Undisturbed.identities {v w : View S} (h : Undisturbed v w) :
    w.identities = v.identities := by
  have hmounted := congrArg (List.map Prod.fst) h.badges
  rw [List.map_map, List.map_map] at hmounted
  unfold View.identities
  rw [List.map_append, List.map_append, h.retired]
  exact congrArg (· ++ _) hmounted

theorem Undisturbed.sound {v w : View S} (h : Undisturbed v w) (hv : v.Sound) : w.Sound where
  nodup := by
    rw [h.keys]
    exact hv.nodup
  ids := by
    rw [h.identities]
    exact hv.ids
  numbered := by
    rw [h.identities, h.nextNumber]
    exact hv.numbered
  options := by
    intro b hb
    obtain ⟨a, ha, hid, -, -⟩ := h.streams b hb
    rw [Attachment.options_eq_of_identity_eq hid, h.options]
    exact hv.options a ha
  dialled := by
    intro b hb i hi
    obtain ⟨a, ha, hid, hs, -⟩ := h.streams b hb
    rcases hs with hs | hs
    · rw [hs] at hi
      unfold Network.url?
      rw [h.urls, Attachment.openUrl_eq_of_identity_eq hid]
      exact hv.dialled a ha i hi
    · rw [hs] at hi
      exact absurd hi (by simp)
  unbound := by
    intro b hb hp
    obtain ⟨a, ha, -, hs, hphase⟩ := h.streams b hb
    rcases hs with hs | hs
    · rw [hs]
      exact hv.unbound a ha (hphase hp)
    · exact hs

/-! ## Taking down -/

/-- One step of `unmount`. -/
def review (wanted : Attachment S → Bool) (v : View S) (a : Attachment S) : View S :=
  if wanted a then { v with attachments := v.attachments ++ [a] }
  else { v with network := (a.close v.network).2, retired := v.retired ++ [(a.close v.network).1] }

private theorem foldl_review (wanted : Attachment S → Bool) (l : List (Attachment S))
    (v : View S) : ∃ network gone,
      l.foldl (review wanted) v =
        { v with
          network
          attachments := v.attachments ++ l.filter wanted
          retired := v.retired ++ gone } ∧
      network.urls = v.network.urls ∧
      gone.map (·.identity) = (l.filter (!wanted ·)).map (·.identity) := by
  induction l generalizing v with
  | nil => exact ⟨v.network, [], by simp, rfl, rfl⟩
  | cons a rest ih =>
      obtain ⟨network, gone, hw, hurls, hgone⟩ := ih (review wanted v a)
      rw [List.foldl_cons, hw]
      unfold review at hurls ⊢
      by_cases ha : wanted a = true
      · rw [if_pos ha] at hurls ⊢
        refine ⟨network, gone, ?_, hurls, ?_⟩
        · simp [ha]
        · rw [hgone, List.filter_cons_of_neg (by simp [ha])]
      · rw [if_neg ha] at hurls ⊢
        have hclosed := Attachment.keeps_close a v.network
        refine ⟨network, (a.close v.network).1 :: gone, ?_, hurls.trans hclosed.urls, ?_⟩
        · simp [ha]
        · rw [List.filter_cons_of_pos (by simp [ha]), List.map_cons, List.map_cons, hgone]
          exact congrArg (· :: _) hclosed.identity

/-- **What taking down does.** The wanted attachments stay as they are, the others are retired, and
the streams keep their addresses. -/
theorem unmount_eq (wanted : Attachment S → Bool) (v : View S) : ∃ network gone,
    v.unmount wanted =
      { v with
        network
        attachments := v.attachments.filter wanted
        retired := v.retired ++ gone } ∧
    network.urls = v.network.urls ∧
    gone.map (·.identity) = (v.attachments.filter (!wanted ·)).map (·.identity) :=
  foldl_review wanted v.attachments { v with attachments := [] }

/-- Taking down touches neither the registry nor what is highlighted or waits to be closed. -/
theorem unmount_keeps (wanted : Attachment S → Bool) (v : View S) :
    (v.unmount wanted).registry = v.registry ∧
      (v.unmount wanted).highlighted = v.highlighted ∧
      (v.unmount wanted).requests = v.requests := by
  obtain ⟨network, gone, hw, -, -⟩ := unmount_eq wanted v
  rw [hw]
  exact ⟨rfl, rfl, rfl⟩

theorem mem_unmount_iff {wanted : Attachment S → Bool} {v : View S} {a : Attachment S} :
    a ∈ (v.unmount wanted).attachments ↔ a ∈ v.attachments ∧ wanted a = true := by
  obtain ⟨network, gone, hw, -, -⟩ := unmount_eq wanted v
  rw [hw]
  exact List.mem_filter

/-- Nobody is lost: whoever is taken down is retired. -/
theorem identities_unmount_perm (wanted : Attachment S → Bool) (v : View S) :
    (v.unmount wanted).identities.Perm v.identities := by
  obtain ⟨network, gone, hw, -, hgone⟩ := unmount_eq wanted v
  have hparts := (List.filter_append_perm wanted v.attachments).map (·.identity)
  rw [hw]
  unfold identities
  show ((v.attachments.filter wanted ++ (v.retired ++ gone)).map _).Perm _
  rw [List.map_append, List.map_append, List.map_append, hgone]
  rw [List.map_append] at hparts
  -- whoever is taken down moves behind the retired ones
  refine (List.perm_append_comm.append_left _).trans ?_
  rw [← List.append_assoc]
  exact hparts.append_right _

theorem Sound.unmount {v : View S} (h : v.Sound) (wanted : Attachment S → Bool) :
    (v.unmount wanted).Sound := by
  have hperm := identities_unmount_perm wanted v
  obtain ⟨network, gone, hw, hurls, -⟩ := unmount_eq wanted v
  have hids : ((v.unmount wanted).identities.map (·.id)).Nodup :=
    (hperm.map _).nodup_iff.mpr h.ids
  have hnumbered : ∀ x ∈ (v.unmount wanted).identities, ∃ n < v.nextNumber, x.id = resizeId n :=
    fun x hx => h.numbered x (hperm.mem_iff.mp hx)
  have hsub : ∀ a ∈ v.attachments.filter wanted, a ∈ v.attachments :=
    fun a ha => (List.mem_filter.mp ha).1
  rw [hw] at hids hnumbered ⊢
  refine ⟨(List.filter_sublist.map _).nodup h.nodup, hids, hnumbered, ?_, ?_, ?_⟩
  · exact fun a ha => h.options a (hsub a ha)
  · intro a ha i hi
    unfold Network.url?
    rw [hurls]
    exact h.dialled a (hsub a ha) i hi
  · exact fun a ha => h.unbound a (hsub a ha)

end View

end Switchboard
