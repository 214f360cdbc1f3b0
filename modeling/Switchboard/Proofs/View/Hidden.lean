import Switchboard.Proofs.View.Sightings
import Switchboard.Proofs.View.Teardown

/-!
# Hidden sessions are left alone

Is a session that is hidden ever measured, resized or asked for a size? An attachment decides that
by its own copy of the visibility, and bringing it in step gives it the surface first and the new
visibility second. So a selection that hides a session whose attachment has waited for its surface
until then lays that session out once more, as if it were shown. That is the only way
(`laid_out_hidden_iff`): at all other times the copy is right (`mirrored_lifeRun`), and an
attachment that was bound before only takes note of being hidden.
-/

namespace Switchboard

namespace View

variable {S : Type}

/-- The mounted attachments are in order, and each is as its session's descriptor says. It need not
be that all sessions are mounted: a view that has been taken down mounts none. -/
structure Mirrored (v : View S) : Prop where
  shaped : v.registry.Shaped
  sound : v.Sound
  matchesOpen : v.MatchesOpen

/-- A mounted attachment knows whether its session is visible. -/
theorem Mirrored.shows_eq {v : View S} (hv : v.Mirrored) {key : SessionKey} {a : Attachment S}
    (ha : v.attachment? key = some a) : v.shows key = a.visible := by
  obtain ⟨hmem, rfl⟩ := (attachment?_eq_some_iff hv.sound.nodup).mp ha
  obtain ⟨d, hd, hk, hshows⟩ := hv.matchesOpen a hmem
  unfold shows
  rw [hv.shaped.find?_eq_some_iff.mpr ⟨hd, hk⟩]
  exact hshows.1.symm

section Badges

variable {v u : View S}

/-- The attachments may have worked, and sessions may have come, but none has gone. -/
theorem Mirrored.of_badges (hv : v.Mirrored) (hs : u.registry.Shaped) (hsound : u.Sound)
    (hbadge : ∀ b ∈ u.attachments, ∃ a ∈ v.attachments, badge b = badge a)
    (hstay : ∀ d ∈ v.registry.descriptors, d ∈ u.registry.descriptors) : u.Mirrored := by
  refine ⟨hs, hsound, ?_⟩
  intro b hb
  obtain ⟨a, ha, hba⟩ := hbadge b hb
  obtain ⟨d, hd, hk, hshows⟩ := hv.matchesOpen a ha
  exact ⟨d, hstay d hd, hk.trans (key_eq_of_badge_eq hba).symm, hshows.of_badge_eq hba⟩

/-- The attachments may have worked, and sessions may have gone, but none has come. -/
theorem Mirrored.shows_of_badges (hv : v.Mirrored)
    (hbadge : ∀ b ∈ u.attachments, ∃ a ∈ v.attachments, badge b = badge a)
    (hsub : ∀ d ∈ u.registry.descriptors, d ∈ v.registry.descriptors) :
    ∀ b ∈ u.attachments, ∀ d ∈ u.registry.descriptors, b.key = d.key → Shows d b := by
  intro b hb d hd hk
  obtain ⟨a, ha, hba⟩ := hbadge b hb
  have hka := (key_eq_of_badge_eq hba).symm.trans hk
  exact (hv.matchesOpen.shows hv.shaped ha (hsub d hd) hka).of_badge_eq hba

theorem Mirrored.of_undisturbed (hv : v.Mirrored) (h : Undisturbed v u) : u.Mirrored := by
  refine hv.of_badges ?_ (h.sound hv.sound) (fun b hb => h.exists_badge_before hb) ?_
  · rw [h.registry]
    exact hv.shaped
  · rw [h.registry]
    exact fun d hd => hd

end Badges

section Surfaces

variable [Surface S]

omit [Surface S] in
/-- The attachments of a view can be brought in step: they are in order, and on the addresses that
their sessions have. -/
structure Ready (u : View S) : Prop where
  shaped : u.registry.Shaped
  sound : u.Sound
  bound : u.Bound u.registry.descriptors

theorem Ready.mirrored_sync {u : View S} (hu : u.Ready) (surfaces : Descriptor → Option S) :
    (u.sync surfaces).Mirrored := by
  have h := synced_sync surfaces hu.sound hu.shaped hu.bound
  refine ⟨?_, h.sound, h.inStep.matchesOpen⟩
  rw [h.registry]
  exact hu.shaped

/-- What an event has done when the attachments are about to be brought in step. They can be; they
need not be if that is left out; and only a selection has shown or hidden a session. -/
structure Led (v : View S) (e : Event S) : Prop where
  ready : (v.lead e).1.1.Ready
  mirrored : (v.lead e).2 = none → (v.lead e).1.1.Mirrored
  shown : (∀ surfaces selection, e ≠ .select surfaces selection) →
    ∀ b ∈ (v.lead e).1.1.attachments, ∀ d ∈ (v.lead e).1.1.registry.descriptors,
      b.key = d.key → Shows d b

/-- An event that takes sessions away at most, and all of them stay if nothing is brought in
step. -/
theorem Mirrored.led_of_badges {v : View S} (hv : v.Mirrored) {e : Event S}
    (hs : (v.lead e).1.1.registry.Shaped) (hsound : (v.lead e).1.1.Sound)
    (hbadge : ∀ b ∈ (v.lead e).1.1.attachments, ∃ a ∈ v.attachments, badge b = badge a)
    (hsub : ∀ d ∈ (v.lead e).1.1.registry.descriptors, d ∈ v.registry.descriptors)
    (hstay : (v.lead e).2 = none →
      ∀ d ∈ v.registry.descriptors, d ∈ (v.lead e).1.1.registry.descriptors) : v.Led e := by
  have hshown := hv.shows_of_badges hbadge hsub
  exact ⟨⟨hs, hsound, fun b hb d hd hk => (hshown b hb d hd hk).2⟩,
    fun hnone => hv.of_badges hs hsound hbadge (hstay hnone), fun _ => hshown⟩

theorem Mirrored.led_refreshInventory {v : View S} (hv : v.Mirrored)
    (surfaces : Descriptor → Option S) (inventory : Inventory) :
    v.Led (.refreshInventory surfaces inventory) := by
  have hd := hv.shaped.descriptors_reconcile inventory
  refine hv.led_of_badges (Registry.shaped_reconcile hv.shaped inventory)
    (hv.sound.congr rfl rfl rfl rfl rfl) (fun b hb => ⟨b, hb, rfl⟩) ?_ fun hnone d hmem => ?_
  · show ∀ d ∈ (v.registry.reconcile inventory).1.descriptors, _
    rw [hd]
    exact fun d hmem => (List.mem_filter.mp hmem).1
  · show d ∈ (v.registry.reconcile inventory).1.descriptors
    have hempty : (v.registry.reconcile inventory).2.isEmpty = true := by
      by_contra hsome
      exact absurd hnone (by simp [lead, hsome])
    rw [hd, List.mem_filter]
    exact ⟨hmem, (hv.shaped.removed_reconcile_isEmpty_iff inventory).mp hempty d hmem⟩

theorem Mirrored.led_move {v : View S} (hv : v.Mirrored) (surfaces : Descriptor → Option S)
    (m : Move) : v.Led (.move surfaces m) := by
  have hregistry : (v.lead (.move surfaces m)).1.1.registry = (v.registry.moved m).1 := rfl
  have hsound : (v.lead (.move surfaces m)).1.1.Sound := hv.sound.congr rfl rfl rfl rfl rfl
  have hbadge : ∀ b ∈ v.attachments, ∃ a ∈ v.attachments, badge b = badge a :=
    fun b hb => ⟨b, hb, rfl⟩
  rcases v.registry.rescoped_moved m with h | ⟨r', h, -⟩
  · -- the scope is the same, and so is everything else
    have hsame : (v.lead (.move surfaces m)).1.1.registry = v.registry := by rw [hregistry, h]
    refine hv.led_of_badges ?_ hsound hbadge ?_ fun _ => ?_
    · rw [hsame]
      exact hv.shaped
    · rw [hsame]
      exact fun d hd => hd
    · rw [hsame]
      exact fun d hd => hd
  · have hflushed : (v.lead (.move surfaces m)).1.1.registry = r'.flush := by rw [hregistry, h]
    refine hv.led_of_badges ?_ hsound hbadge ?_ fun hnone => ?_
    · rw [hflushed]
      exact Registry.shaped_flush r'
    · rw [hflushed]
      exact fun d hd => absurd hd List.not_mem_nil
    · exact absurd hnone (by simp [lead, h])

theorem Mirrored.led_pump {v : View S} (hv : v.Mirrored) (surfaces : Descriptor → Option S) :
    v.Led (.pump surfaces) := by
  have hwork := undisturbed_pumpAll hv.sound.nodup
  have hw := hv.of_undisturbed hwork
  obtain ⟨registry, hout, hshaped, -, hleft, -⟩ := carryOutAll_eq hw.shaped
  have hclosing : v.pumpAll.1.honoured v.pumpAll.1.requests = v.closing :=
    honoured_congr hwork.registry _
  rw [hclosing] at hout
  rw [hwork.registry] at hleft
  have hregistry : (v.lead (.pump surfaces)).1.1.registry = registry := by
    unfold lead
    rw [hout]
    rfl
  have hattachments : (v.lead (.pump surfaces)).1.1.attachments = v.pumpAll.1.attachments := by
    unfold lead
    rw [hout]
    rfl
  have hsound : (v.lead (.pump surfaces)).1.1.Sound := by
    unfold lead
    rw [hout]
    exact hw.sound.congr rfl rfl rfl rfl rfl
  refine hv.led_of_badges ?_ hsound ?_ ?_ fun hnone => ?_
  · rw [hregistry]
    exact hshaped
  · rw [hattachments]
    exact fun b hb => hwork.exists_badge_before hb
  · rw [hregistry, hleft]
    exact fun d hd => (List.mem_filter.mp hd).1
  · -- where nothing is brought in step, nobody has asked for an open session
    have hempty : v.closing = [] := by
      by_contra hsome
      exact absurd hnone (by simp [lead, hout, hsome])
    have hnobody := (closing_eq_nil_iff hv.shaped).mp hempty
    rw [hregistry, hleft]
    exact fun d hd => List.mem_filter.mpr
      ⟨hd, decide_eq_true (hnobody d.key (Registry.mem_keys.mpr ⟨d, hd, rfl⟩))⟩

theorem Mirrored.led {v : View S} (hv : v.Mirrored) (e : Event S) : v.Led e := by
  cases e with
  | occur o =>
      have hu := hv.of_undisturbed (undisturbed_undergo hv.sound.nodup o)
      rw [← undergoSeen_fst] at hu
      have hshown : ∀ b ∈ (v.undergoSeen o).1.attachments,
          ∀ d ∈ (v.undergoSeen o).1.registry.descriptors, b.key = d.key → Shows d b :=
        fun b hb d hd hk => hu.matchesOpen.shows hu.shaped hb hd hk
      exact ⟨⟨hu.shaped, hu.sound, fun b hb d hd hk => (hshown b hb d hd hk).2⟩, fun _ => hu,
        fun _ => hshown⟩
  | select surfaces selection =>
      have hr := Registry.succeeds_select hv.shaped (v.chosen selection)
      refine ⟨⟨hr.shaped, hv.sound.congr rfl rfl rfl rfl rfl, ?_⟩, ?_, ?_⟩
      · exact hv.matchesOpen.bound hv.shaped hr
      · exact fun hnone => absurd hnone (by simp [lead])
      · exact fun hno => absurd rfl (hno surfaces selection)
  | refreshInventory surfaces inventory => exact hv.led_refreshInventory surfaces inventory
  | move surfaces m => exact hv.led_move surfaces m
  | pump surfaces => exact hv.led_pump surfaces

/-- **One event.** It leaves every attachment as its session's descriptor says. -/
theorem mirrored_step {v : View S} (hv : v.Mirrored) (e : Event S) : (v.step e).Mirrored := by
  have hled := hv.led e
  rw [← stepSeen_fst]
  unfold stepSeen
  split
  · rename_i p hlead
    have hu := hled.mirrored (by rw [hlead])
    rwa [hlead] at hu
  · rename_i w seen surfaces hlead
    have hu := hled.ready
    rw [hlead] at hu
    rw [syncSeen_fst]
    exact hu.mirrored_sync surfaces

theorem mirrored_lifeStep {v : View S} (hv : v.Mirrored) (e : LifeEvent S) :
    (v.lifeStep e).Mirrored := by
  cases e with
  | live e => exact mirrored_step hv e
  | close =>
      obtain ⟨hdown, -⟩ := tornDown_close hv.shaped hv.sound
      refine ⟨hdown.shaped, hdown.sound, ?_⟩
      intro a ha
      have ha' : a ∈ v.close.attachments := ha
      rw [hdown.unmounted] at ha'
      exact absurd ha' List.not_mem_nil

theorem mirrored_lifeRun (o : Opening) (es : List (LifeEvent S)) :
    ((o.view : View S).lifeRun es).Mirrored := by
  induction es using List.reverseRecOn with
  | nil =>
      have hstart := coherent_view (S := S) o
      exact ⟨hstart.shaped, hstart.sound, hstart.inStep.matchesOpen⟩
  | append_singleton es e ih =>
      rw [lifeRun_concat]
      exact mirrored_lifeStep ih e

/-! ## What is seen of one session -/

omit [Surface S] in
theorem mem_updateSeen_iff {v : View S} {key : SessionKey}
    {f : Attachment S → Network → Attachment S × Network × List LayoutAct} {s : Sighting} :
    s ∈ (v.updateSeen key f).2 ↔
      ∃ a, v.attachment? key = some a ∧
        ∃ act ∈ (f a v.network).2.2, s = ⟨key, act, v.shows key⟩ := by
  cases ha : v.attachment? key with
  | none =>
      rw [updateSeen_of_none ha]
      simp
  | some a =>
      rw [sightings_updateSeen ha, mem_sightings]
      simp

omit [Surface S] in
theorem shows_updateSeen (v : View S) (key : SessionKey)
    (f : Attachment S → Network → Attachment S × Network × List LayoutAct) :
    (v.updateSeen key f).1.shows = v.shows := by
  unfold updateSeen workOn
  cases v.attachment? key <;> rfl

omit [Surface S] in
/-- What is laid out because it takes itself to be visible is visible, in a mirrored view. -/
theorem Mirrored.shown_of_mem {v : View S} (hv : v.Mirrored) {key : SessionKey}
    {f : Attachment S → Network → Attachment S × Network × List LayoutAct}
    (hf : ∀ a act, act ∈ (f a v.network).2.2 → a.visible = true) {s : Sighting}
    (hs : s ∈ (v.updateSeen key f).2) : s.shown = true := by
  obtain ⟨a, ha, act, hact, rfl⟩ := mem_updateSeen_iff.mp hs
  exact (hv.shows_eq ha).trans (hf a act hact)

theorem Mirrored.shown_of_mem_undergoSeen {v : View S} (hv : v.Mirrored) {o : Occurrence S}
    {s : Sighting} (hs : s ∈ (v.undergoSeen o).2) : s.shown = true := by
  cases o with
  | layOut =>
      have hfst : ∀ (w : View S) key, (w.updateSeen key Attachment.layOutSeen).1 =
          w.update key fun a net => a.layOut net :=
        fun w key => updateSeen_fst Attachment.layOutSeen_fst key w
      -- the attachments that have been laid out before are as they were
      obtain ⟨pre, key, post, -, hs⟩ := (mem_inTurn_iff hfst).mp hs
      have hpre := Undisturbed.foldl (fun w key hw =>
        undisturbed_update (f := fun a net => a.layOut net) hw key
          fun a net => (a.steady_layOut net).keeps) pre hv.sound.nodup
      exact (hv.of_undisturbed hpre).shown_of_mem
        (fun a act hact => Attachment.visible_of_mem_layOutSeen hact) hs
  | toggleFullscreen key =>
      exact hv.shown_of_mem
        (fun a act hact => Attachment.visible_of_mem_toggleFullscreenSeen hact) hs
  | _ => exact absurd hs List.not_mem_nil

theorem Mirrored.shown_of_mem_lead {v : View S} (hv : v.Mirrored) {e : Event S} {s : Sighting}
    (hs : s ∈ (v.lead e).1.2) : s.shown = true := by
  cases e with
  | occur o => exact hv.shown_of_mem_undergoSeen hs
  | _ => exact absurd hs List.not_mem_nil

/-- What is seen of a session that is being shown is seen of a visible one. -/
theorem shown_of_mem_setVisible {v : View S} {d : Descriptor} (hshows : v.shows d.key = d.visible)
    {s : Sighting}
    (hs : s ∈ (v.updateSeen d.key fun a net => a.setVisibleSeen d.visible net).2) :
    s.shown = true := by
  obtain ⟨a, -, act, hact, rfl⟩ := mem_updateSeen_iff.mp hs
  exact hshows.trans (Attachment.visible_of_mem_setVisibleSeen hact)

/-- Of a session that is presented while it is hidden nothing is seen, unless its attachment is
given its surface only now and takes itself to be visible. -/
theorem hidden_presentSeen_iff (surfaces : Descriptor → Option S) {v : View S} {d : Descriptor}
    (hshows : v.shows d.key = d.visible) :
    (∃ s ∈ (presentSeen surfaces v d).2, s.shown = false) ↔
      d.visible = false ∧ (surfaces d).isSome = true ∧
        ∃ a, v.attachment? d.key = some a ∧ a.visible = true ∧ a.state = .unattached := by
  unfold presentSeen
  cases hfind : v.attachment? d.key with
  | none =>
      -- a new attachment starts as its descriptor says
      constructor
      · intro hgiven
        obtain ⟨s, hs, hhidden⟩ := hgiven
        obtain ⟨act, hact, rfl⟩ := mem_sightings.mp hs
        obtain ⟨-, -, hvis⟩ := Attachment.exists_mem_attachSeen_iff.mp ⟨act, hact⟩
        exact absurd (hvis.symm.trans (hshows.symm.trans hhidden)) (by simp)
      · intro hgiven
        obtain ⟨-, -, a, ha, -⟩ := hgiven
        exact absurd ha (by simp)
  | some a =>
      dsimp only
      by_cases hstate : a.state = .unattached
      · rw [if_pos hstate]
        constructor
        · intro hgiven
          obtain ⟨s, hs, hhidden⟩ := hgiven
          rcases List.mem_append.mp hs with hs | hs
          · obtain ⟨b, hb, act, hact, rfl⟩ := mem_updateSeen_iff.mp hs
            obtain ⟨hsome, hb', hvis⟩ := Attachment.exists_mem_attachSeen_iff.mp ⟨act, hact⟩
            exact ⟨hshows.symm.trans hhidden, hsome, b, hfind.symm.trans hb, hvis, hb'⟩
          · have hkept := shows_updateSeen (v.ask d) d.key
              fun a net => a.attachSeen (surfaces d) net
            have hafter := (congrFun hkept d.key).trans hshows
            exact absurd (hhidden.symm.trans (shown_of_mem_setVisible hafter hs)) (by simp)
        · intro hgiven
          obtain ⟨hhidden, hsome, b, hb, hvis, -⟩ := hgiven
          cases hb
          obtain ⟨act, hact⟩ :=
            Attachment.exists_mem_attachSeen_iff.mpr ⟨hsome, hstate, hvis⟩
          exact ⟨_, List.mem_append_left _ (mem_updateSeen_iff.mpr ⟨a, hfind, act, hact, rfl⟩),
            hshows.trans hhidden⟩
      · rw [if_neg hstate]
        constructor
        · intro hgiven
          obtain ⟨s, hs, hhidden⟩ := hgiven
          exact absurd (hhidden.symm.trans (shown_of_mem_setVisible hshows hs)) (by simp)
        · intro hgiven
          obtain ⟨-, -, b, hb, -, hb'⟩ := hgiven
          cases hb
          exact absurd hb' hstate

theorem key_of_mem_presentSeen {surfaces : Descriptor → Option S} {v : View S} {d : Descriptor}
    {s : Sighting} (hs : s ∈ (presentSeen surfaces v d).2) : s.key = d.key := by
  have hupdate : ∀ (w : View S) f, s ∈ (w.updateSeen d.key f).2 → s.key = d.key := by
    intro w f hmem
    obtain ⟨_, -, _, -, rfl⟩ := mem_updateSeen_iff.mp hmem
    rfl
  unfold presentSeen at hs
  cases hfind : v.attachment? d.key with
  | none =>
      rw [hfind] at hs
      obtain ⟨_, -, rfl⟩ := mem_sightings.mp hs
      rfl
  | some a =>
      rw [hfind] at hs
      dsimp only at hs
      rcases List.mem_append.mp hs with hs | hs
      · split at hs
        · exact hupdate _ _ hs
        · exact absurd hs List.not_mem_nil
      · exact hupdate _ _ hs

/-! ## What is seen when the attachments are brought in step -/

/-- A hidden session of a view has a surface only now, and its attachment takes itself to be
visible. -/
def LateSurface (surfaces : Descriptor → Option S) (u : View S) (key : SessionKey) : Prop :=
  ∃ d ∈ u.registry.descriptors, d.key = key ∧ d.visible = false ∧ (surfaces d).isSome = true ∧
    ∃ a ∈ u.attachments, a.key = key ∧ a.visible = true ∧ a.state = .unattached

/-- A session that is about to be presented has the attachment that it had when the others began to
be, and the registry is the same. -/
theorem Ready.attachment?_before {u : View S} (hu : u.Ready) (surfaces : Descriptor → Option S)
    {pre post : List Descriptor} {d : Descriptor}
    (hds : u.registry.descriptors = pre ++ d :: post) {w : View S}
    (hw : w = pre.foldl (present surfaces)
      (u.unmount fun a => u.registry.descriptors.any (·.key == a.key))) :
    w.registry = u.registry ∧
      ∀ a, w.attachment? d.key = some a ↔ a ∈ u.attachments ∧ a.key = d.key := by
  have hnodup : (u.registry.descriptors.map (·.key)).Nodup := hu.shaped.keys_nodup
  rw [hds, List.map_append, List.map_cons, List.nodup_append] at hnodup
  obtain ⟨hpre, -, hdisjoint⟩ := hnodup
  have hnot : d.key ∉ pre.map (·.key) := fun hk =>
    hdisjoint d.key hk d.key List.mem_cons_self rfl
  have hopen : d.key ∈ u.registry.keys := by
    refine Registry.mem_keys.mpr ⟨d, ?_, rfl⟩
    rw [hds]
    exact List.mem_append_right _ List.mem_cons_self
  have hdown := hu.sound.unmount fun a => u.registry.descriptors.any (·.key == a.key)
  have hbound : (u.unmount fun a => u.registry.descriptors.any (·.key == a.key)).Bound pre := by
    intro a ha e he hk
    refine hu.bound a (mem_unmount_iff.mp ha).1 e ?_ hk
    rw [hds]
    exact List.mem_append_left _ he
  have hall := presentsAll_foldl surfaces hpre hdown hbound
  rw [← hw] at hall
  refine ⟨hall.mounts.registry.trans (unmount_keeps _ u).1, fun a => ?_⟩
  rw [hall.attachment?_eq hdown hnot, attachment?_eq_some_iff hdown.nodup, mem_unmount_iff,
    Registry.any_key_iff]
  constructor
  · intro hgiven
    obtain ⟨⟨ha, -⟩, hk⟩ := hgiven
    exact ⟨ha, hk⟩
  · intro hgiven
    obtain ⟨ha, hk⟩ := hgiven
    exact ⟨⟨ha, hk ▸ hopen⟩, hk⟩

/-- **What bringing in step does to hidden sessions.** One of them is laid out exactly if it has got
its surface late. -/
theorem Ready.hidden_syncSeen_iff {u : View S} (hu : u.Ready) (surfaces : Descriptor → Option S)
    (key : SessionKey) :
    (∃ s ∈ (u.syncSeen surfaces).2, s.key = key ∧ s.shown = false) ↔
      u.LateSurface surfaces key := by
  have hmem : ∀ s, s ∈ (u.syncSeen surfaces).2 ↔ ∃ pre d post,
      u.registry.descriptors = pre ++ d :: post ∧
        s ∈ (presentSeen surfaces (pre.foldl (present surfaces)
          (u.unmount fun a => u.registry.descriptors.any (·.key == a.key))) d).2 :=
    fun s => mem_inTurn_iff (presentSeen_fst surfaces)
  have hone : ∀ pre d post, u.registry.descriptors = pre ++ d :: post →
      ((∃ s ∈ (presentSeen surfaces (pre.foldl (present surfaces)
          (u.unmount fun a => u.registry.descriptors.any (·.key == a.key))) d).2,
          s.shown = false) ↔
        d.visible = false ∧ (surfaces d).isSome = true ∧
          ∃ a ∈ u.attachments, a.key = d.key ∧ a.visible = true ∧ a.state = .unattached) := by
    intro pre d post hds
    obtain ⟨hreg, hattached⟩ := hu.attachment?_before surfaces hds rfl
    have hd : d ∈ u.registry.descriptors := by
      rw [hds]
      exact List.mem_append_right _ List.mem_cons_self
    rw [hidden_presentSeen_iff surfaces]
    · simp only [hattached, and_assoc]
    · unfold shows
      rw [hreg, hu.shaped.find?_eq_some_iff.mpr ⟨hd, rfl⟩]
      rfl
  constructor
  · intro hgiven
    obtain ⟨s, hs, rfl, hhidden⟩ := hgiven
    obtain ⟨pre, d, post, hds, hs⟩ := (hmem s).mp hs
    have hkey := key_of_mem_presentSeen hs
    obtain ⟨hvis, hsome, ha⟩ := (hone pre d post hds).mp ⟨s, hs, hhidden⟩
    rw [hkey]
    refine ⟨d, ?_, rfl, hvis, hsome, ha⟩
    rw [hds]
    exact List.mem_append_right _ List.mem_cons_self
  · intro hgiven
    obtain ⟨d, hd, rfl, hlate⟩ := hgiven
    obtain ⟨pre, post, hds⟩ := List.append_of_mem hd
    obtain ⟨s, hs, hhidden⟩ := (hone pre d post hds).mpr hlate
    exact ⟨s, (hmem s).mpr ⟨pre, d, post, hds, hs⟩, key_of_mem_presentSeen hs, hhidden⟩

/-- A selection hides a session that had no surface while it was visible, and finds one for it. -/
def BindsHidden (key : SessionKey) (v : View S) (e : LifeEvent S) : Prop :=
  ∃ surfaces selection, e = .live (.select surfaces selection) ∧
    (∃ a ∈ v.attachments, a.key = key ∧ a.visible = true ∧ a.state = .unattached) ∧
    ∃ d ∈ (v.registry.select (v.chosen selection)).descriptors,
      d.key = key ∧ d.visible = false ∧ (surfaces d).isSome = true

/-- **One event.** -/
theorem hidden_stepSeen_iff {v : View S} (hv : v.Mirrored) (e : Event S) (key : SessionKey) :
    (∃ s ∈ (v.stepSeen e).2, s.key = key ∧ s.shown = false) ↔ BindsHidden key v (.live e) := by
  have hled := hv.led e
  rcases e.select_cases with ⟨surfaces, selection, rfl⟩ | hno
  · have hready : ({ v with
        registry := v.registry.select (v.chosen selection)
        highlighted := v.chosen selection } : View S).Ready := hled.ready
    refine (hready.hidden_syncSeen_iff surfaces key).trans ?_
    constructor
    · intro hgiven
      obtain ⟨d, hd, hk, hvis, hsome, ha⟩ := hgiven
      exact ⟨surfaces, selection, rfl, ha, d, hd, hk, hvis, hsome⟩
    · intro hgiven
      obtain ⟨_, _, he, ha, d, hd, hk, hvis, hsome⟩ := hgiven
      cases he
      exact ⟨d, hd, hk, hvis, hsome, ha⟩
  · have hnot : ¬ BindsHidden key v (.live e) := by
      intro hgiven
      obtain ⟨surfaces, selection, he, -⟩ := hgiven
      exact hno surfaces selection (LifeEvent.live.inj he)
    refine iff_of_false ?_ hnot
    intro hgiven
    obtain ⟨s, hs, hk, hhidden⟩ := hgiven
    have hbefore : s ∉ (v.lead e).1.2 := fun hmem =>
      absurd (hhidden.symm.trans (hv.shown_of_mem_lead hmem)) (by simp)
    unfold stepSeen at hs
    split at hs
    · rename_i p hlead
      rw [hlead] at hbefore
      exact hbefore hs
    · rename_i w seen surfaces hlead
      have hready := hled.ready
      have hshown := hled.shown hno
      rw [hlead] at hready hshown hbefore
      rcases List.mem_append.mp hs with hs | hs
      · exact hbefore hs
      · -- without a selection, what is visible to an attachment is so in the registry
        obtain ⟨d, hd, rfl, hvis, -, a, ha, hak, havis, -⟩ :=
          (hready.hidden_syncSeen_iff surfaces key).mp ⟨s, hs, hk, hhidden⟩
        exact absurd (havis.symm.trans ((hshown a ha d hd hak).1.trans hvis)) (by simp)

/-- **When a hidden session is laid out.** In the life of a view, whatever happens and whatever
surfaces there are: every resize request is seen being made, and observing changes nothing. A
session is measured, resized or asked for a size while it is hidden exactly when a selection leaves
it hidden that was visible without a surface until then, and there is a surface for it now. -/
theorem laid_out_hidden_iff (o : Opening) (es : List (LifeEvent S)) (e : LifeEvent S) :
    let v : View S := o.view.lifeRun es
    (v.observe e).1 = v.lifeStep e ∧
    (v.lifeStep e).network.requests =
      v.network.requests ++ LayoutAct.requests ((v.observe e).2.map (·.act)) ∧
    ∀ key, (∃ s ∈ (v.observe e).2, s.key = key ∧ s.shown = false) ↔ BindsHidden key v e := by
  intro v
  have hv : v.Mirrored := mirrored_lifeRun o es
  have hsame := observe_fst v e
  refine ⟨hsame, ?_, ?_⟩
  · rw [← hsame]
    exact accounts_observe v e
  · intro key
    cases e with
    | live e => exact hidden_stepSeen_iff hv e key
    | close =>
        -- taking down lays nothing out, and is no selection
        refine iff_of_false ?_ ?_
        · intro hgiven
          obtain ⟨s, hs, -⟩ := hgiven
          exact absurd hs List.not_mem_nil
        · intro hgiven
          obtain ⟨surfaces, selection, he, -⟩ := hgiven
          exact absurd he (by simp)

end Surfaces

/-- A session is selected before there is a surface for it. Another one is selected when there are
surfaces, and that measures the first one, which is hidden by then. -/
theorem first_session_measured_hidden :
    let first := SessionKey.single "a" "c" true
    let second := SessionKey.single "b" "c" true
    let v : View Console :=
      Opening.plain.view.lifeRun [.live (.select (fun _ => none) (.ofKey first))]
    (v.observe (.live (.select onConsole (.ofKey second)))).2 =
      [⟨first, .measure, false⟩, ⟨second, .measure, true⟩] := rfl

end View

end Switchboard
