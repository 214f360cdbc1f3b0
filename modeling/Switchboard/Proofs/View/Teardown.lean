import Switchboard.Proofs.View.Run

/-!
# After the view has been taken down

Does a closed view stay unmounted, whatever still arrives? Not always: closing takes down the
attachments but leaves the sessions in the registry and the requests in the queue, and a turn or an
inventory that removes some of the sessions brings the attachments in step with the others, which
mounts them again. It stays unmounted exactly as long as each turn and each inventory removes all
sessions or none (`stays_unmounted_iff_all_quiet`).
-/

namespace Switchboard

/-- What can still arrive when a view has been closed. -/
inductive LateEvent (S : Type) where
  | occur (o : Occurrence S)
  | refreshInventory (surfaces : Descriptor → Option S) (inventory : Inventory)
  | pump (surfaces : Descriptor → Option S)
  | close

namespace View

variable {S : Type}

/-- A condition holds of all open sessions or of none. -/
def AllOrNone (v : View S) (P : SessionKey → Prop) : Prop :=
  (∀ key ∈ v.registry.keys, P key) ∨ ∀ key ∈ v.registry.keys, ¬ P key

/-- An event that mounts nothing in a view without attachments. -/
def Quiet (v : View S) : LateEvent S → Prop
  | .pump _ => v.AllOrNone (AsksFor v.requests)
  | .refreshInventory _ inventory => v.AllOrNone (inventory.holds · = true)
  | .occur _ => True
  | .close => True

/-- The view has no attachments, and what it has had is in order. -/
structure TornDown (v : View S) : Prop where
  unmounted : v.attachments = []
  shaped : v.registry.Shaped
  sound : v.Sound

theorem tornDown_close {v : View S} (hr : v.registry.Shaped) (hv : v.Sound) :
    v.close.TornDown ∧ v.close.network.urls = v.network.urls := by
  have hsound : ({ v with registry := v.registry.close } : View S).Sound :=
    hv.congr rfl rfl rfl rfl rfl
  have hdown := hsound.unmount fun _ => false
  obtain ⟨network, gone, hw, hurls, -⟩ :=
    unmount_eq (fun _ => false) { v with registry := v.registry.close }
  unfold close
  rw [hw] at hdown ⊢
  exact ⟨⟨by simp, ⟨hr.single, hr.merged, hr.nodup⟩, hdown⟩, hurls⟩

/-- Where there are no attachments, nothing happens to them. -/
theorem TornDown.of_undisturbed {v w : View S} (hv : v.TornDown) (h : Undisturbed v w) :
    w.TornDown := by
  refine ⟨?_, ?_, h.sound hv.sound⟩
  · have hnone := h.badges
    rw [hv.unmounted, List.map_nil, List.map_eq_nil_iff] at hnone
    exact hnone
  · rw [h.registry]
    exact hv.shaped

/-- Where there are no attachments, nobody asks for anything. -/
theorem TornDown.requests_eq {v w : View S} (hv : v.TornDown) (h : Undisturbed v w) :
    w.requests = v.requests := by
  obtain ⟨sent, hs, hsent⟩ := h.requests
  have hnone : sent = [] := by
    rw [List.eq_nil_iff_forall_not_mem]
    intro r hr
    obtain ⟨a, ha, -⟩ := hsent r hr
    rw [hv.unmounted] at ha
    exact absurd ha List.not_mem_nil
  rw [hs, hnone, List.append_nil]

section Surfaces

variable [Surface S]

def lateStep (v : View S) : LateEvent S → View S
  | .occur o => v.undergo o
  | .refreshInventory surfaces inventory => v.refreshInventory surfaces inventory
  | .pump surfaces => (v.pump surfaces).1
  | .close => v.close

/-- The view after a sequence of late events. -/
def lateRun (v : View S) (ls : List (LateEvent S)) : View S := ls.foldl lateStep v

theorem lateRun_concat (v : View S) (ls : List (LateEvent S)) (e : LateEvent S) :
    v.lateRun (ls ++ [e]) = (v.lateRun ls).lateStep e := List.foldl_append

/-- An event that has mounted nothing, and so has opened no stream. -/
def MountsNothing (v w : View S) : Prop := w.TornDown ∧ w.network.urls = v.network.urls

/-- Bringing an empty view in step mounts the open sessions, so it mounts nothing exactly if there
are none. -/
theorem unmounted_sync_iff {v : View S} (hv : v.TornDown) (surfaces : Descriptor → Option S) :
    ((v.sync surfaces).attachments = [] ↔ v.registry.descriptors = []) ∧
      ((v.sync surfaces).attachments = [] → MountsNothing v (v.sync surfaces)) := by
  have hbound : v.Bound v.registry.descriptors := by
    intro a ha
    rw [hv.unmounted] at ha
    exact absurd ha List.not_mem_nil
  have hs := synced_sync surfaces hv.sound hv.shaped hbound
  refine ⟨?_, ?_⟩
  · constructor
    · intro hnone
      rw [List.eq_nil_iff_forall_not_mem]
      intro d hd
      have hopen : d.key ∈ (v.sync surfaces).registry.keys := by
        rw [hs.registry]
        exact Registry.mem_keys.mpr ⟨d, hd, rfl⟩
      obtain ⟨a, ha, -⟩ := mem_keys.mp ((hs.inStep.keys d.key).mpr hopen)
      rw [hnone] at ha
      exact absurd ha List.not_mem_nil
    · intro hnone
      rw [List.eq_nil_iff_forall_not_mem]
      intro a ha
      have hopen := (hs.inStep.keys a.key).mp (mem_keys.mpr ⟨a, ha, rfl⟩)
      rw [hs.registry, Registry.mem_keys, hnone] at hopen
      obtain ⟨d, hd, -⟩ := hopen
      exact absurd hd List.not_mem_nil
  · intro hnone
    refine ⟨⟨hnone, ?_, hs.sound⟩, ?_⟩
    · rw [hs.registry]
      exact hv.shaped
    · -- a stream that had been opened would be held
      have hlength : (v.sync surfaces).network.urls.length ≤ v.network.urls.length := by
        by_contra hlt
        obtain ⟨b, hb, -⟩ := hs.evolves.opened v.network.urls.length (Nat.le_refl _)
          (Nat.not_le.mp hlt)
        rw [hnone] at hb
        exact absurd hb List.not_mem_nil
      exact (List.IsPrefix.eq_of_length_le hs.evolves.urls hlength).symm

/-- An empty view that takes over a registry, and is brought in step if something has changed. -/
theorem unmounted_takeOver_iff {v : View S} (hv : v.TornDown) (surfaces : Descriptor → Option S)
    {registry : Registry} (hr : registry.Shaped) (highlighted : Option SessionKey)
    {same : Prop} [Decidable same] {w : View S}
    (hw : w = if same then { v with registry, highlighted }
      else { v with registry, highlighted }.sync surfaces) :
    (w.attachments = [] ↔ same ∨ registry.descriptors = []) ∧
      (w.attachments = [] → MountsNothing v w) := by
  have hu : ({ v with registry, highlighted } : View S).TornDown :=
    ⟨hv.unmounted, hr, hv.sound.congr rfl rfl rfl rfl rfl⟩
  by_cases hsame : same
  · rw [hw, if_pos hsame]
    exact ⟨iff_of_true hv.unmounted (.inl hsame), fun _ => ⟨hu, rfl⟩⟩
  · rw [hw, if_neg hsame, or_iff_right hsame]
    exact unmounted_sync_iff hu surfaces

omit [Surface S] in
/-- A registry that keeps the sessions of some keys keeps all or none of them exactly if it is the
same or empty. -/
theorem same_or_empty_iff {v : View S} {registry : Registry} {P : SessionKey → Prop}
    {keep : Descriptor → Bool} (hd : registry.descriptors = v.registry.descriptors.filter keep)
    (hkeep : ∀ d, keep d = true ↔ P d.key) :
    ((∀ key ∈ v.registry.keys, P key) ∨ registry.descriptors = []) ↔ v.AllOrNone P := by
  have hempty : registry.descriptors = [] ↔ ∀ key ∈ v.registry.keys, ¬ P key := by
    rw [hd, List.filter_eq_nil_iff, Registry.forall_mem_keys]
    simp only [hkeep]
  rw [hempty]
  rfl

theorem unmounted_refreshInventory_iff {v : View S} (hv : v.TornDown)
    (surfaces : Descriptor → Option S) (inventory : Inventory) :
    ((v.refreshInventory surfaces inventory).attachments = [] ↔
        v.AllOrNone (inventory.holds · = true)) ∧
      ((v.refreshInventory surfaces inventory).attachments = [] →
        MountsNothing v (v.refreshInventory surfaces inventory)) := by
  have hd := hv.shaped.descriptors_reconcile inventory
  have hsame : (v.registry.reconcile inventory).2.isEmpty = true ↔
      ∀ key ∈ v.registry.keys, inventory.holds key = true := by
    rw [hv.shaped.removed_reconcile_isEmpty_iff, Registry.forall_mem_keys]
  have hturn : v.refreshInventory surfaces inventory =
      if (v.registry.reconcile inventory).2.isEmpty = true then
        { v with registry := (v.registry.reconcile inventory).1, highlighted := v.highlighted }
      else { v with
        registry := (v.registry.reconcile inventory).1
        highlighted := v.highlighted }.sync surfaces := rfl
  have h := unmounted_takeOver_iff hv surfaces (Registry.shaped_reconcile hv.shaped inventory)
    v.highlighted hturn
  rw [hsame, same_or_empty_iff hd fun _ => Iff.rfl] at h
  exact h

/-- A turn of an empty view carries out the requests that waited. -/
theorem unmounted_pump_iff {v : View S} (hv : v.TornDown) (surfaces : Descriptor → Option S) :
    ((v.pump surfaces).1.attachments = [] ↔ v.AllOrNone (AsksFor v.requests)) ∧
      ((v.pump surfaces).1.attachments = [] → MountsNothing v (v.pump surfaces).1) := by
  have hwork := undisturbed_pumpAll hv.sound.nodup
  have hdown := hv.of_undisturbed hwork
  have hmid : v.midTurn.TornDown :=
    ⟨hdown.unmounted, hdown.shaped, hdown.sound.congr rfl rfl rfl rfl rfl⟩
  have hpending : v.pending = v.requests := hv.requests_eq hwork
  obtain ⟨registry, highlighted, hturn, hshaped, -, hleft, -⟩ :=
    pump_eq hv.sound.nodup hv.shaped surfaces
  have h := unmounted_takeOver_iff hmid surfaces hshaped highlighted hturn
  rw [hpending] at hleft
  have hsame : v.closing = [] ↔ ∀ key ∈ v.registry.keys, ¬ AsksFor v.requests key := by
    rw [closing_eq_nil_iff hv.shaped, hpending]
  rw [hsame, same_or_empty_iff hleft fun _ => decide_eq_true_iff] at h
  refine ⟨h.1.trans ?_, fun hnone => ?_⟩
  · -- none of the sessions is kept exactly if all are asked for
    unfold AllOrNone
    simp only [not_not]
    exact or_comm
  · obtain ⟨hw, hurls⟩ := h.2 hnone
    exact ⟨hw, hurls.trans hwork.urls⟩

/-- **One late event.** An empty view stays empty exactly if the event is quiet, and then no stream
is opened. -/
theorem unmounted_lateStep_iff {v : View S} (hv : v.TornDown) (e : LateEvent S) :
    ((v.lateStep e).attachments = [] ↔ v.Quiet e) ∧
      ((v.lateStep e).attachments = [] → MountsNothing v (v.lateStep e)) := by
  cases e with
  | occur o =>
      have hwork := undisturbed_undergo hv.sound.nodup o
      have hdown := hv.of_undisturbed hwork
      exact ⟨iff_of_true hdown.unmounted trivial, fun _ => ⟨hdown, hwork.urls⟩⟩
  | refreshInventory surfaces inventory =>
      exact unmounted_refreshInventory_iff hv surfaces inventory
  | pump surfaces => exact unmounted_pump_iff hv surfaces
  | close =>
      have hdown := tornDown_close hv.shaped hv.sound
      exact ⟨iff_of_true hdown.1.unmounted trivial, fun _ => hdown⟩

/-- What holds of every event of a run holds of every event of its beginning. -/
theorem forall_of_beginning {G : View S → LateEvent S → Prop} {v : View S}
    {ls p : List (LateEvent S)} (hp : p <+: ls)
    (h : ∀ q e t, ls = q ++ e :: t → G (v.lateRun q) e) :
    ∀ q e t, p = q ++ e :: t → G (v.lateRun q) e := by
  obtain ⟨rest, rfl⟩ := hp
  rintro q e t rfl
  exact h q e (t ++ rest) (by simp)

/-- A run in which every event mounts nothing mounts nothing. -/
theorem mountsNothing_lateRun {G : View S → LateEvent S → Prop}
    (hG : ∀ {u : View S}, u.TornDown → ∀ e, G u e → (u.lateStep e).attachments = [])
    {v : View S} (hv : v.TornDown) (ls : List (LateEvent S))
    (h : ∀ p e t, ls = p ++ e :: t → G (v.lateRun p) e) : MountsNothing v (v.lateRun ls) := by
  induction ls using List.reverseRecOn with
  | nil => exact ⟨hv, rfl⟩
  | append_singleton ls e ih =>
      obtain ⟨hdown, hurls⟩ := ih (forall_of_beginning (List.prefix_append _ _) h)
      have hlast := hG hdown e (h ls e [] rfl)
      obtain ⟨hdown', hurls'⟩ := (unmounted_lateStep_iff hdown e).2 hlast
      rw [lateRun_concat]
      exact ⟨hdown', hurls'.trans hurls⟩

/-- **When a closed view stays unmounted.** After any sequence of events, closing leaves no
attachment. Through any sequence of late events no attachment is mounted and no stream is opened,
exactly if every turn among them finds a request for all of the open sessions or for none, and every
inventory holds all of them or none. -/
theorem stays_unmounted_iff_all_quiet (o : Opening) (es : List (Event S))
    (ls : List (LateEvent S)) :
    let c : View S := (o.view.run es).close
    c.attachments = [] ∧
      ((∀ p, p <+: ls → (c.lateRun p).attachments = [] ∧
          (c.lateRun p).network.urls = c.network.urls) ↔
        ∀ p e t, ls = p ++ e :: t → (c.lateRun p).Quiet e) := by
  intro c
  have hopen := coherent_run (coherent_view (S := S) o) es
  have hc : c.TornDown := (tornDown_close hopen.shaped hopen.sound).1
  refine ⟨hc.unmounted, ?_, ?_⟩
  · -- up to `p` nothing has been mounted, so what `e` does there says whether it is quiet
    intro h p e t hls
    have hp : p <+: ls := ⟨e :: t, hls.symm⟩
    have hsteps : ∀ q f r, ls = q ++ f :: r → ((c.lateRun q).lateStep f).attachments = [] := by
      intro q f r hls'
      have hq : q ++ [f] <+: ls := ⟨r, by rw [hls']; simp⟩
      rw [← lateRun_concat]
      exact (h (q ++ [f]) hq).1
    obtain ⟨hdown, -⟩ := mountsNothing_lateRun (fun _ _ hnone => hnone) hc p
      (forall_of_beginning (G := fun u f => (u.lateStep f).attachments = []) hp hsteps)
    exact (unmounted_lateStep_iff hdown e).1.mp (hsteps p e t hls)
  · intro h p hp
    obtain ⟨hdown, hurls⟩ := mountsNothing_lateRun
      (fun hu e hquiet => (unmounted_lateStep_iff hu e).1.mpr hquiet) hc p
      (forall_of_beginning (G := Quiet) hp h)
    exact ⟨hdown.unmounted, hurls⟩

end Surfaces

/-- Two sessions are open and one of them has been killed when the view is closed. The next turn
mounts the other one again, on a third stream. -/
theorem closed_view_mounts_again :
    let first := SessionKey.single "a" "c" true
    let second := SessionKey.single "b" "c" true
    let c : View Console := (Opening.plain.view.run
      [.select onConsole (.ofKey first), .select onConsole (.ofKey second),
        .occur (.kill first)]).close
    c.keys = [] ∧ c.network.urls.length = 2 ∧ (c.lateRun [.pump onConsole]).keys = [second] ∧
      (c.lateRun [.pump onConsole]).network.urls.length = 3 :=
  ⟨rfl, rfl, rfl, rfl⟩

end View

end Switchboard
