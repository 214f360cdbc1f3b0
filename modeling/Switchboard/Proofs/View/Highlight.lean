import Switchboard.Proofs.View.Run

/-!
# The highlight

Is the highlighted session always in the foreground? Not always: an inventory that closes it leaves
the highlight where it is, while every other way in which a session can leave takes the highlight
back. So the highlight points at a session that is gone exactly since such an inventory
(`highlight_lost_iff_since_inventory`), and then the next selection of that session is taken for a
repeated one and opens nothing.
-/

namespace Switchboard

namespace View

variable {S : Type}

/-- The session of a key is open and visible, and mounted and shown. -/
def InForeground (v : View S) (key : SessionKey) : Prop :=
  (∃ d ∈ v.registry.descriptors, d.key = key ∧ d.visible = true) ∧
    ∃ a ∈ v.attachments, a.key = key ∧ a.visible = true

/-- A session that is highlighted and open is in the foreground of the registry. -/
def HighlightShown (v : View S) : Prop :=
  ∀ d ∈ v.registry.descriptors, v.highlighted = some d.key → d.visible = true

/-- The highlight points at a session that is not open. -/
def HighlightLost (v : View S) (key : SessionKey) : Prop :=
  v.highlighted = some key ∧ key ∉ v.registry.keys

/-- A coherent view mounts what is open, so the highlight is lost exactly if what it points at is
not in the foreground. -/
theorem highlightLost_iff {v : View S} (hv : v.Coherent) (hs : v.HighlightShown)
    {key : SessionKey} :
    v.HighlightLost key ↔ v.highlighted = some key ∧ ¬ v.InForeground key := by
  constructor
  · intro hgiven
    obtain ⟨hh, hn⟩ := hgiven
    refine ⟨hh, ?_⟩
    intro hgiven
    obtain ⟨⟨d, hd, hk, -⟩, -⟩ := hgiven
    exact hn (Registry.mem_keys.mpr ⟨d, hd, hk⟩)
  · intro hgiven
    obtain ⟨hh, hn⟩ := hgiven
    refine ⟨hh, fun hopen => hn ?_⟩
    obtain ⟨d, hd, rfl⟩ := Registry.mem_keys.mp hopen
    obtain ⟨a, ha, hk⟩ := mem_keys.mp ((hv.inStep.keys d.key).mpr hopen)
    have hvis := hs d hd hh
    exact ⟨⟨d, hd, rfl, hvis⟩, a, ha, hk, (hv.inStep.shown a ha d hd hk).1.trans hvis⟩

/-- What is open was open before, as it is, and what is highlighted was highlighted before. -/
structure Leaves (v w : View S) : Prop where
  descriptors : ∀ d ∈ w.registry.descriptors, d ∈ v.registry.descriptors
  highlighted : ∀ key, w.highlighted = some key → v.highlighted = some key

/-- A highlight is kept if it points at none of the deleted sessions. -/
theorem highlightAfter_eq_some_iff {v : View S} {deleted : List CloseRequest} {key : SessionKey} :
    v.highlightAfter deleted = some key ↔
      v.highlighted = some key ∧ ¬ ∃ r ∈ deleted, pointsAt key r.key = true := by
  unfold highlightAfter
  rw [Option.filter_eq_some_iff, Bool.not_eq_true', List.any_eq_false]
  simp

theorem highlighted_of_highlightAfter {v : View S} {deleted : List CloseRequest} {key : SessionKey}
    (h : v.highlightAfter deleted = some key) : v.highlighted = some key :=
  (highlightAfter_eq_some_iff.mp h).1

theorem pointsAt_self (key : SessionKey) : pointsAt key key = true := by
  unfold pointsAt
  rw [beq_self_eq_true, beq_self_eq_true, Bool.and_true]

theorem not_asksFor_of_highlightAfter {v : View S} {deleted : List CloseRequest}
    {key : SessionKey} (h : v.highlightAfter deleted = some key) : ¬ AsksFor deleted key := by
  intro hgiven
  obtain ⟨r, hr, rfl⟩ := hgiven
  exact (highlightAfter_eq_some_iff.mp h).2 ⟨r, hr, pointsAt_self r.key⟩

section Surfaces

variable [Surface S]

/-- The sessions that are left after a turn were open before. -/
theorem descriptors_subset_of_pump {v : View S} {registry : Registry}
    (hd : registry.descriptors = v.registry.descriptors.filter (¬ AsksFor v.pending ·.key)) :
    ∀ d ∈ registry.descriptors, d ∈ v.registry.descriptors := by
  intro d hmem
  rw [hd] at hmem
  exact (List.mem_filter.mp hmem).1

/-- Only a selection opens or shows a session, or highlights one. -/
theorem leaves_of_not_select {v : View S} (hv : v.Coherent) {e : Event S}
    (hno : ∀ surfaces selection, e ≠ .select surfaces selection) : Leaves v (v.step e) := by
  cases e with
  | select surfaces selection => exact absurd rfl (hno surfaces selection)
  | occur o =>
      have h := undisturbed_undergo hv.sound.nodup o
      refine ⟨?_, ?_⟩
      · show ∀ d ∈ (v.undergo o).registry.descriptors, _
        rw [h.registry]
        exact fun _ hd => hd
      · show ∀ key, (v.undergo o).highlighted = some key → _
        rw [h.highlighted]
        exact fun _ he => he
  | refreshInventory surfaces inventory =>
      have h := takesOver_refreshInventory hv surfaces inventory
      refine ⟨?_, ?_⟩
      · show ∀ d ∈ (v.refreshInventory surfaces inventory).registry.descriptors, _
        rw [h.registry, hv.shaped.descriptors_reconcile]
        exact fun d hd => (List.mem_filter.mp hd).1
      · show ∀ key, (v.refreshInventory surfaces inventory).highlighted = some key → _
        rw [h.highlighted]
        exact fun _ he => he
  | move surfaces m =>
      show Leaves v (v.move surfaces m)
      rcases move_cases hv surfaces m with h | ⟨r', h⟩
      · rw [h]
        exact ⟨fun _ hd => hd, fun _ he => he⟩
      · refine ⟨?_, ?_⟩
        · rw [h.registry]
          exact fun d hd => absurd hd List.not_mem_nil
        · rw [h.highlighted]
          exact fun key he => absurd he (by simp)
  | pump surfaces =>
      obtain ⟨registry, hd, h⟩ := takesOver_pump hv surfaces
      refine ⟨?_, ?_⟩
      · show ∀ d ∈ (v.pump surfaces).1.registry.descriptors, _
        rw [h.registry]
        exact descriptors_subset_of_pump hd
      · show ∀ key, (v.pump surfaces).1.highlighted = some key → _
        rw [h.highlighted]
        exact fun _ he => highlighted_of_highlightAfter he

theorem highlightShown_step {v : View S} (hv : v.Coherent) (hs : v.HighlightShown)
    (e : Event S) : (v.step e).HighlightShown := by
  rcases e.select_cases with ⟨surfaces, selection, rfl⟩ | hno
  · have h := takesOver_select hv surfaces selection
    intro d hd he
    have hd' : d ∈ (v.registry.select (v.chosen selection)).descriptors := h.registry ▸ hd
    have he' : v.chosen selection = some d.key := h.highlighted.symm.trans he
    rw [he'] at hd'
    exact hv.shaped.visible_select hd' rfl
  · have h := leaves_of_not_select hv hno
    intro d hd he
    exact hs d (h.descriptors d hd) (h.highlighted d.key he)

theorem highlightShown_run {v : View S} (hv : v.Coherent) (hs : v.HighlightShown)
    (es : List (Event S)) : (v.run es).HighlightShown :=
  (invariant_run (I := fun u => u.Coherent ∧ u.HighlightShown)
    (fun hu e => ⟨(coherent_step hu.1 e).1, highlightShown_step hu.1 hu.2 e⟩) ⟨hv, hs⟩ es).2

/-- An inventory without the highlighted session comes in. -/
def ClosesHighlighted (key : SessionKey) (v : View S) (e : Event S) : Prop :=
  ∃ surfaces inventory, e = .refreshInventory surfaces inventory ∧
    v.highlighted = some key ∧ inventory.holds key = false

/-- An event after which a key is highlighted. -/
def LeavesHighlighted (key : SessionKey) (v : View S) (e : Event S) : Prop :=
  (v.step e).highlighted = some key

omit [Surface S] in
/-- Where a highlight that is left was there before, and its session is as open as before, it is as
lost as before. -/
theorem highlightLost_iff_of_left {v w : View S} {key : SessionKey}
    (h : w.highlighted = some key →
      v.highlighted = some key ∧ (key ∈ w.registry.keys ↔ key ∈ v.registry.keys)) :
    w.HighlightLost key ↔ v.HighlightLost key ∧ w.highlighted = some key := by
  constructor
  · intro hgiven
    obtain ⟨hh, hn⟩ := hgiven
    obtain ⟨hh', hk⟩ := h hh
    exact ⟨⟨hh', fun hopen => hn (hk.mpr hopen)⟩, hh⟩
  · intro hgiven
    obtain ⟨⟨-, hn⟩, hh⟩ := hgiven
    exact ⟨hh, fun hopen => hn ((h hh).2.mp hopen)⟩

theorem highlightLost_select_iff {v : View S} (hv : v.Coherent) {key : SessionKey}
    (surfaces : Descriptor → Option S) (selection : Selection) :
    (v.select surfaces selection).HighlightLost key ↔
      v.HighlightLost key ∧ (v.select surfaces selection).highlighted = some key := by
  have h := takesOver_select hv surfaces selection
  constructor
  · intro hgiven
    obtain ⟨hh, hn⟩ := hgiven
    rw [h.highlighted] at hh
    rw [h.registry, hh] at hn
    exact absurd (hv.shaped.mem_keys_select key) hn
  · intro hgiven
    obtain ⟨⟨hh, -⟩, hleft⟩ := hgiven
    -- what is highlighted already is not selected
    rw [h.highlighted] at hleft
    exact absurd hh (chosen_ne_highlighted hleft)

theorem highlightLost_refreshInventory_iff {v : View S} (hv : v.Coherent) {key : SessionKey}
    (surfaces : Descriptor → Option S) (inventory : Inventory) :
    (v.refreshInventory surfaces inventory).HighlightLost key ↔
      v.highlighted = some key ∧ inventory.holds key = false ∨ v.HighlightLost key := by
  have h := takesOver_refreshInventory hv surfaces inventory
  have hkeys : key ∈ (v.refreshInventory surfaces inventory).registry.keys ↔
      key ∈ v.registry.keys ∧ inventory.holds key = true := by
    rw [h.registry, Registry.mem_keys, hv.shaped.descriptors_reconcile, Registry.mem_keys]
    constructor
    · intro hgiven
      obtain ⟨d, hd, rfl⟩ := hgiven
      obtain ⟨hd, hholds⟩ := List.mem_filter.mp hd
      exact ⟨⟨d, hd, rfl⟩, hholds⟩
    · intro hgiven
      obtain ⟨⟨d, hd, rfl⟩, hholds⟩ := hgiven
      exact ⟨d, List.mem_filter.mpr ⟨hd, hholds⟩, rfl⟩
  unfold HighlightLost
  rw [hkeys, h.highlighted]
  constructor
  · intro hgiven
    obtain ⟨hh, hn⟩ := hgiven
    by_cases hopen : key ∈ v.registry.keys
    · exact .inl ⟨hh, by simpa [hopen] using hn⟩
    · exact .inr ⟨hh, hopen⟩
  · intro hgiven
    rcases hgiven with ⟨hh, hn⟩ | ⟨hh, hn⟩
    · refine ⟨hh, fun hk => ?_⟩
      rw [hn] at hk
      exact Bool.false_ne_true hk.2
    · exact ⟨hh, fun hk => hn hk.1⟩

theorem highlightLost_move_iff {v : View S} (hv : v.Coherent) {key : SessionKey}
    (surfaces : Descriptor → Option S) (m : Move) :
    (v.move surfaces m).HighlightLost key ↔
      v.HighlightLost key ∧ (v.move surfaces m).highlighted = some key := by
  refine highlightLost_iff_of_left fun hh => ?_
  rcases move_cases hv surfaces m with h | ⟨r', h⟩
  · rw [h] at hh ⊢
    exact ⟨hh, Iff.rfl⟩
  · rw [h.highlighted] at hh
    exact absurd hh (by simp)

theorem highlightLost_pump_iff {v : View S} (hv : v.Coherent) {key : SessionKey}
    (surfaces : Descriptor → Option S) :
    (v.pump surfaces).1.HighlightLost key ↔
      v.HighlightLost key ∧ (v.pump surfaces).1.highlighted = some key := by
  obtain ⟨registry, hd, h⟩ := takesOver_pump hv surfaces
  refine highlightLost_iff_of_left fun hh => ?_
  rw [h.highlighted] at hh
  refine ⟨highlighted_of_highlightAfter hh, ?_⟩
  rw [h.registry, Registry.mem_keys, Registry.mem_keys]
  constructor
  · intro hgiven
    obtain ⟨d, hmem, rfl⟩ := hgiven
    exact ⟨d, descriptors_subset_of_pump hd d hmem, rfl⟩
  · intro hgiven
    obtain ⟨d, hmem, rfl⟩ := hgiven
    refine ⟨d, ?_, rfl⟩
    rw [hd, List.mem_filter, decide_eq_true_iff]
    -- a request for the session would have been honoured and the highlight taken back
    refine ⟨hmem, fun hasked => not_asksFor_of_highlightAfter hh ?_⟩
    exact (asksFor_honoured_iff hv.shaped).mpr ⟨Registry.mem_keys.mpr ⟨d, hmem, rfl⟩, hasked⟩

/-- An event that is no inventory loses no highlight. -/
theorem highlightLost_iff_of_plain {v : View S} {key : SessionKey} {e : Event S}
    (hplain : ∀ surfaces inventory, e ≠ .refreshInventory surfaces inventory)
    (h : (v.step e).HighlightLost key ↔ v.HighlightLost key ∧ LeavesHighlighted key v e) :
    (v.step e).HighlightLost key ↔
      ClosesHighlighted key v e ∨ v.HighlightLost key ∧ LeavesHighlighted key v e := by
  have hno : ¬ ClosesHighlighted key v e := by
    intro hgiven
    obtain ⟨surfaces, inventory, he, -⟩ := hgiven
    exact hplain surfaces inventory he
  rw [h, or_iff_right hno]

/-- **One event.** The highlight is lost by an inventory only, and stays lost as long as it is
left. -/
theorem highlightLost_step_iff {v : View S} (hv : v.Coherent) {key : SessionKey} (e : Event S) :
    (v.step e).HighlightLost key ↔
      ClosesHighlighted key v e ∨ v.HighlightLost key ∧ LeavesHighlighted key v e := by
  cases e with
  | occur o =>
      have h := undisturbed_undergo hv.sound.nodup o
      refine highlightLost_iff_of_plain (by simp) ?_
      refine highlightLost_iff_of_left (w := v.undergo o) fun hh => ?_
      rw [h.registry]
      exact ⟨h.highlighted.symm.trans hh, Iff.rfl⟩
  | select surfaces selection =>
      exact highlightLost_iff_of_plain (by simp) (highlightLost_select_iff hv surfaces selection)
  | refreshInventory surfaces inventory =>
      rw [show v.step (.refreshInventory surfaces inventory) =
        v.refreshInventory surfaces inventory from rfl, highlightLost_refreshInventory_iff hv]
      have hleft : v.HighlightLost key →
          LeavesHighlighted key v (.refreshInventory surfaces inventory) := fun hl =>
        (takesOver_refreshInventory hv surfaces inventory).highlighted.trans hl.1
      constructor
      · intro hgiven
        rcases hgiven with ⟨hh, hn⟩ | hl
        · exact .inl ⟨surfaces, inventory, rfl, hh, hn⟩
        · exact .inr ⟨hl, hleft hl⟩
      · intro hgiven
        rcases hgiven with ⟨_, _, he, hh, hn⟩ | ⟨hl, -⟩
        · cases he
          exact .inl ⟨hh, hn⟩
        · exact .inr hl
  | move surfaces m =>
      exact highlightLost_iff_of_plain (by simp) (highlightLost_move_iff hv surfaces m)
  | pump surfaces =>
      exact highlightLost_iff_of_plain (by simp) (highlightLost_pump_iff hv surfaces)

/-- A selection of a session that is not open opens it, unless the highlight is lost on it. -/
theorem inForeground_select_iff {v : View S} (hv : v.Coherent) (hs : v.HighlightShown)
    (surfaces : Descriptor → Option S) {selection : Selection} {key : SessionKey}
    (hkey : selection.key? = some key) (hn : key ∉ v.registry.keys) :
    (v.select surfaces selection).InForeground key ↔ ¬ v.HighlightLost key := by
  have h := takesOver_select hv surfaces selection
  have hs' := highlightShown_step hv hs (.select surfaces selection)
  by_cases hh : v.highlighted = some key
  · have hchosen : v.chosen selection = none := by
      unfold chosen
      rw [hkey, hh]
      simp
    constructor
    · intro hgiven
      obtain ⟨⟨d, hd, hk, hvis⟩, -⟩ := hgiven
      rw [h.registry, hchosen] at hd
      exact absurd (hv.shaped.key_of_visible_select hd hvis) (by simp)
    · exact fun hlost => absurd ⟨hh, hn⟩ hlost
  · have hchosen : v.chosen selection = some key := by
      unfold chosen
      rw [hkey]
      exact Option.filter_eq_some_iff.mpr ⟨rfl, bne_iff_ne.mpr fun he => hh he.symm⟩
    constructor
    · exact fun _ hlost => hh hlost.1
    · intro _
      by_cases hfront : (v.select surfaces selection).InForeground key
      · exact hfront
      · -- what is highlighted by a selection is open, so it is not lost
        have hlost := (highlightLost_iff h.coherent hs').mpr
          ⟨h.highlighted.trans hchosen, hfront⟩
        obtain ⟨-, hgone⟩ := hlost
        rw [h.registry, hchosen] at hgone
        exact absurd (hv.shaped.mem_keys_select key) hgone

/-- **When the highlight is lost.** After any sequence of events, the highlighted session is in the
foreground unless an inventory without it came in while it was highlighted, and the highlight has
been left since. A selection of a session that is not open opens it and brings it to the foreground
with the same exception. -/
theorem highlight_lost_iff_since_inventory (o : Opening) (es : List (Event S))
    (key : SessionKey) :
    let v : View S := o.view.run es
    (v.highlighted = some key ∧ ¬ v.InForeground key ↔
      Since (o.view : View S) (ClosesHighlighted key) (LeavesHighlighted key) es) ∧
    ∀ surfaces selection, selection.key? = some key → key ∉ v.registry.keys →
      ((v.select surfaces selection).InForeground key ↔
        ¬ Since (o.view : View S) (ClosesHighlighted key) (LeavesHighlighted key) es) := by
  intro v
  have hstart := coherent_view (S := S) o
  have hv : v.Coherent := coherent_run hstart es
  have hs : v.HighlightShown :=
    highlightShown_run hstart (fun _ hd => absurd hd List.not_mem_nil) es
  have hnone : ¬ (o.view : View S).HighlightLost key := by
    intro hgiven
    obtain ⟨hh, -⟩ := hgiven
    exact absurd hh (by simp [Opening.view, start])
  have hsince : v.HighlightLost key ↔
      Since (o.view : View S) (ClosesHighlighted key) (LeavesHighlighted key) es :=
    run_iff_since (P := fun u => u.HighlightLost key) (fun hu e => (coherent_step hu e).1)
      (fun hu e => highlightLost_step_iff hu e) hstart hnone es
  refine ⟨(highlightLost_iff hv hs).symm.trans hsince, ?_⟩
  intro surfaces selection hkey hn
  rw [← hsince]
  exact inForeground_select_iff hv hs surfaces hkey hn

end Surfaces

/-- An inventory without it leaves the highlight on a session that is gone, and the selection that
should open the session again opens nothing. -/
theorem highlight_stays_on_closed_session :
    let shell := SessionKey.single "a" "c" true
    let v : View Console := Opening.plain.view.run
      [.select onConsole (.ofKey shell), .refreshInventory onConsole .empty]
    v.highlighted = some shell ∧ v.registry.keys = [] ∧ v.keys = [] ∧
      (v.select onConsole (.ofKey shell)).registry.keys = [] :=
  ⟨rfl, rfl, rfl, rfl⟩

end View

end Switchboard
