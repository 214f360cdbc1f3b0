import Switchboard.Proofs.View.Highlight

/-!
# What is in the foreground is highlighted

Is the visible session always the highlighted one? A selection makes it so, and an inventory, a move
and most turns keep it so. But a turn takes the highlight back from a shell when it closes the log
of the same container, and from a log when it closes the shell (`pointsAt_iff`). The session that is
left stays in the foreground without being highlighted, until something is selected or it is closed
itself (`visible_unhighlighted_iff_since`). For merged logs there is no such case, since a registry
never holds two of them.
-/

namespace Switchboard

/-- The other session of the same container: the log for a shell, the shell for a log. -/
def SessionKey.counterpart? : SessionKey → Option SessionKey
  | single pod container interactive => some (single pod container !interactive)
  | merged _ => none

namespace View

variable {S : Type}

/-- A highlight points at its own session, at the other one of the same container, and from merged
logs at all merged logs. -/
theorem pointsAt_iff {key deleted : SessionKey} :
    pointsAt key deleted = true ↔
      key = deleted ∨ key.counterpart? = some deleted ∨
        key.isMerged = true ∧ deleted.isMerged = true := by
  cases key with
  | merged selectors =>
      cases deleted with
      | merged others => simp [pointsAt, SessionKey.isMerged, SessionKey.target?]
      | single p c i => simp [pointsAt, SessionKey.isMerged, SessionKey.counterpart?]
  | single pod container interactive =>
      cases deleted with
      | merged others => simp [pointsAt, SessionKey.isMerged, SessionKey.counterpart?]
      | single p c i =>
          -- of the two sessions of one container, each is the other's counterpart
          cases interactive <;> cases i <;>
            simp [pointsAt, SessionKey.isMerged, SessionKey.target?, SessionKey.counterpart?]

/-- A session is in the foreground of the registry without being highlighted. -/
def Unhighlighted (v : View S) (key : SessionKey) : Prop :=
  (∃ d ∈ v.registry.descriptors, d.key = key ∧ d.visible = true) ∧ v.highlighted ≠ some key

/-- Nothing is highlighted but the session that is visible, if one is. -/
def NoOtherHighlighted (v : View S) : Prop :=
  ∀ d ∈ v.registry.descriptors, d.visible = true → ∀ key, v.highlighted = some key → key = d.key

/-- A visible session stays visible as long as it stays open. -/
theorem Leaves.visible_iff {v w : View S} (h : Leaves v w) (hv : v.registry.Shaped)
    (key : SessionKey) :
    (∃ d ∈ w.registry.descriptors, d.key = key ∧ d.visible = true) ↔
      (∃ d ∈ v.registry.descriptors, d.key = key ∧ d.visible = true) ∧ key ∈ w.registry.keys := by
  constructor
  · intro hgiven
    obtain ⟨d, hd, rfl, hvis⟩ := hgiven
    exact ⟨⟨d, h.descriptors d hd, rfl, hvis⟩, Registry.mem_keys.mpr ⟨d, hd, rfl⟩⟩
  · intro hgiven
    obtain ⟨⟨d, hd, rfl, hvis⟩, hstays⟩ := hgiven
    obtain ⟨e, he, hk⟩ := Registry.mem_keys.mp hstays
    -- what is left of the key is the visible session itself
    rw [Keyed.eq_of_key_eq hv.keys_nodup (h.descriptors e he) hd hk] at he
    exact ⟨d, he, rfl, hvis⟩

section Surfaces

variable [Surface S]

theorem noOtherHighlighted_step {v : View S} (hv : v.Coherent) (hs : v.NoOtherHighlighted)
    (e : Event S) : (v.step e).NoOtherHighlighted := by
  rcases e.select_cases with ⟨surfaces, selection, rfl⟩ | hno
  · have h := takesOver_select hv surfaces selection
    intro d hd hvis key he
    have hd' : d ∈ (v.registry.select (v.chosen selection)).descriptors := h.registry ▸ hd
    have he' : v.chosen selection = some key := h.highlighted.symm.trans he
    rw [hv.shaped.key_of_visible_select hd' hvis] at he'
    exact (Option.some.inj he').symm
  · have h := leaves_of_not_select hv hno
    intro d hd hvis key he
    exact hs d (h.descriptors d hd) hvis key (h.highlighted key he)

theorem noOtherHighlighted_run {v : View S} (hv : v.Coherent) (hs : v.NoOtherHighlighted)
    (es : List (Event S)) : (v.run es).NoOtherHighlighted :=
  (invariant_run (I := fun u => u.Coherent ∧ u.NoOtherHighlighted)
    (fun hu e => ⟨(coherent_step hu.1 e).1, noOtherHighlighted_step hu.1 hu.2 e⟩) ⟨hv, hs⟩ es).2

/-! ## How a session loses the highlight and stays -/

/-- A turn closes the other session of the container whose session is highlighted, and leaves that
one open. -/
def ClosesCounterpart (key : SessionKey) (v : View S) (e : Event S) : Prop :=
  ∃ surfaces other, e = .pump surfaces ∧ v.highlighted = some key ∧
    key ∈ (v.step e).registry.keys ∧ key.counterpart? = some other ∧
    other ∈ v.registry.keys ∧ other ∉ (v.step e).registry.keys

/-- Nothing is selected, and the session is not closed. -/
def Remains (key : SessionKey) (v : View S) (e : Event S) : Prop :=
  (∀ surfaces selection, e ≠ .select surfaces selection) ∧ key ∈ (v.step e).registry.keys

/-- A turn closes a session exactly if it honours a request for it. -/
theorem closed_by_pump_iff {v : View S} (hv : v.Coherent) (surfaces : Descriptor → Option S)
    {key : SessionKey} :
    key ∈ v.registry.keys ∧ key ∉ (v.pump surfaces).1.registry.keys ↔
      ∃ r ∈ v.closing, r.key = key := by
  rw [mem_keys_pump_iff hv, not_and, not_not]
  constructor
  · intro hgiven
    obtain ⟨hopen, himp⟩ := hgiven
    exact himp hopen
  · intro hclosing
    exact ⟨((asksFor_honoured_iff hv.shaped).mp hclosing).1, fun _ => hclosing⟩

/-- A turn that leaves the highlighted session open takes the highlight back exactly if it closes
the other session of the container. -/
theorem highlighted_pump_iff {v : View S} (hv : v.Coherent) (surfaces : Descriptor → Option S)
    {key : SessionKey} (hh : v.highlighted = some key)
    (hstays : key ∈ (v.pump surfaces).1.registry.keys) :
    (v.pump surfaces).1.highlighted = some key ↔ ¬ ClosesCounterpart key v (.pump surfaces) := by
  obtain ⟨registry, -, h⟩ := takesOver_pump hv surfaces
  obtain ⟨hopen, hnot⟩ := (mem_keys_pump_iff hv surfaces).mp hstays
  rw [h.highlighted, highlightAfter_eq_some_iff, and_iff_right hh, not_iff_not]
  constructor
  · intro hgiven
    obtain ⟨r, hr, hpoints⟩ := hgiven
    obtain ⟨hro, hrc⟩ := (closed_by_pump_iff hv surfaces).mpr ⟨r, hr, rfl⟩
    rcases pointsAt_iff.mp hpoints with hk | hc | ⟨hm, hrm⟩
    · exact absurd ⟨r, hr, hk.symm⟩ hnot
    · exact ⟨surfaces, r.key, rfl, hh, hstays, hc, hro, hrc⟩
    · -- of merged logs only the highlighted ones are open, and they stay
      rw [← hv.shaped.eq_of_isMerged hopen hro hm hrm] at hrc
      exact absurd hstays hrc
  · intro hgiven
    obtain ⟨_, other, he, -, -, hc, hoo, hoc⟩ := hgiven
    cases he
    obtain ⟨r, hr, rfl⟩ := (closed_by_pump_iff hv surfaces).mp ⟨hoo, hoc⟩
    exact ⟨r, hr, pointsAt_iff.mpr (.inr (.inl hc))⟩

/-- As long as nothing is selected, a highlighted session that stays open stays highlighted unless
its counterpart is closed. -/
theorem highlight_kept_iff {v : View S} (hv : v.Coherent) {key : SessionKey} {e : Event S}
    (hh : v.highlighted = some key) (hremains : Remains key v e) :
    (v.step e).highlighted = some key ↔ ¬ ClosesCounterpart key v e := by
  obtain ⟨hno, hstays⟩ := hremains
  have hkept : (∀ surfaces, e ≠ .pump surfaces) → (v.step e).highlighted = some key →
      ((v.step e).highlighted = some key ↔ ¬ ClosesCounterpart key v e) := by
    intro hplain hafter
    refine ⟨fun _ hgiven => ?_, fun _ => hafter⟩
    obtain ⟨surfaces, -, he, -⟩ := hgiven
    exact hplain surfaces he
  cases e with
  | select surfaces selection => exact absurd rfl (hno surfaces selection)
  | occur o =>
      exact hkept (by simp) ((undisturbed_undergo hv.sound.nodup o).highlighted.trans hh)
  | refreshInventory surfaces inventory =>
      have h := takesOver_refreshInventory hv surfaces inventory
      exact hkept (by simp) (h.highlighted.trans hh)
  | move surfaces m =>
      refine hkept (by simp) ?_
      show (v.move surfaces m).highlighted = some key
      have hopen : key ∈ (v.move surfaces m).registry.keys := hstays
      rcases move_cases hv surfaces m with h | ⟨r', h⟩
      · rw [h]
        exact hh
      · rw [h.registry] at hopen
        exact absurd hopen List.not_mem_nil
  | pump surfaces => exact highlighted_pump_iff hv surfaces hh hstays

/-- **One event.** A session in the foreground loses the highlight to the closing of its
counterpart only, and is then without it as long as it remains. -/
theorem unhighlighted_step_iff {v : View S} (hv : v.Coherent) (hs : v.HighlightShown)
    {key : SessionKey} (e : Event S) :
    (v.step e).Unhighlighted key ↔
      ClosesCounterpart key v e ∨ v.Unhighlighted key ∧ Remains key v e := by
  rcases e.select_cases with ⟨surfaces, selection, rfl⟩ | hno
  · -- what a selection shows it highlights
    have hafter : ¬ (v.select surfaces selection).Unhighlighted key := by
      have h := takesOver_select hv surfaces selection
      intro hgiven
      obtain ⟨⟨d, hd, rfl, hvis⟩, hne⟩ := hgiven
      rw [h.registry] at hd
      exact hne (h.highlighted.trans (hv.shaped.key_of_visible_select hd hvis))
    refine ⟨fun hgiven => absurd hgiven hafter, fun hgiven => ?_⟩
    rcases hgiven with ⟨_, _, he, -⟩ | ⟨-, hno, -⟩
    · exact absurd he (by simp)
    · exact absurd rfl (hno surfaces selection)
  · have h := leaves_of_not_select hv hno
    have hvis := h.visible_iff hv.shaped key
    constructor
    · intro hgiven
      obtain ⟨hshown, hne⟩ := hgiven
      obtain ⟨hbefore, hstays⟩ := hvis.mp hshown
      have hremains : Remains key v e := ⟨hno, hstays⟩
      by_cases hh : v.highlighted = some key
      · exact .inl (not_not.mp fun hc => hne ((highlight_kept_iff hv hh hremains).mpr hc))
      · exact .inr ⟨⟨hbefore, hh⟩, hremains⟩
    · intro hgiven
      rcases hgiven with hc | ⟨⟨hbefore, hne⟩, hremains⟩
      · obtain ⟨surfaces, other, -, hh, hstays, -⟩ := id hc
        obtain ⟨d, hd, rfl⟩ := Registry.mem_keys.mp hstays
        have hd' := h.descriptors d hd
        refine ⟨⟨d, hd, rfl, hs d hd' hh⟩, fun hafter => ?_⟩
        exact (highlight_kept_iff hv hh ⟨hno, hstays⟩).mp hafter hc
      · exact ⟨hvis.mpr ⟨hbefore, hremains.2⟩, fun he => hne (h.highlighted key he)⟩

/-- **What is in the foreground is highlighted, unless its counterpart was closed.** After any
sequence of events: if a session is visible, then it is highlighted or nothing is. It is not
highlighted exactly since a turn that closed the other session of its container while it was
highlighted itself, with no selection since then and the session still open. Any other event that
leaves the highlighted session open and selects nothing leaves it highlighted. -/
theorem visible_unhighlighted_iff_since (o : Opening) (es : List (Event S)) :
    let v : View S := o.view.run es
    (∀ d ∈ v.registry.descriptors, d.visible = true →
      v.highlighted = some d.key ∨ v.highlighted = none) ∧
    (∀ key,
      (∃ d ∈ v.registry.descriptors, d.key = key ∧ d.visible = true) ∧ v.highlighted ≠ some key ↔
        Since (o.view : View S) (ClosesCounterpart key) (Remains key) es) ∧
    ∀ key e, v.highlighted = some key → Remains key v e →
      ((v.step e).highlighted = some key ↔ ¬ ClosesCounterpart key v e) := by
  intro v
  have hstart := coherent_view (S := S) o
  have hnothing : ∀ d, d ∉ (o.view : View S).registry.descriptors := fun d => List.not_mem_nil
  have hv : v.Coherent := coherent_run hstart es
  have hs : v.NoOtherHighlighted :=
    noOtherHighlighted_run hstart (fun d hd => absurd hd (hnothing d)) es
  refine ⟨?_, ?_, fun key e hh hremains => highlight_kept_iff hv hh hremains⟩
  · intro d hd hvis
    cases hh : v.highlighted with
    | none => exact .inr rfl
    | some key => exact .inl (congrArg some (hs d hd hvis key hh))
  · intro key
    refine run_iff_since (I := fun u => u.Coherent ∧ u.HighlightShown)
      (P := fun u => u.Unhighlighted key)
      (fun hu e => ⟨(coherent_step hu.1 e).1, highlightShown_step hu.1 hu.2 e⟩)
      (fun hu e => unhighlighted_step_iff hu.1 hu.2 e)
      ⟨hstart, fun d hd => absurd hd (hnothing d)⟩ ?_ es
    intro hgiven
    obtain ⟨⟨d, hd, -⟩, -⟩ := hgiven
    exact hnothing d hd

end Surfaces

/-- The log of a container is closed, and the shell of the same container stays in the foreground
without the highlight. -/
theorem shell_unhighlighted_by_its_log :
    let log := SessionKey.single "a" "c" false
    let shell := SessionKey.single "a" "c" true
    let v : View Console := Opening.plain.view.run
      [.select onConsole (.ofKey log), .select onConsole (.ofKey shell), .occur (.kill log)]
    v.highlighted = some shell ∧ (v.pump onConsole).1.highlighted = none ∧
      (v.pump onConsole).1.registry.descriptors.map (fun d => (d.key, d.visible)) =
        [(shell, true)] :=
  ⟨rfl, rfl, rfl⟩

end View

end Switchboard
