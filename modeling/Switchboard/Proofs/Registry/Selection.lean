import Switchboard.Proofs.Registry.Run

/-!
# The session in the foreground

Which session of a registry is visible? After any sequence of acts there is at most one, and it is
the one that the last selection has selected (`visible_only_if_selected_last`). Behind that stands
one step lemma: a selection leaves nothing but the selected session visible, and every other act
only takes sessions away (`selectedOnly_act`).

That repeating a selection changes nothing is a fact about the whole state, not only about the
sessions that there are: it is read off each of the ways in which a selection can go.
-/

namespace Switchboard

namespace Registry

/-- A visible session is the one that was selected last. -/
def SelectedOnly (r : Registry) (last : Option (Option SessionKey)) : Prop :=
  ∀ d ∈ r.descriptors, d.visible = true → last = some (some d.key)

theorem selectedOnly_act {r : Registry} (h : r.Shaped) {last : Option (Option SessionKey)}
    (hl : r.SelectedOnly last) (a : RegistryAct) :
    (r.act a).SelectedOnly (a.selected?.or last) := by
  rcases act_cases h a with ⟨selected, rfl⟩ | ⟨hs, hthin⟩
  · intro d hd hv
    exact congrArg some (h.key_of_visible_select hd hv)
  · rw [hs]
    intro d hd hv
    exact hl d (hthin.subset d hd) hv

theorem selectedOnly_run {r : Registry} (h : r.Shaped) (hnone : r.SelectedOnly none)
    (acts : List RegistryAct) : (r.run acts).SelectedOnly (lastSelected? acts) := by
  induction acts using List.reverseRecOn with
  | nil => exact hnone
  | append_singleton acts a ih =>
      rw [run_concat, lastSelected?_concat]
      exact selectedOnly_act (shaped_run h acts) ih a

/-! ## Selecting again -/

theorem showOnly_showOnly (selected : Option SessionKey) (entries : List Descriptor) :
    showOnly selected (showOnly selected entries) = showOnly selected entries := by
  unfold showOnly
  rw [List.map_map]
  rfl

theorem showOnly_append (selected : Option SessionKey) (entries added : List Descriptor) :
    showOnly selected (entries ++ added) = showOnly selected entries ++ showOnly selected added :=
  List.map_append

/-- What a selection opens is as the same selection would show it. -/
theorem showOnly_describe (r : Registry) (key : SessionKey) :
    showOnly (some key) [r.describe key] = [r.describe key] := by
  have hvisible : (some key == some (r.describe key).key) = true := beq_self_eq_true (some key)
  show [{ r.describe key with visible := some key == some (r.describe key).key }] = _
  rw [hvisible]
  rfl

private theorem hide_hide (merged : Option Descriptor) :
    ((merged.map fun d => { d with visible := false }).map fun d => { d with visible := false }) =
      merged.map fun d => { d with visible := false } := by
  cases merged <;> rfl

theorem select_none_eq {r : Registry} :
    r.select none =
      { r with
        entries := showOnly none r.entries
        merged := r.merged.map fun d => { d with visible := false } } := rfl

/-- Selecting merged logs leaves them in the merged place, visible. -/
theorem exists_select_merged_eq (r : Registry) {key : SessionKey} (hm : key.isMerged = true) :
    ∃ d : Descriptor, r.select (some key) =
        { r with entries := showOnly (some key) r.entries, merged := some d } ∧
      d.key = key ∧ d.visible = true := by
  rw [select_merged_eq hm]
  cases hf : r.find? key with
  | none => exact ⟨r.describe key, rfl, rfl, rfl⟩
  | some d =>
      unfold find? at hf
      rw [if_pos hm] at hf
      exact ⟨{ d with visible := true }, rfl, eq_of_beq (Option.filter_eq_some_iff.mp hf).2, rfl⟩

theorem select_select_merged (r : Registry) {key : SessionKey} (hm : key.isMerged = true) :
    (r.select (some key)).select (some key) = r.select (some key) := by
  obtain ⟨d, honce, rfl, hv⟩ := exists_select_merged_eq r hm
  have hfound : (r.select (some d.key)).find? d.key = some d := by
    rw [honce]
    unfold find?
    rw [if_pos hm]
    exact Option.filter_eq_some_iff.mpr ⟨rfl, beq_self_eq_true _⟩
  have hshown : { d with visible := true } = d := by rw [← hv]
  rw [select_merged_eq (r := r.select (some d.key)) hm, hfound]
  dsimp only
  rw [hshown, honce, showOnly_showOnly]

theorem Shaped.select_select_single {r : Registry} (h : r.Shaped) {key : SessionKey}
    (hm : key.isMerged = false) :
    (r.select (some key)).select (some key) = r.select (some key) := by
  -- whether or not it was open before, the session is open after the first selection
  have hopen : ((r.select (some key)).find? key).isSome = true :=
    (shaped_select h (some key)).isSome_find?_iff.mpr (h.mem_keys_select key)
  rw [select_open_eq hm hopen]
  cases hf : (r.find? key).isSome with
  | true => rw [select_open_eq hm hf, showOnly_showOnly, hide_hide]
  | false =>
      rw [select_new_eq hm hf, showOnly_append, showOnly_showOnly, showOnly_describe, hide_hide]

/-- **Selecting twice is selecting once.** -/
theorem Shaped.select_select {r : Registry} (h : r.Shaped) (selected : Option SessionKey) :
    (r.select selected).select selected = r.select selected := by
  cases selected with
  | none =>
      rw [select_none_eq (r := r.select none), select_none_eq (r := r)]
      dsimp only
      rw [showOnly_showOnly, hide_hide]
  | some key =>
      cases hm : key.isMerged with
      | true => exact select_select_merged r hm
      | false => exact h.select_select_single hm

/-- **Only what was selected last is visible.** After any sequence of acts on a new registry: the
entries are sessions of single containers with keys of their own, and the merged place holds merged
logs; at most one session is visible, and only the one selected last. Selecting a key makes its
session open and visible, selecting nothing makes all sessions hidden, and selecting the same again
changes nothing. -/
theorem visible_only_if_selected_last (endpoint : Endpoint) (ns : String)
    (acts : List RegistryAct) :
    let r := (opened endpoint ns).run acts
    (∀ d ∈ r.entries, d.key.isMerged = false) ∧ (r.entries.map (·.key)).Nodup ∧
    (∀ d ∈ r.merged, d.key.isMerged = true) ∧
    (r.descriptors.filter (·.visible)).length ≤ 1 ∧
    (∀ d ∈ r.descriptors, d.visible = true → lastSelected? acts = some (some d.key)) ∧
    (∀ key, ∃ d, (r.select (some key)).find? key = some d ∧ d.visible = true) ∧
    (∀ d ∈ (r.select none).descriptors, d.visible = false) ∧
    ∀ selected, (r.select selected).select selected = r.select selected := by
  intro r
  have hnew := shaped_opened endpoint ns
  have hr : r.Shaped := shaped_run hnew acts
  have hlast : r.SelectedOnly (lastSelected? acts) :=
    selectedOnly_run hnew (fun d hd => absurd hd List.not_mem_nil) acts
  refine ⟨hr.single, hr.nodup, hr.merged, ?_, hlast, ?_, ?_, hr.select_select⟩
  · refine Keyed.length_filter_le_one hr.keys_nodup fun d hd e he hdv hev => ?_
    have hkey := (hlast d hd hdv).symm.trans (hlast e he hev)
    exact Option.some.inj (Option.some.inj hkey)
  · intro key
    obtain ⟨d, hd, hk⟩ := mem_keys.mp (hr.mem_keys_select key)
    exact ⟨d, (shaped_select hr (some key)).find?_eq_some_iff.mpr ⟨hd, hk⟩,
      hr.visible_select hd hk⟩
  · intro d hd
    by_contra hv
    exact absurd (hr.key_of_visible_select hd (by simpa using hv)) (by simp)

end Registry

end Switchboard
