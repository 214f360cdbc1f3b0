import Switchboard.Proofs.Registry.Shape

/-!
# From one registry to the next

What a selection, an inventory, a deletion and a change of scope have in common: the registry keeps
its shape, a session that stays keeps the address of its stream, and at most one session is in the
foreground (`Succeeds`). An inventory and a deletion only take sessions away (`Succeeds.of_filter`).
-/

namespace Switchboard

namespace Registry

/-- At most one session is in the foreground. -/
def OneShown (r : Registry) : Prop :=
  ∀ d ∈ r.descriptors, ∀ e ∈ r.descriptors, d.visible = true → e.visible = true → d.key = e.key

/-- What a registry and the next one have to do with each other: see the module's comment. -/
structure Succeeds (r r' : Registry) : Prop where
  shaped : r'.Shaped
  closed : r'.closed = r.closed
  streamUrls : ∀ d' ∈ r'.descriptors, d'.key ∈ r.keys →
    ∃ d ∈ r.descriptors, d.key = d'.key ∧ d.streamUrl = d'.streamUrl
  oneShown : r.OneShown → r'.OneShown

/-- A registry that has lost some sessions, and is otherwise the same. -/
theorem Succeeds.of_filter {r r' : Registry} (hs : r'.Shaped) (hc : r'.closed = r.closed)
    {keep : Descriptor → Bool} (hd : r'.descriptors = r.descriptors.filter keep) :
    Succeeds r r' := by
  have hsub : ∀ d ∈ r'.descriptors, d ∈ r.descriptors := by
    intro d hmem
    rw [hd] at hmem
    exact (List.mem_filter.mp hmem).1
  refine ⟨hs, hc, ?_, ?_⟩
  · exact fun d hmem _ => ⟨d, hsub d hmem, rfl, rfl⟩
  · exact fun h d hmem e hmem' => h d (hsub d hmem) e (hsub e hmem')

theorem oneShown_opened (endpoint : Endpoint) (ns : String) : (opened endpoint ns).OneShown := by
  intro d hd
  exact absurd hd List.not_mem_nil

theorem succeeds_flush {r r' : Registry} (hc : r'.closed = r.closed) : Succeeds r r'.flush := by
  have hnone : r'.flush.descriptors = r.descriptors.filter fun _ => false := by simp
  exact .of_filter (shaped_flush r') hc hnone

theorem succeeds_reconcile {r : Registry} (h : r.Shaped) (i : Inventory) :
    Succeeds r (r.reconcile i).1 :=
  .of_filter (shaped_reconcile h i) rfl (h.descriptors_reconcile i)

/-- After a selection, only the selected session is in the foreground. -/
theorem Shaped.key_of_visible_select {r : Registry} (h : r.Shaped) {selected : Option SessionKey}
    {d : Descriptor} (hd : d ∈ (r.select selected).descriptors) (hv : d.visible = true) :
    selected = some d.key := by
  rcases h.mem_descriptors_select.mp hd with ⟨e, -, -, rfl⟩ | ⟨key, hkey, -, rfl⟩
  · exact eq_of_beq hv
  · exact hkey

/-- After a selection, the selected session is in the foreground. -/
theorem Shaped.visible_select {r : Registry} (h : r.Shaped) {key : SessionKey} {d : Descriptor}
    (hd : d ∈ (r.select (some key)).descriptors) (hk : d.key = key) : d.visible = true := by
  rcases h.mem_descriptors_select.mp hd with ⟨e, -, -, rfl⟩ | ⟨key', -, -, rfl⟩
  · have he : e.key = key := hk
    show (some key == some e.key) = true
    rw [he]
    exact beq_self_eq_true _
  · rfl

/-- After a selection, the selected session is open. -/
theorem Shaped.mem_keys_select {r : Registry} (h : r.Shaped) (key : SessionKey) :
    key ∈ (r.select (some key)).keys := by
  rw [mem_keys]
  by_cases hk : key ∈ r.keys
  · obtain ⟨d, hd, rfl⟩ := mem_keys.mp hk
    refine ⟨shownBy (some d.key) d, h.mem_descriptors_select.mpr (.inl ⟨d, hd, ?_, rfl⟩), rfl⟩
    intro hgiven
    obtain ⟨other, ho, -, -, hne⟩ := hgiven
    exact hne (Option.some.inj ho).symm
  · exact ⟨r.describe key, h.mem_descriptors_select.mpr (.inr ⟨key, rfl, hk, rfl⟩), rfl⟩

/-- A selection opens nothing but the selected session. -/
theorem Shaped.eq_of_mem_keys_select {r : Registry} (h : r.Shaped) {selected : Option SessionKey}
    {key : SessionKey} (hk : key ∈ (r.select selected).keys) (hn : key ∉ r.keys) :
    selected = some key := by
  obtain ⟨d, hd, rfl⟩ := mem_keys.mp hk
  rcases h.mem_descriptors_select.mp hd with ⟨e, he, -, rfl⟩ | ⟨other, ho, -, rfl⟩
  · exact absurd (mem_keys.mpr ⟨e, he, rfl⟩) hn
  · exact ho

theorem closed_select (r : Registry) (selected : Option SessionKey) :
    (r.select selected).closed = r.closed := by
  unfold select
  cases selected with
  | none => rfl
  | some key =>
      dsimp only
      split
      · rfl
      · split <;> rfl

theorem succeeds_select {r : Registry} (h : r.Shaped) (selected : Option SessionKey) :
    Succeeds r (r.select selected) := by
  refine ⟨shaped_select h selected, closed_select r selected, ?_, ?_⟩
  · intro d hd hk
    rcases h.mem_descriptors_select.mp hd with ⟨e, he, -, rfl⟩ | ⟨key, -, hn, rfl⟩
    · exact ⟨e, he, rfl, rfl⟩
    · exact absurd hk hn
  · intro _ d hd e he hdv hev
    have hkd := h.key_of_visible_select hd hdv
    rw [h.key_of_visible_select he hev] at hkd
    exact (Option.some.inj hkd).symm

end Registry

end Switchboard
