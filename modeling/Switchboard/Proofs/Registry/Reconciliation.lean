import Switchboard.Proofs.Registry.Residence
import Switchboard.Proofs.Session.Inventories

/-!
# Reconciling with inventories

What does an inventory leave of a registry? The sessions whose pod it lists with their container, as
they were and where they were, whether they are logs or shells (`Shaped.mem_entries_reconcile`). The
merged session has no container to lose. Inventories may come in any order: what is left after some
of them are the sessions that each of them holds (`run_reconcile`), so neither their order nor the
repetition of one matters (`run_reconcile_congr`).
-/

namespace Switchboard

theorem Inventory.holds_iff {i : Inventory} {key : SessionKey} (hs : key.isMerged = false) :
    i.holds key = true ↔ ∃ pod container interactive,
      key = .single pod container interactive ∧ i.contains pod container = true := by
  cases key with
  | merged selectors => exact absurd hs.symm Bool.false_ne_true
  | single pod container interactive =>
      constructor
      · exact fun h => ⟨pod, container, interactive, rfl, h⟩
      · rintro ⟨p, c, b, hkey, h⟩
        cases hkey
        exact h

namespace Registry

/-! ## One inventory -/

theorem Shaped.mem_entries_reconcile {r : Registry} (h : r.Shaped) (i : Inventory)
    {d : Descriptor} :
    d ∈ (r.reconcile i).1.entries ↔
      d ∈ r.entries ∧ ∃ pod container interactive,
        d.key = .single pod container interactive ∧ i.contains pod container = true := by
  show d ∈ r.entries.filter (fun d => i.holds d.key) ↔ _
  rw [List.mem_filter]
  exact and_congr_right fun hd => Inventory.holds_iff (h.single d hd)

/-- What is said to be gone are the keys that are no longer listed. -/
theorem reconcile_snd (r : Registry) (i : Inventory) :
    (r.reconcile i).2 = r.entryKeys.filter (· ∉ (r.reconcile i).1.entryKeys) := by
  have hgone : ∀ d ∈ r.entries,
      (!i.holds d.key) = decide (d.key ∉ (r.reconcile i).1.entryKeys) := by
    intro d hd
    have hkept : d.key ∈ (r.reconcile i).1.entryKeys ↔ i.holds d.key = true := by
      constructor
      · intro hk
        obtain ⟨e, he, hek⟩ := List.mem_map.mp hk
        rw [← hek]
        exact (List.mem_filter.mp he).2
      · exact fun hk => List.mem_map.mpr ⟨d, List.mem_filter.mpr ⟨hd, hk⟩, rfl⟩
    rw [Bool.eq_iff_iff, Bool.not_eq_true', decide_eq_true_iff, hkept, Bool.not_eq_true]
  show (r.entries.filter (fun d => !i.holds d.key)).map (·.key) = _
  unfold entryKeys
  rw [List.filter_map]
  exact congrArg (List.map Descriptor.key) (List.filter_congr hgone)

/-- A registry that an inventory has been held against has nothing more to lose to it. -/
theorem reconcile_reconcile (r : Registry) (i : Inventory) :
    (r.reconcile i).1.reconcile i = ((r.reconcile i).1, []) := by
  have hall : ∀ d ∈ r.entries.filter (fun d => i.holds d.key), i.holds d.key = true :=
    fun d hd => (List.mem_filter.mp hd).2
  have hstay : (r.entries.filter (fun d => i.holds d.key)).filter (fun d => i.holds d.key) =
      r.entries.filter (fun d => i.holds d.key) := List.filter_eq_self.mpr hall
  have hnone : (r.entries.filter (fun d => i.holds d.key)).filter (fun d => !i.holds d.key) = [] :=
    List.filter_eq_nil_iff.mpr fun d hd => by simp [hall d hd]
  unfold reconcile
  dsimp only
  rw [hstay, hnone]
  rfl

/-! ## Several inventories -/

/-- **What is left after several inventories are the sessions that all of them hold.** -/
theorem run_reconcile (r : Registry) (inventories : List Inventory) :
    r.run (inventories.map .reconcile) =
      { r with entries := r.entries.filter fun d => inventories.all (·.holds d.key) } := by
  induction inventories generalizing r with
  | nil => simp [run]
  | cons i rest ih =>
      show (r.reconcile i).1.run (rest.map .reconcile) = _
      rw [ih]
      unfold reconcile
      dsimp only
      rw [List.filter_filter]
      simp only [List.all_cons, Bool.and_comm]

/-- Which inventories were seen is all that counts: not in which order, nor how often. -/
theorem run_reconcile_congr (r : Registry) {inventories others : List Inventory}
    (h : ∀ i, i ∈ inventories ↔ i ∈ others) :
    r.run (inventories.map .reconcile) = r.run (others.map .reconcile) := by
  have hheld : ∀ d : Descriptor,
      inventories.all (·.holds d.key) = others.all (·.holds d.key) := by
    intro d
    rw [Bool.eq_iff_iff, List.all_eq_true, List.all_eq_true]
    exact forall_congr' fun i => imp_congr_left (h i)
  rw [run_reconcile, run_reconcile]
  simp only [hheld]

/-- **An inventory prunes exactly, and in any order with others.** After any sequence of acts on a
new registry, an inventory leaves of the sessions of single containers those whose pod it knows with
their container, as they were and in their order; it tells the keys of the others in theirs, and
changes nothing else; and a second look at it tells of nothing more. An inventory knows of a pod the
containers of its last listing. Two inventories leave the same registry whichever comes first,
namely the sessions that either would leave, and so do any inventories in any order, however often
each is seen. -/
theorem reconcile_exact_and_commuting (endpoint : Endpoint) (ns : String)
    (acts : List RegistryAct) :
    let r := (opened endpoint ns).run acts
    (∀ i : Inventory,
      let after := (r.reconcile i).1
      after.entries.Sublist r.entries ∧
      (∀ d, d ∈ after.entries ↔ d ∈ r.entries ∧ ∃ pod container interactive,
        d.key = .single pod container interactive ∧ i.contains pod container = true) ∧
      (r.reconcile i).2 = r.entryKeys.filter (· ∉ after.entryKeys) ∧
      after = { r with entries := after.entries } ∧
      after.reconcile i = (after, [])) ∧
    (∀ pods pod container, (Inventory.ofList pods).contains pod container = true ↔
      ∃ containers, Inventory.Listed pods pod containers ∧ container ∈ containers) ∧
    (∀ i j : Inventory,
      let after := ((r.reconcile i).1.reconcile j).1
      after = ((r.reconcile j).1.reconcile i).1 ∧
      after = { r with entries := after.entries } ∧
      after.entries.Sublist r.entries ∧
      ∀ d, d ∈ after.entries ↔ d ∈ (r.reconcile i).1.entries ∧ d ∈ (r.reconcile j).1.entries) ∧
    ∀ inventories others : List Inventory, (∀ i, i ∈ inventories ↔ i ∈ others) →
      r.run (inventories.map .reconcile) = r.run (others.map .reconcile) := by
  intro r
  have hr : r.Shaped := shaped_run (shaped_opened endpoint ns) acts
  refine ⟨fun i => ⟨List.filter_sublist, fun d => hr.mem_entries_reconcile i, reconcile_snd r i,
    rfl, reconcile_reconcile r i⟩, fun pods pod container => Inventory.contains_ofList_iff, ?_,
    fun inventories others h => run_reconcile_congr r h⟩
  intro i j after
  have hafter : after = r.run ([i, j].map .reconcile) := rfl
  refine ⟨?_, rfl, List.filter_sublist.trans List.filter_sublist, fun d => ?_⟩
  · have hswap : ∀ k, k ∈ [i, j] ↔ k ∈ [j, i] := fun k => (List.Perm.swap j i []).mem_iff
    exact hafter.trans (run_reconcile_congr r hswap)
  · show d ∈ (r.entries.filter fun d => i.holds d.key).filter (fun d => j.holds d.key) ↔
      d ∈ r.entries.filter (fun d => i.holds d.key) ∧ d ∈ r.entries.filter fun d => j.holds d.key
    rw [List.mem_filter, List.mem_filter, List.mem_filter]
    exact ⟨fun h => ⟨h.1, h.1.1, h.2⟩, fun h => ⟨h.1, h.2.2⟩⟩

end Registry

end Switchboard
