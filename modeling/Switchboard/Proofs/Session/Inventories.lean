import Mathlib.Data.Finset.Card
import Mathlib.Data.List.Dedup
import Mathlib.Data.List.Induction
import Switchboard.Session.Inventory

/-!
# What an inventory knows of a list of pods

Pods are listed one after the other, and a pod may be listed again. What counts is its last listing
(`Listed`): that is where its containers are looked up (`containers?_ofList_eq_some_iff`,
`contains_ofList_iff`), so nothing of an earlier listing is left. A pod counts once, however often
it is listed (`size_ofList`).
-/

namespace Switchboard

namespace Inventory

/-- A list of pods says last of a pod that it has these containers. -/
def Listed (pods : List (String × List String)) (pod : String) (containers : List String) : Prop :=
  ∃ before after, pods = before ++ (pod, containers) :: after ∧ ∀ l ∈ after, l.1 ≠ pod

/-! ## Listing one pod more -/

theorem listed_concat_iff {pods : List (String × List String)} {name pod : String}
    {containers cs : List String} :
    Listed (pods ++ [(name, containers)]) pod cs ↔
      if pod = name then cs = containers else Listed pods pod cs := by
  constructor
  · rintro ⟨before, after, hpods, hafter⟩
    cases after using List.reverseRecOn with
    | nil =>
        obtain ⟨-, hlast⟩ := List.append_inj' hpods rfl
        obtain ⟨rfl, rfl⟩ := Prod.mk.inj (List.cons.inj hlast).1
        exact (if_pos rfl).symm ▸ rfl
    | append_singleton after l =>
        rw [← List.cons_append, ← List.append_assoc] at hpods
        obtain ⟨hpods, hlast⟩ := List.append_inj' hpods rfl
        have hl : l.1 ≠ pod := hafter l List.mem_concat_self
        rw [← (List.cons.inj hlast).1] at hl
        rw [if_neg (Ne.symm hl)]
        exact ⟨before, after, hpods, fun m hm => hafter m (List.mem_append_left [l] hm)⟩
  · intro h
    split at h
    · next hname =>
      exact ⟨pods, [], by rw [h, hname], fun l hl => absurd hl List.not_mem_nil⟩
    · next hname =>
      obtain ⟨before, after, rfl, hafter⟩ := h
      refine ⟨before, after ++ [(name, containers)], by simp, fun l hl => ?_⟩
      rcases List.mem_append.mp hl with hl | hl
      · exact hafter l hl
      · rw [List.mem_singleton.mp hl]
        exact Ne.symm hname

/-- What is said last in a list that has been made of another one. -/
theorem listed_map_iff {α : Type} {f : α → String × List String} {l : List α} {pod : String}
    {containers : List String} :
    Listed (l.map f) pod containers ↔
      ∃ before a after, l = before ++ a :: after ∧ f a = (pod, containers) ∧
        ∀ b ∈ after, (f b).1 ≠ pod := by
  constructor
  · rintro ⟨_, _, hsplit, hlast⟩
    obtain ⟨before, rest, rfl, rfl, hrest⟩ := List.map_eq_append_iff.mp hsplit
    obtain ⟨a, after, rfl, ha, rfl⟩ := List.map_eq_cons_iff.mp hrest
    exact ⟨before, a, after, rfl, ha, fun b hb => hlast (f b) (List.mem_map_of_mem hb)⟩
  · rintro ⟨before, a, after, rfl, ha, hlast⟩
    refine ⟨before.map f, after.map f, by rw [List.map_append, List.map_cons, ha], ?_⟩
    exact List.forall_mem_map.mpr hlast

theorem ofList_concat (pods : List (String × List String)) (pod : String)
    (containers : List String) :
    ofList (pods ++ [(pod, containers)]) = (ofList pods).insert pod containers :=
  List.foldl_append

/-- A listing counts for its pod and for no other. -/
theorem containers?_insert (i : Inventory) (name : String) (containers : List String)
    (pod : String) :
    (i.insert name containers).containers? pod =
      if pod = name then some containers else i.containers? pod := by
  unfold containers? insert
  dsimp only
  rw [List.find?_append, List.find?_filter]
  by_cases hname : pod = name
  · have hnone : i.pods.find? (fun l => (l.1 != name) = true ∧ (l.1 == pod) = true) = none := by
      rw [List.find?_eq_none]
      intro l _
      simp [hname]
    rw [if_pos hname, hnone, hname]
    simp
  · have hsame : (fun l : String × List String =>
        decide ((l.1 != name) = true ∧ (l.1 == pod) = true)) = fun l => l.1 == pod := by
      funext l
      by_cases hl : l.1 = pod
      · simp [hl, hname]
      · simp [hl]
    have hother : [(name, containers)].find? (fun l => l.1 == pod) = none := by
      simp [Ne.symm hname]
    rw [if_neg hname, hsame, hother, Option.or_none]

/-! ## Lists of pods -/

/-- **The containers of a pod are those of its last listing.** -/
theorem containers?_ofList_eq_some_iff {pods : List (String × List String)} {pod : String}
    {containers : List String} :
    (ofList pods).containers? pod = some containers ↔ Listed pods pod containers := by
  induction pods using List.reverseRecOn with
  | nil =>
      refine iff_of_false (by simp [ofList, empty, containers?]) ?_
      rintro ⟨before, after, h, -⟩
      exact absurd h (by simp)
  | append_singleton pods l ih =>
      obtain ⟨name, cs⟩ := l
      rw [ofList_concat, containers?_insert, listed_concat_iff]
      split
      · rw [Option.some_inj]
        exact eq_comm
      · exact ih

theorem contains_ofList_iff {pods : List (String × List String)} {pod container : String} :
    (ofList pods).contains pod container = true ↔
      ∃ containers, Listed pods pod containers ∧ container ∈ containers := by
  unfold contains
  cases h : (ofList pods).containers? pod with
  | none =>
      refine iff_of_false Bool.false_ne_true ?_
      rintro ⟨containers, hlisted, -⟩
      rw [containers?_ofList_eq_some_iff.mpr hlisted] at h
      exact absurd h (by simp)
  | some containers =>
      have hlisted := containers?_ofList_eq_some_iff.mp h
      show containers.contains container = true ↔ _
      rw [List.contains_iff_mem]
      constructor
      · exact fun hc => ⟨containers, hlisted, hc⟩
      · rintro ⟨cs, hcs, hc⟩
        rw [← containers?_ofList_eq_some_iff, h] at hcs
        rwa [Option.some_inj.mp hcs]

/-- The pods known are those listed, each once. -/
theorem mem_names_ofList (pods : List (String × List String)) :
    ((ofList pods).pods.map Prod.fst).Nodup ∧
      ∀ pod, pod ∈ (ofList pods).pods.map Prod.fst ↔ pod ∈ pods.map Prod.fst := by
  induction pods using List.reverseRecOn with
  | nil => exact ⟨List.nodup_nil, fun _ => Iff.rfl⟩
  | append_singleton pods l ih =>
      obtain ⟨name, containers⟩ := l
      have hmap : (ofList (pods ++ [(name, containers)])).pods.map Prod.fst =
          ((ofList pods).pods.map Prod.fst).filter (· != name) ++ [name] := by
        rw [ofList_concat, List.filter_map]
        exact List.map_append
      rw [hmap]
      constructor
      · rw [List.nodup_append]
        refine ⟨ih.1.filter _, List.nodup_singleton name, ?_⟩
        intro a ha b hb hab
        rw [hab, List.mem_singleton.mp hb] at ha
        simpa using (List.mem_filter.mp ha).2
      · intro pod
        rw [List.mem_append, List.mem_filter, ih.2 pod, List.map_append, List.mem_append]
        by_cases hpod : pod = name
        · simp [hpod]
        · simp [hpod]

theorem hasPod_ofList_iff {pods : List (String × List String)} {pod : String} :
    (ofList pods).hasPod pod = true ↔ pod ∈ pods.map Prod.fst := by
  rw [← (mem_names_ofList _).2 pod]
  unfold hasPod containers?
  rw [Option.isSome_map, List.find?_isSome, List.mem_map]
  simp

/-- **A pod counts once, however often it is listed.** -/
theorem size_ofList (pods : List (String × List String)) :
    (ofList pods).size = (pods.map Prod.fst).toFinset.card := by
  obtain ⟨hnodup, hmem⟩ := mem_names_ofList pods
  have hsame : (pods.map Prod.fst).toFinset = ((ofList pods).pods.map Prod.fst).toFinset := by
    ext pod
    rw [List.mem_toFinset, List.mem_toFinset, hmem]
  rw [hsame, List.toFinset_card_of_nodup hnodup, List.length_map]
  rfl

end Inventory

end Switchboard
