import Switchboard.Proofs.Json.Members
import Switchboard.Proofs.Json.Records
import Switchboard.Proofs.Session.Inventories
import Switchboard.Session.Wire

/-!
# What a list of pods says

What does the tree of a list of pods say? It lists items, an item is named by its metadata, and it
lists a container if its specification has one of that name (`Lists`, `IsNamed`, `ListsContainer`).
This is what is read from it (`lists_of_readList`), so an inventory knows of a pod the containers of
its last item, and of an item without a specification none (`knows_of_readList`).
-/

namespace Switchboard

open Json

/-! ## What stands in the tree -/

/-- A record with these fields has a value under a name. -/
def Json.Has (names : List String) (v : Json) (name : String) (w : Json) : Prop :=
  ∃ members, MadeOf names v members ∧ under? name members = some w

theorem Json.MadeOf.has_iff {names : List String} {v : Json} {members : List Member}
    (h : MadeOf names v members) {name : String} {w : Json} :
    Has names v name w ↔ under? name members = some w := by
  constructor
  · rintro ⟨members', hmade, hunder⟩
    rwa [h.unique hmade]
  · exact fun hunder => ⟨members, h, hunder⟩

namespace PodListing

/-- The items that a list of pods has. They may be left out. -/
def Lists (v : Json) (items : List Json) : Prop :=
  Has ["items"] v "items" (.array items none) ∨ items = [] ∧ ∀ w, ¬ Has ["items"] v "items" w

/-- An item tells its name in its metadata. -/
def IsNamed (item : Json) (name : String) : Prop :=
  ∃ metadata, Has ["metadata", "spec"] item "metadata" metadata ∧
    Has ["name"] metadata "name" (ofText name)

/-- An item has a specification, and that has a container of this name. -/
def ListsContainer (item : Json) (container : String) : Prop :=
  ∃ spec containers, Has ["metadata", "spec"] item "spec" spec ∧
    Has ["containers"] spec "containers" (.array containers none) ∧
    ∃ c ∈ containers, Has ["name"] c "name" (ofText container)

/-! ## What is read -/

theorem has_name_of_readName {v : Json} {name : String} (h : readName v = .ok name) (s : String) :
    Has ["name"] v "name" (ofText s) ↔ s = name := by
  obtain ⟨members, hmade, -, w, hw, hread⟩ := readRecord_required_eq_ok_iff.mp h
  rw [hmade.has_iff, hw, readText_eq_ok_iff.mp hread, Option.some_inj, ofText_inj, eq_comm]

theorem has_container_of_readSpec {v : Json} {containers : List String}
    (h : readSpec v = .ok containers) (container : String) :
    (∃ items, Has ["containers"] v "containers" (.array items none) ∧
        ∃ c ∈ items, Has ["name"] c "name" (ofText container)) ↔ container ∈ containers := by
  obtain ⟨members, hmade, -, hspec⟩ := readRecord_optional_eq_ok_iff.mp h
  simp only [hmade.has_iff]
  rcases hspec with ⟨w, hw, hread⟩ | ⟨hnone, rfl⟩
  · obtain ⟨items, rfl, hitems⟩ := readList_eq_ok_iff.mp hread
    obtain ⟨pairs, rfl, rfl, hpairs⟩ := exists_pairs_of_mapM hitems
    rw [List.mem_map]
    constructor
    · rintro ⟨items, hitems, c, hc, hname⟩
      rw [hw] at hitems
      cases hitems
      obtain ⟨p, hp, rfl⟩ := List.mem_map.mp hc
      exact ⟨p, hp, ((has_name_of_readName (hpairs p hp) container).mp hname).symm⟩
    · rintro ⟨p, hp, rfl⟩
      exact ⟨_, hw, p.1, List.mem_map_of_mem hp,
        (has_name_of_readName (hpairs p hp) p.2).mpr rfl⟩
  · rw [hnone]
    simp

/-- A specification may be null, and has no containers then. -/
theorem has_container_of_spec {v : Json} {containers? : Option (List String)}
    (h : Json.readOption readSpec v = .ok containers?) (container : String) :
    (∃ items, Has ["containers"] v "containers" (.array items none) ∧
        ∃ c ∈ items, Has ["name"] c "name" (ofText container)) ↔
      container ∈ containers?.getD [] := by
  by_cases hv : v = .null
  · subst hv
    cases h
    refine iff_of_false ?_ List.not_mem_nil
    rintro ⟨items, ⟨members, hmade, -⟩, -⟩
    cases hmade
  · have hsome : Json.readOption readSpec v = some <$> readSpec v := by
      unfold Json.readOption
      split
      · exact absurd rfl hv
      · rfl
    rw [hsome] at h
    obtain ⟨containers, hread, rfl⟩ := Steps.map_eq_ok_iff.mp h
    exact has_container_of_readSpec hread container

/-- The fields of a pod. -/
def podFields : List (Json.Field PodListing) :=
  [ ⟨"metadata", fun v p => do return { p with name := ← readName v }⟩,
    ⟨"spec", fun v p => do
      return { p with containers := (← Json.readOption readSpec v).getD [] }⟩ ]

theorem ofJson_eq (v : Json) : ofJson v = readRecord podFields ["metadata"] ⟨"", []⟩ v := rfl

/-- The name of a pod and its containers are read into different places. -/
theorem independent_podFields : Independent podFields := by
  have hswap (v w : Json) (p : PodListing) :
      ((do return { p with name := ← readName v }) >>= fun p : PodListing => do
        return { p with containers := (← Json.readOption readSpec w).getD [] }).toOption =
      ((do return { p with containers := (← Json.readOption readSpec w).getD [] }) >>=
        fun p : PodListing => do return { p with name := ← readName v }).toOption := by
    cases readName v <;> cases Json.readOption readSpec w <;> rfl
  intro f hf g hg hne v w p
  simp only [podFields, List.mem_cons, List.not_mem_nil, or_false] at hf hg
  rcases hf with rfl | rfl
  · rcases hg with rfl | rfl
    · exact absurd rfl hne
    · exact hswap v w p
  · rcases hg with rfl | rfl
    · exact (hswap w v p).symm
    · exact absurd rfl hne

theorem ofJson_eq_ok_iff {v : Json} {p : PodListing} :
    ofJson v = .ok p ↔
      ∃ members, MadeOf ["metadata", "spec"] v members ∧ Orderly ["metadata", "spec"] members ∧
        (∃ metadata, under? "metadata" members = some metadata ∧ readName metadata = .ok p.name) ∧
        ((∃ spec containers?, under? "spec" members = some spec ∧
            Json.readOption readSpec spec = .ok containers? ∧
            p.containers = containers?.getD []) ∨
          under? "spec" members = none ∧ p.containers = []) := by
  have hnames : (podFields.map (·.name)).Nodup := by decide
  rw [ofJson_eq, readRecord_eq_ok_iff hnames independent_podFields (by simp [podFields])]
  refine exists_congr fun members => and_congr_right fun _ => and_congr_right fun _ => ?_
  obtain ⟨name, containers⟩ := p
  rw [podFields, readings_cons, readings_cons, List.forall_mem_singleton]
  -- a pod has four forms: with and without metadata, with and without a specification
  cases under? "metadata" members with
  | none => simp
  | some metadata =>
      cases under? "spec" members with
      | none =>
          cases hname : readName metadata <;>
            simp [readInto, readings, hname, bind, Except.bind, pure, Except.pure, eq_comm]
      | some spec =>
          cases hname : readName metadata <;> cases hspec : Json.readOption readSpec spec <;>
            simp [readInto, readings, hname, hspec, bind, Except.bind, pure, Except.pure, eq_comm]

/-- What is read of an item is its name and the containers that it lists. -/
theorem item_of_ofJson {item : Json} {p : PodListing} (h : ofJson item = .ok p) :
    (∀ name, IsNamed item name ↔ name = p.name) ∧
      ∀ container, ListsContainer item container ↔ container ∈ p.containers := by
  obtain ⟨members, hmade, -, ⟨metadata, hmetadata, hname⟩, hspec⟩ := ofJson_eq_ok_iff.mp h
  unfold IsNamed ListsContainer
  simp only [hmade.has_iff]
  constructor
  · intro name
    rw [hmetadata]
    constructor
    · rintro ⟨_, hsame, hhas⟩
      cases hsame
      exact (has_name_of_readName hname name).mp hhas
    · rintro rfl
      exact ⟨metadata, rfl, (has_name_of_readName hname p.name).mpr rfl⟩
  · intro container
    rcases hspec with ⟨spec, containers?, hspec, hread, hcontainers⟩ | ⟨hnone, hcontainers⟩
    · rw [hspec, hcontainers, ← has_container_of_spec hread]
      constructor
      · rintro ⟨_, items, hsame, hitems⟩
        cases hsame
        exact ⟨items, hitems⟩
      · rintro ⟨items, hitems⟩
        exact ⟨spec, items, rfl, hitems⟩
    · rw [hnone, hcontainers]
      simp

/-- **What is read of a list of pods is what it lists**, item by item. -/
theorem lists_of_readList {v : Json} {pods : List PodListing} (h : readList v = .ok pods) :
    ∃ pairs : List (Json × PodListing), Lists v (pairs.map Prod.fst) ∧
      pods = pairs.map Prod.snd ∧ ∀ q ∈ pairs, ofJson q.1 = .ok q.2 := by
  obtain ⟨members, hmade, -, ⟨w, hw, hread⟩ | ⟨hnone, rfl⟩⟩ :=
    readRecord_optional_eq_ok_iff.mp h
  · obtain ⟨items, rfl, hitems⟩ := readList_eq_ok_iff.mp hread
    obtain ⟨pairs, rfl, rfl, hpairs⟩ := exists_pairs_of_mapM hitems
    exact ⟨pairs, .inl (hmade.has_iff.mpr hw), rfl, hpairs⟩
  · refine ⟨[], .inr ⟨rfl, fun w hw => ?_⟩, rfl, fun q hq => absurd hq List.not_mem_nil⟩
    rw [hmade.has_iff, hnone] at hw
    cases hw

section Pairs

variable {pairs : List (Json × PodListing)} (hpairs : ∀ q ∈ pairs, ofJson q.1 = .ok q.2)
include hpairs

theorem mem_names_iff {pod : String} :
    pod ∈ (pairs.map Prod.snd).map PodListing.name ↔
      ∃ item ∈ pairs.map Prod.fst, IsNamed item pod := by
  rw [List.map_map, List.mem_map]
  constructor
  · rintro ⟨q, hq, rfl⟩
    exact ⟨q.1, List.mem_map_of_mem hq, ((item_of_ofJson (hpairs q hq)).1 _).mpr rfl⟩
  · rintro ⟨item, hmem, hnamed⟩
    obtain ⟨q, hq, rfl⟩ := List.mem_map.mp hmem
    exact ⟨q, hq, (((item_of_ofJson (hpairs q hq)).1 pod).mp hnamed).symm⟩

/-- What is read last of a pod is what the last item of its name lists. -/
theorem listed_iff {pod container : String} :
    (∃ containers, Inventory.Listed ((pairs.map Prod.snd).map fun p => (p.name, p.containers))
        pod containers ∧ container ∈ containers) ↔
      ∃ before item after, pairs.map Prod.fst = before ++ item :: after ∧ IsNamed item pod ∧
        (∀ later ∈ after, ¬ IsNamed later pod) ∧ ListsContainer item container := by
  rw [List.map_map]
  simp only [Inventory.listed_map_iff]
  constructor
  · rintro ⟨containers, ⟨before, q, after, rfl, hq, hlater⟩, hcontainer⟩
    obtain ⟨rfl, rfl⟩ := Prod.mk.inj hq
    obtain ⟨hnamed, hlists⟩ := item_of_ofJson (hpairs q (by simp))
    refine ⟨before.map Prod.fst, q.1, after.map Prod.fst, by simp, (hnamed _).mpr rfl, ?_,
      (hlists container).mpr hcontainer⟩
    rw [List.forall_mem_map]
    intro later hmem hsame
    have hread := hpairs later (by simp [hmem])
    exact hlater later hmem (((item_of_ofJson hread).1 _).mp hsame).symm
  · rintro ⟨before, item, after, hsplit, hnamed, hlater, hlists⟩
    obtain ⟨before, rest, rfl, rfl, hrest⟩ := List.map_eq_append_iff.mp hsplit
    obtain ⟨q, after, rfl, rfl, rfl⟩ := List.map_eq_cons_iff.mp hrest
    obtain ⟨hname, hcontainers⟩ := item_of_ofJson (hpairs q (by simp))
    refine ⟨q.2.containers, ⟨before, q, after, rfl, ?_, ?_⟩, (hcontainers container).mp hlists⟩
    · exact Prod.ext ((hname pod).mp hnamed).symm rfl
    · intro later hmem hsame
      have hread := hpairs later (by simp [hmem])
      exact hlater later.1 (List.mem_map_of_mem hmem)
        (((item_of_ofJson hread).1 pod).mpr hsame.symm)

end Pairs

end PodListing

/-! ## What is known -/

/-- An inventory knows what a list of pods with these items says. -/
structure Inventory.Knows (i : Inventory) (items : List Json) : Prop where
  contains : ∀ pod container, i.contains pod container = true ↔
    ∃ before item after, items = before ++ item :: after ∧ PodListing.IsNamed item pod ∧
      (∀ later ∈ after, ¬ PodListing.IsNamed later pod) ∧ PodListing.ListsContainer item container
  hasPod : ∀ pod, i.hasPod pod = true ↔ ∃ item ∈ items, PodListing.IsNamed item pod
  size : ∃ names : Finset String,
    (∀ pod, pod ∈ names ↔ ∃ item ∈ items, PodListing.IsNamed item pod) ∧ i.size = names.card

/-- **An inventory knows what was read**: of each pod the containers of its last item. -/
theorem Inventory.knows_of_readList {v : Json} {pods : List PodListing}
    (h : PodListing.readList v = .ok pods) :
    ∃ items, PodListing.Lists v items ∧ (Inventory.ofListings pods).Knows items := by
  obtain ⟨pairs, hlists, rfl, hpairs⟩ := PodListing.lists_of_readList h
  refine ⟨_, hlists, ?_⟩
  have hnames : ((pairs.map Prod.snd).map fun p : PodListing => (p.name, p.containers)).map
      Prod.fst = (pairs.map Prod.snd).map PodListing.name := by
    rw [List.map_map]
    rfl
  unfold Inventory.ofListings
  refine ⟨?_, ?_, ⟨_, ?_, size_ofList _⟩⟩
  · intro pod container
    rw [contains_ofList_iff]
    exact PodListing.listed_iff hpairs
  · intro pod
    rw [hasPod_ofList_iff, hnames, PodListing.mem_names_iff hpairs]
  · intro pod
    rw [List.mem_toFinset, hnames, PodListing.mem_names_iff hpairs]

end Switchboard
