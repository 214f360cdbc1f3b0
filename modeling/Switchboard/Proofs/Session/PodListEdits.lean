import Mathlib.Logic.Relation
import Switchboard.Proofs.Json.Writing
import Switchboard.Proofs.Session.PodLists

/-!
# What does not matter in a list of pods

A cluster says more of a pod than is asked for, and in no fixed order. In a list of pods, members
that nobody asks for may come and go, all members may change places, and so may the containers of
a pod, which may also be repeated (`PodListEdit`). Each reader reads the same after such an edit,
from the names inside out to the whole list (`PodListEdit.agree`), so the inventory is the same.
-/

namespace Switchboard

open Json

namespace PodListing

/-! ## Edits -/

/-- Edits of what is read for its name, which stays. -/
def NameEdit : Json → Json → Prop := RecordEdit [("name", Eq)]

/-- Edits of the containers of a pod: of one of them, or of their order and number. -/
def ContainersEdit (v w : Json) : Prop := ListEdit NameEdit v w ∨ SameItems v w

def SpecEdit : Json → Json → Prop := RecordEdit [("containers", ContainersEdit)]

def PodEdit : Json → Json → Prop := RecordEdit [("metadata", NameEdit), ("spec", SpecEdit)]

/-- Edits of a list of pods. The items stay in their order, since the last one of a name counts. -/
def PodListEdit : Json → Json → Prop := RecordEdit [("items", ListEdit PodEdit)]

/-! ## Readers -/

/-- The same containers. -/
def SameContainers (cs ds : List String) : Prop := ∀ c, c ∈ cs ↔ c ∈ ds

theorem SameContainers.refl (cs : List String) : SameContainers cs cs := fun _ => Iff.rfl

/-- A pod of the same name with the same containers. -/
structure Same (p q : PodListing) : Prop where
  name : p.name = q.name
  containers : SameContainers p.containers q.containers

theorem Same.refl (p : PodListing) : Same p p := ⟨rfl, .refl p.containers⟩

variable {v w : Json}

theorem NameEdit.agree (h : NameEdit v w) : Agree Eq (readName v) (readName w) :=
  RecordEdit.agree_one h (by simp) (fun _ => rfl) (fun v w hvw => hvw ▸ .refl (fun _ => rfl) _) ""

theorem ContainersEdit.agree (h : ContainersEdit v w) :
    Agree SameContainers (Json.readList readName v) (Json.readList readName w) := by
  rcases h with h | h
  · have hnames := h.agree (fun _ => rfl) fun v w => NameEdit.agree
    rw [List.forall₂_eq_eq_eq] at hnames
    exact hnames.imp fun as bs hsame => hsame ▸ .refl as
  · exact h.agree

theorem SpecEdit.agree (h : SpecEdit v w) : Agree SameContainers (readSpec v) (readSpec w) :=
  RecordEdit.agree_one h (by simp) SameContainers.refl (fun v w => ContainersEdit.agree) []

/-- A specification that is edited is not null. -/
theorem SpecEdit.agree_option (h : SpecEdit v w) :
    Agree (fun o o' => SameContainers (o.getD []) (o'.getD []))
      (Json.readOption readSpec v) (Json.readOption readSpec w) := by
  have hsome : Agree (fun o o' => SameContainers (o.getD []) (o'.getD []))
      (some <$> readSpec v) (some <$> readSpec w) := h.agree.map fun _ _ hsame => hsame
  cases h with
  | object _ => exact hsome
  | array _ _ => exact hsome

theorem PodEdit.agree (h : PodEdit v w) : Agree Same (ofJson v) (ofJson w) := by
  rw [ofJson_eq, ofJson_eq]
  refine RecordEdit.agree h rfl (by decide) independent_podFields (by simp [podFields]) ?_
    (.refl _)
  intro f hf edit hpart v w hvw p q hpq
  simp only [podFields, List.mem_cons, List.not_mem_nil, or_false] at hf
  rcases hf with rfl | rfl
  · obtain rfl : edit = NameEdit := by simpa using hpart
    have hnames : Agree Eq (readName v) (readName w) :=
      agree_of_touches (fun _ => rfl) (fun v w (h : NameEdit v w) => h.agree) hvw
    exact hnames.bind fun _ _ hname => .ok (Same.mk hname hpq.containers)
  · obtain rfl : edit = SpecEdit := by simpa using hpart
    have hspecs : Agree (fun o o' => SameContainers (o.getD []) (o'.getD []))
        (Json.readOption readSpec v) (Json.readOption readSpec w) :=
      agree_of_touches (fun o => .refl (o.getD []))
        (fun v w (h : SpecEdit v w) => h.agree_option) hvw
    exact hspecs.bind fun _ _ hcontainers => .ok (Same.mk hpq.name hcontainers)

theorem PodListEdit.agree (h : PodListEdit v w) :
    Agree (List.Forall₂ Same) (readList v) (readList w) :=
  RecordEdit.agree_one h (by simp) (fun pods => List.forall₂_same.mpr fun p _ => .refl p)
    (fun v w hvw => hvw.agree Same.refl fun v w => PodEdit.agree) []

/-! ## Trees that are read whole -/

theorem skipFault_of_readName {s : String} (h : readName v = .ok s) : skipFault v = none := by
  refine skipFault_of_readRecord (nodup_names_singleton _) (independent_singleton _) (by simp) ?_ h
  intro f hf w s t hw
  obtain rfl := List.mem_singleton.mp hf
  exact skipFault_of_readText hw

theorem skipFault_of_readSpec {containers : List String} (h : readSpec v = .ok containers) :
    skipFault v = none := by
  refine skipFault_of_readRecord (nodup_names_singleton _) (independent_singleton _) (by simp) ?_ h
  intro f hf w s t hw
  obtain rfl := List.mem_singleton.mp hf
  exact skipFault_of_readList (fun _ _ => skipFault_of_readName) hw

theorem skipFault_of_ofJson {p : PodListing} (h : ofJson v = .ok p) : skipFault v = none := by
  refine skipFault_of_readRecord (by decide) independent_podFields (by simp [podFields]) ?_
    (ofJson_eq v ▸ h)
  intro f hf w s t hw
  simp only [podFields, List.mem_cons, List.not_mem_nil, or_false] at hf
  rcases hf with rfl | rfl
  · obtain ⟨name, hname, -⟩ := Steps.bind_eq_ok_iff.mp hw
    exact skipFault_of_readName hname
  · obtain ⟨containers?, hspec, -⟩ := Steps.bind_eq_ok_iff.mp hw
    exact skipFault_of_readOption (fun _ _ => skipFault_of_readSpec) hspec

theorem skipFault_of_podList {pods : List PodListing} (h : readList v = .ok pods) :
    skipFault v = none := by
  refine skipFault_of_readRecord (nodup_names_singleton _) (independent_singleton _) (by simp) ?_ h
  intro f hf w s t hw
  obtain rfl := List.mem_singleton.mp hf
  exact skipFault_of_readList (fun _ _ => skipFault_of_ofJson) hw

/-! ## A list that is written twice -/

def nameTree (name : String) (others : List Member) : Json :=
  .object ((some "name".toList, ofText name) :: others) none

def metadataTree (name : String) : Member := (some "metadata".toList, nameTree name [])

def specTree (containers : List Json) : Member :=
  (some "spec".toList, .object [(some "containers".toList, .array containers none)] none)

def itemsTree (pods : List Json) : Member := (some "items".toList, .array pods none)

/-- The containers of a pod are edited where they stand. -/
theorem PodEdit.spec {cs ds : List Json} (h : ContainersEdit (.array cs none) (.array ds none))
    (before after : List Member) :
    PodEdit (.object (before ++ specTree cs :: after) none)
      (.object (before ++ specTree ds :: after) none) := by
  have hspec : SpecEdit (specTree cs).2 (specTree ds).2 :=
    .object (@MemberEdit.field _ [] [] _ _ _ _ (List.mem_singleton.mpr rfl) h)
  exact .object (.field (List.mem_cons_of_mem _ (List.mem_singleton.mpr rfl)) hspec)

/-- A pod is edited where it stands. -/
theorem PodListEdit.item (h : PodEdit v w) (before after : List Json) :
    PodListEdit (.object [itemsTree (before ++ v :: after)] none)
      (.object [itemsTree (before ++ w :: after)] none) :=
  .object (@MemberEdit.field _ [] [] _ _ _ _ (List.mem_singleton.mpr rfl) (.item h))

/-- Pod `a` as it was, another pod, and pod `b` without containers. -/
def podsAround (pod : Json) : Member :=
  itemsTree
    ([.object [metadataTree "a", specTree [nameTree "old" []]] none] ++ pod ::
      [.object [metadataTree "b"] none])

/-- A list in which pod `a` comes twice. -/
def writtenFirst : Json :=
  .object
    [podsAround
      (.object [metadataTree "a", specTree [nameTree "app" [], nameTree "db" []]] none)] none

/-- The same list with a kind. The members and the containers of pod `a` have changed places, one
container comes twice and another one with its image. -/
def writtenAgain : Json :=
  .object
    [(some "kind".toList, ofText "List"),
      podsAround
        (.object
          [specTree
            [nameTree "db" [], nameTree "app" [(some "image".toList, ofText "i")],
              nameTree "db" []],
            metadataTree "a"] none)] none

/-- One list comes from the other by four edits, of which two are inside the specification. -/
theorem eqvGen_writtenAgain : Relation.EqvGen PodListEdit writtenFirst writtenAgain := by
  let app := nameTree "app" []
  let imaged := nameTree "app" [(some "image".toList, ofText "i")]
  let db := nameTree "db" []
  have hrepeat : ContainersEdit (.array [app, db] none) (.array [db, app, db] none) :=
    .inr (.intro fun v => by grind)
  have himage : NameEdit app imaged :=
    .object (@MemberEdit.insert _ [_] [] _ (ofText "i") (by decide) rfl)
  have hcontainers : ContainersEdit (.array [db, app, db] none) (.array [db, imaged, db] none) :=
    .inl (@ListEdit.item _ [db] [db] none app imaged himage)
  have hswap (cs : List Json) : PodEdit (.object [metadataTree "a", specTree cs] none)
      (.object [specTree cs, metadataTree "a"] none) :=
    .object (.reorder (.swap (specTree cs) (metadataTree "a") []))
  have hkind (pod : Json) : PodListEdit (.object [podsAround pod] none)
      (.object [(some "kind".toList, ofText "List"), podsAround pod] none) :=
    .object (@MemberEdit.insert _ [] _ _ _ (by decide) rfl)
  refine .trans _ _ _ (.rel _ _ (.item (.spec hrepeat [metadataTree "a"] []) _ _)) ?_
  refine .trans _ _ _ (.rel _ _ (.item (.spec hcontainers [metadataTree "a"] []) _ _)) ?_
  exact .trans _ _ _ (.rel _ _ (.item (hswap [db, imaged, db]) _ _)) (.rel _ _ (hkind _))

/-- A text with these pods around that of a pod. -/
def textAround (before pod : String) : String :=
  before ++ "\"items\":[\x7b\"metadata\":\x7b\"name\":\"a\"\x7d," ++
    "\"spec\":\x7b\"containers\":[\x7b\"name\":\"old\"\x7d]\x7d\x7d," ++ pod ++
    ",\x7b\"metadata\":\x7b\"name\":\"b\"\x7d\x7d]\x7d"

def textFirst : String :=
  textAround "\x7b"
    ("\x7b\"metadata\":\x7b\"name\":\"a\"\x7d,\"spec\":\x7b\"containers\":[" ++
      "\x7b\"name\":\"app\"\x7d,\x7b\"name\":\"db\"\x7d]\x7d\x7d")

def textAgain : String :=
  textAround "\x7b \"kind\" : \"List\", "
    ("\x7b\"spec\":\x7b\"containers\":[\x7b\"name\":\"db\"\x7d," ++
      "\x7b\"name\":\"app\",\"image\":\"i\"\x7d,\x7b\"name\":\"db\"\x7d]\x7d," ++
      "\"metadata\":\x7b\"name\":\"a\"\x7d\x7d")

theorem tokens_textFirst : tokens textFirst.toList = written writtenFirst := by
  -- literal by literal, since the characters of a long one are slow to compute
  simp only [textFirst, textAround, String.toList_append]
  decide +kernel

theorem tokens_textAgain : tokens textAgain.toList = written writtenAgain := by
  simp only [textAgain, textAround, String.toList_append]
  decide +kernel

end PodListing

/-! ## Inventories -/

namespace Inventory

/-- Inventories that know the same. -/
structure Alike (i j : Inventory) : Prop where
  contains : ∀ pod container, i.contains pod container = j.contains pod container
  hasPod : ∀ pod, i.hasPod pod = j.hasPod pod
  size : i.size = j.size

theorem Alike.refl (i : Inventory) : Alike i i := ⟨fun _ _ => rfl, fun _ => rfl, rfl⟩

theorem Alike.symm {i j : Inventory} (h : Alike i j) : Alike j i :=
  ⟨fun pod container => (h.contains pod container).symm, fun pod => (h.hasPod pod).symm,
    h.size.symm⟩

theorem Alike.trans {i j k : Inventory} (h : Alike i j) (h' : Alike j k) : Alike i k :=
  ⟨fun pod container => (h.contains pod container).trans (h'.contains pod container),
    fun pod => (h.hasPod pod).trans (h'.hasPod pod), h.size.trans h'.size⟩

/-- Of each pod, two inventories know the same containers, or neither knows it. -/
def RelContainers (i j : Inventory) : Prop :=
  ∀ pod, Option.Rel PodListing.SameContainers (i.containers? pod) (j.containers? pod)

theorem RelContainers.insert {i j : Inventory} (h : RelContainers i j) (name : String)
    {cs ds : List String} (hsame : PodListing.SameContainers cs ds) :
    RelContainers (i.insert name cs) (j.insert name ds) := by
  intro pod
  rw [containers?_insert, containers?_insert]
  split
  · exact .some hsame
  · exact h pod

theorem RelContainers.contains_eq {i j : Inventory} (h : RelContainers i j)
    (pod container : String) : i.contains pod container = j.contains pod container := by
  unfold contains
  have hpod := h pod
  generalize i.containers? pod = known at hpod ⊢
  generalize j.containers? pod = known' at hpod ⊢
  cases hpod with
  | none => rfl
  | some hsame =>
      show List.contains _ container = List.contains _ container
      rw [Bool.eq_iff_iff, List.contains_iff_mem, List.contains_iff_mem]
      exact hsame container

theorem RelContainers.hasPod_eq {i j : Inventory} (h : RelContainers i j) (pod : String) :
    i.hasPod pod = j.hasPod pod := by
  unfold hasPod
  have hpod := h pod
  generalize i.containers? pod = known at hpod ⊢
  generalize j.containers? pod = known' at hpod ⊢
  cases hpod <;> rfl

/-- Inventories of the same pods know the same, one listing after the other. -/
theorem relContainers_ofListings {pods others : List PodListing}
    (h : List.Forall₂ PodListing.Same pods others) :
    RelContainers (ofListings pods) (ofListings others) := by
  have hfold (i j : Inventory) (hij : RelContainers i j) :
      RelContainers
        ((pods.map fun p => (p.name, p.containers)).foldl (fun i p => i.insert p.1 p.2) i)
        ((others.map fun p => (p.name, p.containers)).foldl (fun i p => i.insert p.1 p.2) j) := by
    induction h generalizing i j with
    | nil => exact hij
    | @cons p q _ _ hpq _ ih =>
        refine ih (i.insert p.name p.containers) (j.insert q.name q.containers) ?_
        rw [← hpq.name]
        exact hij.insert p.name hpq.containers
  exact hfold empty empty fun _ => .none

theorem alike_ofListings {pods others : List PodListing}
    (h : List.Forall₂ PodListing.Same pods others) :
    (ofListings pods).Alike (ofListings others) := by
  have hknown := relContainers_ofListings h
  have hnames : (pods.map fun p : PodListing => (p.name, p.containers)).map Prod.fst =
      (others.map fun p : PodListing => (p.name, p.containers)).map Prod.fst := by
    rw [List.map_map, List.map_map, ← List.forall₂_eq_eq_eq, List.forall₂_map_left_iff,
      List.forall₂_map_right_iff]
    exact h.imp fun p q hpq => hpq.name
  refine ⟨hknown.contains_eq, hknown.hasPod_eq, ?_⟩
  unfold ofListings
  rw [size_ofList, size_ofList, hnames]

/-! ## Edits, one after the other -/

/-- However often it is edited, a list of pods describes the same inventory. -/
theorem agree_of_eqvGen {v w : Json} (h : Relation.EqvGen PodListing.PodListEdit v w) :
    Agree (fun pods others => (ofListings pods).Alike (ofListings others))
      (PodListing.readList v) (PodListing.readList w) := by
  induction h with
  | rel v w h =>
      exact (PodListing.PodListEdit.agree h).imp fun _ _ => alike_ofListings
  | refl v => exact .refl (fun pods => .refl (ofListings pods)) _
  | symm v w _ ih => exact ih.symm.imp fun _ _ h => h.symm
  | trans u v w _ _ ih ih' => exact ih.trans ih' fun _ _ _ h h' => h.trans h'

/-- **An inventory holds what its list of pods says, however it is written.** Let the text of a list
of pods be accepted. Then the inventory knows of each pod the containers of its last item, knows
the pods that some item is named after, and counts their names (`Knows`). And let its tree be edited
as often as you like: members that are not asked for may be put in or taken out at any place, all
members may change places, and so may the containers of a pod, which may also be repeated. Every
text that consists of the tokens of the edited tree is accepted, and its inventory knows the
same. -/
theorem pod_list_meaning_survives_edits {text : String} {i : Inventory}
    (h : parse text = .ok i) :
    (∃ items, PodListing.Lists (Json.parse text.toList).value items ∧ i.Knows items) ∧
    ∀ w, Relation.EqvGen PodListing.PodListEdit (Json.parse text.toList).value w →
      ∀ other : String, Json.tokens other.toList = Json.written w →
        ∃ j, parse other = .ok j ∧ i.Alike j := by
  obtain ⟨pods, hread, rfl⟩ := Steps.map_eq_ok_iff.mp h
  have hpods := (readDocument_eq_ok_iff.mp hread).1
  refine ⟨knows_of_readList hpods, fun w hedits other hother => ?_⟩
  obtain ⟨others, hothers, halike⟩ := (agree_of_eqvGen hedits).exists_of_ok hpods
  have hparse := parse_of_tokens (PodListing.skipFault_of_podList hothers) hother
  refine ⟨ofListings others, Steps.map_eq_ok_iff.mpr ⟨others, ?_, rfl⟩, halike⟩
  rw [readDocument_eq_ok_iff, hparse]
  exact ⟨hothers, rfl⟩

theorem pod_list_written_otherwise :
    ∃ i j, parse PodListing.textFirst = .ok i ∧
      i.contains "a" "db" = true ∧ i.contains "a" "old" = false ∧ i.hasPod "b" = true ∧
      i.size = 2 ∧ parse PodListing.textAgain = .ok j ∧ i.Alike j := by
  have htree : Json.parse PodListing.textFirst.toList = ⟨PodListing.writtenFirst, false⟩ :=
    parse_of_tokens rfl PodListing.tokens_textFirst
  have hparse : parse PodListing.textFirst =
      .ok (ofListings [⟨"a", ["old"]⟩, ⟨"a", ["app", "db"]⟩, ⟨"b", []⟩]) := by
    refine Steps.map_eq_ok_iff.mpr ⟨_, ?_, rfl⟩
    rw [readDocument_eq_ok_iff, htree]
    exact ⟨rfl, rfl⟩
  obtain ⟨-, hsame⟩ := pod_list_meaning_survives_edits hparse
  rw [htree] at hsame
  obtain ⟨j, hj, halike⟩ := hsame PodListing.writtenAgain PodListing.eqvGen_writtenAgain
    PodListing.textAgain PodListing.tokens_textAgain
  exact ⟨_, j, hparse, rfl, rfl, rfl, rfl, hj, halike⟩

end Inventory

end Switchboard
