import Switchboard.Json.Reader
import Switchboard.Proofs.Json.Spelling
import Switchboard.Proofs.Steps

/-!
# Values as trees, and back

Texts, lists and values that may be absent have trees of their own (`ofText`, `ofList`, `ofOption`),
which are read as what they were made of. A record takes each member for the field of its name, if
the field has not been given before (`readMember_of_field`).
-/

namespace Switchboard.Json

variable {α : Type}

/-! ## Texts, lists and options -/

def ofText (s : String) : Json := .text (some s.toList)

def ofList (toJson : α → Json) (xs : List α) : Json := .array (xs.map toJson) none

/-- A value, or null. -/
def ofOption (toJson : α → Json) : Option α → Json
  | some a => toJson a
  | none => .null

theorem ofText_inj {s t : String} : ofText s = ofText t ↔ s = t := by
  unfold ofText
  rw [Json.text.injEq, Option.some_inj, String.toList_inj]

theorem ofText_ne_null (s : String) : ofText s ≠ .null := by
  unfold ofText
  exact Json.noConfusion

theorem bool_ne_null (b : Bool) : Json.bool b ≠ .null := Json.noConfusion

theorem ofList_ne_null (toJson : α → Json) (xs : List α) : ofList toJson xs ≠ .null := by
  unfold ofList
  exact Json.noConfusion

@[simp] theorem readText_ofText (s : String) : readText (ofText s) = .ok s :=
  congrArg Except.ok String.ofList_toList

theorem readBool_bool (b : Bool) : readBool (.bool b) = .ok b := rfl

theorem readOption_ofOption {toJson : α → Json} {read : Json → Except Fault α}
    (h : ∀ a, read (toJson a) = .ok a) (hnull : ∀ a, toJson a ≠ .null) (o : Option α) :
    readOption read (ofOption toJson o) = .ok o := by
  cases o with
  | none => rfl
  | some a =>
      have hsome : readOption read (toJson a) = some <$> read (toJson a) := by
        unfold readOption
        split
        next hv => exact absurd hv (hnull a)
        next => rfl
      show readOption read (toJson a) = .ok (some a)
      rw [hsome, h a]
      rfl

theorem mapM_ofList {toJson : α → Json} {read : Json → Except Fault α}
    (h : ∀ a, read (toJson a) = .ok a) (xs : List α) : (xs.map toJson).mapM read = .ok xs := by
  induction xs with
  | nil => rfl
  | cons x xs ih =>
      rw [List.map_cons, List.mapM_cons, h x, ih]
      rfl

theorem readList_ofList {toJson : α → Json} {read : Json → Except Fault α}
    (h : ∀ a, read (toJson a) = .ok a) (xs : List α) :
    readList read (ofList toJson xs) = .ok xs := by
  unfold readList ofList
  simp only [mapM_ofList h]
  rfl

theorem readText_eq_ok_iff {v : Json} {s : String} : readText v = .ok s ↔ v = ofText s := by
  constructor
  · intro h
    match v with
    | .text (some cs) =>
        cases h
        exact congrArg _ (congrArg some String.toList_ofList.symm)
    | .text none | .null | .bool _ | .number _ | .array _ _ | .object _ _ | .broken _ => cases h
  · rintro rfl
    exact readText_ofText s

theorem readList_eq_ok_iff {α : Type} {read : Json → Except Fault α} {v : Json} {as : List α} :
    readList read v = .ok as ↔ ∃ items, v = .array items none ∧ items.mapM read = .ok as := by
  constructor
  · intro h
    cases v with
    | array items tail =>
        obtain ⟨as', hread, h⟩ := Steps.bind_eq_ok_iff.mp h
        cases tail with
        | none =>
            cases h
            exact ⟨items, rfl, hread⟩
        | some b => cases h
    | _ => cases h
  · rintro ⟨items, rfl, hread⟩
    exact Steps.bind_eq_ok_iff.mpr ⟨as, hread, rfl⟩

/-- Items that are read one after the other, each with what is read from it. -/
theorem exists_pairs_of_mapM {α : Type} {read : Json → Except Fault α} {items : List Json}
    {as : List α} (h : items.mapM read = .ok as) :
    ∃ pairs : List (Json × α), items = pairs.map Prod.fst ∧ as = pairs.map Prod.snd ∧
      ∀ p ∈ pairs, read p.1 = .ok p.2 := by
  induction items generalizing as with
  | nil =>
      cases h
      exact ⟨[], rfl, rfl, fun p hp => absurd hp List.not_mem_nil⟩
  | cons v rest ih =>
      rw [List.mapM_cons] at h
      obtain ⟨a, ha, h⟩ := Steps.bind_eq_ok_iff.mp h
      obtain ⟨as', has, h⟩ := Steps.bind_eq_ok_iff.mp h
      cases h
      obtain ⟨pairs, rfl, rfl, hpairs⟩ := ih has
      exact ⟨(v, a) :: pairs, rfl, rfl, List.forall_mem_cons.mpr ⟨ha, hpairs⟩⟩

/-- A list is read if all its items are, and else not. -/
theorem exists_mapM_eq_ok_iff {read : Json → Except Fault α} {items : List Json} :
    (∃ as, items.mapM read = .ok as) ↔ ∀ v ∈ items, ∃ a, read v = .ok a := by
  constructor
  · rintro ⟨as, h⟩ v hv
    obtain ⟨pairs, rfl, -, hpairs⟩ := exists_pairs_of_mapM h
    obtain ⟨p, hp, rfl⟩ := List.mem_map.mp hv
    exact ⟨p.2, hpairs p hp⟩
  · intro h
    induction items with
    | nil => exact ⟨[], rfl⟩
    | cons v rest ih =>
        obtain ⟨⟨a, ha⟩, hrest⟩ := List.forall_mem_cons.mp h
        obtain ⟨as, has⟩ := ih hrest
        refine ⟨a :: as, ?_⟩
        rw [List.mapM_cons, ha, has]
        rfl

theorem mem_iff_of_mapM {read : Json → Except Fault α} {items : List Json} {as : List α}
    (h : items.mapM read = .ok as) (a : α) : a ∈ as ↔ ∃ v ∈ items, read v = .ok a := by
  obtain ⟨pairs, rfl, rfl, hpairs⟩ := exists_pairs_of_mapM h
  rw [List.mem_map]
  constructor
  · rintro ⟨p, hp, rfl⟩
    exact ⟨p.1, List.mem_map_of_mem hp, hpairs p hp⟩
  · rintro ⟨v, hv, hread⟩
    obtain ⟨p, hp, rfl⟩ := List.mem_map.mp hv
    rw [hpairs p hp] at hread
    exact ⟨p, hp, Except.ok.inj hread⟩

theorem spells_ofList {toJson : α → Json} {render : α → List Char}
    (h : ∀ a, Spells (toJson a) (render a)) (xs : List α) :
    Spells (ofList toJson xs) ('[' :: [','].intercalate (xs.map render) ++ [']']) := by
  refine spells_array ?_
  rw [List.forall₂_map_left_iff, List.forall₂_map_right_iff]
  exact List.forall₂_same.mpr fun x _ => h x

/-! ## Documents -/

theorem readDocument_eq_ok_iff {read : Json → Except Fault α} {text : String} {a : α} :
    readDocument read text = .ok a ↔
      read (parse text.toList).value = .ok a ∧ (parse text.toList).trailing = false := by
  unfold readDocument
  rw [Steps.bind_eq_ok_iff]
  constructor
  · rintro ⟨a', hread, hends⟩
    split at hends
    · cases hends
    · next htrailing =>
      cases hends
      exact ⟨hread, by simpa using htrailing⟩
  · rintro ⟨hread, hends⟩
    refine ⟨a, hread, ?_⟩
    rw [hends]
    rfl

/-! ## Records -/

variable {σ : Type}

/-- **A member gives the field of its name a value**, if it is the first one of that name. -/
theorem readMember_of_field {fields : List (Field σ)} {name : String} {v : Json} {f : Field σ}
    {state after : σ} {given : List String}
    (hfind : fields.find? (·.name.toList == name.toList) = some f)
    (hnew : given.contains f.name = false) (hread : f.read v state = .ok after) :
    readMember fields (state, given) (memberOf (name, v)) = .ok (after, f.name :: given) := by
  unfold readMember memberOf
  simp only [hfind, hnew, hread]
  rfl

/-- Members are read one after the other. -/
theorem readMembers_cons {fields : List (Field σ)} {m : Option (List Char) × Json}
    {ms : List (Option (List Char) × Json)} {p q r : σ × List String}
    (h : readMember fields p m = .ok q) (h' : ms.foldlM (readMember fields) q = .ok r) :
    (m :: ms).foldlM (readMember fields) p = .ok r := by
  rw [List.foldlM_cons, h]
  exact h'

end Switchboard.Json
