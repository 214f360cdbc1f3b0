import Switchboard.Proofs.Json.Members
import Switchboard.Proofs.Json.Records

/-!
# Edits that a reader does not notice

What can be changed in a tree without changing what is read from it? In a value that is passed over,
members may change places, and members may be put in, at any depth (`Rearranges`). In a record they
may do so as well if their names are not those of its fields, and each field may be edited as its
own reader allows (`RecordEdit`). Readers of two trees agree if both fail, or if they read much the
same (`Agree`); a record that has been edited is read like the record before (`RecordEdit.agree`).
-/

namespace Switchboard.Json

/-! ## Readers that agree -/

section Agree

variable {α β γ δ : Type}

/-- Two readings fail both, or give results that are related. -/
inductive Agree (same : α → β → Prop) : Except Fault α → Except Fault β → Prop
  | ok {a : α} {b : β} : same a b → Agree same (.ok a) (.ok b)
  | error (e e' : Fault) : Agree same (.error e) (.error e')

theorem Agree.bind {same : α → β → Prop} {alike : γ → δ → Prop} {x : Except Fault α}
    {y : Except Fault β} {f : α → Except Fault γ} {g : β → Except Fault δ} (h : Agree same x y)
    (hnext : ∀ a b, same a b → Agree alike (f a) (g b)) : Agree alike (x >>= f) (y >>= g) := by
  cases h with
  | ok hab => exact hnext _ _ hab
  | error e e' => exact .error e e'

theorem Agree.map {same : α → β → Prop} {alike : γ → δ → Prop} {x : Except Fault α}
    {y : Except Fault β} {f : α → γ} {g : β → δ} (h : Agree same x y)
    (hnext : ∀ a b, same a b → alike (f a) (g b)) : Agree alike (f <$> x) (g <$> y) := by
  cases h with
  | ok hab => exact .ok (hnext _ _ hab)
  | error e e' => exact .error e e'

theorem Agree.trans {same : α → α → Prop} {x y z : Except Fault α} (h : Agree same x y)
    (h' : Agree same y z) (htrans : ∀ a b c, same a b → same b c → same a c) : Agree same x z := by
  cases h with
  | ok hab =>
      cases h' with
      | ok hbc => exact .ok (htrans _ _ _ hab hbc)
  | error e e' =>
      cases h' with
      | error _ e'' => exact .error e e''

/-- Readings that are accepted in the same cases agree if their results do. -/
theorem agree_of_ok {same : α → β → Prop} {x : Except Fault α} {y : Except Fault β}
    (h : ∀ a, x = .ok a → ∃ b, y = .ok b ∧ same a b) (h' : ∀ b, y = .ok b → ∃ a, x = .ok a) :
    Agree same x y := by
  cases x with
  | error e =>
      cases y with
      | error e' => exact .error e e'
      | ok b =>
          obtain ⟨a, ha⟩ := h' b rfl
          cases ha
  | ok a =>
      obtain ⟨b, rfl, hab⟩ := h a rfl
      exact .ok hab

theorem Agree.refl {same : α → α → Prop} (h : ∀ a, same a a) (x : Except Fault α) :
    Agree same x x := by
  cases x with
  | ok a => exact .ok (h a)
  | error e => exact .error e e

theorem Agree.imp {same alike : α → β → Prop} {x : Except Fault α} {y : Except Fault β}
    (h : Agree same x y) (himp : ∀ a b, same a b → alike a b) : Agree alike x y := by
  cases h with
  | ok hab => exact .ok (himp _ _ hab)
  | error e e' => exact .error e e'

theorem Agree.symm {same : α → β → Prop} {x : Except Fault α} {y : Except Fault β}
    (h : Agree same x y) : Agree (fun b a => same a b) y x := by
  cases h with
  | ok hab => exact .ok hab
  | error e e' => exact .error e' e

theorem Agree.exists_of_ok {same : α → β → Prop} {x : Except Fault α} {y : Except Fault β} {a : α}
    (h : Agree same x y) (ha : x = .ok a) : ∃ b, y = .ok b ∧ same a b := by
  cases h with
  | ok hab =>
      cases ha
      exact ⟨_, rfl, hab⟩
  | error e e' => cases ha

/-- Readings agree if they are accepted on the same condition and agree under it. -/
theorem agree_of_guarded {same : α → β → Prop} {x x' : Except Fault α} {y y' : Except Fault β}
    {P Q : Prop} (hx : ∀ a, x = .ok a ↔ P ∧ x' = .ok a) (hy : ∀ b, y = .ok b ↔ Q ∧ y' = .ok b)
    (hguard : P ↔ Q) (h : P → Agree same x' y') : Agree same x y := by
  refine agree_of_ok (fun a ha => ?_) fun b hb => ?_
  · obtain ⟨hp, ha⟩ := (hx a).mp ha
    obtain ⟨b, hb, hab⟩ := (h hp).exists_of_ok ha
    exact ⟨b, (hy b).mpr ⟨hguard.mp hp, hb⟩, hab⟩
  · obtain ⟨hq, hb⟩ := (hy b).mp hb
    obtain ⟨a, ha, -⟩ := (h (hguard.mpr hq)).symm.exists_of_ok hb
    exact ⟨a, (hx a).mpr ⟨hguard.mpr hq, ha⟩⟩

end Agree

/-! ## Values that are passed over -/

theorem skipItems_eq_none_iff {items : List Json} :
    skipFault.skipItems items = none ↔ ∀ v ∈ items, skipFault v = none := by
  induction items with
  | nil => simp [skipFault.skipItems]
  | cons v rest ih => rw [skipFault.skipItems, Option.or_eq_none_iff, ih, List.forall_mem_cons]

theorem skipMembers_eq_none_iff {members : List Member} :
    skipFault.skipMembers members = none ↔ ∀ m ∈ members, skipFault m.2 = none := by
  induction members with
  | nil => simp [skipFault.skipMembers]
  | cons m rest ih =>
      obtain ⟨key, v⟩ := m
      rw [skipFault.skipMembers, Option.or_eq_none_iff, ih, List.forall_mem_cons]

/-- A change in a value that is passed over: members change places, or a member is put in, in this
object or further inside. -/
inductive Rearranges : Json → Json → Prop
  | reorder {members members' : List Member} {tail : Option Break} : members.Perm members' →
      Rearranges (.object members tail) (.object members' tail)
  | insert {before after : List Member} {tail : Option Break} (key : Option (List Char))
      {v : Json} : skipFault v = none →
      Rearranges (.object (before ++ after) tail) (.object (before ++ (key, v) :: after) tail)
  | member {before after : List Member} {tail : Option Break} {key : Option (List Char)}
      {v w : Json} : Rearranges v w →
      Rearranges (.object (before ++ (key, v) :: after) tail)
        (.object (before ++ (key, w) :: after) tail)
  | item {before after : List Json} {tail : Option Break} {v w : Json} : Rearranges v w →
      Rearranges (.array (before ++ v :: after) tail) (.array (before ++ w :: after) tail)

theorem Rearranges.skipFault_iff {v w : Json} (h : Rearranges v w) :
    skipFault v = none ↔ skipFault w = none := by
  induction h with
  | reorder hperm =>
      simp only [skipFault, Option.or_eq_none_iff, skipMembers_eq_none_iff, hperm.mem_iff]
  | insert key hv =>
      simp only [skipFault, Option.or_eq_none_iff, skipMembers_eq_none_iff,
        List.forall_mem_append, List.forall_mem_cons, hv, true_and]
  | member _ ih =>
      simp only [skipFault, Option.or_eq_none_iff, skipMembers_eq_none_iff,
        List.forall_mem_append, List.forall_mem_cons, ih]
  | item _ ih =>
      simp only [skipFault, Option.or_eq_none_iff, skipItems_eq_none_iff,
        List.forall_mem_append, List.forall_mem_cons, ih]

/-! ## Members of records -/

/-- The fields of a record, each with the edits that it allows. -/
abbrev Parts := List (String × (Json → Json → Prop))

/-- A change among the members of a record: members change places, a member that is no field is put
in or rearranged, or a field is edited. -/
inductive MemberEdit (parts : Parts) : List Member → List Member → Prop
  | reorder {members members' : List Member} : members.Perm members' →
      MemberEdit parts members members'
  | insert {before after : List Member} {key : List Char} {v : Json} :
      some key ∉ keysOf (parts.map Prod.fst) → skipFault v = none →
      MemberEdit parts (before ++ after) (before ++ (some key, v) :: after)
  | rearrange {before after : List Member} {key : Option (List Char)} {v w : Json} :
      key ∉ keysOf (parts.map Prod.fst) → Rearranges v w →
      MemberEdit parts (before ++ (key, v) :: after) (before ++ (key, w) :: after)
  | field {before after : List Member} {name : String} {edit : Json → Json → Prop}
      {v w : Json} : (name, edit) ∈ parts → edit v w →
      MemberEdit parts (before ++ (some name.toList, v) :: after)
        (before ++ (some name.toList, w) :: after)

/-- A change in a record, be it an object or an array. -/
inductive RecordEdit (parts : Parts) : Json → Json → Prop
  | object {members members' : List Member} {tail : Option Break} :
      MemberEdit parts members members' →
      RecordEdit parts (.object members tail) (.object members' tail)
  | array {before after : List Json} {tail : Option Break} {name : String}
      {edit : Json → Json → Prop} {v w : Json} :
      parts[before.length]? = some (name, edit) → edit v w →
      RecordEdit parts (.array (before ++ v :: after) tail) (.array (before ++ w :: after) tail)

section Orderly

variable {names : List String}

theorem Orderly.perm {members members' : List Member} (h : Orderly names members)
    (hperm : members.Perm members') : Orderly names members' := by
  refine ⟨fun m hm => h.keyed m (hperm.mem_iff.mpr hm), ?_,
    fun m hm => h.skipped m (hperm.mem_iff.mpr hm)⟩
  exact ((hperm.map Prod.fst).filter _).nodup_iff.mp h.once

/-- Whether members are orderly is a matter of their keys and of what is passed over. -/
theorem orderly_congr {members members' : List Member}
    (hkeys : members.map Prod.fst = members'.map Prod.fst)
    (hskipped : (∀ m ∈ members, m.1 ∉ keysOf names → skipFault m.2 = none) ↔
      ∀ m ∈ members', m.1 ∉ keysOf names → skipFault m.2 = none) :
    Orderly names members ↔ Orderly names members' := by
  have hkeyed : (∀ m ∈ members, m.1 ≠ none) ↔ ∀ m ∈ members', m.1 ≠ none := by
    rw [← List.forall_mem_map (P := (· ≠ none)), hkeys, List.forall_mem_map]
  constructor
  · exact fun h => ⟨hkeyed.mp h.keyed, hkeys ▸ h.once, hskipped.mp h.skipped⟩
  · exact fun h => ⟨hkeyed.mpr h.keyed, hkeys ▸ h.once, hskipped.mpr h.skipped⟩

theorem orderly_insert_iff {before after : List Member} {key : List Char} {v : Json}
    (hkey : some key ∉ keysOf names) (hv : skipFault v = none) :
    Orderly names (before ++ after) ↔ Orderly names (before ++ (some key, v) :: after) := by
  have honce : ((before ++ after).map Prod.fst).filter (· ∈ keysOf names) =
      ((before ++ (some key, v) :: after).map Prod.fst).filter (· ∈ keysOf names) := by
    rw [List.map_append, List.map_append, List.filter_append, List.filter_append, List.map_cons,
      List.filter_cons_of_neg (by simpa using hkey)]
  constructor
  · intro h
    refine ⟨?_, honce ▸ h.once, ?_⟩
    · rw [List.forall_mem_append, List.forall_mem_cons]
      have hkeyed := List.forall_mem_append.mp h.keyed
      exact ⟨hkeyed.1, Option.some_ne_none key, hkeyed.2⟩
    · rw [List.forall_mem_append, List.forall_mem_cons]
      have hskipped := List.forall_mem_append.mp h.skipped
      exact ⟨hskipped.1, fun _ => hv, hskipped.2⟩
  · intro h
    have hsub : ∀ m ∈ before ++ after, m ∈ before ++ (some key, v) :: after := by
      intro m hm
      rw [List.mem_append, List.mem_cons]
      exact (List.mem_append.mp hm).imp_right .inr
    exact ⟨fun m hm => h.keyed m (hsub m hm), honce ▸ h.once,
      fun m hm => h.skipped m (hsub m hm)⟩

end Orderly

section MemberEdit

variable {parts : Parts} {members members' : List Member}

theorem mem_keysOf_of_mem {name : String} {edit : Json → Json → Prop}
    (hpart : (name, edit) ∈ parts) : some name.toList ∈ keysOf (parts.map Prod.fst) :=
  mem_keysOf.mpr ⟨name, List.mem_map_of_mem hpart, rfl⟩

/-- An edit makes no orderly members disorderly, and no others orderly. -/
theorem MemberEdit.orderly_iff (h : MemberEdit parts members members') :
    Orderly (parts.map Prod.fst) members ↔ Orderly (parts.map Prod.fst) members' := by
  cases h with
  | reorder hperm => exact ⟨fun h => h.perm hperm, fun h => h.perm hperm.symm⟩
  | insert hkey hv => exact orderly_insert_iff hkey hv
  | rearrange hkey hvw =>
      refine orderly_congr (by simp) ?_
      simp only [List.forall_mem_append, List.forall_mem_cons, hvw.skipFault_iff]
  | field hpart hvw =>
      refine orderly_congr (by simp) ?_
      have hkey := mem_keysOf_of_mem hpart
      simp only [List.forall_mem_append, List.forall_mem_cons, hkey, not_true_eq_false,
        false_implies]

theorem under?_append (name : String) (before after : List Member) :
    under? name (before ++ after) = (under? name before).or (under? name after) := by
  unfold under?
  rw [List.find?_append, Option.map_or]

theorem under?_cons_of_ne {name : String} {key : Option (List Char)}
    (hkey : key ≠ some name.toList) (v : Json) (rest : List Member) :
    under? name ((key, v) :: rest) = under? name rest := by
  unfold under?
  rw [List.find?_cons_of_neg (by simpa using hkey)]

theorem under?_cons_self (name : String) (v : Json) (rest : List Member) :
    under? name ((some name.toList, v) :: rest) = some v := by
  unfold under?
  rw [List.find?_cons_of_pos (by simp)]
  rfl

/-- The edits of a field, or none. -/
def Touches (edit : Json → Json → Prop) (v w : Json) : Prop := v = w ∨ edit v w

theorem rel_touches_refl (edit : Json → Json → Prop) (o : Option Json) :
    Option.Rel (Touches edit) o o := by
  cases o with
  | none => exact .none
  | some v => exact .some (.inl rfl)

theorem exists_iff_of_rel {edit : Json → Json → Prop} {o o' : Option Json}
    (h : Option.Rel (Touches edit) o o') : (∃ u, o = some u) ↔ ∃ u, o' = some u := by
  cases h <;> simp

theorem rel_under?_append {edit : Json → Json → Prop} {name : String} (before : List Member)
    {after after' : List Member}
    (h : Option.Rel (Touches edit) (Json.under? name after) (Json.under? name after')) :
    Option.Rel (Touches edit) (Json.under? name (before ++ after))
      (Json.under? name (before ++ after')) := by
  rw [under?_append, under?_append]
  cases Json.under? name before with
  | some u => exact .some (.inl rfl)
  | none => exact h

/-- What stands under the name of a field is edited as the field allows. -/
theorem MemberEdit.under? (h : MemberEdit parts members members')
    (hnames : (parts.map Prod.fst).Nodup) (horderly : Orderly (parts.map Prod.fst) members)
    {name : String} {edit : Json → Json → Prop} (hpart : (name, edit) ∈ parts) :
    Option.Rel (Touches edit) (Json.under? name members) (Json.under? name members') := by
  have hother : ∀ key, key ∉ keysOf (parts.map Prod.fst) → key ≠ some name.toList := by
    rintro key hkey rfl
    exact hkey (mem_keysOf_of_mem hpart)
  cases h with
  | reorder hperm =>
      have hsame : Json.under? name members = Json.under? name members' := by
        have hname : name ∈ parts.map Prod.fst := List.mem_map_of_mem hpart
        ext v
        rw [horderly.under?_eq_some_iff hname, (horderly.perm hperm).under?_eq_some_iff hname,
          hperm.mem_iff]
      rw [hsame]
      exact rel_touches_refl edit _
  | @insert before after key v hkey hv =>
      refine rel_under?_append before ?_
      rw [under?_cons_of_ne (hother _ hkey)]
      exact rel_touches_refl edit _
  | @rearrange before after key v w hkey hvw =>
      refine rel_under?_append before ?_
      rw [under?_cons_of_ne (hother _ hkey), under?_cons_of_ne (hother _ hkey)]
      exact rel_touches_refl edit _
  | @field before after name' edit' v w hpart' hvw =>
      refine rel_under?_append before ?_
      by_cases hname : name' = name
      · subst hname
        have hsame : (name', edit') = (name', edit) :=
          Keyed.eq_of_key_eq hnames hpart' hpart rfl
        rw [under?_cons_self, under?_cons_self, ← (Prod.mk.inj hsame).2]
        exact .some (.inr hvw)
      · have hne : some name'.toList ≠ some name.toList :=
          fun h => hname (String.toList_injective (Option.some_inj.mp h))
        rw [under?_cons_of_ne hne, under?_cons_of_ne hne]
        exact rel_touches_refl edit _

end MemberEdit

/-! ## Records -/

section RecordEdit

variable {parts : Parts} {v w : Json}

theorem placed_append {names before' after' : List String} {name : String}
    {before after : List Json} (hnames : names = before' ++ name :: after')
    (hlen : before'.length = before.length) (v : Json) :
    placed names (before ++ v :: after) =
      placed before' before ++ (some name.toList, v) :: placed after' after := by
  unfold placed
  rw [hnames, List.zip_append hlen, List.zip_cons_cons, List.map_append, List.map_cons]

/-- Records remain records, with members that are edited, and no others become records. -/
theorem RecordEdit.madeOf (h : RecordEdit parts v w) :
    (∃ members members', MadeOf (parts.map Prod.fst) v members ∧
        MadeOf (parts.map Prod.fst) w members' ∧ MemberEdit parts members members') ∨
      ∀ members, ¬ MadeOf (parts.map Prod.fst) v members ∧
        ¬ MadeOf (parts.map Prod.fst) w members := by
  cases h with
  | @object members members' tail hedit =>
      cases tail with
      | none => exact .inl ⟨members, members', .object members, .object members', hedit⟩
      | some b => exact .inr fun members => ⟨(by rintro ⟨⟩), by rintro ⟨⟩⟩
  | @array before after tail name edit v w hpart hvw =>
      by_cases hrecord : tail = none ∧ (before ++ v :: after).length ≤ parts.length
      · obtain ⟨rfl, hlen⟩ := hrecord
        obtain ⟨hbefore, hget⟩ := List.getElem?_eq_some_iff.mp hpart
        have hsplit : parts.map Prod.fst =
            (parts.take before.length).map Prod.fst ++
              name :: (parts.drop (before.length + 1)).map Prod.fst := by
          conv_lhs => rw [← List.take_append_drop before.length parts]
          rw [List.drop_eq_getElem_cons hbefore, hget, List.map_append, List.map_cons]
        have htake : ((parts.take before.length).map Prod.fst).length = before.length := by
          rw [List.length_map, List.length_take, Nat.min_eq_left (Nat.le_of_lt hbefore)]
        refine .inl ⟨_, _, .array (by simpa using hlen), .array (by simpa using hlen), ?_⟩
        rw [placed_append hsplit htake, placed_append hsplit htake]
        exact .field (List.mem_of_getElem? hpart) hvw
      · refine .inr fun members => ⟨fun h => ?_, fun h => ?_⟩
        · cases h with
          | array hlen => exact hrecord ⟨rfl, by simpa using hlen⟩
        · cases h with
          | array hlen => exact hrecord ⟨rfl, by simpa using hlen⟩

variable {σ : Type} {fields : List (Field σ)}

/-- Fields are read alike from members that are alike. -/
theorem agree_readings {same : σ → σ → Prop} {members members' : List Member}
    (h : ∀ f ∈ fields, ∃ edit,
      Option.Rel (Touches edit) (under? f.name members) (under? f.name members') ∧
      ∀ v w, Touches edit v w → ∀ s s', same s s' → Agree same (f.read v s) (f.read w s'))
    {s s' : σ} (hs : same s s') :
    Agree same ((readings fields members).foldlM readInto s)
      ((readings fields members').foldlM readInto s') := by
  induction fields generalizing s s' with
  | nil => exact .ok hs
  | cons f fields ih =>
      obtain ⟨⟨edit, hrel, hread⟩, hrest⟩ := List.forall_mem_cons.mp h
      unfold readings at ih ⊢
      rw [List.filterMap_cons, List.filterMap_cons]
      generalize under? f.name members = found at hrel ⊢
      generalize under? f.name members' = found' at hrel ⊢
      cases hrel with
      | none => exact ih hrest hs
      | some hvw =>
          show Agree same (List.foldlM _ _ (_ :: _)) (List.foldlM _ _ (_ :: _))
          rw [List.foldlM_cons, List.foldlM_cons]
          exact (hread _ _ hvw s s' hs).bind fun t t' ht => ih hrest ht

/-- **A record that has been edited is read like the record before**, if its fields are. -/
theorem RecordEdit.agree {parts : Parts} {v w : Json} (h : RecordEdit parts v w)
    (hparts : parts.map Prod.fst = fields.map (·.name)) (hnames : (fields.map (·.name)).Nodup)
    (hind : Independent fields) {required : List String}
    (hrequired : ∀ name ∈ required, name ∈ fields.map (·.name)) {same : σ → σ → Prop}
    (hread : ∀ f ∈ fields, ∀ edit, (f.name, edit) ∈ parts → ∀ v w, Touches edit v w →
      ∀ s s', same s s' → Agree same (f.read v s) (f.read w s'))
    {start : σ} (hstart : same start start) :
    Agree same (readRecord fields required start v) (readRecord fields required start w) := by
  rcases h.madeOf with ⟨members, members', hv, hw, hedit⟩ | hnone
  · have hrel (horderly : Orderly (parts.map Prod.fst) members) (f : Field σ) (hf : f ∈ fields) :
        ∃ edit, (f.name, edit) ∈ parts ∧
          Option.Rel (Touches edit) (under? f.name members) (under? f.name members') := by
      have hname : f.name ∈ parts.map Prod.fst := hparts ▸ List.mem_map_of_mem hf
      obtain ⟨⟨_, edit⟩, hpart, rfl⟩ := List.mem_map.mp hname
      exact ⟨edit, hpart, hedit.under? (hparts ▸ hnames) horderly hpart⟩
    have hgiven (horderly : Orderly (parts.map Prod.fst) members) (name : String)
        (hname : name ∈ required) :
        (∃ u, under? name members = some u) ↔ ∃ u, under? name members' = some u := by
      obtain ⟨f, hf, rfl⟩ := List.mem_map.mp (hrequired name hname)
      obtain ⟨edit, -, hrel⟩ := hrel horderly f hf
      exact exists_iff_of_rel hrel
    -- so the same fields are there before and after, and orderly members stay so
    have hsameOrder := hedit.orderly_iff
    rw [hparts] at hv hw hrel hgiven hsameOrder
    refine agree_of_guarded (fun t => hv.readRecord_eq_ok_iff hnames hind hrequired)
      (fun t => hw.readRecord_eq_ok_iff hnames hind hrequired) ?_ fun hguard => ?_
    · rw [← hsameOrder]
      exact and_congr_right fun horderly => forall₂_congr (hgiven horderly)
    · refine agree_readings (fun f hf => ?_) hstart
      obtain ⟨edit, hpart, hrel⟩ := hrel hguard.1 f hf
      exact ⟨edit, hrel, hread f hf edit hpart⟩
  · have hfails (v : Json) (hv : ∀ members, ¬ MadeOf (parts.map Prod.fst) v members) (t : σ) :
        readRecord fields required start v ≠ .ok t := by
      rw [Ne, readRecord_eq_ok_iff hnames hind hrequired, ← hparts]
      rintro ⟨members, hmade, -⟩
      exact hv members hmade
    exact agree_of_ok (fun t ht => absurd ht (hfails v (fun members => (hnone members).1) t))
      fun t ht => absurd ht (hfails w (fun members => (hnone members).2) t)

/-- What is read alike after an edit is read alike after the edit or none. -/
theorem agree_of_touches {edit : Json → Json → Prop} {same : σ → σ → Prop}
    {read : Json → Except Fault σ} (hsame : ∀ s, same s s)
    (hread : ∀ v w, edit v w → Agree same (read v) (read w)) {v w : Json}
    (h : Touches edit v w) : Agree same (read v) (read w) := by
  rcases h with rfl | hvw
  · exact .refl hsame (read v)
  · exact hread v w hvw

/-- A record with one field is read alike if its field is. -/
theorem RecordEdit.agree_one {name : String} {edit : Json → Json → Prop} {v w : Json}
    (h : RecordEdit [(name, edit)] v w) {read : Json → Except Fault σ} {required : List String}
    (hrequired : ∀ other ∈ required, other = name) {same : σ → σ → Prop}
    (hsame : ∀ s, same s s) (hread : ∀ v w, edit v w → Agree same (read v) (read w)) (start : σ) :
    Agree same (readRecord [⟨name, fun v _ => read v⟩] required start v)
      (readRecord [⟨name, fun v _ => read v⟩] required start w) := by
  refine h.agree rfl (nodup_names_singleton _) (independent_singleton _) (by simpa) ?_
    (hsame start)
  rintro f hf edit' hpart v w hvw s s' -
  obtain rfl := List.mem_singleton.mp hf
  obtain ⟨-, rfl⟩ := Prod.mk.inj (List.mem_singleton.mp hpart)
  exact agree_of_touches hsame hread hvw

end RecordEdit

/-! ## Lists -/

/-- A change in one item of a list. -/
inductive ListEdit (edit : Json → Json → Prop) : Json → Json → Prop
  | item {before after : List Json} {tail : Option Break} {v w : Json} : edit v w →
      ListEdit edit (.array (before ++ v :: after) tail) (.array (before ++ w :: after) tail)

/-- Lists with the same items, in any order and any number. -/
inductive SameItems : Json → Json → Prop
  | intro {items items' : List Json} {tail : Option Break} :
      (∀ v, v ∈ items ↔ v ∈ items') → SameItems (.array items tail) (.array items' tail)

section Lists

variable {α : Type} {read : Json → Except Fault α} {v w : Json}

/-- Lists that break off in the same way are read alike if their items are. -/
theorem agree_checked {same : List α → List α → Prop} {items items' : List Json}
    (h : Agree same (items.mapM read) (items'.mapM read)) (tail : Option Break) :
    Agree same (readList read (.array items tail)) (readList read (.array items' tail)) :=
  h.bind fun _ _ hab => (Agree.refl (fun _ => rfl) (checkTail tail)).bind fun _ _ _ => .ok hab

theorem ListEdit.agree {edit : Json → Json → Prop} {same : α → α → Prop} (h : ListEdit edit v w)
    (hsame : ∀ a, same a a) (hread : ∀ v w, edit v w → Agree same (read v) (read w)) :
    Agree (List.Forall₂ same) (readList read v) (readList read w) := by
  cases h with
  | @item before after tail v w hvw =>
      have hrefl (as : List α) : List.Forall₂ same as as := List.forall₂_same.mpr fun a _ => hsame a
      have hitems : Agree (List.Forall₂ same) ((before ++ v :: after).mapM read)
          ((before ++ w :: after).mapM read) := by
        rw [List.mapM_append, List.mapM_append, List.mapM_cons, List.mapM_cons]
        refine (Agree.refl hrefl (before.mapM read)).bind fun as bs hbefore => ?_
        have hrest : Agree (List.Forall₂ same)
            (read v >>= fun a => after.mapM read >>= fun as => pure (a :: as))
            (read w >>= fun a => after.mapM read >>= fun as => pure (a :: as)) :=
          (hread v w hvw).bind fun a b hab =>
            (Agree.refl hrefl (after.mapM read)).bind fun cs ds hcd => .ok (.cons hab hcd)
        exact hrest.bind fun cs ds hcd => .ok (List.rel_append hbefore hcd)
      exact agree_checked hitems tail

theorem SameItems.agree (h : SameItems v w) :
    Agree (fun as bs => ∀ a, a ∈ as ↔ a ∈ bs) (readList read v) (readList read w) := by
  cases h with
  | @intro items items' tail hitems =>
      have hread : (∃ as, items.mapM read = .ok as) ↔ ∃ bs, items'.mapM read = .ok bs := by
        rw [exists_mapM_eq_ok_iff, exists_mapM_eq_ok_iff]
        exact forall_congr' fun v => imp_congr_left (hitems v)
      have hagree : Agree (fun as bs => ∀ a, a ∈ as ↔ a ∈ bs) (items.mapM read)
          (items'.mapM read) := by
        refine agree_of_ok (fun as has => ?_) fun bs hbs => hread.mpr ⟨bs, hbs⟩
        obtain ⟨bs, hbs⟩ := hread.mp ⟨as, has⟩
        refine ⟨bs, hbs, fun a => ?_⟩
        rw [mem_iff_of_mapM has, mem_iff_of_mapM hbs]
        exact exists_congr fun v => and_congr_left fun _ => hitems v
      exact agree_checked hagree tail

end Lists

end Switchboard.Json
