import Mathlib.Data.List.Nodup
import Mathlib.Data.List.Perm.Basic
import Switchboard.Json.Reader
import Switchboard.Proofs.Keyed
import Switchboard.Proofs.Steps

/-!
# What a record says

When is an object read as a record, and what does that depend on? Its keys have to be texts, none of
its fields may be given twice, and what is no field has to be JSON (`Orderly`). Then each field is
read from what stands under its name, and if fields do not meddle with each other, the order of the
members does not matter: the record is read as if its fields had been given in their own order
(`readMembers_eq_ok_iff`). An array that is read as a record is the object of its values under the
names of the fields (`readRecord_eq_ok_iff`).
-/

namespace Switchboard.Json

/-- A member of an object, as it stands in the tree. -/
abbrev Member := Option (List Char) × Json

/-- The keys of fields with these names. -/
def keysOf (names : List String) : List (Option (List Char)) :=
  names.map fun name => some name.toList

/-- What stands under a name. -/
def under? (name : String) (members : List Member) : Option Json :=
  (members.find? (·.1 == some name.toList)).map Prod.snd

/-- Members from which a record with fields of these names can be read, as far as it is a matter of
the keys and of what is passed over. -/
structure Orderly (names : List String) (members : List Member) : Prop where
  keyed : ∀ m ∈ members, m.1 ≠ none
  once : ((members.map Prod.fst).filter (· ∈ keysOf names)).Nodup
  skipped : ∀ m ∈ members, m.1 ∉ keysOf names → skipFault m.2 = none

variable {σ : Type}

/-- What is read into a record, field by field. -/
def readings (fields : List (Field σ)) (members : List Member) : List (Field σ × Json) :=
  fields.filterMap fun f => (under? f.name members).map fun v => (f, v)

def readInto (s : σ) (p : Field σ × Json) : Except Fault σ := p.1.read p.2 s

/-- Reading one field does not meddle with another one. -/
def Independent (fields : List (Field σ)) : Prop :=
  ∀ f ∈ fields, ∀ g ∈ fields, f.name ≠ g.name → ∀ v w s,
    (f.read v s >>= g.read w).toOption = (g.read w s >>= f.read v).toOption

/-! ## Members in the order in which they stand -/

/-- The field that a member belongs to. -/
def fieldOf? (fields : List (Field σ)) (m : Member) : Option (Field σ) :=
  m.1.bind fun key => fields.find? (·.name.toList == key)

/-- The readings that members lead to, one after the other. -/
def taken (fields : List (Field σ)) (members : List Member) : List (Field σ × Json) :=
  members.filterMap fun m => (fieldOf? fields m).map fun f => (f, m.2)

section Member

variable {fields : List (Field σ)} {s t : σ} {given given' : List String} {m : Member}

theorem readMember_known_iff {f : Field σ} (hf : fieldOf? fields m = some f) :
    readMember fields (s, given) m = .ok (t, given') ↔
      f.name ∉ given ∧ f.read m.2 s = .ok t ∧ given' = f.name :: given := by
  obtain ⟨key, hkey, hfind⟩ := Option.bind_eq_some_iff.mp hf
  unfold readMember
  rw [hkey]
  dsimp only
  rw [hfind]
  dsimp only
  by_cases hgiven : f.name ∈ given
  · simp [hgiven]
  · cases hread : f.read m.2 s with
    | error fault => simp [hgiven]
    | ok t' => simp [hgiven, eq_comm]

theorem readMember_unknown_iff {key : List Char} (hkey : m.1 = some key)
    (hf : fieldOf? fields m = none) :
    readMember fields (s, given) m = .ok (t, given') ↔
      skipFault m.2 = none ∧ t = s ∧ given' = given := by
  have hfind : fields.find? (·.name.toList == key) = none := by
    unfold fieldOf? at hf
    rwa [hkey] at hf
  unfold readMember
  rw [hkey]
  dsimp only
  rw [hfind]
  dsimp only
  cases hskip : skipFault m.2 with
  | some fault => simp
  | none => simp [eq_comm]

theorem readMember_unkeyed (hkey : m.1 = none) :
    readMember fields (s, given) m = .error .malformed := by
  unfold readMember
  rw [hkey]

end Member

/-- Members can be read one after the other behind the fields that are given: no field is given
twice, and the other members can be passed over. -/
def Readable (fields : List (Field σ)) (given : List String) (members : List Member) : Prop :=
  (∀ m ∈ members, m.1 ≠ none ∧ (fieldOf? fields m = none → skipFault m.2 = none)) ∧
    ((taken fields members).map (·.1.name)).Nodup ∧
    ∀ name ∈ (taken fields members).map (·.1.name), name ∉ given

section Readable

variable {fields : List (Field σ)} {given : List String} {m : Member} {rest : List Member}

theorem taken_cons_of_none (hf : fieldOf? fields m = none) :
    taken fields (m :: rest) = taken fields rest := by
  unfold taken
  rw [List.filterMap_cons, hf]
  rfl

theorem taken_cons_of_some {f : Field σ} (hf : fieldOf? fields m = some f) :
    taken fields (m :: rest) = (f, m.2) :: taken fields rest := by
  unfold taken
  rw [List.filterMap_cons, hf]
  rfl

theorem readable_cons_unknown_iff {key : List Char} (hkey : m.1 = some key)
    (hf : fieldOf? fields m = none) :
    Readable fields given (m :: rest) ↔ skipFault m.2 = none ∧ Readable fields given rest := by
  unfold Readable
  rw [taken_cons_of_none hf, List.forall_mem_cons]
  constructor
  · rintro ⟨⟨⟨-, hskip⟩, hall⟩, hapart⟩
    exact ⟨hskip hf, hall, hapart⟩
  · rintro ⟨hskip, hall, hapart⟩
    exact ⟨⟨⟨by simp [hkey], fun _ => hskip⟩, hall⟩, hapart⟩

theorem readable_cons_known_iff {f : Field σ} {key : List Char} (hkey : m.1 = some key)
    (hf : fieldOf? fields m = some f) :
    Readable fields given (m :: rest) ↔
      f.name ∉ given ∧ Readable fields (f.name :: given) rest := by
  unfold Readable
  rw [taken_cons_of_some hf, List.map_cons, List.nodup_cons, List.forall_mem_cons,
    List.forall_mem_cons]
  constructor
  · rintro ⟨⟨-, hall⟩, ⟨hother, hnodup⟩, hnew, hapart⟩
    refine ⟨hnew, hall, hnodup, fun name hname hmem => ?_⟩
    rcases List.mem_cons.mp hmem with rfl | hold
    · exact hother hname
    · exact hapart name hname hold
  · rintro ⟨hnew, hall, hnodup, hapart⟩
    have hm : m.1 ≠ none ∧ (fieldOf? fields m = none → skipFault m.2 = none) :=
      ⟨by simp [hkey], fun hnone => by simp [hf] at hnone⟩
    have hother : f.name ∉ (taken fields rest).map (·.1.name) :=
      fun hmem => hapart f.name hmem List.mem_cons_self
    refine ⟨⟨hm, hall⟩, ⟨hother, hnodup⟩, hnew, fun name hname hold => ?_⟩
    exact hapart name hname (List.mem_cons_of_mem f.name hold)

end Readable

/-- **Members are read one after the other.** -/
theorem foldlM_readMember_eq_ok_iff {fields : List (Field σ)} {members : List Member} {s t : σ}
    {given given' : List String} :
    members.foldlM (readMember fields) (s, given) = .ok (t, given') ↔
      Readable fields given members ∧ (taken fields members).foldlM readInto s = .ok t ∧
      given' = ((taken fields members).map (·.1.name)).reverse ++ given := by
  induction members generalizing s given with
  | nil => simp [Readable, taken, eq_comm, pure, Except.pure]
  | cons m rest ih =>
      rw [List.foldlM_cons, Steps.bind_eq_ok_iff]
      cases hkey : m.1 with
      | none =>
          rw [readMember_unkeyed hkey]
          simp [Readable, hkey]
      | some key =>
          cases hf : fieldOf? fields m with
          | none =>
              rw [readable_cons_unknown_iff hkey hf, taken_cons_of_none hf]
              constructor
              · rintro ⟨⟨s', given''⟩, hm, hrest⟩
                obtain ⟨hskip, rfl, rfl⟩ := (readMember_unknown_iff hkey hf).mp hm
                obtain ⟨hreadable, hread⟩ := ih.mp hrest
                exact ⟨⟨hskip, hreadable⟩, hread⟩
              · rintro ⟨⟨hskip, hreadable⟩, hread⟩
                exact ⟨(s, given), (readMember_unknown_iff hkey hf).mpr ⟨hskip, rfl, rfl⟩,
                  ih.mpr ⟨hreadable, hread⟩⟩
          | some f =>
              rw [readable_cons_known_iff hkey hf, taken_cons_of_some hf, List.foldlM_cons,
                Steps.bind_eq_ok_iff, List.map_cons, List.reverse_cons, List.append_assoc]
              constructor
              · rintro ⟨⟨s', given''⟩, hm, hrest⟩
                obtain ⟨hnew, hread, rfl⟩ := (readMember_known_iff hf).mp hm
                obtain ⟨hreadable, hreads, hgiven⟩ := ih.mp hrest
                exact ⟨⟨hnew, hreadable⟩, ⟨s', hread, hreads⟩, hgiven⟩
              · rintro ⟨⟨hnew, hreadable⟩, ⟨s', hread, hreads⟩, hgiven⟩
                exact ⟨(s', f.name :: given), (readMember_known_iff hf).mpr ⟨hnew, hread, rfl⟩,
                  ih.mpr ⟨hreadable, hreads, hgiven⟩⟩

/-! ## Members in the order of the fields -/

section Order

variable {fields : List (Field σ)} {members : List Member}

theorem nodup_keys (hnames : (fields.map (·.name)).Nodup) :
    (fields.map (·.name.toList)).Nodup := by
  have hkeys : fields.map (·.name.toList) = (fields.map (·.name)).map String.toList := by
    rw [List.map_map]
    rfl
  rw [hkeys]
  exact hnames.map fun _ _ => String.toList_injective

theorem fieldOf?_eq_some_iff (hnames : (fields.map (·.name)).Nodup) {m : Member} {f : Field σ} :
    fieldOf? fields m = some f ↔ f ∈ fields ∧ m.1 = some f.name.toList := by
  unfold fieldOf?
  rw [Option.bind_eq_some_iff]
  constructor
  · rintro ⟨key, hkey, hfind⟩
    have hname : f.name.toList = key := by simpa using List.find?_some hfind
    exact ⟨List.mem_of_find?_eq_some hfind, hkey.trans (congrArg some hname.symm)⟩
  · rintro ⟨hmem, hkey⟩
    refine ⟨f.name.toList, hkey, ?_⟩
    cases hfind : fields.find? (·.name.toList == f.name.toList) with
    | none => exact absurd (List.find?_eq_none.mp hfind f hmem) (by simp)
    | some g =>
        have hname : g.name.toList = f.name.toList := by simpa using List.find?_some hfind
        rw [Keyed.eq_of_key_eq (nodup_keys hnames) (List.mem_of_find?_eq_some hfind) hmem hname]

theorem mem_keysOf {names : List String} {key : Option (List Char)} :
    key ∈ keysOf names ↔ ∃ name ∈ names, some name.toList = key := List.mem_map

theorem fieldOf?_eq_none_iff (hnames : (fields.map (·.name)).Nodup) {m : Member} :
    fieldOf? fields m = none ↔ m.1 ∉ keysOf (fields.map (·.name)) := by
  rw [mem_keysOf, Option.eq_none_iff_forall_ne_some]
  constructor
  · rintro hnone ⟨name, hname, hkey⟩
    obtain ⟨f, hf, rfl⟩ := List.mem_map.mp hname
    exact hnone f ((fieldOf?_eq_some_iff hnames).mpr ⟨hf, hkey.symm⟩)
  · intro hunknown f hf
    obtain ⟨hmem, hkey⟩ := (fieldOf?_eq_some_iff hnames).mp hf
    exact hunknown ⟨f.name, List.mem_map_of_mem hmem, hkey.symm⟩

theorem mem_taken_iff (hnames : (fields.map (·.name)).Nodup) {f : Field σ} {v : Json} :
    (f, v) ∈ taken fields members ↔ f ∈ fields ∧ (some f.name.toList, v) ∈ members := by
  unfold taken
  rw [List.mem_filterMap]
  constructor
  · rintro ⟨m, hm, htaken⟩
    obtain ⟨g, hg, hpair⟩ := Option.map_eq_some_iff.mp htaken
    obtain ⟨rfl, rfl⟩ := Prod.mk.inj hpair
    obtain ⟨hmem, hkey⟩ := (fieldOf?_eq_some_iff hnames).mp hg
    rw [← hkey]
    exact ⟨hmem, hm⟩
  · rintro ⟨hmem, hm⟩
    exact ⟨_, hm, Option.map_eq_some_iff.mpr
      ⟨f, (fieldOf?_eq_some_iff hnames).mpr ⟨hmem, rfl⟩, rfl⟩⟩

/-- The fields that are taken are those that have a key among the members. -/
theorem keys_taken (hnames : (fields.map (·.name)).Nodup) :
    (taken fields members).map (fun p => some p.1.name.toList) =
      (members.map Prod.fst).filter (· ∈ keysOf (fields.map (·.name))) := by
  induction members with
  | nil => rfl
  | cons m rest ih =>
      rw [List.map_cons]
      cases hf : fieldOf? fields m with
      | none =>
          have hunknown := (fieldOf?_eq_none_iff hnames).mp hf
          rw [taken_cons_of_none hf, List.filter_cons_of_neg (by simpa using hunknown)]
          exact ih
      | some f =>
          obtain ⟨hmem, hkey⟩ := (fieldOf?_eq_some_iff hnames).mp hf
          have hknown : m.1 ∈ keysOf (fields.map (·.name)) :=
            mem_keysOf.mpr ⟨f.name, List.mem_map_of_mem hmem, hkey.symm⟩
          rw [taken_cons_of_some hf, List.filter_cons_of_pos (by simpa using hknown), ← ih, hkey]
          rfl

/-- Members are orderly if they can be read one after the other, from the first on. -/
theorem orderly_iff_readable (hnames : (fields.map (·.name)).Nodup) :
    Orderly (fields.map (·.name)) members ↔ Readable fields [] members := by
  have honce : ((members.map Prod.fst).filter (· ∈ keysOf (fields.map (·.name)))).Nodup ↔
      ((taken fields members).map (·.1.name)).Nodup := by
    have hkeys : (taken fields members).map (fun p => some p.1.name.toList) =
        ((taken fields members).map (·.1.name)).map fun name => some name.toList := by
      rw [List.map_map]
      rfl
    have hinjective : Function.Injective fun name : String => some name.toList :=
      fun _ _ h => String.toList_injective (Option.some_inj.mp h)
    rw [← keys_taken hnames, hkeys, List.nodup_map_iff hinjective]
  constructor
  · intro h
    refine ⟨fun m hm => ⟨h.keyed m hm, fun hnone => ?_⟩, honce.mp h.once,
      fun _ _ => List.not_mem_nil⟩
    exact h.skipped m hm ((fieldOf?_eq_none_iff hnames).mp hnone)
  · rintro ⟨hall, hnodup, -⟩
    refine ⟨fun m hm => (hall m hm).1, honce.mpr hnodup, fun m hm hunknown => ?_⟩
    exact (hall m hm).2 ((fieldOf?_eq_none_iff hnames).mpr hunknown)

/-- Two members under the name of a field are one. -/
theorem Orderly.eq_of_key_eq {names : List String} (h : Orderly names members) {m m' : Member}
    (hm : m ∈ members) (hm' : m' ∈ members) (hkey : m.1 ∈ keysOf names) (hsame : m.1 = m'.1) :
    m = m' := by
  have honce := h.once
  rw [List.filter_map] at honce
  refine Keyed.eq_of_key_eq honce (List.mem_filter.mpr ⟨hm, decide_eq_true hkey⟩) ?_ hsame
  exact List.mem_filter.mpr ⟨hm', decide_eq_true (hsame ▸ hkey)⟩

/-- Among orderly members, what stands under the name of a field is the value of its member. -/
theorem Orderly.under?_eq_some_iff {names : List String} (h : Orderly names members)
    {name : String} (hname : name ∈ names) {v : Json} :
    under? name members = some v ↔ (some name.toList, v) ∈ members := by
  unfold under?
  rw [Option.map_eq_some_iff]
  constructor
  · rintro ⟨m, hfind, rfl⟩
    have hkey : m.1 = some name.toList := by simpa using List.find?_some hfind
    rw [← hkey]
    exact List.mem_of_find?_eq_some hfind
  · intro hm
    cases hfind : members.find? (·.1 == some name.toList) with
    | none => exact absurd (List.find?_eq_none.mp hfind _ hm) (by simp)
    | some m =>
        have hkey : m.1 = some name.toList := by simpa using List.find?_some hfind
        have hfield : m.1 ∈ keysOf names := mem_keysOf.mpr ⟨name, hname, hkey.symm⟩
        have hsame : m = (some name.toList, v) :=
          h.eq_of_key_eq (List.mem_of_find?_eq_some hfind) hm hfield hkey
        exact ⟨m, rfl, congrArg Prod.snd hsame⟩

/-- Whichever way they are ordered, members lead to the same readings. -/
theorem taken_perm_readings (hnames : (fields.map (·.name)).Nodup)
    (h : Orderly (fields.map (·.name)) members) :
    (taken fields members).Perm (readings fields members) := by
  have htaken : (taken fields members).Nodup := ((orderly_iff_readable hnames).mp h).2.1.of_map
  have hreadings : (readings fields members).Nodup := by
    refine List.Nodup.filterMap ?_ (List.Nodup.of_map _ hnames)
    rintro f g ⟨k, v⟩ hf hg
    obtain ⟨v, -, hfv⟩ := Option.map_eq_some_iff.mp hf
    obtain ⟨w, -, hgw⟩ := Option.map_eq_some_iff.mp hg
    rw [(Prod.mk.inj hfv).1, (Prod.mk.inj hgw).1]
  rw [List.perm_ext_iff_of_nodup htaken hreadings]
  rintro ⟨f, v⟩
  rw [mem_taken_iff hnames, readings, List.mem_filterMap]
  constructor
  · rintro ⟨hf, hm⟩
    refine ⟨f, hf, Option.map_eq_some_iff.mpr ⟨v, ?_, rfl⟩⟩
    exact (h.under?_eq_some_iff (List.mem_map_of_mem hf)).mpr hm
  · rintro ⟨g, hg, hread⟩
    obtain ⟨w, hw, hpair⟩ := Option.map_eq_some_iff.mp hread
    obtain ⟨rfl, rfl⟩ := Prod.mk.inj hpair
    exact ⟨hg, (h.under?_eq_some_iff (List.mem_map_of_mem hg)).mp hw⟩

end Order

/-! ## Records -/

theorem toOption_foldlM_readInto (readings : List (Field σ × Json)) (s : σ) :
    (readings.foldlM readInto s).toOption =
      readings.foldl (fun s p => s.bind fun s => (readInto s p).toOption) (some s) := by
  have hnone : ∀ readings : List (Field σ × Json),
      readings.foldl (fun s p => s.bind fun s => (readInto s p).toOption) none = none := by
    intro readings
    induction readings with
    | nil => rfl
    | cons p rest ih => exact ih
  induction readings generalizing s with
  | nil => rfl
  | cons p rest ih =>
      rw [List.foldlM_cons, List.foldl_cons]
      show _ = rest.foldl _ (readInto s p).toOption
      cases readInto s p with
      | error fault => exact (hnone rest).symm
      | ok t => exact ih t

/-- **Independent readings may be made in any order.** -/
theorem foldlM_readInto_perm {fields : List (Field σ)} (hind : Independent fields)
    {readings readings' : List (Field σ × Json)} (hperm : readings.Perm readings')
    (hfields : ∀ p ∈ readings, p.1 ∈ fields) (hnodup : (readings.map (·.1.name)).Nodup) (s : σ) :
    (readings.foldlM readInto s).toOption = (readings'.foldlM readInto s).toOption := by
  rw [toOption_foldlM_readInto, toOption_foldlM_readInto]
  refine hperm.foldl_eq' ?_ (some s)
  intro p hp q hq o
  cases o with
  | none => rfl
  | some s =>
      by_cases hname : p.1.name = q.1.name
      · rw [Keyed.eq_of_key_eq hnodup hp hq hname]
      · -- these are two fields
        have hswap := hind p.1 (hfields p hp) q.1 (hfields q hq) hname p.2 q.2 s
        rwa [Steps.toOption_bind, Steps.toOption_bind] at hswap

section Record

variable {fields : List (Field σ)}

/-- **Members are read as if they stood in the order of the fields.** -/
theorem readMembers_eq_ok_iff (hnames : (fields.map (·.name)).Nodup) (hind : Independent fields)
    {members : List Member} {s t : σ} {given : List String} :
    members.foldlM (readMember fields) (s, []) = .ok (t, given) ↔
      Orderly (fields.map (·.name)) members ∧
      (readings fields members).foldlM readInto s = .ok t ∧
      given = ((taken fields members).map (·.1.name)).reverse := by
  have hreadings (h : Orderly (fields.map (·.name)) members) :
      (taken fields members).foldlM readInto s = .ok t ↔
        (readings fields members).foldlM readInto s = .ok t := by
    have hfields : ∀ p ∈ taken fields members, p.1 ∈ fields :=
      fun p hp => ((mem_taken_iff hnames).mp hp).1
    rw [← Steps.toOption_eq_some_iff, ← Steps.toOption_eq_some_iff,
      foldlM_readInto_perm hind (taken_perm_readings hnames h) hfields
        ((orderly_iff_readable hnames).mp h).2.1]
  rw [foldlM_readMember_eq_ok_iff, ← orderly_iff_readable hnames, List.append_nil]
  exact and_congr_right fun h => and_congr_left fun _ => hreadings h

/-- Values in a fixed order, under the names that belong to them. -/
def placed (names : List String) (items : List Json) : List Member :=
  (names.zip items).map fun p => (some p.1.toList, p.2)

/-- A tree that is a record with these members, be it an object or an array. -/
inductive MadeOf (names : List String) : Json → List Member → Prop
  | object (members : List Member) : MadeOf names (.object members none) members
  | array {items : List Json} : items.length ≤ names.length →
      MadeOf names (.array items none) (placed names items)

theorem MadeOf.unique {names : List String} {v : Json} {members members' : List Member}
    (h : MadeOf names v members) (h' : MadeOf names v members') : members = members' := by
  cases h <;> cases h' <;> rfl

theorem readPositions_nil_eq_ok_iff {fields : List (Field σ)} {tail : Option Break}
    {state state' : σ × List String} :
    readPositions tail fields [] state = .ok state' ↔ tail = none ∧ state' = state := by
  cases fields <;> cases tail <;> simp [readPositions, checkTail, eq_comm]

/-- Values in brackets are read one after the other, and there may be too few of them. -/
theorem readPositions_eq_ok_iff {fields : List (Field σ)} {items : List Json} {tail : Option Break}
    {s t : σ} {given given' : List String} :
    readPositions tail fields items (s, given) = .ok (t, given') ↔
      (tail = none ∧ items.length ≤ fields.length) ∧
        (fields.zip items).foldlM readInto s = .ok t ∧
        given' = ((fields.zip items).map (·.1.name)).reverse ++ given := by
  induction items generalizing fields s given with
  | nil =>
      rw [readPositions_nil_eq_ok_iff, Prod.mk.injEq, List.zip_nil_right]
      constructor
      · rintro ⟨htail, rfl, rfl⟩
        exact ⟨⟨htail, Nat.zero_le _⟩, rfl, rfl⟩
      · rintro ⟨⟨htail, -⟩, hread, hgiven⟩
        exact ⟨htail, (Except.ok.inj hread).symm, hgiven⟩
  | cons v rest ih =>
      cases fields with
      | nil => simp [readPositions]
      | cons f fields =>
          rw [readPositions, Steps.bind_eq_ok_iff, List.zip_cons_cons, List.foldlM_cons,
            Steps.bind_eq_ok_iff, List.map_cons, List.reverse_cons, List.append_assoc,
            List.length_cons, List.length_cons, Nat.add_le_add_iff_right]
          constructor
          · rintro ⟨s', hv, hrest⟩
            obtain ⟨hends, hreads, hgiven⟩ := ih.mp hrest
            exact ⟨hends, ⟨s', hv, hreads⟩, hgiven⟩
          · rintro ⟨hends, ⟨s', hv, hreads⟩, hgiven⟩
            exact ⟨s', hv, ih.mpr ⟨hends, hreads, hgiven⟩⟩

theorem fieldOf?_of_mem (hnames : (fields.map (·.name)).Nodup) {f : Field σ} (hf : f ∈ fields)
    (v : Json) : fieldOf? fields (some f.name.toList, v) = some f :=
  (fieldOf?_eq_some_iff hnames).mpr ⟨hf, rfl⟩

theorem placed_eq (items : List Json) :
    placed (fields.map (·.name)) items =
      (fields.zip items).map fun p => (some p.1.name.toList, p.2) := by
  unfold placed
  rw [List.zip_map_left, List.map_map]
  rfl

theorem taken_placed (hnames : (fields.map (·.name)).Nodup) (items : List Json) :
    taken fields (placed (fields.map (·.name)) items) = fields.zip items := by
  have hself : ∀ p ∈ fields.zip items,
      (fieldOf? fields (some p.1.name.toList, p.2)).map (fun f => (f, p.2)) = some p := by
    intro p hp
    rw [fieldOf?_of_mem hnames (List.of_mem_zip hp).1]
    rfl
  rw [placed_eq, taken, List.filterMap_map]
  exact (List.filterMap_congr hself).trans List.filterMap_some

theorem names_zip_sublist (fields : List (Field σ)) (items : List Json) :
    ((fields.zip items).map (·.1.name)).Sublist (fields.map (·.name)) := by
  induction fields generalizing items with
  | nil => exact List.nil_sublist _
  | cons f fields ih =>
      cases items with
      | nil => exact List.nil_sublist _
      | cons v rest => exact (ih rest).cons_cons f.name

theorem orderly_placed (hnames : (fields.map (·.name)).Nodup) (items : List Json) :
    Orderly (fields.map (·.name)) (placed (fields.map (·.name)) items) := by
  rw [orderly_iff_readable hnames, Readable, taken_placed hnames]
  refine ⟨fun m hm => ?_, hnames.sublist (names_zip_sublist fields items),
    fun _ _ => List.not_mem_nil⟩
  rw [placed_eq] at hm
  obtain ⟨p, hp, rfl⟩ := List.mem_map.mp hm
  rw [fieldOf?_of_mem hnames (List.of_mem_zip hp).1]
  exact ⟨Option.some_ne_none _, fun hnone => absurd hnone (Option.some_ne_none _)⟩

/-- A record in brackets is the record in braces that has its values under the names. -/
theorem readPositions_eq_ok_iff_placed (hnames : (fields.map (·.name)).Nodup)
    {items : List Json} {tail : Option Break} {s t : σ} {given : List String} :
    readPositions tail fields items (s, []) = .ok (t, given) ↔
      (tail = none ∧ items.length ≤ fields.length) ∧
        (placed (fields.map (·.name)) items).foldlM (readMember fields) (s, []) =
          .ok (t, given) := by
  have hreadable := (orderly_iff_readable hnames).mp (orderly_placed hnames items)
  rw [readPositions_eq_ok_iff, foldlM_readMember_eq_ok_iff, and_iff_right hreadable,
    taken_placed hnames]

/-- What is read of a tree that is taken for a record, before anything is missed. -/
def readState (fields : List (Field σ)) (start : σ) : Json → Except Fault (σ × List String)
  | .object members tail => do
    let result ← members.foldlM (readMember fields) (start, [])
    checkTail tail
    pure result
  | .array items tail => readPositions tail fields items (start, [])
  | v => .error v.mismatch

theorem readRecord_eq (fields : List (Field σ)) (required : List String) (start : σ) (v : Json) :
    readRecord fields required start v = readState fields start v >>= fun state =>
      if required.all state.2.contains then .ok state.1 else .error .mismatched := by
  cases v with
  | object members tail =>
      simp only [readRecord, readState, bind_assoc, pure_bind]
      rfl
  | _ => rfl

theorem readState_eq_ok_iff (hnames : (fields.map (·.name)).Nodup) {start t : σ}
    {given : List String} {v : Json} :
    readState fields start v = .ok (t, given) ↔
      ∃ members, MadeOf (fields.map (·.name)) v members ∧
        members.foldlM (readMember fields) (start, []) = .ok (t, given) := by
  constructor
  · intro h
    cases v with
    | object members tail =>
        obtain ⟨result, hread, h⟩ := Steps.bind_eq_ok_iff.mp h
        cases tail with
        | none =>
            cases h
            exact ⟨members, .object members, hread⟩
        | some b => cases h
    | array items tail =>
        obtain ⟨⟨rfl, hlen⟩, hread⟩ := (readPositions_eq_ok_iff_placed hnames).mp h
        exact ⟨_, .array (by rwa [List.length_map]), hread⟩
    | null | bool | number | text | broken => cases h
  · rintro ⟨_, hmade, hread⟩
    cases hmade with
    | object members => exact Steps.bind_eq_ok_iff.mpr ⟨_, hread, rfl⟩
    | array hlen =>
        rw [List.length_map] at hlen
        exact (readPositions_eq_ok_iff_placed hnames).mpr ⟨⟨rfl, hlen⟩, hread⟩

/-- The fields that are given are those that something stands under. -/
theorem mem_given_iff (hnames : (fields.map (·.name)).Nodup) {members : List Member}
    (h : Orderly (fields.map (·.name)) members) {name : String}
    (hname : name ∈ fields.map (·.name)) :
    name ∈ (taken fields members).map (·.1.name) ↔ ∃ w, under? name members = some w := by
  obtain ⟨f, hf, rfl⟩ := List.mem_map.mp hname
  rw [List.mem_map]
  constructor
  · rintro ⟨⟨g, w⟩, hg, hsame⟩
    obtain ⟨-, hw⟩ := (mem_taken_iff hnames).mp hg
    have hsame : g.name = f.name := hsame
    rw [hsame] at hw
    exact ⟨w, (h.under?_eq_some_iff hname).mpr hw⟩
  · rintro ⟨w, hw⟩
    exact ⟨(f, w), (mem_taken_iff hnames).mpr ⟨hf, (h.under?_eq_some_iff hname).mp hw⟩, rfl⟩

/-- **What is read as a record**: members that are orderly, among them the required ones, each of
which is read into the record, field by field. -/
theorem readRecord_eq_ok_iff (hnames : (fields.map (·.name)).Nodup) (hind : Independent fields)
    {required : List String} (hrequired : ∀ name ∈ required, name ∈ fields.map (·.name))
    {start t : σ} {v : Json} :
    readRecord fields required start v = .ok t ↔
      ∃ members, MadeOf (fields.map (·.name)) v members ∧
        Orderly (fields.map (·.name)) members ∧
        (∀ name ∈ required, ∃ w, under? name members = some w) ∧
        (readings fields members).foldlM readInto start = .ok t := by
  have hgiven {members : List Member} (h : Orderly (fields.map (·.name)) members) :
      required.all ((taken fields members).map (·.1.name)).reverse.contains = true ↔
        ∀ name ∈ required, ∃ w, under? name members = some w := by
    rw [List.all_eq_true]
    refine forall₂_congr fun name hname => ?_
    rw [List.contains_iff_mem, List.mem_reverse]
    exact mem_given_iff hnames h (hrequired name hname)
  rw [readRecord_eq, Steps.bind_eq_ok_iff]
  constructor
  · rintro ⟨⟨s, given⟩, hread, hchecked⟩
    obtain ⟨members, hmade, hread⟩ := (readState_eq_ok_iff hnames).mp hread
    obtain ⟨horderly, hreadings, rfl⟩ := (readMembers_eq_ok_iff hnames hind).mp hread
    split at hchecked
    · next hall =>
      cases hchecked
      exact ⟨members, hmade, horderly, (hgiven horderly).mp hall, hreadings⟩
    · cases hchecked
  · rintro ⟨members, hmade, horderly, hall, hread⟩
    have hstate := (readMembers_eq_ok_iff hnames hind).mpr ⟨horderly, hread, rfl⟩
    refine ⟨_, (readState_eq_ok_iff hnames).mpr ⟨members, hmade, hstate⟩, ?_⟩
    exact if_pos ((hgiven horderly).mpr hall)

/-- A tree that is a record has one way to be read. -/
theorem MadeOf.readRecord_eq_ok_iff {v : Json} {members : List Member}
    (hmade : MadeOf (fields.map (·.name)) v members) (hnames : (fields.map (·.name)).Nodup)
    (hind : Independent fields) {required : List String}
    (hrequired : ∀ name ∈ required, name ∈ fields.map (·.name)) {start t : σ} :
    readRecord fields required start v = .ok t ↔
      (Orderly (fields.map (·.name)) members ∧
        ∀ name ∈ required, ∃ w, under? name members = some w) ∧
      (readings fields members).foldlM readInto start = .ok t := by
  rw [Json.readRecord_eq_ok_iff hnames hind hrequired]
  constructor
  · rintro ⟨members', hmade', horderly, hall, hread⟩
    obtain rfl := hmade.unique hmade'
    exact ⟨⟨horderly, hall⟩, hread⟩
  · rintro ⟨⟨horderly, hall⟩, hread⟩
    exact ⟨members, hmade, horderly, hall, hread⟩

end Record

/-! ## Records with one field -/

theorem readings_cons (f : Field σ) (fields : List (Field σ)) (members : List Member) :
    readings (f :: fields) members =
      ((under? f.name members).map fun v => (f, v)).toList ++ readings fields members := by
  unfold readings
  rw [List.filterMap_cons]
  cases under? f.name members <;> rfl

section OneField

variable {name : String} {read : Json → σ → Except Fault σ} {start t : σ} {v : Json}

theorem independent_singleton (f : Field σ) : Independent [f] := by
  intro g hg g' hg' hne
  rw [List.mem_singleton.mp hg, List.mem_singleton.mp hg'] at hne
  exact absurd rfl hne

theorem nodup_names_singleton (f : Field σ) : ([f].map (·.name)).Nodup :=
  List.nodup_singleton f.name

/-- A record with one field that has to be there. -/
theorem readRecord_required_eq_ok_iff :
    readRecord [⟨name, read⟩] [name] start v = .ok t ↔
      ∃ members, MadeOf [name] v members ∧ Orderly [name] members ∧
        ∃ w, under? name members = some w ∧ read w start = .ok t := by
  rw [readRecord_eq_ok_iff (nodup_names_singleton _) (independent_singleton _) (by simp)]
  refine exists_congr fun members => and_congr_right fun _ => and_congr_right fun _ => ?_
  rw [List.forall_mem_singleton, readings_cons]
  cases under? name members with
  | none => simp
  | some w => simp [readings, readInto]

/-- A record with one field that may be left out. -/
theorem readRecord_optional_eq_ok_iff :
    readRecord [⟨name, read⟩] [] start v = .ok t ↔
      ∃ members, MadeOf [name] v members ∧ Orderly [name] members ∧
        ((∃ w, under? name members = some w ∧ read w start = .ok t) ∨
          under? name members = none ∧ t = start) := by
  rw [readRecord_eq_ok_iff (nodup_names_singleton _) (independent_singleton _) (by simp)]
  refine exists_congr fun members => and_congr_right fun _ => and_congr_right fun _ => ?_
  rw [readings_cons]
  cases under? name members with
  | none => simp [readings, pure, Except.pure, eq_comm]
  | some w => simp [readings, readInto]

end OneField

end Switchboard.Json
