import Switchboard.Json.Reader
import Switchboard.Proofs.Json.Edits

/-!
# The tokens of a tree

A tree that does not break off is written down as a sequence of tokens (`written`), and whatever
text consists of these tokens, with whatever blanks between them, is parsed to the tree, with
nothing behind it (`parse_of_tokens`).
-/

namespace Switchboard.Json

open Progress

/-- The tokens with which a tree is written. -/
def written : Json → List Token
  | .null => [.null]
  | .bool b => [.bool b]
  | .number finite => [.number finite]
  | .text value => [.text value]
  | .array [] _ => [.openBracket, .closeBracket]
  | .array (v :: rest) _ => .openBracket :: written v ++ moreItems rest ++ [.closeBracket]
  | .object [] _ => [.openBrace, .closeBrace]
  | .object ((key, v) :: rest) _ =>
    .openBrace :: .text key :: .colon :: written v ++ moreMembers rest ++ [.closeBrace]
  | .broken b => [.broken false b]
where
  /-- Items behind a first one. -/
  moreItems : List Json → List Token
    | [] => []
    | v :: rest => .comma :: written v ++ moreItems rest
  /-- Members behind a first one. -/
  moreMembers : List Member → List Token
    | [] => []
    | (key, v) :: rest => .comma :: .text key :: .colon :: written v ++ moreMembers rest

/-- A tree is read from its tokens wherever a value is due. -/
def IsRead (v : Json) : Prop :=
  ∀ frames expected, expected = .value ∨ expected = .itemOrEnd →
    (written v).foldl next (.inside frames expected) = afterValue v frames

/-! ## Arrays and objects -/

theorem foldl_moreItems {items : List Json} (h : ∀ v ∈ items, IsRead v) (read : List Json)
    (outer : List Frame) :
    (written.moreItems items).foldl next (.inside (.array read :: outer) .separator) =
      .inside (.array (items.reverse ++ read) :: outer) .separator := by
  induction items generalizing read with
  | nil => rfl
  | cons v rest ih =>
      obtain ⟨hv, hrest⟩ := List.forall_mem_cons.mp h
      have hvalue := hv (.array read :: outer) .value (.inl rfl)
      rw [written.moreItems, List.cons_append, List.foldl_cons, List.foldl_append]
      show (written.moreItems rest).foldl next
        ((written v).foldl next (.inside (.array read :: outer) .value)) = _
      rw [hvalue, List.reverse_cons, List.append_assoc]
      exact ih hrest (v :: read)

theorem foldl_moreMembers {members : List Member} (h : ∀ m ∈ members, IsRead m.2)
    (read : List Member) (outer : List Frame) :
    (written.moreMembers members).foldl next (.inside (.object read none :: outer) .separator) =
      .inside (.object (members.reverse ++ read) none :: outer) .separator := by
  induction members generalizing read with
  | nil => rfl
  | cons m rest ih =>
      obtain ⟨key, v⟩ := m
      obtain ⟨hv, hrest⟩ := List.forall_mem_cons.mp h
      have hvalue := hv (.object read key :: outer) .value (.inl rfl)
      rw [written.moreMembers, List.cons_append, List.cons_append, List.cons_append,
        List.foldl_cons, List.foldl_cons, List.foldl_cons, List.foldl_append]
      show (written.moreMembers rest).foldl next
        ((written v).foldl next (.inside (.object read key :: outer) .value)) = _
      rw [hvalue, List.reverse_cons, List.append_assoc]
      exact ih hrest ((key, v) :: read)

theorem isRead_array {items : List Json} (h : ∀ v ∈ items, IsRead v) :
    IsRead (.array items none) := by
  intro frames expected he
  have hopen : next (.inside frames expected) .openBracket =
      .inside (.array [] :: frames) .itemOrEnd := by
    rcases he with rfl | rfl <;> rfl
  cases items with
  | nil =>
      rw [written, List.foldl_cons, hopen]
      rfl
  | cons v rest =>
      obtain ⟨hv, hrest⟩ := List.forall_mem_cons.mp h
      rw [written, List.cons_append, List.cons_append, List.foldl_cons, hopen, List.foldl_append,
        List.foldl_append, hv _ _ (.inr rfl)]
      show List.foldl next (List.foldl next (.inside (.array [v] :: frames) .separator) _) _ = _
      rw [foldl_moreItems hrest [v] frames]
      show afterValue (.array (rest.reverse ++ [v]).reverse none) frames = _
      rw [List.reverse_append, List.reverse_reverse]
      rfl

theorem isRead_object {members : List Member} (h : ∀ m ∈ members, IsRead m.2) :
    IsRead (.object members none) := by
  intro frames expected he
  have hopen : next (.inside frames expected) .openBrace =
      .inside (.object [] none :: frames) .keyOrEnd := by
    rcases he with rfl | rfl <;> rfl
  cases members with
  | nil =>
      rw [written, List.foldl_cons, hopen]
      rfl
  | cons m rest =>
      obtain ⟨key, v⟩ := m
      obtain ⟨hv, hrest⟩ := List.forall_mem_cons.mp h
      rw [written, List.cons_append, List.cons_append, List.cons_append, List.cons_append,
        List.cons_append, List.cons_append, List.foldl_cons, hopen, List.foldl_cons,
        List.foldl_cons, List.foldl_append, List.foldl_append]
      show List.foldl next (List.foldl next
        (List.foldl next (.inside (.object [] key :: frames) .value) (written v)) _) _ = _
      rw [hv _ _ (.inl rfl)]
      show List.foldl next
        (List.foldl next (.inside (.object [(key, v)] none :: frames) .separator) _) _ = _
      rw [foldl_moreMembers hrest [(key, v)] frames]
      show afterValue (.object (rest.reverse ++ [(key, v)]).reverse none) frames = _
      rw [List.reverse_append, List.reverse_reverse]
      rfl

/-! ## Texts -/

/-- What can be passed over breaks off nowhere, so it is read from its tokens. -/
theorem isRead_of_skipFault (v : Json) (h : skipFault v = none) : IsRead v := by
  cases hv : v with
  | null | bool | number | text =>
      intro frames expected he
      rcases he with rfl | rfl <;> rfl
  | array items tail =>
      rw [hv, skipFault, Option.or_eq_none_iff, skipItems_eq_none_iff,
        Option.map_eq_none_iff] at h
      obtain ⟨hitems, rfl⟩ := h
      refine isRead_array fun w hw => ?_
      have hsize : sizeOf w < sizeOf v := by
        have hitem := List.sizeOf_lt_of_mem hw
        rw [hv, array.sizeOf_spec]
        omega
      exact isRead_of_skipFault w (hitems w hw)
  | object members tail =>
      rw [hv, skipFault, Option.or_eq_none_iff, skipMembers_eq_none_iff,
        Option.map_eq_none_iff] at h
      obtain ⟨hmembers, rfl⟩ := h
      refine isRead_object fun m hm => ?_
      -- a value is smaller than the object that has it under some key
      have hsize : sizeOf m.2 < sizeOf v := by
        obtain ⟨key, w⟩ := m
        have hmember := List.sizeOf_lt_of_mem hm
        rw [Prod.mk.sizeOf_spec] at hmember
        rw [hv, object.sizeOf_spec]
        dsimp only
        omega
      exact isRead_of_skipFault m.2 (hmembers m hm)
  | broken b =>
      rw [hv] at h
      cases h

/-- **A text that consists of the tokens of a tree is parsed to it.** -/
theorem parse_of_tokens {cs : List Char} {v : Json} (hv : skipFault v = none)
    (h : tokens cs = written v) : parse cs = ⟨v, false⟩ := by
  unfold parse
  rw [h, isRead_of_skipFault v hv [] .value (.inl rfl)]
  rfl

/-! ## What is read -/

section Read

variable {α σ : Type}

theorem skipFault_of_readText {v : Json} {s : String} (h : readText v = .ok s) :
    skipFault v = none := by
  rw [readText_eq_ok_iff.mp h]
  rfl

theorem skipFault_of_readOption {read : Json → Except Fault α}
    (hread : ∀ v a, read v = .ok a → skipFault v = none) {v : Json} {o : Option α}
    (h : readOption read v = .ok o) : skipFault v = none := by
  unfold readOption at h
  split at h
  · rfl
  · obtain ⟨a, ha, -⟩ := Steps.map_eq_ok_iff.mp h
    exact hread v a ha

theorem skipFault_of_readList {read : Json → Except Fault α}
    (hread : ∀ v a, read v = .ok a → skipFault v = none) {v : Json} {as : List α}
    (h : readList read v = .ok as) : skipFault v = none := by
  obtain ⟨items, rfl, hitems⟩ := readList_eq_ok_iff.mp h
  rw [skipFault, Option.or_eq_none_iff, skipItems_eq_none_iff]
  refine ⟨fun u hu => ?_, rfl⟩
  obtain ⟨a, ha⟩ := exists_mapM_eq_ok_iff.mp ⟨as, hitems⟩ u hu
  exact hread u a ha

theorem exists_of_foldlM_readInto {readings : List (Field σ × Json)} {s t : σ}
    (h : readings.foldlM readInto s = .ok t) :
    ∀ p ∈ readings, ∃ s t, p.1.read p.2 s = .ok t := by
  induction readings generalizing s with
  | nil => exact fun p hp => absurd hp List.not_mem_nil
  | cons q rest ih =>
      rw [List.foldlM_cons] at h
      obtain ⟨s', hq, hrest⟩ := Steps.bind_eq_ok_iff.mp h
      exact List.forall_mem_cons.mpr ⟨⟨s, s', hq⟩, ih hrest⟩

theorem MadeOf.skipFault_iff {names : List String} {v : Json} {members : List Member}
    (h : MadeOf names v members) :
    skipFault v = none ↔ ∀ m ∈ members, skipFault m.2 = none := by
  cases h with
  | object members => simp [skipFault, skipMembers_eq_none_iff]
  | @array items hlen =>
      have hvalues : (placed names items).map Prod.snd = items := by
        unfold placed
        rw [List.map_map]
        exact List.map_snd_zip hlen
      have hitems : skipFault (.array items none) = none ↔ ∀ v ∈ items, skipFault v = none := by
        simp [skipFault, skipItems_eq_none_iff]
      conv_lhs => rw [hitems, ← hvalues]
      exact List.forall_mem_map

/-- **What is read as a record breaks off nowhere**, if its fields do not. -/
theorem skipFault_of_readRecord {fields : List (Field σ)}
    (hnames : (fields.map (·.name)).Nodup) (hind : Independent fields) {required : List String}
    (hrequired : ∀ name ∈ required, name ∈ fields.map (·.name))
    (hread : ∀ f ∈ fields, ∀ w s t, f.read w s = .ok t → skipFault w = none)
    {start t : σ} {v : Json} (h : readRecord fields required start v = .ok t) :
    skipFault v = none := by
  obtain ⟨members, hmade, horderly, -, hfold⟩ :=
    (readRecord_eq_ok_iff hnames hind hrequired).mp h
  rw [hmade.skipFault_iff]
  rintro ⟨key, w⟩ hm
  by_cases hkey : key ∈ keysOf (fields.map (·.name))
  · obtain ⟨name, hname, rfl⟩ := mem_keysOf.mp hkey
    obtain ⟨f, hf, rfl⟩ := List.mem_map.mp hname
    have hunder := (horderly.under?_eq_some_iff hname).mpr hm
    have hmem : (f, w) ∈ readings fields members :=
      List.mem_filterMap.mpr ⟨f, hf, by rw [hunder]; rfl⟩
    obtain ⟨s, t, hw⟩ := exists_of_foldlM_readInto hfold (f, w) hmem
    exact hread f hf w s t hw
  · exact horderly.skipped (key, w) hm hkey

end Read

end Switchboard.Json
