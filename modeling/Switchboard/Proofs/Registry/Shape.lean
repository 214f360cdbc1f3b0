import Switchboard.Proofs.Keyed
import Switchboard.Session.Registry

/-!
# The shape of a registry

The singleton list holds keys of single containers, each once, and the merged place holds a merged
key. Every operation keeps that shape, so the sessions of a registry can be told apart by their
keys, and each operation can be read as what it does to the list of descriptors:

* a scope change empties it (`descriptors_flush`);
* an inventory and a deletion filter it by key (`descriptors_reconcile`, `descriptors_delete`);
* a selection sets every visibility and adds at most one session (`mem_descriptors_select`).
-/

namespace Switchboard

namespace Registry

/-- The keys of the open sessions, in the order in which they are drawn. -/
def keys (r : Registry) : List SessionKey := r.descriptors.map (·.key)

/-- The two places of a registry hold the keys that belong there, and no key twice. -/
structure Shaped (r : Registry) : Prop where
  single : ∀ d ∈ r.entries, d.key.isMerged = false
  merged : ∀ d ∈ r.merged, d.key.isMerged = true
  nodup : (r.entries.map (·.key)).Nodup

theorem mem_descriptors {r : Registry} {d : Descriptor} :
    d ∈ r.descriptors ↔ r.merged = some d ∨ d ∈ r.entries := by
  unfold descriptors
  rw [List.mem_append, Option.mem_toList]

theorem mem_keys {r : Registry} {key : SessionKey} :
    key ∈ r.keys ↔ ∃ d ∈ r.descriptors, d.key = key := List.mem_map

theorem any_key_iff {r : Registry} {key : SessionKey} :
    (r.descriptors.any fun d => d.key == key) = true ↔ key ∈ r.keys := by
  rw [List.any_eq_true, mem_keys]
  simp only [beq_iff_eq]

theorem forall_mem_keys {r : Registry} {P : SessionKey → Prop} :
    (∀ key ∈ r.keys, P key) ↔ ∀ d ∈ r.descriptors, P d.key := List.forall_mem_map

theorem Shaped.keys_nodup {r : Registry} (h : r.Shaped) : r.keys.Nodup := by
  unfold keys descriptors
  rw [List.map_append, List.nodup_append]
  refine ⟨?_, h.nodup, ?_⟩
  · cases r.merged with
    | none => simp
    | some d => simp
  · -- no key is both merged and of a single container
    intro a ha b hb hab
    subst hab
    obtain ⟨m, hm, rfl⟩ := List.mem_map.mp ha
    obtain ⟨d, hd, hk⟩ := List.mem_map.mp hb
    have hmerged := h.merged m (Option.mem_toList.mp hm)
    rw [← hk, h.single d hd] at hmerged
    exact Bool.false_ne_true hmerged

/-- There is at most one merged session. -/
theorem Shaped.eq_of_isMerged {r : Registry} (h : r.Shaped) {a b : SessionKey}
    (ha : a ∈ r.keys) (hb : b ∈ r.keys) (hma : a.isMerged = true) (hmb : b.isMerged = true) :
    a = b := by
  have hplace : ∀ key ∈ r.keys, key.isMerged = true → ∃ d, r.merged = some d ∧ d.key = key := by
    intro key hkey hm
    obtain ⟨d, hd, rfl⟩ := mem_keys.mp hkey
    rcases mem_descriptors.mp hd with hd | hd
    · exact ⟨d, hd, rfl⟩
    · rw [h.single d hd] at hm
      exact absurd hm Bool.false_ne_true
  obtain ⟨d, hd, rfl⟩ := hplace a ha hma
  obtain ⟨e, he, rfl⟩ := hplace b hb hmb
  rw [Option.some.inj (hd.symm.trans he)]

/-- Looking a key up finds the session of that key. -/
theorem Shaped.find?_eq_some_iff {r : Registry} (h : r.Shaped) {key : SessionKey}
    {d : Descriptor} : r.find? key = some d ↔ d ∈ r.descriptors ∧ d.key = key := by
  unfold find?
  rw [mem_descriptors]
  split
  · rename_i hm
    rw [Option.filter_eq_some_iff, beq_iff_eq]
    constructor
    · intro hgiven
      obtain ⟨hd, hk⟩ := hgiven
      exact ⟨.inl hd, hk⟩
    · intro hgiven
      obtain ⟨hd | hd, rfl⟩ := hgiven
      · exact ⟨hd, rfl⟩
      · rw [h.single d hd] at hm
        exact absurd hm Bool.false_ne_true
  · rename_i hm
    rw [Keyed.find?_eq_some_iff h.nodup]
    constructor
    · intro hgiven
      obtain ⟨hd, hk⟩ := hgiven
      exact ⟨.inr hd, hk⟩
    · intro hgiven
      obtain ⟨hd | hd, rfl⟩ := hgiven
      · exact absurd (h.merged d hd) hm
      · exact ⟨hd, rfl⟩

theorem Shaped.find?_eq_none_iff {r : Registry} (h : r.Shaped) {key : SessionKey} :
    r.find? key = none ↔ key ∉ r.keys := by
  rw [mem_keys]
  constructor
  · intro hn hgiven
    obtain ⟨d, hd, hk⟩ := hgiven
    rw [h.find?_eq_some_iff.mpr ⟨hd, hk⟩] at hn
    exact absurd hn (by simp)
  · intro hn
    cases hf : r.find? key with
    | none => rfl
    | some d => exact absurd ⟨d, h.find?_eq_some_iff.mp hf⟩ hn

theorem Shaped.isSome_find?_iff {r : Registry} (h : r.Shaped) {key : SessionKey} :
    (r.find? key).isSome = true ↔ key ∈ r.keys := by
  rw [Option.isSome_iff_ne_none, ne_eq, h.find?_eq_none_iff, not_not]

theorem shaped_opened (endpoint : Endpoint) (ns : String) : (opened endpoint ns).Shaped where
  single := by simp [opened]
  merged := by simp [opened]
  nodup := by simp [opened]

/-! ## Scope -/

@[simp] theorem descriptors_flush (r : Registry) : r.flush.descriptors = [] := rfl

theorem shaped_flush (r : Registry) : r.flush.Shaped where
  single := by simp [flush]
  merged := by simp [flush]
  nodup := by simp [flush]

/-- A change of scope leaves the registry as it is, or empties it and says so. -/
def Rescoped (r : Registry) (change : Registry × Bool) : Prop :=
  change = (r, false) ∨ ∃ r' : Registry, change = (r'.flush, true) ∧ r'.closed = r.closed

theorem rescoped_updateNamespace (r : Registry) (ns : String) :
    r.Rescoped (r.updateNamespace ns) := by
  unfold updateNamespace
  split
  · exact .inl rfl
  · exact .inr ⟨_, rfl, rfl⟩

theorem rescoped_updateScope (r : Registry) (context : Option String) (ns : String) :
    r.Rescoped (r.updateScope context ns) := by
  unfold updateScope
  split
  · exact rescoped_updateNamespace r ns
  · exact .inr ⟨_, rfl, rfl⟩

/-! ## Removal -/

/-- An inventory keeps the sessions whose container it lists, and every merged session. -/
theorem Shaped.descriptors_reconcile {r : Registry} (h : r.Shaped) (i : Inventory) :
    (r.reconcile i).1.descriptors = r.descriptors.filter (fun d => i.holds d.key) := by
  show r.merged.toList ++ _ = (r.merged.toList ++ r.entries).filter _
  rw [List.filter_append]
  congr 1
  -- an inventory holds whatever is merged, so the filter leaves the merged place alone
  symm
  rw [List.filter_eq_self]
  intro d hd
  have hm := h.merged d (Option.mem_toList.mp hd)
  cases hk : d.key with
  | single pod container interactive => rw [hk] at hm; exact absurd hm Bool.false_ne_true
  | merged selectors => rfl

theorem shaped_reconcile {r : Registry} (h : r.Shaped) (i : Inventory) :
    (r.reconcile i).1.Shaped where
  single d hd := h.single d (List.mem_filter.mp hd).1
  merged := h.merged
  nodup := (List.filter_sublist.map _).nodup h.nodup

/-- What is said to be dropped is exactly what is no longer there. -/
theorem Shaped.removed_reconcile_isEmpty_iff {r : Registry} (h : r.Shaped) (i : Inventory) :
    (r.reconcile i).2.isEmpty = true ↔ ∀ d ∈ r.descriptors, i.holds d.key = true := by
  show ((r.entries.filter _).map _).isEmpty = true ↔ _
  rw [List.isEmpty_iff, List.map_eq_nil_iff, List.filter_eq_nil_iff]
  constructor
  · intro hn d hd
    rcases mem_descriptors.mp hd with hd | hd
    · have hm := h.merged d hd
      cases hk : d.key with
      | single pod container interactive => rw [hk] at hm; exact absurd hm Bool.false_ne_true
      | merged selectors => rfl
    · simpa using hn d hd
  · intro hall d hd
    simp [hall d (mem_descriptors.mpr (.inr hd))]

/-- Erasing a key leaves the sessions of all others. -/
theorem Shaped.descriptors_erase {r : Registry} (h : r.Shaped) (key : SessionKey) :
    (r.erase key).descriptors = r.descriptors.filter (fun d => d.key != key) := by
  unfold erase descriptors
  rw [List.filter_append]
  split
  · rename_i hm
    show (r.merged.filter _).toList ++ r.entries = _
    congr 1
    · cases r.merged with
      | none => rfl
      | some d => by_cases hk : d.key = key <;> simp [Option.filter, hk]
    · symm
      rw [List.filter_eq_self]
      intro d hd
      rw [bne_iff_ne]
      rintro rfl
      rw [h.single d hd] at hm
      exact Bool.false_ne_true hm
  · rename_i hm
    show r.merged.toList ++ r.entries.eraseP _ = _
    rw [Keyed.eraseP_eq_filter h.nodup]
    congr 1
    symm
    rw [List.filter_eq_self]
    intro d hd
    rw [bne_iff_ne]
    rintro rfl
    exact hm (h.merged d (Option.mem_toList.mp hd))

theorem shaped_erase {r : Registry} (h : r.Shaped) (key : SessionKey) : (r.erase key).Shaped := by
  unfold erase
  split
  · exact ⟨h.single, fun d hd => h.merged d (Option.mem_filter_iff.mp hd).1, h.nodup⟩
  · exact ⟨fun d hd => h.single d (List.mem_of_mem_eraseP hd), h.merged,
      (List.eraseP_sublist.map _).nodup h.nodup⟩

/-- A deletion leaves the sessions of all other keys, also where there is nothing to delete. -/
theorem Shaped.descriptors_delete {r : Registry} (h : r.Shaped) (key : SessionKey)
    (reason : CloseReason) :
    (r.delete key reason).1.descriptors = r.descriptors.filter (fun d => d.key != key) := by
  unfold delete
  cases hf : r.find? key with
  | none =>
      symm
      rw [List.filter_eq_self]
      intro d hd
      rw [bne_iff_ne]
      intro hk
      exact h.find?_eq_none_iff.mp hf (mem_keys.mpr ⟨d, hd, hk⟩)
  | some d => exact h.descriptors_erase key

theorem shaped_delete {r : Registry} (h : r.Shaped) (key : SessionKey) (reason : CloseReason) :
    (r.delete key reason).1.Shaped := by
  unfold delete
  cases r.find? key with
  | none => exact h
  | some d =>
      have he := shaped_erase h key
      exact ⟨he.single, he.merged, he.nodup⟩

/-- A deletion succeeds exactly on an open session. -/
theorem Shaped.isSome_delete_iff {r : Registry} (h : r.Shaped) (key : SessionKey)
    (reason : CloseReason) : (r.delete key reason).2.isSome = true ↔ key ∈ r.keys := by
  rw [← h.isSome_find?_iff]
  unfold delete
  cases r.find? key with
  | none => rfl
  | some d => rfl

theorem announced_delete (r : Registry) (key : SessionKey) (reason : CloseReason) :
    (r.delete key reason).1.announced =
      r.announced ++ if (r.delete key reason).2.isSome && !r.closed then [key] else [] := by
  unfold delete
  cases r.find? key with
  | none => simp
  | some d => cases r.closed <;> simp

@[simp] theorem closed_delete (r : Registry) (key : SessionKey) (reason : CloseReason) :
    (r.delete key reason).1.closed = r.closed := by
  unfold delete erase
  cases r.find? key with
  | none => rfl
  | some d => cases key.isMerged <;> rfl

/-! ## Selection -/

/-- A merged session gives way to the selection of other merged logs. -/
def GivesWay (selected : Option SessionKey) (key : SessionKey) : Prop :=
  ∃ other, selected = some other ∧ other.isMerged = true ∧ key.isMerged = true ∧ other ≠ key

/-- An open session as a selection shows it. -/
def shownBy (selected : Option SessionKey) (d : Descriptor) : Descriptor :=
  { d with visible := selected == some d.key }

theorem mem_showOnly {selected : Option SessionKey} {entries : List Descriptor}
    {d' : Descriptor} :
    d' ∈ showOnly selected entries ↔ ∃ d ∈ entries, d' = shownBy selected d := by
  unfold showOnly
  rw [List.mem_map]
  constructor
  · intro hgiven
    obtain ⟨d, hd, rfl⟩ := hgiven
    exact ⟨d, hd, rfl⟩
  · intro hgiven
    obtain ⟨d, hd, rfl⟩ := hgiven
    exact ⟨d, hd, rfl⟩

theorem showOnly_keys (selected : Option SessionKey) (entries : List Descriptor) :
    (showOnly selected entries).map (·.key) = entries.map (·.key) := by
  unfold showOnly
  rw [List.map_map]
  rfl

/-- Hiding the merged session is what a selection of something else does to it. -/
theorem hidden_eq_shownBy {selected : Option SessionKey} {d : Descriptor}
    (hne : selected ≠ some d.key) : { d with visible := false } = shownBy selected d := by
  unfold shownBy
  rw [beq_eq_false_iff_ne.mpr hne]

/-- A merged session that stays is hidden, unless it is the selected one. -/
theorem merged_hidden_iff {r : Registry} (h : r.Shaped) {selected : Option SessionKey}
    (hs : ∀ key, selected = some key → key.isMerged = false) {d' : Descriptor} :
    (r.merged.map fun d => { d with visible := false }) = some d' ↔
      ∃ d, r.merged = some d ∧ d' = shownBy selected d := by
  rw [Option.map_eq_some_iff]
  have hne : ∀ d, r.merged = some d → selected ≠ some d.key := by
    intro d hd he
    have hm := h.merged d hd
    rw [hs _ he] at hm
    exact Bool.false_ne_true hm
  constructor
  · intro hgiven
    obtain ⟨d, hd, rfl⟩ := hgiven
    exact ⟨d, hd, hidden_eq_shownBy (hne d hd)⟩
  · intro hgiven
    obtain ⟨d, hd, rfl⟩ := hgiven
    exact ⟨d, hd, hidden_eq_shownBy (hne d hd)⟩

/-- A selection of something other than merged logs makes no session give way. -/
theorem mem_shown_iff {r : Registry} {selected : Option SessionKey}
    (hs : ∀ key, selected = some key → key.isMerged = false) {d' : Descriptor} :
    (∃ d ∈ r.descriptors, ¬ GivesWay selected d.key ∧ d' = shownBy selected d) ↔
      (∃ d, r.merged = some d ∧ d' = shownBy selected d) ∨
        ∃ d ∈ r.entries, d' = shownBy selected d := by
  have hstay : ∀ key, ¬ GivesWay selected key := by
    intro key hgiven
    obtain ⟨other, ho, hm, -⟩ := hgiven
    rw [hs other ho] at hm
    exact Bool.false_ne_true hm
  constructor
  · intro hgiven
    obtain ⟨d, hd, -, rfl⟩ := hgiven
    rcases mem_descriptors.mp hd with hd | hd
    · exact .inl ⟨d, hd, rfl⟩
    · exact .inr ⟨d, hd, rfl⟩
  · intro hgiven
    rcases hgiven with ⟨d, hd, rfl⟩ | ⟨d, hd, rfl⟩
    · exact ⟨d, mem_descriptors.mpr (.inl hd), hstay _, rfl⟩
    · exact ⟨d, mem_descriptors.mpr (.inr hd), hstay _, rfl⟩

theorem select_merged_eq {r : Registry} {key : SessionKey} (hm : key.isMerged = true) :
    r.select (some key) =
      { r with
        entries := showOnly (some key) r.entries
        merged := some (match r.find? key with
          | some d => { d with visible := true }
          | none => r.describe key) } :=
  if_pos hm

theorem select_open_eq {r : Registry} {key : SessionKey} (hm : key.isMerged = false)
    (hf : (r.find? key).isSome = true) :
    r.select (some key) =
      { r with
        entries := showOnly (some key) r.entries
        merged := r.merged.map fun d => { d with visible := false } } :=
  (if_neg (by simp [hm])).trans (if_pos hf)

theorem select_new_eq {r : Registry} {key : SessionKey} (hm : key.isMerged = false)
    (hf : (r.find? key).isSome = false) :
    r.select (some key) =
      { r with
        entries := showOnly (some key) r.entries ++ [r.describe key]
        merged := r.merged.map fun d => { d with visible := false } } :=
  (if_neg (by simp [hm])).trans (if_neg (by simp [hf]))

/-- The selection of merged logs: the entries are hidden, and the merged place holds the selected
session. -/
theorem Shaped.mem_descriptors_select_merged {r : Registry} (h : r.Shaped) {key : SessionKey}
    (hm : key.isMerged = true) {d' : Descriptor} :
    d' ∈ (r.select (some key)).descriptors ↔
      (∃ d ∈ r.descriptors, ¬ GivesWay (some key) d.key ∧ d' = shownBy (some key) d) ∨
        (key ∉ r.keys ∧ d' = r.describe key) := by
  have hentry : ∀ d ∈ r.entries, ¬ GivesWay (some key) d.key := by
    intro d hd hgiven
    obtain ⟨other, -, -, hd', -⟩ := hgiven
    rw [h.single d hd] at hd'
    exact Bool.false_ne_true hd'
  rw [mem_descriptors, select_merged_eq hm]
  show some _ = some d' ∨ d' ∈ showOnly (some key) r.entries ↔ _
  rw [Option.some.injEq, mem_showOnly]
  cases hf : r.find? key with
  | some m =>
      obtain ⟨hmem, rfl⟩ := h.find?_eq_some_iff.mp hf
      have hshown : { m with visible := true } = shownBy (some m.key) m := by
        unfold shownBy
        rw [beq_self_eq_true]
      constructor
      · intro hgiven
        rcases hgiven with rfl | ⟨d, hd, rfl⟩
        · refine .inl ⟨m, hmem, ?_, hshown⟩
          intro hgiven
          obtain ⟨other, he, -, -, hne⟩ := hgiven
          exact hne (Option.some.inj he).symm
        · exact .inl ⟨d, mem_descriptors.mpr (.inr hd), hentry d hd, rfl⟩
      · intro hgiven
        rcases hgiven with ⟨d, hd, hstay, rfl⟩ | ⟨hn, -⟩
        · rcases mem_descriptors.mp hd with hd | hd
          · -- the only merged session that stays is the selected one
            by_cases hk : m.key = d.key
            · have he := Keyed.eq_of_key_eq h.keys_nodup hmem (mem_descriptors.mpr (.inl hd)) hk
              rw [← he]
              exact .inl hshown
            · exact absurd ⟨m.key, rfl, hm, h.merged d hd, hk⟩ hstay
          · exact .inr ⟨d, hd, rfl⟩
        · exact absurd (mem_keys.mpr ⟨m, hmem, rfl⟩) hn
  | none =>
      have hn := h.find?_eq_none_iff.mp hf
      constructor
      · intro hgiven
        rcases hgiven with rfl | ⟨d, hd, rfl⟩
        · exact .inr ⟨hn, rfl⟩
        · exact .inl ⟨d, mem_descriptors.mpr (.inr hd), hentry d hd, rfl⟩
      · intro hgiven
        rcases hgiven with ⟨d, hd, hstay, rfl⟩ | ⟨-, rfl⟩
        · rcases mem_descriptors.mp hd with hd' | hd'
          · refine absurd ⟨key, rfl, hm, h.merged d hd', ?_⟩ hstay
            rintro rfl
            exact hn (mem_keys.mpr ⟨d, hd, rfl⟩)
          · exact .inr ⟨d, hd', rfl⟩
        · exact .inl rfl

/-- The selection of one container: a new session goes behind the entries. -/
theorem Shaped.mem_descriptors_select_single {r : Registry} (h : r.Shaped) {key : SessionKey}
    (hm : key.isMerged = false) {d' : Descriptor} :
    d' ∈ (r.select (some key)).descriptors ↔
      (∃ d ∈ r.descriptors, ¬ GivesWay (some key) d.key ∧ d' = shownBy (some key) d) ∨
        (key ∉ r.keys ∧ d' = r.describe key) := by
  have hs : ∀ other, some key = some other → other.isMerged = false := by
    intro other hgiven
    obtain ⟨rfl⟩ := hgiven
    exact hm
  rw [mem_descriptors, mem_shown_iff hs]
  cases hf : (r.find? key).isSome with
  | true =>
      have hopen := h.isSome_find?_iff.mp hf
      rw [select_open_eq hm hf]
      show Option.map _ _ = some d' ∨ d' ∈ showOnly (some key) r.entries ↔ _
      rw [merged_hidden_iff h hs, mem_showOnly]
      simp only [hopen, not_true_eq_false, false_and, or_false]
  | false =>
      have hnew : key ∉ r.keys := by
        rw [← h.isSome_find?_iff, hf]
        exact Bool.false_ne_true
      rw [select_new_eq hm hf]
      show Option.map _ _ = some d' ∨ d' ∈ showOnly (some key) r.entries ++ [_] ↔ _
      rw [merged_hidden_iff h hs, List.mem_append, mem_showOnly, List.mem_singleton, or_assoc]
      simp only [hnew, not_false_eq_true, true_and]

/-- **What a selection does.** Every session stays and is shown exactly if it is the selected one,
except that a merged session gives way to another; and a selected key that is not open is opened,
visible, in the current scope. -/
theorem Shaped.mem_descriptors_select {r : Registry} (h : r.Shaped)
    {selected : Option SessionKey} {d' : Descriptor} :
    d' ∈ (r.select selected).descriptors ↔
      (∃ d ∈ r.descriptors, ¬ GivesWay selected d.key ∧ d' = shownBy selected d) ∨
        ∃ key, selected = some key ∧ key ∉ r.keys ∧ d' = r.describe key := by
  cases selected with
  | none =>
      rw [mem_descriptors, mem_shown_iff (by simp)]
      show Option.map _ _ = some d' ∨ d' ∈ showOnly none r.entries ↔ _
      have hs : ∀ key : SessionKey, none = some key → key.isMerged = false := by simp
      rw [merged_hidden_iff h hs, mem_showOnly]
      simp
  | some key =>
      simp only [Option.some.injEq, exists_eq_left']
      cases hm : key.isMerged with
      | true => exact h.mem_descriptors_select_merged hm
      | false => exact h.mem_descriptors_select_single hm

/-- A new session goes behind the entries without taking the key of one. -/
theorem Shaped.nodup_concat {r : Registry} (h : r.Shaped) {key : SessionKey}
    (hnew : (r.find? key).isSome = false) : (r.entries.map (·.key) ++ [key]).Nodup := by
  have hn : key ∉ r.entries.map (·.key) := by
    intro hk
    obtain ⟨d, hd, rfl⟩ := List.mem_map.mp hk
    have hopen := h.isSome_find?_iff.mpr
      (mem_keys.mpr ⟨d, mem_descriptors.mpr (.inr hd), rfl⟩)
    rw [hnew] at hopen
    exact Bool.false_ne_true hopen
  rw [← List.concat_eq_append]
  exact List.Nodup.concat hn h.nodup

theorem shaped_select {r : Registry} (h : r.Shaped) (selected : Option SessionKey) :
    (r.select selected).Shaped := by
  have hsingle : ∀ d' ∈ showOnly selected r.entries, d'.key.isMerged = false := by
    intro d' hd'
    obtain ⟨d, hd, rfl⟩ := mem_showOnly.mp hd'
    exact h.single d hd
  have hnodup : ((showOnly selected r.entries).map (·.key)).Nodup := by
    rw [showOnly_keys]
    exact h.nodup
  have hhidden : ∀ d' ∈ r.merged.map (fun d => { d with visible := false }),
      d'.key.isMerged = true := by
    intro d' hd'
    obtain ⟨d, hd, rfl⟩ := Option.map_eq_some_iff.mp hd'
    exact h.merged d hd
  cases selected with
  | none => exact ⟨hsingle, hhidden, hnodup⟩
  | some key =>
      cases hm : key.isMerged with
      | true =>
          rw [select_merged_eq hm]
          refine ⟨hsingle, ?_, hnodup⟩
          intro d' hgiven
          obtain ⟨rfl⟩ := hgiven
          cases hf : r.find? key with
          | none => exact hm
          | some d =>
              obtain ⟨-, rfl⟩ := h.find?_eq_some_iff.mp hf
              exact hm
      | false =>
          cases hf : (r.find? key).isSome with
          | true =>
              rw [select_open_eq hm hf]
              exact ⟨hsingle, hhidden, hnodup⟩
          | false =>
              rw [select_new_eq hm hf]
              refine ⟨?_, hhidden, ?_⟩
              · intro d' hd'
                rcases List.mem_append.mp hd' with hd' | hd'
                · exact hsingle d' hd'
                · rw [List.mem_singleton.mp hd']
                  exact hm
              · rw [List.map_append, showOnly_keys]
                exact h.nodup_concat hf

end Registry

end Switchboard
