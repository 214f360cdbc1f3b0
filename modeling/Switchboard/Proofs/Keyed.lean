import Mathlib.Data.List.Nodup

/-!
# Lists with keys of their own

A registry and a view both keep their members in a list and find them by a key that no two
members share. Under that condition a search by key is membership, and the removal of the first
member with a key is the removal of all of them.
-/

namespace Switchboard.Keyed

variable {α κ : Type} {key : α → κ} {l : List α}

/-- Two members with one key are one member. -/
theorem eq_of_key_eq (h : (l.map key).Nodup) {a b : α} (ha : a ∈ l) (hb : b ∈ l)
    (hk : key a = key b) : a = b :=
  List.inj_on_of_nodup_map h ha hb hk

/-- Those before a member and those behind it have other keys. -/
theorem ne_of_split {before rest : List α} {a : α}
    (h : ((before ++ a :: rest).map key).Nodup) :
    (∀ b ∈ before, key b ≠ key a) ∧ ∀ b ∈ rest, key b ≠ key a := by
  rw [List.map_append, List.map_cons, List.nodup_append, List.nodup_cons] at h
  obtain ⟨-, ⟨hrest, -⟩, hbefore⟩ := h
  exact ⟨fun b hb => hbefore (key b) (List.mem_map_of_mem hb) (key a) List.mem_cons_self,
    fun b hb hk => hrest (hk ▸ List.mem_map_of_mem hb)⟩

/-- Of members with keys of their own, at most one has a property that ties the key down. -/
theorem length_filter_le_one (h : (l.map key).Nodup) {p : α → Bool}
    (hp : ∀ a ∈ l, ∀ b ∈ l, p a = true → p b = true → key a = key b) :
    (l.filter p).length ≤ 1 := by
  have hsame : ∀ a ∈ l.filter p, ∀ b ∈ l.filter p, a = b := by
    intro a ha b hb
    obtain ⟨ha, hpa⟩ := List.mem_filter.mp ha
    obtain ⟨hb, hpb⟩ := List.mem_filter.mp hb
    exact eq_of_key_eq h ha hb (hp a ha b hb hpa hpb)
  have hnodup : (l.filter p).Nodup := (List.Nodup.of_map _ h).filter _
  generalize l.filter p = found at hsame hnodup
  match found with
  | [] => simp
  | [a] => simp
  | a :: b :: rest =>
      rw [hsame a (by simp) b (by simp)] at hnodup
      exact absurd hnodup (by simp)

variable [DecidableEq κ]

/-- A search finds the member with the key, and only that. -/
theorem find?_eq_some_iff (h : (l.map key).Nodup) {k : κ} {a : α} :
    l.find? (fun x => key x == k) = some a ↔ a ∈ l ∧ key a = k := by
  constructor
  · intro hf
    have hk := List.find?_some hf
    exact ⟨List.mem_of_find?_eq_some hf, by simpa using hk⟩
  · intro hgiven
    obtain ⟨ha, rfl⟩ := hgiven
    cases hf : l.find? (fun x => key x == key a) with
    | none =>
        have hn := List.find?_eq_none.mp hf a ha
        exact absurd (beq_self_eq_true (key a)) hn
    | some b =>
        have hb : key b = key a := by simpa using List.find?_some hf
        rw [eq_of_key_eq h (List.mem_of_find?_eq_some hf) ha hb]

theorem find?_eq_none_iff {k : κ} :
    l.find? (fun x => key x == k) = none ↔ k ∉ l.map key := by
  rw [List.find?_eq_none, List.mem_map]
  constructor
  · intro hn hgiven
    obtain ⟨a, ha, rfl⟩ := hgiven
    exact hn a ha (beq_self_eq_true _)
  · intro hn a ha hk
    exact hn ⟨a, ha, by simpa using hk⟩

theorem find?_split {before rest : List α} {a : α} (hbefore : ∀ b ∈ before, key b ≠ key a) :
    (before ++ a :: rest).find? (fun x => key x == key a) = some a := by
  have hnone : before.find? (fun x => key x == key a) = none :=
    List.find?_eq_none.mpr fun b hb => by simpa using hbefore b hb
  rw [List.find?_append, hnone, Option.none_or]
  exact List.find?_cons_of_pos (beq_self_eq_true (key a))

/-- With keys of their own, only one member is replaced. -/
theorem map_replace_split {before rest : List α} {a : α}
    (hbefore : ∀ b ∈ before, key b ≠ key a) (hrest : ∀ b ∈ rest, key b ≠ key a) (c : α) :
    (before ++ a :: rest).map (fun x => if key x = key a then c else x) = before ++ c :: rest := by
  have hkept : ∀ l : List α, (∀ b ∈ l, key b ≠ key a) →
      l.map (fun x => if key x = key a then c else x) = l := by
    intro l hl
    conv_rhs => rw [← List.map_id l]
    exact List.map_congr_left fun b hb => if_neg (hl b hb)
  rw [List.map_append, List.map_cons, hkept before hbefore, hkept rest hrest, if_pos rfl]

/-- With one member a key, removing the first is removing all. -/
theorem eraseP_eq_filter (h : (l.map key).Nodup) (k : κ) :
    l.eraseP (fun x => key x == k) = l.filter (fun x => key x != k) := by
  induction l with
  | nil => rfl
  | cons a rest ih =>
      rw [List.map_cons, List.nodup_cons] at h
      by_cases hk : key a = k
      · subst hk
        have hrest : ∀ x ∈ rest, (key x != key a) = true := by
          intro x hx
          rw [bne_iff_ne]
          intro he
          exact h.1 (he ▸ List.mem_map_of_mem hx)
        rw [List.eraseP_cons_of_pos (by simp), List.filter_cons_of_neg (by simp),
          List.filter_eq_self.mpr hrest]
      · rw [List.eraseP_cons_of_neg (by simpa using hk),
          List.filter_cons_of_pos (by simpa using hk), ih h.2]

end Switchboard.Keyed
