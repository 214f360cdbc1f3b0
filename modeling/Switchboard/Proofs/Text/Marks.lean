import Mathlib.Data.List.TakeWhile

/-!
# Cutting a text at a mark

A text has no mark, or it is cut at its first one (`Text.not_mem_or_cut`). Both parts with the mark
between them are the whole text again (`Text.before_append_marked`), and what is added to a text is
added to the part behind its mark (`Text.behind?_append`). Two texts with a mark are the same if and
only if both their parts are, at the first mark as at the last (`Text.append_mark_inj`,
`Text.append_mark_inj_last`).
-/

namespace Switchboard

namespace Text

/-- The text before the first mark. -/
def before (mark : Char) (cs : List Char) : List Char := cs.takeWhile (· != mark)

/-- The text behind the first mark, if there is one. -/
def behind? (mark : Char) (cs : List Char) : Option (List Char) :=
  match cs.dropWhile (· != mark) with
  | _ :: rest => some rest
  | [] => none

/-- A part with the mark in front of it. -/
def marked (mark : Char) (part : Option (List Char)) : List Char :=
  (part.map (mark :: ·)).getD []

section Marks

variable {mark : Char} {cs : List Char}

theorem ne_mark_of_not_mem (h : mark ∉ cs) : ∀ c ∈ cs, (c != mark) = true := fun _ hc =>
  bne_iff_ne.mpr fun he => h (he ▸ hc)

theorem before_of_not_mem (h : mark ∉ cs) : before mark cs = cs :=
  List.takeWhile_eq_self_iff.mpr (ne_mark_of_not_mem h)

theorem behind?_of_not_mem (h : mark ∉ cs) : behind? mark cs = none := by
  rw [behind?, List.dropWhile_eq_nil_iff.mpr (ne_mark_of_not_mem h)]

theorem before_append_mark (h : mark ∉ cs) (rest : List Char) :
    before mark (cs ++ mark :: rest) = cs := by
  rw [before, List.takeWhile_append_of_pos (ne_mark_of_not_mem h),
    List.takeWhile_cons_of_neg (by simp), List.append_nil]

theorem dropWhile_append_mark (h : mark ∉ cs) (rest : List Char) :
    (cs ++ mark :: rest).dropWhile (· != mark) = mark :: rest := by
  rw [List.dropWhile_append_of_pos (ne_mark_of_not_mem h), List.dropWhile_cons_of_neg (by simp)]

theorem behind?_append_mark (h : mark ∉ cs) (rest : List Char) :
    behind? mark (cs ++ mark :: rest) = some rest := by
  rw [behind?, dropWhile_append_mark h]

/-- A text has no mark, or it is cut at its first one. -/
theorem not_mem_or_cut (mark : Char) (cs : List Char) :
    mark ∉ cs ∨ ∃ front rest, mark ∉ front ∧ cs = front ++ mark :: rest := by
  by_cases h : mark ∈ cs
  · obtain ⟨front, rest, hcs, hfront⟩ := List.eq_append_cons_of_mem h
    exact .inr ⟨front, rest, hfront, hcs⟩
  · exact .inl h

theorem exists_behind? (h : mark ∈ cs) : ∃ rest, behind? mark cs = some rest := by
  obtain ⟨front, rest, rfl, hfront⟩ := List.eq_append_cons_of_mem h
  exact ⟨rest, behind?_append_mark hfront rest⟩

theorem before_append_marked (mark : Char) (cs : List Char) :
    before mark cs ++ marked mark (behind? mark cs) = cs := by
  rcases not_mem_or_cut mark cs with h | ⟨front, rest, hfront, rfl⟩
  · rw [before_of_not_mem h, behind?_of_not_mem h]
    exact List.append_nil cs
  · rw [before_append_mark hfront, behind?_append_mark hfront]
    rfl

theorem dropWhile_ne_mark (mark : Char) (cs : List Char) :
    cs.dropWhile (· != mark) = marked mark (behind? mark cs) :=
  List.append_cancel_left
    (List.takeWhile_append_dropWhile.trans (before_append_marked mark cs).symm)

/-- What comes behind a text with a mark is behind that mark. -/
theorem before_append (h : mark ∈ cs) (more : List Char) :
    before mark (cs ++ more) = before mark cs := by
  obtain ⟨front, rest, rfl, hfront⟩ := List.eq_append_cons_of_mem h
  rw [List.append_assoc, List.cons_append, before_append_mark hfront, before_append_mark hfront]

theorem behind?_append (hmore : mark ∉ more) :
    behind? mark (cs ++ more) = (behind? mark cs).map (· ++ more) := by
  rcases not_mem_or_cut mark cs with h | ⟨front, rest, hfront, rfl⟩
  · rw [behind?_of_not_mem h, behind?_of_not_mem (by simp [h, hmore])]
    rfl
  · rw [List.append_assoc, List.cons_append, behind?_append_mark hfront,
      behind?_append_mark hfront]
    rfl

variable {cs' rest rest' : List Char}

theorem append_mark_inj (h : mark ∉ cs) (h' : mark ∉ cs') :
    cs ++ mark :: rest = cs' ++ mark :: rest' ↔ cs = cs' ∧ rest = rest' := by
  constructor
  · intro hsame
    have hfront := congrArg (before mark) hsame
    have hrest := congrArg (behind? mark) hsame
    rw [before_append_mark h, before_append_mark h'] at hfront
    rw [behind?_append_mark h, behind?_append_mark h'] at hrest
    exact ⟨hfront, Option.some.inj hrest⟩
  · rintro ⟨rfl, rfl⟩
    rfl

theorem append_mark_inj_last (h : mark ∉ rest) (h' : mark ∉ rest') :
    cs ++ mark :: rest = cs' ++ mark :: rest' ↔ cs = cs' ∧ rest = rest' := by
  -- read backwards, the last mark is the first one
  have hbackwards : ∀ front back : List Char,
      (front ++ mark :: back).reverse = back.reverse ++ mark :: front.reverse := by simp
  rw [← List.reverse_inj, hbackwards, hbackwards,
    append_mark_inj (by simpa using h) (by simpa using h'), List.reverse_inj, List.reverse_inj,
    and_comm]

end Marks

/-- Text up to a mark, without its beginning. -/
theorem takeWhile_dropWhile {p q r : Char → Bool} (h : ∀ c, p c = (r c && q c)) (cs : List Char) :
    (cs.dropWhile p).takeWhile q = (cs.takeWhile q).dropWhile r := by
  induction cs with
  | nil => rfl
  | cons c rest ih =>
      have hc := h c
      cases hq : q c <;> cases hr : r c <;> rw [hq, hr] at hc <;>
        simp [hq, hr, hc, ih]

theorem dropWhile_dropWhile {p q : Char → Bool} (h : ∀ c, p c = true → q c = true)
    (cs : List Char) : (cs.dropWhile p).dropWhile q = cs.dropWhile q := by
  induction cs with
  | nil => rfl
  | cons c rest ih =>
      cases hp : p c with
      | true => rw [List.dropWhile_cons_of_pos hp, ih, List.dropWhile_cons_of_pos (h c hp)]
      | false => rw [List.dropWhile_cons_of_neg (by simp [hp])]

theorem drop_length_takeWhile (p : Char → Bool) (cs : List Char) :
    cs.drop (cs.takeWhile p).length = cs.dropWhile p := by
  conv => lhs; arg 2; rw [← List.takeWhile_append_dropWhile (p := p) (l := cs)]
  exact List.drop_left

end Text

end Switchboard
