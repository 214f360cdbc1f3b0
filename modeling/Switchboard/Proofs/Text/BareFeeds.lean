import Switchboard.Proofs.Text.LineEnds

/-!
# What completing the line ends makes of a text

A text grows by one carriage return for each of its bare line feeds and is otherwise as it was, and
then none of its line feeds is bare (`completes_exactly_bare_feeds`). So completing leaves exactly
the texts without bare line feeds alone (`expand_eq_self_iff`), and it is enough to do it once.

Whether a line feed is bare is decided by the byte in front of it in the text that is read; that it
is bare no more is a matter of the byte in front of it in the text that is written. In front of
anything but a bare line feed the two are the same byte, and the induction goes by that
(`returned_expandAfter`).
-/

namespace Switchboard.LineEnding

/-- The places of the bare line feeds of a text. -/
def bareFeeds (bs : Bytes) : List Nat := (List.range bs.length).filter (isBare bs)

/-! ## The places of bare line feeds -/

theorem isReturned_iff {bs : Bytes} {n : Nat} :
    isReturned bs n = true ↔ ∃ m, n = m + 1 ∧ bs[m]? = some carriageReturn := by
  unfold isReturned
  cases n with
  | zero => simp
  | succ m => simp

theorem isBare_iff {bs : Bytes} {n : Nat} :
    isBare bs n = true ↔
      bs[n]? = some lineFeed ∧ ¬ ∃ m, n = m + 1 ∧ bs[m]? = some carriageReturn := by
  unfold isBare
  rw [Bool.and_eq_true, beq_iff_eq, Bool.not_eq_true', ← Bool.not_eq_true, isReturned_iff]

theorem mem_bareFeeds_iff {bs : Bytes} {n : Nat} : n ∈ bareFeeds bs ↔ isBare bs n = true := by
  unfold bareFeeds
  rw [List.mem_filter, List.mem_range]
  refine ⟨fun h => h.2, fun h => ⟨?_, h⟩⟩
  -- a line feed stands in the text, so its place is not behind the end
  obtain ⟨hn, -⟩ := List.getElem?_eq_some_iff.mp (isBare_iff.mp h).1
  exact hn

theorem contains_bareFeeds (bs : Bytes) : (bareFeeds bs).contains = isBare bs := by
  funext n
  rw [Bool.eq_iff_iff, List.contains_iff_mem, mem_bareFeeds_iff]

/-! ## The text that is written -/

theorem length_expand (bs : Bytes) : (expand bs).length = bs.length + (bareFeeds bs).length := by
  rw [expand_eq]
  exact length_returnAt (isBare bs) bs

/-- A line feed that is written has a carriage return in front of it, which has been written too
unless it is the byte in front of the text. -/
theorem returned_expandAfter {previous : UInt8} {bs : Bytes} {n : Nat}
    (h : (expandAfter previous bs)[n]? = some lineFeed) :
    (previous :: expandAfter previous bs)[n]? = some carriageReturn := by
  induction bs generalizing previous n with
  | nil => exact absurd h (by simp [expandAfter])
  | cons b rest ih =>
      rw [expandAfter] at h ⊢
      by_cases hbare : b = lineFeed ∧ previous ≠ carriageReturn
      · rw [if_pos hbare] at h ⊢
        rcases n with _ | _ | n
        · exact absurd (Option.some.inj h) (by decide)
        · rfl
        · exact ih h
      · rw [if_neg hbare] at h ⊢
        cases n with
        | zero =>
            have hb : b = lineFeed := Option.some.inj h
            have hprevious : previous = carriageReturn := by
              by_contra hne
              exact hbare ⟨hb, hne⟩
            exact congrArg some hprevious
        | succ n => exact ih h

theorem returned_of_feed {bs : Bytes} {n : Nat} (h : (expand bs)[n]? = some lineFeed) :
    ∃ m, n = m + 1 ∧ (expand bs)[m]? = some carriageReturn := by
  have hreturn : (0 :: expand bs)[n]? = some carriageReturn := returned_expandAfter h
  cases n with
  | zero => exact absurd (Option.some.inj hreturn) (by decide)
  | succ m => exact ⟨m, rfl, hreturn⟩

theorem bareFeeds_expand (bs : Bytes) : bareFeeds (expand bs) = [] := by
  rw [List.eq_nil_iff_forall_not_mem]
  intro n hn
  obtain ⟨hfeed, hbare⟩ := isBare_iff.mp (mem_bareFeeds_iff.mp hn)
  exact hbare (returned_of_feed hfeed)

/-- **Exactly the texts without bare line feeds are left alone.** -/
theorem expand_eq_self_iff {bs : Bytes} : expand bs = bs ↔ bareFeeds bs = [] := by
  constructor
  · intro h
    have hlength := length_expand bs
    rw [h] at hlength
    exact List.length_eq_zero_iff.mp (by omega)
  · intro h
    rw [expand_eq, ← contains_bareFeeds, h]
    exact returnAt_of_nowhere fun _ _ => rfl

/-- **Completing the line ends returns every line feed and does no more than that takes.** A line
feed is bare if no carriage return stands directly in front of it. In the text that comes out, one
stands directly in front of every line feed. That text is the one that went in, with a carriage
return put in front of each bare line feed, and so it is longer by the number of them. Completing it
again changes nothing: the texts that stay as they are are those without bare line feeds. -/
theorem completes_exactly_bare_feeds (bs : Bytes) :
    (∀ n, n ∈ bareFeeds bs ↔
      bs[n]? = some lineFeed ∧ ¬ ∃ m, n = m + 1 ∧ bs[m]? = some carriageReturn) ∧
    (∀ n, (expand bs)[n]? = some lineFeed →
      ∃ m, n = m + 1 ∧ (expand bs)[m]? = some carriageReturn) ∧
    expand bs = returnAt (bareFeeds bs).contains bs ∧
    (expand bs).length = bs.length + (bareFeeds bs).length ∧
    expand (expand bs) = expand bs ∧
    (expand bs = bs ↔ bareFeeds bs = []) := by
  refine ⟨fun n => mem_bareFeeds_iff.trans isBare_iff, fun n => returned_of_feed, ?_,
    length_expand bs, ?_, expand_eq_self_iff⟩
  · rw [contains_bareFeeds]
    exact expand_eq bs
  · exact expand_eq_self_iff.mpr (bareFeeds_expand bs)

/-- The line feed in the middle has its carriage return, and the two others get one. -/
example : expand [lineFeed, carriageReturn, lineFeed, lineFeed] =
    [carriageReturn, lineFeed, carriageReturn, lineFeed, carriageReturn, lineFeed] := rfl

end Switchboard.LineEnding
