/-!
Cutting a sequence of characters at a separator. There is always one part more than there are
separators.
-/

namespace Switchboard.Text

/-- Puts a character in front of the first part. -/
def consFirst (c : Char) : List (List Char) → List (List Char)
  | [] => [[c]]
  | part :: parts => (c :: part) :: parts

/-- The parts between the characters that `isSeparator` holds of. -/
def splitAt (isSeparator : Char → Bool) : List Char → List (List Char)
  | [] => [[]]
  | c :: rest =>
    if isSeparator c then [] :: splitAt isSeparator rest
    else consFirst c (splitAt isSeparator rest)

/-- The parts between the occurrences of one character. -/
def splitOn (separator : Char) (cs : List Char) : List (List Char) := splitAt (· == separator) cs

theorem splitAt_ne_nil (p : Char → Bool) (cs : List Char) : splitAt p cs ≠ [] := by
  cases cs with
  | nil => simp [splitAt]
  | cons c rest =>
    rw [splitAt]
    split
    · simp
    · cases splitAt p rest <;> simp [consFirst]

/-- A text without separators is one part. -/
theorem splitOn_eq_singleton (s : Char) {cs : List Char} (h : s ∉ cs) : splitOn s cs = [cs] := by
  unfold splitOn
  induction cs with
  | nil => rfl
  | cons c cs ih =>
    obtain ⟨hc, hcs⟩ := not_or.1 (mt List.mem_cons.2 h)
    rw [splitAt, if_neg (by simpa using fun e => hc e.symm), ih hcs]
    rfl

end Switchboard.Text
