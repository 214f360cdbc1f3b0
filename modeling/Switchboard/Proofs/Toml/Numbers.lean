import Switchboard.Proofs.Text.Hex
import Switchboard.Toml.Scalar

/-!
# Whole numbers there and back

Digits up to the end of a line could also be the beginning of a date, a time or a number with a
fraction. None of their readers gets past the digits, so a number that is written down is read as
the whole number it is: `readNumeric_toDigits`.
-/

namespace Switchboard

namespace Toml

/-- Digits up to the end of a line. -/
inductive DigitLine : List Char → Prop where
  | done (rest : List Char) : DigitLine ('\n' :: rest)
  | digit {c : Char} {cs : List Char} (hc : c.isDigit = true) (h : DigitLine cs) :
      DigitLine (c :: cs)

namespace DigitLine

variable {cs : List Char}

/-- The next character is a digit or ends the line. -/
theorem head {c : Char} (h : DigitLine (c :: cs)) : c.isDigit = true ∨ c = '\n' := by
  cases h with
  | done => exact .inr rfl
  | digit hc => exact .inl hc

theorem tail {c : Char} (h : DigitLine (c :: cs)) (hc : c ≠ '\n') : DigitLine cs := by
  cases h with
  | done => exact absurd rfl hc
  | digit _ h => exact h

/-- Nothing else can be expected there. -/
theorem expect_eq_none (h : DigitLine cs) {c : Char} (hdigit : c.isDigit = false)
    (hline : c ≠ '\n') : expect c cs = none := by
  cases h with
  | done => exact if_neg fun h => hline h.symm
  | digit hc => exact if_neg fun h => by rw [h, hdigit] at hc; cases hc

theorem digitOf?_newline : Hex.digitOf? 10 '\n' = none := rfl

/-- Two digits are read before the line ends, if they are. -/
theorem of_readTwo {low high n : Nat} {rest : List Char} (h : DigitLine cs)
    (hread : readTwo low high cs = some (n, rest)) : DigitLine rest := by
  unfold readTwo at hread
  split at hread
  next a b rest' =>
    have ha : a ≠ '\n' := by
      rintro rfl
      simp [Hex.number?, digitOf?_newline] at hread
    have hb : b ≠ '\n' := by
      rintro rfl
      simp [Hex.number?, digitOf?_newline] at hread
    simp only [Option.bind_eq_bind, Option.bind_eq_some_iff] at hread
    obtain ⟨_, -, hread⟩ := hread
    split at hread
    · cases hread
      exact (h.tail ha).tail hb
    · cases hread
  next => cases hread

/-- Four digits are read before the line ends, if they are. -/
theorem of_readYear {n : Nat} {rest : List Char} (h : DigitLine cs)
    (hread : readYear cs = some (n, rest)) : DigitLine rest := by
  unfold readYear at hread
  split at hread
  next a b c d rest' =>
    obtain ⟨_, hnumber, hread⟩ := Option.map_eq_some_iff.mp hread
    cases hread
    have hdigits : a ≠ '\n' ∧ b ≠ '\n' ∧ c ≠ '\n' ∧ d ≠ '\n' := by
      refine ⟨?_, ?_, ?_, ?_⟩ <;> rintro rfl <;> simp [Hex.number?, digitOf?_newline] at hnumber
    obtain ⟨ha, hb, hc, hd⟩ := hdigits
    exact (((h.tail ha).tail hb).tail hc).tail hd
  next => cases hread

/-- Digits are no date and no time: those have other marks between them. -/
theorem readMoment_eq_none (h : DigitLine cs) : readMoment cs = none := by
  have hdate : readDate cs = none := by
    unfold readDate
    cases hyear : readYear cs with
    | none => rfl
    | some year => simp [(h.of_readYear hyear).expect_eq_none (c := '-') rfl (by decide)]
  have htime : readTime cs = none := by
    unfold readTime
    cases hhour : readTwo 0 23 cs with
    | none => rfl
    | some hour => simp [(h.of_readTwo hhour).expect_eq_none (c := ':') rfl (by decide)]
  rw [readMoment, hdate, htime]
  rfl

theorem takeSign_eq (h : DigitLine cs) : takeSign cs = (false, cs) := by
  unfold takeSign
  split
  · exact absurd h.head (by decide)
  · exact absurd h.head (by decide)
  · rfl

/-- More digits are read up to the end of the line. -/
theorem moreDigits_append {ds : List Char} (hds : ∀ c ∈ ds, c.isDigit = true) (rest : List Char) :
    moreDigits Char.isDigit (ds ++ '\n' :: rest) = (ds, '\n' :: rest) := by
  induction ds with
  | nil => rfl
  | cons c ds ih =>
    have hc := hds c List.mem_cons_self
    have hscore : c ≠ '_' := by rintro rfl; exact absurd hc (by decide)
    rw [List.cons_append, moreDigits.eq_2 _ _ _ (fun _ _ h => absurd h hscore), if_pos hc,
      ih fun d hd => hds d (List.mem_cons_of_mem c hd)]

theorem exists_append (h : DigitLine cs) :
    ∃ ds rest, cs = ds ++ '\n' :: rest ∧ ∀ c ∈ ds, c.isDigit = true := by
  induction h with
  | done rest => exact ⟨[], rest, rfl, by simp⟩
  | digit hc _ ih =>
    obtain ⟨ds, rest, rfl, hds⟩ := ih
    exact ⟨_ :: ds, rest, rfl, List.forall_mem_cons.mpr ⟨hc, hds⟩⟩

theorem of_append {ds : List Char} (hds : ∀ c ∈ ds, c.isDigit = true) (rest : List Char) :
    DigitLine (ds ++ '\n' :: rest) := by
  induction ds with
  | nil => exact .done rest
  | cons c ds ih =>
    exact .digit (hds c List.mem_cons_self) (ih fun d hd => hds d (List.mem_cons_of_mem c hd))

/-- Behind a whole number there are digits at most. -/
theorem of_readWhole {whole rest : List Char} (h : DigitLine cs)
    (hread : readWhole cs = some (whole, rest)) : DigitLine rest := by
  unfold readWhole at hread
  split at hread
  · cases hread
    exact h.tail (by decide)
  · unfold readDigits at hread
    split at hread
    next c cs' _ =>
      split at hread
      next hc =>
        have hline : c ≠ '\n' := by rintro rfl; exact absurd hc (by decide)
        obtain ⟨ds, left, rfl, hds⟩ := (h.tail hline).exists_append
        rw [moreDigits_append hds] at hread
        cases hread
        exact .done left
      next => cases hread
    next => cases hread

theorem readFraction_eq_none (h : DigitLine cs) : readFraction cs = none := by
  unfold readFraction
  split
  · exact absurd h.head (by decide)
  · rfl

theorem readExponent_eq_none (h : DigitLine cs) : readExponent cs = none := by
  unfold readExponent
  split
  · rfl
  next c rest =>
    have hc : ¬(c = 'e' ∨ c = 'E') := by
      rintro (rfl | rfl) <;> exact absurd h.head (by decide)
    simp [hc]

/-- Digits have no fraction and no exponent. -/
theorem readFloat_eq_none (h : DigitLine cs) : readFloat cs = none := by
  unfold readFloat
  rw [h.takeSign_eq]
  cases hwhole : readWhole cs with
  | none => simp [hwhole]
  | some whole =>
    have hrest := h.of_readWhole hwhole
    simp [hwhole, hrest.readFraction_eq_none, hrest.readExponent_eq_none]

theorem readSpecial_eq_none (h : DigitLine cs) : readSpecial cs = none := by
  unfold readSpecial
  rw [h.takeSign_eq]
  split
  next hcs => subst hcs; exact absurd h.head (by decide)
  next hcs => subst hcs; exact absurd h.head (by decide)
  next => rfl

/-- Digits are a decimal number, since no mark of another base stands among them. -/
theorem readInteger_eq (h : DigitLine cs) :
    readInteger cs = (do
      let (digits, rest) ← readWhole cs
      let n ← Hex.number? 10 digits
      if inRange n then some (.integer n, rest) else none) := by
  unfold readInteger
  split
  · exact absurd (h.tail (by decide)).head (by decide)
  · exact absurd (h.tail (by decide)).head (by decide)
  · exact absurd (h.tail (by decide)).head (by decide)
  · rw [h.takeSign_eq]
    rfl

end DigitLine

/-- Decimal digits begin with a zero only if it is the only one. -/
theorem toDigits_head (n : Nat) :
    Nat.toDigits 10 n = ['0'] ∨ ∃ c cs, Nat.toDigits 10 n = c :: cs ∧ c ≠ '0' := by
  induction n using Nat.strongRecOn with
  | ind n ih =>
    rw [Nat.toDigits_eq_if (by decide)]
    split
    next hsmall =>
      by_cases hzero : n = 0
      · rw [hzero]
        exact .inl rfl
      · have hdigit : ∀ d, d < 10 → d ≠ 0 → Nat.digitChar d ≠ '0' := by decide
        exact .inr ⟨_, _, rfl, hdigit n hsmall hzero⟩
    next hlarge =>
      rcases ih (n / 10) (by omega) with h | ⟨c, cs, h, hc⟩
      · have hvalue := Hex.number?_toDigits (by decide : 1 < 10) (by decide) (n / 10)
        rw [h, show Hex.number? 10 ['0'] = some 0 from rfl] at hvalue
        have : n / 10 = 0 := (Option.some.inj hvalue).symm
        omega
      · rw [h]
        exact .inr ⟨c, _, rfl, hc⟩

theorem readWhole_toDigits (n : Nat) (rest : List Char) :
    readWhole (Nat.toDigits 10 n ++ '\n' :: rest) = some (Nat.toDigits 10 n, '\n' :: rest) := by
  rcases toDigits_head n with h | ⟨c, cs, h, hc⟩
  · rw [h]
    rfl
  · have hdigits : ∀ d ∈ c :: cs, d.isDigit = true := fun d hd =>
      Nat.isDigit_of_mem_toDigits (by decide) (by decide) (h ▸ hd)
    rw [h, List.cons_append, readWhole.eq_2 _ (fun _ h => hc (List.cons.inj h).1), readDigits,
      if_pos (hdigits c List.mem_cons_self),
      DigitLine.moreDigits_append fun d hd => hdigits d (List.mem_cons_of_mem c hd)]

theorem inRange_natCast {n : Nat} (hn : n < 0x8000000000000000) : inRange n = true := by
  simp only [inRange, Bool.and_eq_true, decide_eq_true_eq]
  omega

theorem readInteger_toDigits {n : Nat} (hn : inRange n = true) (rest : List Char) :
    readInteger (Nat.toDigits 10 n ++ '\n' :: rest) = some (.integer n, '\n' :: rest) := by
  have hline : DigitLine (Nat.toDigits 10 n ++ '\n' :: rest) :=
    .of_append (fun c hc => Nat.isDigit_of_mem_toDigits (by decide) (by decide) hc) rest
  rw [hline.readInteger_eq, readWhole_toDigits]
  dsimp only [Option.bind_eq_bind, Option.bind_some]
  rw [Hex.number?_toDigits (by decide) (by decide), Option.bind_some, if_pos hn]

/-- **A whole number is read back from its digits**, if it is not too large for a signed one. -/
theorem readNumeric_toDigits {n : Nat} (hn : n < 0x8000000000000000) (rest : List Char) :
    readNumeric (Nat.toDigits 10 n ++ '\n' :: rest) = some (.integer n, '\n' :: rest) := by
  have hline : DigitLine (Nat.toDigits 10 n ++ '\n' :: rest) :=
    .of_append (fun c hc => Nat.isDigit_of_mem_toDigits (by decide) (by decide) hc) rest
  rw [readNumeric, hline.readMoment_eq_none, hline.readFloat_eq_none, hline.readSpecial_eq_none,
    readInteger_toDigits (inRange_natCast hn)]
  rfl

end Toml

end Switchboard
