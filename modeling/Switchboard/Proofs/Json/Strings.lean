import Switchboard.Json.Quote
import Switchboard.Json.Token
import Switchboard.Proofs.Text.Hex

/-!
# Quoted texts there and back

Whatever a text holds, its quoted form is one token, and that token is the text: `cutToken_quote`.
The argument goes character by character: the escape of a character adds just this character to what
has been read (`scanText_escape`).
-/

namespace Switchboard.Json

theorem digitOf?_lower {n : Nat} (h : n < 16) : Hex.digitOf? 16 (Hex.lower n) = some n := by
  rw [Hex.digitOf?, Hex.digit?_lower n h]
  exact Option.filter_some_pos (decide_eq_true h)

/-- Two digits behind two zeros are a control character. -/
theorem number?_control {n : Nat} (h : n < 0x20) :
    Hex.number? 16 ['0', '0', Hex.lower (n / 16), Hex.lower (n % 16)] = some n := by
  have hzero : Hex.digitOf? 16 '0' = some 0 := rfl
  have hsum : n / 16 * 16 + n % 16 = n := by omega
  simp [Hex.number?, hzero, digitOf?_lower (n := n / 16) (by omega),
    digitOf?_lower (n := n % 16) (by omega), hsum]

/-- A character that needs no escape stands for itself. -/
theorem scanText_cons {c : Char} (hquote : c ≠ '"') (hback : c ≠ '\\') (hplain : 0x20 ≤ c.toNat)
    (s : TextState) (rest : List Char) : scanText s (c :: rest) = scanText (s.push c) rest := by
  rw [scanText.eq_def]
  split
  next h => exact absurd h (List.cons_ne_nil c rest)
  next h => exact absurd (List.cons.inj h).1 hquote
  next h => exact absurd (List.cons.inj h).1 hback
  next h => exact absurd (List.cons.inj h).1 hback
  next h => exact absurd (List.cons.inj h).1 hback
  next h => exact absurd (List.cons.inj h).1 hback
  next h =>
    obtain ⟨rfl, rfl⟩ := List.cons.inj h
    rw [if_neg (by omega)]

/-- The escape of a character is read as this character, whatever follows it. -/
theorem scanText_escape (read : List Char) (c : Char) (rest : List Char) :
    scanText ⟨some read, none⟩ (escape c ++ rest) = scanText ⟨some (c :: read), none⟩ rest := by
  by_cases hquote : c = '"'
  · subst hquote
    rfl
  by_cases hback : c = '\\'
  · subst hback
    rfl
  by_cases hletter : c = '\x08' ∨ c = '\x0c' ∨ c = '\n' ∨ c = '\r' ∨ c = '\t'
  · rcases hletter with rfl | rfl | rfl | rfl | rfl <;> rfl
  simp only [not_or] at hletter
  obtain ⟨hbackspace, hfeed, hline, hreturn, htab⟩ := hletter
  unfold escape
  rw [if_neg hquote, if_neg hback, if_neg hbackspace, if_neg hfeed, if_neg hline, if_neg hreturn,
    if_neg htab]
  by_cases hcontrol : c.toNat < 0x20
  · rw [if_pos hcontrol]
    have hunit : TextState.pushUnit ⟨some read, none⟩ c.toNat = ⟨some (c :: read), none⟩ := by
      unfold TextState.pushUnit
      rw [if_neg (by omega), if_neg (by omega), Char.ofNat_toNat]
      rfl
    simp only [List.cons_append, List.nil_append]
    rw [scanText, number?_control hcontrol]
    exact congrArg (scanText · rest) hunit
  · rw [if_neg hcontrol]
    exact scanText_cons hquote hback (by omega) ⟨some read, none⟩ rest

/-- A quoted text is read to its end, whatever follows it. -/
theorem scanText_quoted (read cs rest : List Char) :
    scanText ⟨some read, none⟩ (cs.flatMap escape ++ '"' :: rest) =
      .closed (some (read.reverse ++ cs)) rest := by
  induction cs generalizing read with
  | nil => simp [scanText, TextState.result]
  | cons c cs ih =>
      rw [List.flatMap_cons, List.append_assoc, scanText_escape, ih, List.reverse_cons,
        List.append_assoc, List.singleton_append]

/-- **A quoted text is one token**, whatever follows it. -/
theorem cutToken_quote (s : String) (rest : List Char) :
    cutToken '"' (s.toList.flatMap escape ++ ['"'] ++ rest) =
      (.text (some s.toList), some rest) := by
  unfold cutToken
  rw [List.append_assoc, List.singleton_append]
  simp only [TextState.start, scanText_quoted, List.reverse_nil, List.nil_append]

end Switchboard.Json
