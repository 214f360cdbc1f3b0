import Switchboard.Text.Utf8

/-!
# UTF-8 there and back

Reading the bytes of a text gives its characters again, and no part of them is ill-formed:
`decode_encode`. The automaton is followed over the bytes of one character, by the number of its
bytes; the bounds on the second byte are met because a character is no surrogate and no greater
than the last code point.
-/

namespace Switchboard.Utf8

/-! ## One byte -/

theorem toNat_ofNat {n : Nat} (h : n < 256) : (UInt8.ofNat n).toNat = n :=
  UInt8.toNat_ofNat_of_lt' h

/-- A byte that has to continue a character and does, with no other one to come. -/
theorem next_last (bits : Nat) {b : Nat} (hb : b < 64) :
    Pending.next ⟨bits, 0, 0x80, 0xBF⟩ (UInt8.ofNat (b + 0x80)) =
      .char (Char.ofNat (bits * 64 + b)) := by
  have hn : (UInt8.ofNat (b + 0x80)).toNat = b + 0x80 := toNat_ofNat (by omega)
  simp only [Pending.next, hn, Nat.add_sub_cancel]
  rw [if_pos (by omega)]

/-- A byte that has to continue a character and does, with others to come. -/
theorem next_more (bits more : Nat) {low high b : Nat} (hb : b < 128) (hl : low ≤ b + 0x80)
    (hh : b + 0x80 ≤ high) :
    Pending.next ⟨bits, more + 1, low, high⟩ (UInt8.ofNat (b + 0x80)) =
      .pending ⟨bits * 64 + b, more, 0x80, 0xBF⟩ := by
  have hn : (UInt8.ofNat (b + 0x80)).toNat = b + 0x80 := toNat_ofNat (by omega)
  simp only [Pending.next, hn, Nat.add_sub_cancel]
  rw [if_pos (by omega)]

theorem first_ascii {n : Nat} (hn : n < 0x80) : first (UInt8.ofNat n) = .char (Char.ofNat n) := by
  have htoNat : (UInt8.ofNat n).toNat = n := toNat_ofNat (by omega)
  simp only [first, htoNat]
  rw [if_pos hn]

/-- The first of two bytes. The two values that would make the form overlong are not given out. -/
theorem first_of_two {a : Nat} (hlow : 2 ≤ a) (ha : a < 32) :
    first (UInt8.ofNat (a + 0xC0)) = .pending ⟨a, 0, 0x80, 0xBF⟩ := by
  have hn : (UInt8.ofNat (a + 0xC0)).toNat = a + 0xC0 := toNat_ofNat (by omega)
  simp only [first, hn, Nat.add_sub_cancel]
  rw [if_neg (by omega), if_neg (by omega), if_pos (by omega)]

/-- The first two of three bytes, of a character that needs so many and is no surrogate. -/
theorem first_of_three {a b : Nat} (ha : a < 16) (hb : b < 64) (hlong : a = 0 → 32 ≤ b)
    (hsurrogate : a = 13 → b < 32) :
    ∃ p, first (UInt8.ofNat (a + 0xE0)) = .pending p ∧
      p.next (UInt8.ofNat (b + 0x80)) = .pending ⟨a * 64 + b, 0, 0x80, 0xBF⟩ := by
  have hn : (UInt8.ofNat (a + 0xE0)).toNat = a + 0xE0 := toNat_ofNat (by omega)
  have hfirst : first (UInt8.ofNat (a + 0xE0)) =
      .pending ⟨a, 1, if a = 0 then 0xA0 else 0x80, if a = 13 then 0x9F else 0xBF⟩ := by
    simp only [first, hn, Nat.add_sub_cancel]
    rw [if_neg (by omega), if_neg (by omega), if_neg (by omega)]
    split
    · obtain rfl : a = 0 := by omega
      rfl
    · rw [if_neg (c := a = 0) (by omega)]
      split
      · obtain rfl : a = 13 := by omega
        rfl
      · rw [if_pos (by omega), if_neg (by omega)]
  exact ⟨_, hfirst, next_more a 0 (by omega) (by split <;> omega) (by split <;> omega)⟩

/-- The first two of four bytes, of a character that needs so many and is no greater than the last
code point. -/
theorem first_of_four {a b : Nat} (ha : a < 5) (hb : b < 64) (hlong : a = 0 → 16 ≤ b)
    (hlast : a = 4 → b < 16) :
    ∃ p, first (UInt8.ofNat (a + 0xF0)) = .pending p ∧
      p.next (UInt8.ofNat (b + 0x80)) = .pending ⟨a * 64 + b, 1, 0x80, 0xBF⟩ := by
  have hn : (UInt8.ofNat (a + 0xF0)).toNat = a + 0xF0 := toNat_ofNat (by omega)
  have hfirst : first (UInt8.ofNat (a + 0xF0)) =
      .pending ⟨a, 2, if a = 0 then 0x90 else 0x80, if a = 4 then 0x8F else 0xBF⟩ := by
    simp only [first, hn, Nat.add_sub_cancel]
    rw [if_neg (by omega), if_neg (by omega), if_neg (by omega), if_neg (by omega),
      if_neg (by omega), if_neg (by omega)]
    split
    · obtain rfl : a = 0 := by omega
      rfl
    · rw [if_neg (c := a = 0) (by omega)]
      split
      · rw [if_neg (by omega)]
      · obtain rfl : a = 4 := by omega
        rfl
  exact ⟨_, hfirst, next_more a 1 (by omega) (by split <;> omega) (by split <;> omega)⟩

/-! ## One character -/

theorem decodeFrom_char {b : UInt8} {c : Char} (h : first b = .char c) (rest : Bytes) :
    decodeFrom none (b :: rest) = some c :: decodeFrom none rest := by
  rw [decodeFrom, h]

theorem decodeFrom_pending {b : UInt8} {p : Pending} (h : first b = .pending p) (rest : Bytes) :
    decodeFrom none (b :: rest) = decodeFrom (some p) rest := by
  rw [decodeFrom, h]

theorem decodeFrom_next_char {p : Pending} {b : UInt8} {c : Char} (h : p.next b = .char c)
    (rest : Bytes) : decodeFrom (some p) (b :: rest) = some c :: decodeFrom none rest := by
  rw [decodeFrom, h]

theorem decodeFrom_next_pending {p q : Pending} {b : UInt8} (h : p.next b = .pending q)
    (rest : Bytes) : decodeFrom (some p) (b :: rest) = decodeFrom (some q) rest := by
  rw [decodeFrom, h]

/-- A character is read from its bytes, and reading goes on behind them. -/
theorem decodeFrom_utf8EncodeChar (c : Char) (rest : Bytes) :
    decodeFrom none (String.utf8EncodeChar c ++ rest) = some c :: decodeFrom none rest := by
  have hself : Char.ofNat c.val.toNat = c := Char.ofNat_toNat c
  have hvalid : c.val.toNat < 0xD800 ∨ 0xDFFF < c.val.toNat ∧ c.val.toNat < 0x110000 := c.valid
  generalize hv : c.val.toNat = v at hself hvalid
  unfold String.utf8EncodeChar
  simp only [hv]
  split
  · rw [List.singleton_append, decodeFrom_char (first_ascii (by omega)), hself]
  split
  · have hsum : v / 64 % 32 * 64 + v % 64 = v := by omega
    have hfirst := first_of_two (a := v / 64 % 32) (by omega) (by omega)
    have hlast := next_last (v / 64 % 32) (b := v % 64) (by omega)
    rw [hsum, hself] at hlast
    simp only [List.cons_append, List.nil_append]
    rw [decodeFrom_pending hfirst, decodeFrom_next_char hlast]
  split
  · have hsum : (v / 4096 % 16 * 64 + v / 64 % 64) * 64 + v % 64 = v := by omega
    obtain ⟨p, hfirst, hnext⟩ := first_of_three (a := v / 4096 % 16) (b := v / 64 % 64)
      (by omega) (by omega) (by omega) (by omega)
    have hlast := next_last (v / 4096 % 16 * 64 + v / 64 % 64) (b := v % 64) (by omega)
    rw [hsum, hself] at hlast
    simp only [List.cons_append, List.nil_append]
    rw [decodeFrom_pending hfirst, decodeFrom_next_pending hnext, decodeFrom_next_char hlast]
  · have hsum : ((v / 262144 % 8 * 64 + v / 4096 % 64) * 64 + v / 64 % 64) * 64 + v % 64 = v := by
      omega
    obtain ⟨p, hfirst, hsecond⟩ := first_of_four (a := v / 262144 % 8) (b := v / 4096 % 64)
      (by omega) (by omega) (by omega) (by omega)
    have hthird : Pending.next ⟨v / 262144 % 8 * 64 + v / 4096 % 64, 1, 0x80, 0xBF⟩
        (UInt8.ofNat (v / 64 % 64 + 0x80)) =
        .pending ⟨(v / 262144 % 8 * 64 + v / 4096 % 64) * 64 + v / 64 % 64, 0, 0x80, 0xBF⟩ :=
      next_more _ 0 (by omega) (by omega) (by omega)
    have hlast := next_last ((v / 262144 % 8 * 64 + v / 4096 % 64) * 64 + v / 64 % 64)
      (b := v % 64) (by omega)
    rw [hsum, hself] at hlast
    simp only [List.cons_append, List.nil_append]
    rw [decodeFrom_pending hfirst, decodeFrom_next_pending hsecond,
      decodeFrom_next_pending hthird, decodeFrom_next_char hlast]

/-! ## Whole texts -/

/-- **The characters of a text are read back from its bytes**, none of them as ill-formed. -/
theorem decode_encode (cs : List Char) : decode (encode cs) = cs.map some := by
  unfold decode
  induction cs with
  | nil => rfl
  | cons c cs ih =>
    rw [encode, List.flatMap_cons, decodeFrom_utf8EncodeChar, List.map_cons]
    exact congrArg (some c :: ·) ih

theorem decode?_encode (cs : List Char) : decode? (encode cs) = some cs := by
  rw [decode?, decode_encode]
  induction cs with
  | nil => rfl
  | cons c cs ih => simp [ih]

theorem decodeLossy_encode (cs : List Char) : decodeLossy (encode cs) = cs := by
  rw [decodeLossy, decode_encode, List.map_map]
  exact List.map_id cs

/-- Characters below 0x80 are their own bytes. -/
theorem utf8EncodeChar_ascii {c : Char} (h : c.toNat < 0x80) :
    String.utf8EncodeChar c = [UInt8.ofNat c.toNat] := by
  unfold String.utf8EncodeChar
  exact if_pos (Nat.le_of_lt_succ h)

end Switchboard.Utf8
