import Switchboard.Text.Hex

/-!
# Numbers and their digits

In every base up to sixteen, the digits of a number read as the number, and zeros in front do not
count: `number?_zeros_toDigits`.
-/

namespace Switchboard.Hex

variable {base : Nat}

/-- Reading one more digit. -/
theorem number?_concat (base : Nat) (cs : List Char) (c : Char) :
    number? base (cs ++ [c]) = do return (← number? base cs) * base + (← digitOf? base c) := by
  rw [number?, List.foldl_append]
  rfl

theorem digit?_digitChar : ∀ d, d < 16 → digit? (Nat.digitChar d) = some d := by decide

theorem digitOf?_digitChar (hbase : base ≤ 16) {d : Nat} (hd : d < base) :
    digitOf? base (Nat.digitChar d) = some d := by
  unfold digitOf?
  rw [digit?_digitChar d (by omega)]
  simp [hd]

theorem number?_replicate_zero (hpos : 0 < base) (hbase : base ≤ 16) (k : Nat) :
    number? base (List.replicate k '0') = some 0 := by
  induction k with
  | zero => rfl
  | succ k ih =>
      have hzero : digitOf? base '0' = some 0 := digitOf?_digitChar hbase hpos
      rw [List.replicate_succ', number?_concat, ih, hzero]
      simp

/-- The digits of a number, behind any number of zeros, read as the number. -/
theorem number?_zeros_toDigits (hone : 1 < base) (hbase : base ≤ 16) (k n : Nat) :
    number? base (List.replicate k '0' ++ Nat.toDigits base n) = some n := by
  induction n using Nat.strongRecOn with
  | ind n ih =>
      by_cases hn : n < base
      · rw [Nat.toDigits_of_lt_base hn, number?_concat, digitOf?_digitChar hbase hn,
          number?_replicate_zero (by omega) hbase]
        simp
      · have hlast : n % base < base := Nat.mod_lt n (by omega)
        rw [Nat.toDigits_of_base_le hone (by omega), ← List.append_assoc, number?_concat,
          ih (n / base) (Nat.div_lt_self (by omega) hone), digitOf?_digitChar hbase hlast]
        show some (n / base * base + n % base) = some n
        rw [Nat.div_add_mod']

theorem number?_toDigits (hone : 1 < base) (hbase : base ≤ 16) (n : Nat) :
    number? base (Nat.toDigits base n) = some n := number?_zeros_toDigits hone hbase 0 n

end Switchboard.Hex
