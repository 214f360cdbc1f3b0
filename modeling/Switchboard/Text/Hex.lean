/-!
Hexadecimal digits and numbers in a base up to sixteen. Numbers are written without leading zeros.
-/

namespace Switchboard.Hex

/-- The value of a digit, in either case. -/
def digit? (c : Char) : Option Nat :=
  if '0' ≤ c ∧ c ≤ '9' then some (c.toNat - '0'.toNat)
  else if 'a' ≤ c ∧ c ≤ 'f' then some (c.toNat - 'a'.toNat + 10)
  else if 'A' ≤ c ∧ c ≤ 'F' then some (c.toNat - 'A'.toNat + 10)
  else none

/-- The digit of a value below sixteen, in lower case. -/
def lower (n : Nat) : Char := "0123456789abcdef".toList.getD n '0'

/-- The digit of a value below sixteen, in upper case. -/
def upper (n : Nat) : Char := "0123456789ABCDEF".toList.getD n '0'

/-- The value of a digit of the given base. -/
def digitOf? (base : Nat) (c : Char) : Option Nat := (digit? c).filter (· < base)

/-- Reads digits of one base. The empty sequence is zero. -/
def number? (base : Nat) (cs : List Char) : Option Nat :=
  cs.foldl (fun acc c => do return (← acc) * base + (← digitOf? base c)) (some 0)

theorem digit?_lower : ∀ n, n < 16 → digit? (lower n) = some n := by decide

theorem digit?_upper : ∀ n, n < 16 → digit? (upper n) = some n := by decide

end Switchboard.Hex
