import Switchboard.Text.Hex
import Switchboard.Text.Split

/-!
IPv4 addresses as hosts write them: one to four numbers, each decimal, octal (`0` in front) or
hexadecimal (`0x` in front), the last of which fills all the bytes that are left.
-/

namespace Switchboard

/-- An IPv4 address by its value. -/
structure Ipv4 where
  value : Nat
  value_lt : value < 0x100000000
deriving DecidableEq, Repr

namespace Ipv4

/-- The base of a number and its digits. -/
def baseAndDigits : List Char → Nat × List Char
  | '0' :: x :: rest => if x = 'x' ∨ x = 'X' then (16, rest) else (8, x :: rest)
  | cs => (10, cs)

/-- One number. Nothing after `0x` is zero, nothing at all is no number. -/
def number? (cs : List Char) : Option Nat :=
  if cs.isEmpty then none else Hex.number? (baseAndDigits cs).1 (baseAndDigits cs).2

/-- The parts between the points, less an empty last one. -/
def parts (cs : List Char) : List (List Char) :=
  let all := Text.splitOn '.' cs
  if all.length ≥ 2 ∧ all.getLast? = some [] then all.dropLast else all

/-- A host whose last part is a number is an address or nothing. -/
def endsInNumber (cs : List Char) : Bool :=
  match (parts cs).getLast? with
  | some last => (!last.isEmpty && last.all Char.isDigit) || (number? last).isSome
  | none => false

/-- Puts the last number behind the bytes in front of it. -/
def ofNumbers? (leading : List Nat) (last : Nat) : Option Ipv4 :=
  let room := Nat.pow 256 (4 - leading.length)
  if leading.length ≤ 3 ∧ leading.all (· ≤ 255) ∧ last < room then
    let value := leading.foldl (fun acc n => acc * 256 + n) 0 * room + last
    if h : value < 0x100000000 then some ⟨value, h⟩ else none
  else none

/-- The address a host denotes. -/
def parse? (cs : List Char) : Option Ipv4 := do
  let numbers ← (parts cs).mapM number?
  ofNumbers? numbers.dropLast (← numbers.getLast?)

/-- The four bytes, the highest first. -/
def octets (a : Ipv4) : List Nat :=
  [a.value / 0x1000000, a.value / 0x10000 % 256, a.value / 256 % 256, a.value % 256]

/-- Four decimal numbers with points between them. -/
def render (a : Ipv4) : String := ".".intercalate (a.octets.map toString)

end Ipv4

end Switchboard
