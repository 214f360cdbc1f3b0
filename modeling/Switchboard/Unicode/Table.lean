import Switchboard.Text.Hex
import Switchboard.Text.Split

/-!
Tables of characters in a compact form. An item is the distance of its first code point from the
first one of the item before, then the number of code points if there are several (behind `.`), a
`/` if only every second one is meant, and a value: a shift (`+` or `-`), a class (`:`) or a
sequence (`=`). All numbers are hexadecimal.
-/

namespace Switchboard.Unicode

/-- Some code points and what they have in common. -/
structure Run where
  start : Nat
  count : Nat
  step : Nat
  /-- The shift goes down. -/
  down : Bool
  values : List Nat
deriving DecidableEq, Repr

/-- Tells the code points of a run. -/
def Run.covers (r : Run) (n : Nat) : Bool :=
  r.start ≤ n && (n - r.start) % r.step == 0 && (n - r.start) / r.step < r.count

/-- The code point that a shift leads to. -/
def Run.shift (r : Run) (n : Nat) : Nat :=
  if r.down then n - r.values.headD 0 else n + r.values.headD 0

/-- A number, zero where there is none. -/
def number (cs : List Char) : Nat := (Hex.number? 16 cs).getD 0

/-- Reads an item that follows one starting at `previous`. -/
def Run.read (previous : Nat) (item : List Char) : Run :=
  let isMark := fun c => ['+', '-', ':', '='].contains c
  let key := item.takeWhile (!isMark ·)
  let rest := item.dropWhile (!isMark ·)
  let place := key.filter (· != '/')
  let counted := (place.dropWhile (· != '.')).drop 1
  { start := previous + number (place.takeWhile (· != '.'))
    count := if counted.isEmpty then 1 else number counted
    step := if key.contains '/' then 2 else 1
    down := rest.head? == some '-'
    values := if rest.isEmpty then [] else (Text.splitOn ',' (rest.drop 1)).map number }

/-- Reads the items in order. -/
def readItems (previous : Nat) : List (List Char) → List Run
  | [] => []
  | item :: rest =>
    let r := Run.read previous item
    r :: readItems r.start rest

/-- Reads a table from its lines. -/
def readTable (lines : List String) : List Run :=
  readItems 0 (lines.flatMap fun line => Text.splitOn ' ' line.toList)

/-- The run that a code point belongs to. -/
def findRun (table : List Run) (n : Nat) : Option Run := table.find? (·.covers n)

end Switchboard.Unicode
