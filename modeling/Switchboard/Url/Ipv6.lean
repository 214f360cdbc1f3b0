import Switchboard.Text.Hex
import Switchboard.Text.Split

/-!
IPv6 addresses. One run of zero pieces may be left out as `::`, and the last two pieces may be
written as four decimal bytes. Addresses are printed in lower case, with the first of the longest
runs of two or more zero pieces left out.
-/

namespace Switchboard

/-- An IPv6 address as its eight pieces. -/
structure Ipv6 where
  pieces : List Nat
  length_eq : pieces.length = 8
deriving DecidableEq, Repr

namespace Ipv6

/-- One to four hexadecimal digits. -/
def piece? (cs : List Char) : Option Nat :=
  if cs.isEmpty ∨ 4 < cs.length then none else Hex.number? 16 cs

/-- A decimal byte without leading zeros. -/
def octet? (cs : List Char) : Option Nat :=
  if cs.isEmpty ∨ 3 < cs.length ∨ (1 < cs.length ∧ cs.head? = some '0') then none
  else (Hex.number? 10 cs).filter (· ≤ 255)

/-- The two pieces of an address written as four decimal bytes. -/
def dotted? (cs : List Char) : Option (List Nat) := do
  match ← (Text.splitOn '.' cs).mapM octet? with
  | [a, b, c, d] => some [a * 256 + b, c * 256 + d]
  | _ => none

/-- Pieces with a colon between them. Only where `dotted` is set may the last be four bytes. -/
def piecesOf? (dotted : Bool) : List (List Char) → Option (List Nat)
  | [] => some []
  | [last] => if dotted && last.contains '.' then dotted? last else (piece? last).map ([·])
  | p :: rest => do return (← piece? p) :: (← piecesOf? dotted rest)

/-- The pieces of one side of a `::`, which may be empty. -/
def side? (dotted : Bool) (cs : List Char) : Option (List Nat) :=
  if cs.isEmpty then some [] else piecesOf? dotted (Text.splitOn ':' cs)

/-- The texts before and after the first `::`. -/
def cutAtGap : List Char → Option (List Char × List Char)
  | ':' :: ':' :: rest => some ([], rest)
  | c :: rest => (cutAtGap rest).map fun (left, right) => (c :: left, right)
  | [] => none

/-- Takes a list of pieces that has the right length. -/
def ofPieces? (pieces : List Nat) : Option Ipv6 :=
  if h : pieces.length = 8 then some ⟨pieces, h⟩ else none

/-- Reads an address. A gap stands for at least one piece. -/
def parse? (cs : List Char) : Option Ipv6 := do
  match cutAtGap cs with
  | none => ofPieces? (← piecesOf? true (Text.splitOn ':' cs))
  | some (left, right) =>
    let front ← side? false left
    let back ← side? true right
    if front.length + back.length ≤ 7 then
      ofPieces? (front ++ List.replicate (8 - front.length - back.length) 0 ++ back)
    else none

/-- The zeros in front of a list. -/
def zeros (ps : List Nat) : Nat := (ps.takeWhile (· == 0)).length

/-- The place and length of the first longest run of zeros, looked for from place `i` on. -/
def longestGap : Nat → List Nat → Nat × Nat
  | _, [] => (0, 0)
  | i, p :: rest =>
    let later := longestGap (i + 1) rest
    if later.2 ≤ zeros (p :: rest) then (i, zeros (p :: rest)) else later

/-- A piece without leading zeros. -/
def renderPiece (n : Nat) : String := String.ofList ((Nat.toDigits 16 n))

/-- Pieces with colons between them. -/
def renderPieces (ps : List Nat) : String := ":".intercalate (ps.map renderPiece)

/-- The shortest form of an address. -/
def render (a : Ipv6) : String :=
  let gap := longestGap 0 a.pieces
  if gap.2 < 2 then renderPieces a.pieces
  else renderPieces (a.pieces.take gap.1) ++ "::" ++ renderPieces (a.pieces.drop (gap.1 + gap.2))

end Ipv6

end Switchboard
