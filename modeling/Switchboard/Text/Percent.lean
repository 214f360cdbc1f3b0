import Switchboard.Text.Hex
import Switchboard.Text.Utf8

/-!
Percent-encoding: a byte is written as `%` and two hexadecimal digits. Which ASCII characters have
to be written that way depends on the place in a URL; all others always are.
-/

namespace Switchboard.Percent

/-- A byte as `%XX`. -/
def encodeByte (b : UInt8) : List Char :=
  ['%', Hex.upper (b.toNat / 16), Hex.upper (b.toNat % 16)]

/-- Encodes the characters in `set`, and those outside ASCII. -/
def encode (set : Char → Bool) (cs : List Char) : List Char :=
  cs.flatMap fun c =>
    if c.toNat < 0x80 && !set c then [c] else (String.utf8EncodeChar c).flatMap encodeByte

/-- The byte that two digits name. -/
def byte? (h l : UInt8) : Option UInt8 := do
  let x ← Hex.digit? (Char.ofNat h.toNat)
  let y ← Hex.digit? (Char.ofNat l.toNat)
  return UInt8.ofNat (x * 16 + y)

/-- Replaces each `%XX` by its byte. A `%` without two digits stands for itself. -/
def decode : Bytes → Bytes
  | [] => []
  | [a] => [a]
  | [a, b] => [a, b]
  | a :: h :: l :: rest =>
    if a = 0x25 then
      match byte? h l with
      | some b => b :: decode rest
      | none => a :: decode (h :: l :: rest)
    else a :: decode (h :: l :: rest)

end Switchboard.Percent
