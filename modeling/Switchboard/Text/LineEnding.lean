import Switchboard.Text.Utf8

/-!
Line endings for a screen whose line feed does not return to the first column: a carriage return
goes in front of each line feed that has none.
-/

namespace Switchboard.LineEnding

def carriageReturn : UInt8 := 0x0D
def lineFeed : UInt8 := 0x0A

/-- Completes the line feeds of `bs`, where `previous` is the byte in front of it. -/
def expandAfter (previous : UInt8) : Bytes → Bytes
  | [] => []
  | b :: rest =>
    if b = lineFeed ∧ previous ≠ carriageReturn then carriageReturn :: b :: expandAfter b rest
    else b :: expandAfter b rest

/-- Puts a carriage return in front of each line feed that does not follow one. -/
def expand (bs : Bytes) : Bytes := expandAfter 0 bs

/-- The line end that a notice gets. -/
def crlf : Bytes := [carriageReturn, lineFeed]

end Switchboard.LineEnding
