import Switchboard.Terminal.Grid
import Switchboard.Text.LineEnding

/-!
Surfaces: what a terminal is drawn on. A surface takes bytes and a size, and tells the box it is
displayed in, if it is.
-/

namespace Switchboard

/-- Something that a terminal is drawn on. -/
class Surface (S : Type) where
  /-- The displayed box, none while the surface is not laid out. -/
  measure : S → Option PixelBox
  cell : S → CellMetrics
  /-- The width that a scrollbar takes from the box. -/
  scrollbar : S → Float
  grid : S → Grid
  resize : Grid → S → S
  write : Bytes → S → S

namespace Surface

variable {S : Type} [Surface S]

/-- Writes a line of the terminal's own: its text, then the line end. -/
def writeLine (text : String) (s : S) : S := write LineEnding.crlf (write (bytesOf text) s)

/-- The grid that fits the displayed box. -/
def fitted? (s : S) : Option Grid := (measure s).map fun box => .fit box (cell s) (scrollbar s)

end Surface

/-- A surface that keeps a record of what is written to it. -/
structure Recorded (S : Type) where
  surface : S
  /-- The writes so far, the first one first. -/
  writes : List Bytes

namespace Recorded

/-- A record that begins now. -/
def start {S : Type} (surface : S) : Recorded S := ⟨surface, []⟩

instance {S : Type} [Surface S] : Surface (Recorded S) where
  measure s := Surface.measure s.surface
  cell s := Surface.cell s.surface
  scrollbar s := Surface.scrollbar s.surface
  grid s := Surface.grid s.surface
  resize g s := { s with surface := Surface.resize g s.surface }
  write bs s := ⟨Surface.write bs s.surface, s.writes ++ [bs]⟩

end Recorded

/-- The standard output where it is no terminal, so that there is nothing to measure. -/
structure Console where
  /-- The size that it is taken to have. -/
  grid : Grid
  /-- The bytes written so far. -/
  output : Bytes
deriving DecidableEq, Repr

namespace Console

/-- A console that nothing has been written to. -/
def start : Console := ⟨⟨80, 24⟩, []⟩

instance : Surface Console where
  measure _ := none
  cell _ := .unit
  scrollbar _ := 0
  grid c := c.grid
  resize g c := { c with grid := g }
  write bs c := { c with output := c.output ++ LineEnding.expand bs }

end Console

end Switchboard
