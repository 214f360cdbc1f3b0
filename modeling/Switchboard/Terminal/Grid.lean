/-!
Terminal grids and the pixel geometry they are computed from.
-/

namespace Switchboard

/-- The size of a terminal in character cells. -/
structure Grid where
  cols : Nat
  rows : Nat
deriving DecidableEq, Repr

/-- The displayed box of a terminal, in pixels. -/
structure PixelBox where
  width : Float
  height : Float

/-- The size of one character cell, in pixels. -/
structure CellMetrics where
  width : Float
  height : Float

namespace CellMetrics

/-- The metrics of a surface that is measured in cells. -/
def unit : CellMetrics := ⟨1, 1⟩

end CellMetrics

namespace Grid

def minCols : Nat := 2
def minRows : Nat := 1
def maxCols : Nat := 1000
def maxRows : Nat := 500

/-- A grid that is not smaller than a terminal can be. -/
def atLeastMin (cols rows : Nat) : Grid := ⟨max cols minCols, max rows minRows⟩

/-- Moves a number into a range. -/
def clamp (low high n : Nat) : Nat := if n < low then low else if high < n then high else n

/-- The whole cells that fit into a length, at most 65535. None fit where a length is not
positive. -/
def cellsIn (available cell : Float) : Nat :=
  if cell > 0 ∧ available > 0 then
    let cells := (available / cell).floor
    if cells ≥ 65535 then 65535 else cells.toUInt16.toNat
  else 0

/-- The grid that fits a box beside a scrollbar, kept between the least and the greatest grid. -/
def fit (box : PixelBox) (cell : CellMetrics) (scrollbar : Float) : Grid :=
  ⟨clamp minCols maxCols (cellsIn (box.width - scrollbar) cell.width),
    clamp minRows maxRows (cellsIn box.height cell.height)⟩

/-- The grids that a terminal is given. -/
def InRange (g : Grid) : Prop :=
  minCols ≤ g.cols ∧ g.cols ≤ maxCols ∧ minRows ≤ g.rows ∧ g.rows ≤ maxRows

theorem le_clamp {low high : Nat} (h : low ≤ high) (n : Nat) : low ≤ clamp low high n := by
  unfold clamp; split
  · exact Nat.le_refl _
  · split <;> omega

theorem clamp_le {low high : Nat} (h : low ≤ high) (n : Nat) : clamp low high n ≤ high := by
  unfold clamp; split
  · exact h
  · split <;> omega

/-- A computed grid is in range, whatever the geometry. -/
theorem inRange_fit (box : PixelBox) (cell : CellMetrics) (scrollbar : Float) :
    (fit box cell scrollbar).InRange :=
  ⟨le_clamp (by decide) _, clamp_le (by decide) _, le_clamp (by decide) _, clamp_le (by decide) _⟩

end Grid

end Switchboard
