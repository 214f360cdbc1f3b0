import Switchboard.Terminal.Grid
import Switchboard.Unicode.Width

/-!
A screen of character cells with a cursor. Text runs from left to right and wraps into the next row
only when another character follows; at the bottom the rows move up. Rows are kept as far as they
have been written to, and the cells behind are blank.
-/

namespace Switchboard

/-- How a cell belongs to a character. -/
inductive Span where
  | single
  /-- The left half of a wide character. -/
  | wide
  /-- The right half of a wide character. -/
  | tail
deriving DecidableEq, Repr

/-- A cell: a character with the marks on it, or nothing. -/
structure Cell where
  text : List Char
  span : Span
deriving DecidableEq, Repr

namespace Cell

def blank : Cell := ⟨[], .single⟩

/-- A cell holds at most six characters. -/
def capacity : Nat := 6

/-- Adds a mark. A mark alone stands on a space. -/
def append (c : Char) (cell : Cell) : Cell :=
  if capacity ≤ cell.text.length then cell
  else { cell with text := (if cell.text.isEmpty then [' '] else cell.text) ++ [c] }

/-- Something has been drawn here. -/
def isDrawn (cell : Cell) : Bool := !cell.text.isEmpty

end Cell

/-- A row of cells. A wrapped row goes on in the next one. -/
structure Row where
  cells : List Cell
  wrapped : Bool
deriving DecidableEq, Repr

namespace Row

def blank : Row := ⟨[], false⟩

def cell (r : Row) (i : Nat) : Cell := r.cells.getD i .blank

/-- Replaces a cell. -/
def setCell (i : Nat) (c : Cell) (r : Row) : Row :=
  { r with cells := (r.cells ++ List.replicate (i + 1 - r.cells.length) Cell.blank).set i c }

/-- Wipes the other half of a wide character. -/
def clearOther (i : Nat) (r : Row) : Row :=
  match (r.cell i).span with
  | .wide => r.setCell (i + 1) .blank
  | .tail => r.setCell (i - 1) .blank
  | .single => r

/-- Wipes a cell of a row of `cols` cells. A row without its last character does not wrap. -/
def erase (cols i : Nat) (r : Row) : Row :=
  let isLast := i + (if (r.cell i).span = .wide then 2 else 1) = cols
  let cleared := (r.clearOther i).setCell i .blank
  if isLast then { cleared with wrapped := false } else cleared

/-- Wipes the cells from `i` on, `n` of them. -/
def eraseCells (cols : Nat) (i n : Nat) (r : Row) : Row :=
  (List.range' i n).foldl (fun r i => r.erase cols i) r

/-- Cuts a row to a width. It does not wrap any longer. -/
def truncate (cols : Nat) (r : Row) : Row := ⟨r.cells.take cols, false⟩

/-- The text of cells, with spaces for the blank ones in front of drawn ones. `blanks` are those
met since the last drawn one. -/
def renderCells (blanks : Nat) : List Cell → List Char
  | [] => []
  | [c] => if c.isDrawn then List.replicate blanks ' ' ++ c.text else []
  | c :: next :: rest =>
    if c.isDrawn then
      List.replicate blanks ' ' ++ c.text ++
        (if c.span = .wide then renderCells 0 rest else renderCells 0 (next :: rest))
    else renderCells (blanks + 1) (next :: rest)

/-- The text of a row. -/
def render (r : Row) : List Char := renderCells 0 r.cells

end Row

/-- A screen. The column of the cursor may be one past the last. -/
structure Screen where
  grid : Grid
  rows : List Row
  row : Nat
  col : Nat
deriving DecidableEq, Repr

namespace Screen

/-- An empty screen. -/
def ofGrid (g : Grid) : Screen := ⟨g, List.replicate g.rows .blank, 0, 0⟩

/-! ## Access -/

def rowAt (s : Screen) (i : Nat) : Row := s.rows.getD i .blank

def cellAt (s : Screen) (i j : Nat) : Cell := (s.rowAt i).cell j

def modifyRow (i : Nat) (f : Row → Row) (s : Screen) : Screen :=
  { s with rows := s.rows.modify i f }

def setCell (i j : Nat) (c : Cell) (s : Screen) : Screen := s.modifyRow i (Row.setCell j c)

/-! ## The cursor -/

/-- Moves to a place, kept on the screen. -/
def moveTo (i j : Nat) (s : Screen) : Screen :=
  { s with row := min i (s.grid.rows - 1), col := min j (s.grid.cols - 1) }

def moveUp (n : Nat) (s : Screen) : Screen := { s with row := s.row - n }
def moveDown (n : Nat) (s : Screen) : Screen :=
  { s with row := min (s.row + n) (s.grid.rows - 1) }
def moveRight (n : Nat) (s : Screen) : Screen :=
  { s with col := min (s.col + n) (s.grid.cols - 1) }
def moveLeft (n : Nat) (s : Screen) : Screen := { s with col := s.col - n }
def carriageReturn (s : Screen) : Screen := { s with col := 0 }

/-- Moves to the next column that is a multiple of eight. -/
def tab (s : Screen) : Screen :=
  { s with col := min (s.col - s.col % 8 + 8) (s.grid.cols - 1) }

/-- Moves down by one row; at the bottom all rows move up instead. -/
def lineFeed (s : Screen) : Screen :=
  if s.row + 1 < s.grid.rows then { s with row := s.row + 1 }
  else { s with rows := s.rows.drop 1 ++ [.blank], row := s.grid.rows - 1 }

/-! ## Drawing -/

/-- Goes to the next row if a character of some width does not fit. The row is marked as wrapped if
it is full to the end. -/
def wrapFor (width : Nat) (s : Screen) : Screen :=
  if s.grid.cols - width < s.col then
    let last := s.cellAt s.row (s.grid.cols - 1)
    let wraps := last.isDrawn || last.span == .tail
    let moved := ({ s with col := 0 } : Screen).lineFeed
    -- The row left behind is the one above, whether or not the rows moved up.
    moved.modifyRow (moved.row - 1) fun r => { r with wrapped := wraps }
  else s

/-- The cell that a mark in front of a column goes to. -/
def markPlace (s : Screen) (i j : Nat) : Nat :=
  if (s.cellAt i (j - 1)).span = .tail then j - 2 else j - 1

/-- Adds a mark to a cell. -/
def appendAt (i j : Nat) (c : Char) (s : Screen) : Screen :=
  s.setCell i j ((s.cellAt i j).append c)

/-- Adds a mark to the character in front of the cursor, in the row above if that one wraps. -/
def drawMark (c : Char) (s : Screen) : Screen :=
  if 0 < s.col then s.appendAt s.row (s.markPlace s.row s.col) c
  else if 0 < s.row ∧ (s.rowAt (s.row - 1)).wrapped then
    s.appendAt (s.row - 1) (s.markPlace (s.row - 1) s.grid.cols) c
  else s

/-- Wipes what is left of wide characters that a drawn cell cuts in two. -/
def splitWide (i j : Nat) (s : Screen) : Screen :=
  match (s.cellAt i j).span with
  | .tail => s.setCell i (j - 1) .blank
  | .wide => s.setCell i (j + 1) ⟨[' '], .single⟩
  | .single => s

/-- Draws the right half of a wide character. -/
def drawTail (i j : Nat) (s : Screen) : Screen :=
  let cut :=
    if (s.cellAt i j).span = .wide then
      let cleared := s.setCell i (j + 1) .blank
      -- The wide character that is cut in two reached to the end of the row.
      if j + 2 = s.grid.cols then cleared.modifyRow i fun r => { r with wrapped := false }
      else cleared
    else s
  cut.setCell i j ⟨[], .tail⟩

/-- Draws a character of one or two cells at the cursor. -/
def drawWide (c : Char) (width : Nat) (s : Screen) : Screen :=
  let i := s.row
  let j := s.col
  let drawn := (s.splitWide i j).setCell i j ⟨[c], if 1 < width then .wide else .single⟩
  if 1 < width then { drawn.drawTail i (j + 1) with col := j + 2 } else { drawn with col := j + 1 }

/-- Draws a character. -/
def draw (c : Char) (s : Screen) : Screen :=
  match Unicode.cellWidth? c with
  | none => s
  | some 0 => s.drawMark c
  | some width => (s.wrapFor width).drawWide c width

/-! ## Erasing -/

/-- Wipes the row of the cursor from the cursor on. -/
def eraseRight (s : Screen) : Screen :=
  s.modifyRow s.row (Row.eraseCells s.grid.cols s.col (s.grid.cols - s.col))

/-- Wipes the row of the cursor up to the cursor. -/
def eraseLeft (s : Screen) : Screen :=
  s.modifyRow s.row (Row.eraseCells s.grid.cols 0 (min (s.col + 1) s.grid.cols))

/-- Wipes the row of the cursor. -/
def eraseRow (s : Screen) : Screen := s.modifyRow s.row fun _ => .blank

/-- Wipes everything from the cursor on. -/
def eraseBelow (s : Screen) : Screen :=
  { s with
    rows := s.rows.take (s.row + 1) ++
      List.replicate (s.rows.length - (s.row + 1)) Row.blank }.eraseRight

/-- Wipes everything up to the cursor. -/
def eraseAbove (s : Screen) : Screen :=
  { s with
    rows := List.replicate (min s.row s.rows.length) Row.blank ++ s.rows.drop s.row }.eraseLeft

/-- Wipes everything. -/
def eraseAll (s : Screen) : Screen :=
  { s with rows := List.replicate s.rows.length .blank }

/-! ## Size and contents -/

/-- Changes the size. What no longer fits is cut off, and no row wraps any longer. -/
def resize (g : Grid) (s : Screen) : Screen :=
  { grid := g
    rows := (s.rows.map (Row.truncate g.cols)).take g.rows ++
      List.replicate (g.rows - s.rows.length) Row.blank
    row := min s.row (g.rows - 1)
    col := min s.col (g.cols - 1) }

/-- The text of rows. A row ends a line unless it wraps; a blank one that a wrapped row goes on in
still ends the line of that one. -/
def renderRows (wrapping : Bool) : List Row → List Char
  | [] => []
  | r :: rest =>
    let text := r.render
    (if text.isEmpty && wrapping then ['\n'] else text) ++
      (if r.wrapped then [] else ['\n']) ++ renderRows r.wrapped rest

/-- The text on the screen, without line ends behind it. -/
def contents (s : Screen) : String :=
  String.ofList ((renderRows false s.rows).reverse.dropWhile (· == '\n')).reverse

end Screen

end Switchboard
