import Switchboard.Terminal.Screen
import Switchboard.Terminal.Surface

/-!
A surface that interprets what a terminal receives: characters in UTF-8, control characters, and
escape sequences that move the cursor or erase. Everything may be split across writes.
-/

namespace Switchboard

namespace Escape

/-- What the bytes read so far leave open. -/
inductive Mode where
  | ground
  /-- In the middle of a character. -/
  | character (p : Utf8.Pending)
  | escape
  /-- Behind an escape and other bytes, up to the byte that ends it. -/
  | escapeRest
  /-- In a control sequence: its parameters, the last byte first, and whether it has marks beside
  them. -/
  | control (parameters : Bytes) (marked : Bool)
  /-- In a control sequence that has no meaning. -/
  | ignored
  /-- In a title, which a bell ends. -/
  | title
  /-- In any other text that is not for the screen. -/
  | text
deriving DecidableEq, Repr

/-- A parameter: its first number, at most 65535. -/
def parameter (cs : Bytes) : Nat :=
  (cs.takeWhile (· != 0x3A)).foldl (fun n b => min (n * 10 + (b.toNat - 0x30)) 65535) 0

/-- Cuts parameters at the semicolons. -/
def parameters : Bytes → List Bytes
  | [] => [[]]
  | b :: rest =>
    match parameters rest with
    | [] => [[b]]
    | p :: ps => if b = 0x3B then [] :: p :: ps else (b :: p) :: ps

/-- The `i`th parameter. Zero stands for the usual value. -/
def argument (ps : List Bytes) (i usual : Nat) : Nat :=
  let n := parameter (ps.getD i [])
  if n = 0 then usual else n

/-- Carries out a control sequence. Those that change nothing but colours, and all others, are
passed over. -/
def perform (ps : List Bytes) (final : UInt8) (s : Screen) : Screen :=
  match Char.ofNat final.toNat with
  | 'A' => s.moveUp (argument ps 0 1)
  | 'B' => s.moveDown (argument ps 0 1)
  | 'C' => s.moveRight (argument ps 0 1)
  | 'D' => s.moveLeft (argument ps 0 1)
  | 'H' => s.moveTo (argument ps 0 1 - 1) (argument ps 1 1 - 1)
  | 'J' =>
    match argument ps 0 0 with
    | 0 => s.eraseBelow
    | 1 => s.eraseAbove
    | 2 => s.eraseAll
    | _ => s
  | 'K' =>
    match argument ps 0 0 with
    | 0 => s.eraseRight
    | 1 => s.eraseLeft
    | 2 => s.eraseRow
    | _ => s
  | _ => s

/-- Carries out a control character. -/
def execute (b : UInt8) (s : Screen) : Screen :=
  if b = 0x08 then s.moveLeft 1
  else if b = 0x09 then s.tab
  else if b = 0x0A ∨ b = 0x0B ∨ b = 0x0C then s.lineFeed
  else if b = 0x0D then s.carriageReturn
  else s

/-- Reads a byte between sequences. -/
def ground (b : UInt8) (s : Screen) : Mode × Screen :=
  if b < 0x20 then (.ground, execute b s)
  else
    match Utf8.first b with
    | .char c => (.ground, s.draw c)
    | .pending p => (.character p, s)
    | .bad => (.ground, s)

/-- Reads the byte behind an escape. -/
def afterEscape (b : UInt8) : Mode :=
  if b = 0x5B then .control [] false
  else if b = 0x5D then .title
  else if b = 0x50 ∨ b = 0x58 ∨ b = 0x5E ∨ b = 0x5F then .text
  else if 0x20 ≤ b ∧ b < 0x30 then .escapeRest
  else if b < 0x7F then .ground
  else .escape

/-- Reads a byte of a control sequence. Marks belong in front of the parameters or behind them. -/
def inControl (ps : Bytes) (marked : Bool) (b : UInt8) (s : Screen) : Mode × Screen :=
  if 0x30 ≤ b ∧ b < 0x3C then
    if marked && (ps.head?.map fun last => decide (last < 0x30)).getD false then (.ignored, s)
    else (.control (b :: ps) marked, s)
  else if 0x3C ≤ b ∧ b < 0x40 then (if ps.isEmpty && !marked then .control ps true else .ignored, s)
  else if 0x20 ≤ b ∧ b < 0x30 then (.control (b :: ps) true, s)
  else if 0x40 ≤ b ∧ b < 0x7F then
    (.ground, if marked then s else perform (parameters ps.reverse) b s)
  else (.control ps marked, s)

/-- Reads one byte. Escape begins a new sequence anywhere, and two control characters cancel
one. -/
def step (mode : Mode) (s : Screen) (b : UInt8) : Mode × Screen :=
  match mode with
  | .character p =>
    match p.next b with
    | .char c => (.ground, s.draw c)
    | .pending q => (.character q, s)
    | .bad => (.ground, s.draw '\uFFFD')
  | mode =>
    -- Inside a character no byte is a control character; everywhere else these go first.
    if b = 0x1B then (.escape, s)
    else if b = 0x18 ∨ b = 0x1A then (.ground, s)
    else
      match mode with
      | .title => (if b = 0x07 then .ground else .title, s)
      | .text => (if b = 0x9C then .ground else .text, s)
      | mode =>
        if b < 0x20 then (mode, execute b s)
        else
          match mode with
          | .escape => (afterEscape b, s)
          | .escapeRest => (if 0x30 ≤ b ∧ b < 0x7F then .ground else .escapeRest, s)
          | .control ps marked => inControl ps marked b s
          | .ignored => (if 0x40 ≤ b ∧ b < 0x7F then .ground else .ignored, s)
          | _ => ground b s

end Escape

/-- A screen with the box it is displayed in. -/
structure Emulator where
  screen : Screen
  mode : Escape.Mode
  box : Option PixelBox
  cell : CellMetrics
  scrollbar : Float
  /-- The resizes so far. -/
  resizes : Nat

namespace Emulator

/-- An empty screen that is not displayed. -/
def ofGrid (g : Grid) (cell : CellMetrics) (scrollbar : Float) : Emulator :=
  { screen := .ofGrid g, mode := .ground, box := none, cell, scrollbar, resizes := 0 }

/-- Displays the screen in a box, or nowhere. -/
def withBox (box : Option PixelBox) (e : Emulator) : Emulator := { e with box }

/-- Interprets bytes. -/
def feed (bs : Bytes) (e : Emulator) : Emulator :=
  let (mode, screen) := bs.foldl (fun (mode, s) b => Escape.step mode s b) (e.mode, e.screen)
  { e with mode, screen }

def contents (e : Emulator) : String := e.screen.contents

instance : Surface Emulator where
  measure e := e.box
  cell e := e.cell
  scrollbar e := e.scrollbar
  grid e := e.screen.grid
  resize g e := { e with screen := e.screen.resize g, resizes := e.resizes + 1 }
  write bs e := e.feed (LineEnding.expand bs)

end Emulator

end Switchboard
