import Switchboard.Terminal.Emulator

/-!
# Surfaces that keep their size

Who fits a surface to its box relies on two things: a surface has the grid that it was last given
(`SizedSurface`), and nothing but a change from outside moves the box or takes the grid back
(`SteadySurface`). Both hold of every surface here. For the emulator that is a fact about all it can
be sent: no character, no control character and no escape sequence changes the size of the screen
(`grid_feed`).
-/

namespace Switchboard

/-- A surface that has the grid that it was last resized to. -/
class SizedSurface (S : Type) [Surface S] : Prop where
  grid_resize (g : Grid) (s : S) : Surface.grid (Surface.resize g s) = g

/-- Moreover a resize does not move its box, and a write changes neither the box nor the grid. -/
class SteadySurface (S : Type) [Surface S] : Prop extends SizedSurface S where
  fitted_resize (g : Grid) (s : S) : Surface.fitted? (Surface.resize g s) = Surface.fitted? s
  grid_write (bytes : Bytes) (s : S) : Surface.grid (Surface.write bytes s) = Surface.grid s
  fitted_write (bytes : Bytes) (s : S) :
    Surface.fitted? (Surface.write bytes s) = Surface.fitted? s

instance : SteadySurface Console where
  grid_resize _ _ := rfl
  fitted_resize _ _ := rfl
  grid_write _ _ := rfl
  fitted_write _ _ := rfl

instance {S : Type} [Surface S] [SizedSurface S] : SizedSurface (Recorded S) where
  grid_resize g r := SizedSurface.grid_resize g r.surface

instance {S : Type} [Surface S] [SteadySurface S] : SteadySurface (Recorded S) where
  fitted_resize g r := SteadySurface.fitted_resize g r.surface
  grid_write bytes r := SteadySurface.grid_write bytes r.surface
  fitted_write bytes r := SteadySurface.fitted_write bytes r.surface

/-! ## The grid of a screen -/

namespace Screen

@[simp] theorem grid_modifyRow (i : Nat) (f : Row → Row) (s : Screen) :
    (s.modifyRow i f).grid = s.grid := rfl

@[simp] theorem grid_setCell (i j : Nat) (c : Cell) (s : Screen) :
    (s.setCell i j c).grid = s.grid := rfl

@[simp] theorem grid_lineFeed (s : Screen) : s.lineFeed.grid = s.grid := by
  unfold lineFeed
  split <;> rfl

@[simp] theorem grid_wrapFor (width : Nat) (s : Screen) : (s.wrapFor width).grid = s.grid := by
  unfold wrapFor
  split
  · simp
  · rfl

@[simp] theorem grid_drawMark (c : Char) (s : Screen) : (s.drawMark c).grid = s.grid := by
  unfold drawMark
  split
  · rfl
  · split <;> rfl

@[simp] theorem grid_splitWide (i j : Nat) (s : Screen) : (s.splitWide i j).grid = s.grid := by
  unfold splitWide
  split <;> rfl

@[simp] theorem grid_drawTail (i j : Nat) (s : Screen) : (s.drawTail i j).grid = s.grid := by
  unfold drawTail
  dsimp only
  rw [grid_setCell]
  split
  · split <;> rfl
  · rfl

@[simp] theorem grid_drawWide (c : Char) (width : Nat) (s : Screen) :
    (s.drawWide c width).grid = s.grid := by
  unfold drawWide
  dsimp only
  split <;> simp

@[simp] theorem grid_draw (c : Char) (s : Screen) : (s.draw c).grid = s.grid := by
  unfold draw
  split
  · rfl
  · exact grid_drawMark c s
  · simp

end Screen

/-! ## Control characters and sequences -/

namespace Escape

@[simp] theorem grid_perform (ps : List Bytes) (final : UInt8) (s : Screen) :
    (perform ps final s).grid = s.grid := by
  unfold perform
  -- only the two erasing sequences look at a parameter first
  split
  case h_6 => split <;> rfl
  case h_7 => split <;> rfl
  all_goals rfl

@[simp] theorem grid_execute (b : UInt8) (s : Screen) : (execute b s).grid = s.grid := by
  unfold execute
  split
  · rfl
  · split
    · rfl
    · split
      · exact s.grid_lineFeed
      · split <;> rfl

theorem grid_ground (b : UInt8) (s : Screen) : (ground b s).2.grid = s.grid := by
  unfold ground
  split
  · exact grid_execute b s
  · split
    · exact s.grid_draw _
    · rfl
    · rfl

theorem grid_inControl (ps : Bytes) (marked : Bool) (b : UInt8) (s : Screen) :
    (inControl ps marked b s).2.grid = s.grid := by
  unfold inControl
  split
  · split <;> rfl
  · split
    · rfl
    · split
      · rfl
      · split
        · dsimp only
          split
          · rfl
          · exact grid_perform _ b s
        · rfl

/-- **No byte changes the size of the screen.** -/
theorem grid_step (mode : Mode) (s : Screen) (b : UInt8) : (step mode s b).2.grid = s.grid := by
  unfold step
  split
  · split
    · simp
    · rfl
    · simp
  · split
    · rfl
    · split
      · rfl
      · -- what is left depends on the sequence that the byte stands in
        split
        · rfl
        · rfl
        · split
          · exact grid_execute b s
          · split
            · rfl
            · rfl
            · exact grid_inControl _ _ b s
            · rfl
            · exact grid_ground b s

end Escape

namespace Emulator

theorem grid_feed (bs : Bytes) (e : Emulator) : (e.feed bs).screen.grid = e.screen.grid := by
  unfold feed
  generalize e.mode = mode
  generalize e.screen = s
  induction bs generalizing mode s with
  | nil => rfl
  | cons b rest ih => exact (ih _ _).trans (Escape.grid_step mode s b)

instance : SteadySurface Emulator where
  grid_resize _ _ := rfl
  fitted_resize _ _ := rfl
  grid_write bytes e := grid_feed (LineEnding.expand bytes) e
  fitted_write _ _ := rfl

end Emulator

end Switchboard
