import Chip8.Screen.Tty

/-! A terminal in memory: its cells, its cursor, and what is kept of it besides.

A picture is drawn over another by writing only the cells in which the two differ,
row by row; the cursor stays in the row of the last one. A line break in the bottom
row moves everything up by one row. -/
namespace Chip8

structure Screen (width height : Nat) where
  cells : Vector (Vector Cell width) height := Vector.replicate height (Vector.replicate width {})
  /-- The row of the cursor. -/
  row : Nat := 0
  cursorVisible : Bool := true
  /-- Keys are read one by one and are not shown. -/
  raw : Bool := false
  /-- How keys were read before. -/
  saved : Option Bool := none
  /-- What has been drawn last. -/
  drawn : Picture := Picture.empty
  /-- The cursor was hidden to draw. -/
  hidden : Bool := false

namespace Screen
variable {width height : Nat}

def blankRow : Vector Cell width := Vector.replicate width {}

/-- What can be drawn on. Of a terminal with very many cells that is less than all. -/
def view (width height : Nat) : Rect := Rect.fit 0 0 width height

/-- The cells of a widget. The border has a background, which is a style of its own. -/
def paint (w : Widget) : Picture := fun row column =>
  if row < w.area.height ∧ column < w.area.width then
    { symbol := Picture.border w.area.width w.area.height w.title.toList row column, style := 1 }
  else {}

/-- Draw `after` where `drawn` was. -/
def redraw (after : Picture) (s : Screen width height) : Screen width height :=
  { s with
    cells := Vector.ofFn fun row => Vector.ofFn fun column =>
      if s.drawn row column = after row column then s.cells[row][column] else after row column
    row :=
      ((List.range height).filter (Picture.differs width s.drawn after)).getLast?.getD s.row
    cursorVisible := false
    drawn := after
    hidden := true }

/-- To the start of the next row. -/
def lineBreak (s : Screen width height) : Screen width height :=
  if s.row + 1 < height then { s with row := s.row + 1 }
  else
    { s with
      cells := Vector.ofFn fun row =>
        if h : row.val + 1 < height then s.cells[row.val + 1] else blankRow }

/-- The widget has room in the view. -/
def fits (width height : Nat) (area : Rect) : Bool :=
  let view := view width height
  area.x + area.width ≤ view.width && area.y + area.height ≤ view.height

def tty (width height : Nat) : Tty (Screen width height) where
  rect := Rect.fit
  enableRaw s := .ok () { s with raw := true, saved := s.saved.or (some s.raw) }
  disableRaw s := .ok () { s with raw := s.saved.getD s.raw, saved := none }
  begin s := .ok () { s with drawn := Picture.empty, hidden := false }
  clear s := .ok () { s with cells := Vector.replicate height blankRow, drawn := Picture.empty }
  draw w s := if fits width height w.area then .ok () (s.redraw (paint w)) else .error .panicked s
  finish s := { s with cursorVisible := s.cursorVisible || s.hidden }
  lineBreak := lineBreak

end Screen

end Chip8
