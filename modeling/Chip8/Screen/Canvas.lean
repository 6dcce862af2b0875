import Chip8.Screen.Rect

/-! The canvas that a display shows: its coordinates, and the frame around it.

Sizes are words of 64 bits, and screen positions words of sixteen. Where a size
leaves no room for a coordinate, or a frame no room for its border, there is no
answer but the operation that overflowed. -/
namespace Chip8

/-- An operation on words whose result is outside their range. -/
inductive Overflow where
  | add
  | subtract
  deriving DecidableEq, Repr

def Overflow.message : Overflow → String
  | .add => "attempt to add with overflow"
  | .subtract => "attempt to subtract with overflow"

/-- A canvas of so many dots across and down. -/
structure Canvas where
  width : UInt64
  height : UInt64
  deriving DecidableEq, Repr

namespace Canvas

def predecessor (n : UInt64) : Except Overflow UInt64 :=
  if n = 0 then .error .subtract else .ok (n - 1)

/-- The leftmost and the rightmost coordinate. -/
def xBounds (c : Canvas) : Except Overflow (Float × Float) := do
  let last ← predecessor c.width
  return (0.0, last.toFloat)

/-- The lowest and the highest coordinate; the top row is zero. -/
def yBounds (c : Canvas) : Except Overflow (Float × Float) := do
  let last ← predecessor c.height
  return (-1.0 * last.toFloat, 0.0)

/-- A number of cells with one more at either end. Only the low sixteen bits of a size
count. -/
def bordered (n : UInt64) : Except Overflow UInt16 :=
  if n.toUInt16.toNat + 2 < 65536 then .ok (n.toUInt16 + 2) else .error .add

/-- The cells of the canvas and its border, at the top left of the screen; `rect` makes a
rectangle of a place and a size. -/
def frameBy (rect : (x y width height : Nat) → Rect) (c : Canvas) : Except Overflow Rect := do
  let width ← bordered c.width
  let height ← bordered c.height
  return rect 0 0 width.toNat height.toNat

/-- The cells of the canvas and its border, fewer if a rectangle cannot have as many. -/
def frame (c : Canvas) : Except Overflow Rect := c.frameBy Rect.fit

end Canvas

end Chip8
