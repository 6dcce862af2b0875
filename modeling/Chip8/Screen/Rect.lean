/-! Rectangles of character cells. -/
namespace Chip8

/-- A part of a screen; every number fits sixteen bits. -/
structure Rect where
  x : Nat
  y : Nat
  width : Nat
  height : Nat
  deriving DecidableEq, Repr

namespace Rect

/-- The most cells that a rectangle may have. -/
def maxArea : Nat := 65535

/-- A rectangle of the given size or, if that has too many cells, the largest of about
the same shape that has few enough. -/
def fit (x y width height : Nat) : Rect :=
  if width * height ≤ maxArea then ⟨x, y, width, height⟩
  else
    let ratio := width.toFloat / height.toFloat
    let shrunk := (maxArea.toFloat / ratio).sqrt
    ⟨x, y, (shrunk * ratio).toUInt16.toNat, shrunk.toUInt16.toNat⟩

theorem fit_of_le (x y width height : Nat) (h : width * height ≤ maxArea) :
    fit x y width height = ⟨x, y, width, height⟩ := by
  simp [fit, h]

end Rect

end Chip8
