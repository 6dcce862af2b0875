import Chip8.Screen.Canvas

/-! Pictures: what is to be seen, cell by cell, on a screen of any size.

The one thing that is ever drawn is a frame around an empty canvas, with a title in its
top row that counts how often the canvas was cleared. -/
namespace Chip8

/-- A cell of a screen: a character, and the number of the style that it has. A plain
cell has style zero. -/
@[ext] structure Cell where
  symbol : Char := ' '
  style : Nat := 0
  deriving DecidableEq, Repr

/-- The cell in each row and column; there is no end to either. -/
abbrev Picture := Nat → Nat → Cell

namespace Picture

def empty : Picture := fun _ _ => {}

/-- The characters of a border of the given size at the top left, with a title in its top
edge. -/
def border (width height : Nat) (title : List Char) (row column : Nat) : Char :=
  if row < height ∧ column < width then
    if row = 0 then
      if column = 0 then '┌' else if column + 1 = width then '┐' else title[column - 1]?.getD '─'
    else if row + 1 = height then
      if column = 0 then '└' else if column + 1 = width then '┘' else '─'
    else if column = 0 ∨ column + 1 = width then '│' else ' '
  else ' '

/-- A row of `width` cells has one in which the pictures differ. -/
def differs (width : Nat) (before after : Picture) (row : Nat) : Bool :=
  (List.range width).any fun column => before row column != after row column

end Picture

namespace Canvas

/-- The canvas of the machine's display. -/
def display : Canvas := ⟨64, 32⟩

/-- The cells of the display and its border. -/
def area : Rect := ⟨0, 0, 66, 34⟩

/-- The title after a number of clears. -/
def title (clears : Nat) : String := "CHIP-8 (cls x" ++ toString clears ++ ")"

end Canvas

end Chip8
