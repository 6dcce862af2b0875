import Chip8.DeviceError
import Chip8.Screen.Picture

/-! Terminals, by what can be asked of them.

What a terminal is, and how the library goes about that draws on it, is left open
(`Tty`). Most requests can fail, and drawing can break down altogether. -/
namespace Chip8

/-- A canvas with a border and nothing on it. -/
structure Widget where
  /-- The text in the top edge of the border. -/
  title : String
  /-- The leftmost and the rightmost coordinate. -/
  xBounds : Float × Float
  /-- The lowest and the highest coordinate. -/
  yBounds : Float × Float
  /-- The cells of the canvas and its border. -/
  area : Rect

/-- Why a widget was not drawn. -/
inductive Trouble where
  | failed (e : DeviceError)
  /-- Whoever was to draw it has broken down. -/
  | panicked
  deriving DecidableEq, Repr

/-- The error that there is to tell of. -/
def Trouble.cause : Trouble → DeviceError
  | failed e => e
  | panicked => .described ⟨"Other"⟩ "panic"

/-- The requests to a terminal in the state `T`. The state is that of the terminal itself
and of the library that draws on it. -/
structure Tty (T : Type) where
  /-- A rectangle of the given place and size. -/
  rect : (x y width height : Nat) → Rect
  /-- Read keys one by one from now on, and do not show them. -/
  enableRaw : EStateM DeviceError T Unit
  /-- Read keys as before that. -/
  disableRaw : EStateM DeviceError T Unit
  /-- Prepare for drawing. -/
  begin : EStateM DeviceError T Unit
  clear : EStateM DeviceError T Unit
  draw : Widget → EStateM Trouble T Unit
  /-- Be done with drawing. -/
  finish : T → T
  lineBreak : T → T

def Tty.lineBreaks {T : Type} (tty : Tty T) : Nat → T → T
  | 0, t => t
  | n + 1, t => tty.lineBreaks n (tty.lineBreak t)

end Chip8
