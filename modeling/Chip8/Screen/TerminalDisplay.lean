import Chip8.Host
import Chip8.Screen.Tty

/-! The display on a terminal: a frame around a canvas that is always blank.

To clear the display is to count one more clear and to draw the frame again, with the
count in its title (`clear`). A machine does nothing else to its display, so what it gets
to see of this one are the answers to one clear after another (`display`). -/
namespace Chip8

structure TerminalDisplay (T : Type) where
  terminal : T
  canvas : Canvas
  clears : Nat := 0

namespace TerminalDisplay
variable {T : Type} (tty : Tty T)

/-- The frame to be drawn. -/
def widget (d : TerminalDisplay T) : Except Overflow Widget := do
  let xBounds ← d.canvas.xBounds
  let yBounds ← d.canvas.yBounds
  let area ← d.canvas.frameBy tty.rect
  return { title := Canvas.title d.clears, xBounds, yBounds, area }

def render : EStateM Trouble (TerminalDisplay T) Unit := fun d =>
  match d.widget tty with
  | .error _ => .error .panicked d
  | .ok w =>
    match tty.draw w d.terminal with
    | .ok _ terminal => .ok () { d with terminal }
    | .error trouble terminal => .error trouble { d with terminal }

def clear : EStateM Trouble (TerminalDisplay T) Unit := fun d =>
  render tty { d with clears := d.clears + 1 }

/-- A display on a terminal, with its first frame; or why there is none, and the terminal
that is left. -/
def new (canvas : Canvas) (t : T) : Except (Trouble × T) (TerminalDisplay T) :=
  match tty.begin t with
  | .error e t => .error (.failed e, t)
  | .ok _ t =>
    match tty.clear t with
    | .error e t => .error (.failed e, tty.finish t)
    | .ok _ t =>
      match render tty { terminal := t, canvas } with
      | .error trouble d => .error (trouble, tty.finish d.terminal)
      | .ok _ d => .ok d

/-! ### As a machine has it -/

/-- The display after a number of clears. -/
def after (d : TerminalDisplay T) : Nat → TerminalDisplay T
  | 0 => d
  | n + 1 =>
    match clear tty (d.after n) with
    | .ok _ d => d
    | .error _ d => d

/-- The trouble with one of the clears, which are counted from one. -/
def trouble? (d : TerminalDisplay T) : Nat → Option Trouble
  | 0 => none
  | n + 1 =>
    match clear tty (d.after tty n) with
    | .ok .. => none
    | .error trouble _ => some trouble

/-- The machine's display. When drawing breaks down the machine goes down with it, so what
it would be told then is of no account. -/
def display (d : TerminalDisplay T) : Display := fun n =>
  { failure := (d.trouble? tty n).map Trouble.cause }

end TerminalDisplay

end Chip8
