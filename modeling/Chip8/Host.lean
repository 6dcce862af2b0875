import Chip8.Log

/-! The host: all that a machine is given from outside and all that it shows.

A machine asks its display for one thing, to clear itself. A display is the list of
its answers, one for each request, and an answer may ask for the machine's run to be
cancelled, as a user who watches the display may. -/
namespace Chip8

/-- The display's answer to one request to clear itself. -/
structure Reply where
  failure : Option DeviceError := none
  /-- The run is to be cancelled. -/
  cancels : Bool := false
  deriving DecidableEq, Repr

/-- A display's answers to the requests, which are counted from one. -/
abbrev Display := Nat → Reply

/-- The display that always clears itself and never cancels. -/
def Display.steady : Display := fun _ => {}

structure Host where
  display : Display := Display.steady
  /-- How often the display was asked to clear itself. -/
  calls : Nat := 0
  /-- How often it did. -/
  clears : Nat := 0
  /-- The run is to end before its next step. -/
  cancelled : Bool := false
  log : Log := {}

namespace Host

def record (h : Host) (event : Event) : Host := { h with log := h.log.record event }

def recordAll (h : Host) (events : List Event) : Host := { h with log := h.log.recordAll events }

/-- Ask the display to clear itself. -/
def clear (h : Host) : Except DeviceError Unit × Host :=
  let reply := h.display (h.calls + 1)
  let asked := { h with calls := h.calls + 1, cancelled := h.cancelled || reply.cancels }
  match reply.failure with
  | some e => (.error e, asked)
  | none => (.ok (), { asked with clears := h.clears + 1 })

end Host

end Chip8
