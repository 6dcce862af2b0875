/-! Settings of a machine: how far a run may go, and how fast. -/
namespace Chip8

/-- Without a limit a run goes on until it crashes or is cancelled; without a pause it
goes on as fast as it can. -/
structure Settings where
  /-- The most steps of one run. -/
  limit : Option Nat := none
  /-- Nanoseconds to wait after each step. -/
  pause : Option Nat := none
  deriving DecidableEq, Repr

namespace Settings

def withLimit (s : Settings) (limit : Nat) : Settings := { s with limit := some limit }

/-- So many steps a second; zero lifts the pace. -/
def withClock (s : Settings) (hertz : Nat) : Settings :=
  { s with pause := if hertz = 0 then none else some (1000000000 / hertz) }

end Settings

end Chip8
