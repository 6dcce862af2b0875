import Chip8.ByteStream
import Chip8.Memory

/-! Loading programs.

A program is laid into memory from `origin` on, everything behind it is cleared, and
the cursor goes to its first byte; what does not fit is left out and counted. The
bytes below `origin` stay. A program that comes from a stream is loaded when all of
it has been read, so that a stream that fails changes nothing. -/
namespace Chip8

/-- How many bytes of a program were loaded, and how many did not fit. -/
structure LoadSummary where
  loaded : Nat
  discarded : Nat
  deriving DecidableEq, Repr

def LoadSummary.truncated (s : LoadSummary) : Bool := s.discarded > 0

namespace Memory

def load (m : Memory) (program : List UInt8) : LoadSummary × Memory :=
  let image := program.toArray
  let loaded := min program.length capacity
  (⟨loaded, program.length - loaded⟩,
    { bytes := fun a =>
        if a.val < origin.toNat then m.bytes a else image[a.val - origin.toNat]?.getD 0
      cursor := origin })

/-- Load what a stream delivers; also what is left of the stream. -/
def loadFrom (m : Memory) (s : ByteStream) : Except Fault (LoadSummary × Memory) × ByteStream :=
  match s.readAll with
  | (.ok program, left) => (.ok (m.load program), left)
  | (.error e, left) => (.error (.input e), left)

end Memory

end Chip8
