import Chip8.CallStack
import Chip8.Registers

/-! The processor's own state: registers, call stack and a count of the opcodes that
it did not know. -/
namespace Chip8

structure Processor where
  registers : Registers := {}
  stack : CallStack := {}
  /-- How many unknown opcodes were passed over. -/
  unknown : Nat := 0
  deriving DecidableEq

end Chip8
