import Chip8.Opcode

/-! The instruction set.

Every opcode has a meaning (`decode`): what no family covers is `unknown` and
keeps its opcode. The fields of an `Instruction` are wider than `decode` fills
them, so that instructions can be written down and shown without an opcode. -/
namespace Chip8

/-- What a conditional skip asks of its two operands. -/
inductive Comparison where
  | equal
  | unequal
  deriving DecidableEq, Repr

def Comparison.holds : Comparison → UInt8 → UInt8 → Bool
  | .equal, a, b => a == b
  | .unequal, a, b => a != b

/-- The right side of a comparison: a byte in the opcode, or a register. -/
inductive Operand where
  | byte (nn : UInt8)
  | register (y : UInt8)
  deriving DecidableEq, Repr

inductive Instruction where
  /-- `00E0`: clear the display. -/
  | clearScreen
  /-- `00EE`: go back to the address on top of the call stack. -/
  | ret
  /-- `0nnn`: a routine of the host, which is only reported. -/
  | system (target : UInt16)
  /-- `1nnn` -/
  | jump (target : UInt16)
  /-- `2nnn` -/
  | call (target : UInt16)
  /-- `3xnn`, `4xnn`, `5xy_` and `9xy_`: pass over the next instruction if the
  comparison of `Vx` with the operand holds. -/
  | skip (comparison : Comparison) (x : UInt8) (operand : Operand)
  /-- `6xnn`: `Vx` becomes `nn`. -/
  | load (x nn : UInt8)
  /-- `7xnn`: `nn` is added to `Vx`, without carry. -/
  | add (x nn : UInt8)
  /-- `Annn`: `I` becomes `nnn`. -/
  | loadIndex (address : UInt16)
  /-- Any other opcode: counted, reported and passed over. -/
  | unknown (op : Opcode)
  deriving DecidableEq, Repr

namespace Instruction

/-- The meaning of an opcode. Two words of the host family are instructions of
their own; the last half byte of a comparison of registers is ignored. -/
def decode (op : Opcode) : Instruction :=
  match op.family with
  | 0x0 => if op.nnn = 0x0E0 then clearScreen else if op.nnn = 0x0EE then ret else system op.nnn
  | 0x1 => jump op.nnn
  | 0x2 => call op.nnn
  | 0x3 => skip .equal op.x (.byte op.nn)
  | 0x4 => skip .unequal op.x (.byte op.nn)
  | 0x5 => skip .equal op.x (.register op.y)
  | 0x6 => load op.x op.nn
  | 0x7 => add op.x op.nn
  | 0x9 => skip .unequal op.x (.register op.y)
  | 0xA => loadIndex op.nnn
  | _ => unknown op

end Instruction

end Chip8
