import Chip8.Fault
import Chip8.Instruction

/-! The registers `V0` to `VF`, of a byte each, and the twelve bit address register `I`. -/
namespace Chip8

/-- The registers; all are zero when the processor starts. -/
structure Registers where
  v : Vector UInt8 16 := Vector.replicate 16 0
  i : UInt16 := 0
  deriving DecidableEq

namespace Registers

def get (r : Registers) (index : UInt8) : Except Fault UInt8 :=
  if h : index.toNat < 16 then .ok r.v[index.toNat] else .error (.badRegister index)

def set (r : Registers) (index value : UInt8) : Except Fault Registers :=
  if h : index.toNat < 16 then .ok { r with v := r.v.set index.toNat value }
  else .error (.badRegister index)

/-- The value of the right side of a comparison. -/
def operand (r : Registers) : Operand → Except Fault UInt8
  | .byte nn => .ok nn
  | .register y => r.get y

/-- Add to a register; a sum past 255 wraps. -/
def add (r : Registers) (index delta : UInt8) : Except Fault Registers := do
  let value ← r.get index
  r.set index (value + delta)

/-- `I` keeps the low twelve bits of an address. -/
def setI (r : Registers) (addr : UInt16) : Registers := { r with i := addr &&& 0x0FFF }

end Registers

end Chip8
