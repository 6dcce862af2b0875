import Chip8.Instruction

/-! Instructions as a listing shows them: a mnemonic, then operands in upper case
hexadecimal. Addresses have three digits, bytes two and registers one; a field too
wide for its place is written in full. -/
namespace Chip8

namespace Disassembly

def address (a : UInt16) : String := "0x" ++ Hex.text .upper 3 a.toNat

def byte (b : UInt8) : String := "0x" ++ Hex.text .upper 2 b.toNat

def register (x : UInt8) : String := "V" ++ Hex.text .upper 1 x.toNat

end Disassembly

open Disassembly

def Comparison.mnemonic : Comparison → String
  | .equal => "SE"
  | .unequal => "SNE"

def Operand.text : Operand → String
  | .byte nn => Disassembly.byte nn
  | .register y => Disassembly.register y

def Instruction.text : Instruction → String
  | .clearScreen => "CLS"
  | .ret => "RET"
  | .system target => "SYS " ++ address target
  | .jump target => "JP " ++ address target
  | .call target => "CALL " ++ address target
  | .skip comparison x operand =>
    comparison.mnemonic ++ " " ++ register x ++ ", " ++ operand.text
  | .load x nn => "LD " ++ register x ++ ", " ++ byte nn
  | .add x nn => "ADD " ++ register x ++ ", " ++ byte nn
  | .loadIndex a => "LD I, " ++ address a
  | .unknown op => "??? " ++ op.text

end Chip8
