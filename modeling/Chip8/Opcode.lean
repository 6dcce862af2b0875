import Chip8.Hex

/-! Opcodes: the two bytes of an instruction and the fields packed into them.

The first byte carries the *family* in its high half and the register `x` in its
low half; the second carries either the register `y` in its high half or a byte
`nn`. The low twelve bits together are an address `nnn`. The lemmas read each
field as arithmetic on the two bytes. -/
namespace Chip8

/-- The two bytes of an instruction, in the order in which memory holds them. -/
structure Opcode where
  first : UInt8
  second : UInt8
  deriving DecidableEq, Repr

namespace Opcode

/-- The bytes as one big-endian word. -/
def word (op : Opcode) : UInt16 := op.first.toUInt16 <<< 8 ||| op.second.toUInt16

/-- The opcode with a given word. -/
def ofWord (w : UInt16) : Opcode := ⟨(w >>> 8).toUInt8, w.toUInt8⟩

/-- The high half of the first byte, which selects the kind of instruction. -/
def family (op : Opcode) : UInt8 := op.first >>> 4

def x (op : Opcode) : UInt8 := op.first &&& 0x0F

def y (op : Opcode) : UInt8 := op.second >>> 4

def nn (op : Opcode) : UInt8 := op.second

def nnn (op : Opcode) : UInt16 := op.x.toUInt16 <<< 8 ||| op.second.toUInt16

/-- The word as a listing shows it. -/
def text (op : Opcode) : String := "0x" ++ Hex.text .upper 4 op.word.toNat

/-! ### The fields in numbers -/

private theorem toNat_join (high low : UInt8) :
    (high.toUInt16 <<< 8 ||| low.toUInt16).toNat = high.toNat * 256 + low.toNat := by
  have hh := high.toNat_lt
  have hl := low.toNat_lt
  rw [UInt16.toNat_or, UInt16.toNat_shiftLeft, UInt8.toNat_toUInt16, UInt8.toNat_toUInt16]
  simp only [UInt16.reduceToNat, Nat.reduceMod]
  rw [Nat.shiftLeft_eq, Nat.mod_eq_of_lt (by omega), ← Nat.shiftLeft_eq,
    ← Nat.shiftLeft_add_eq_or_of_lt (by omega), Nat.shiftLeft_eq]

theorem toNat_word (op : Opcode) : op.word.toNat = op.first.toNat * 256 + op.second.toNat :=
  toNat_join _ _

theorem toNat_family (op : Opcode) : op.family.toNat = op.first.toNat / 16 := by
  simp [family, UInt8.toNat_shiftRight, Nat.shiftRight_eq_div_pow]

theorem toNat_x (op : Opcode) : op.x.toNat = op.first.toNat % 16 := by
  simpa [x, UInt8.toNat_and] using Nat.and_two_pow_sub_one_eq_mod op.first.toNat 4

theorem toNat_y (op : Opcode) : op.y.toNat = op.second.toNat / 16 := by
  simp [y, UInt8.toNat_shiftRight, Nat.shiftRight_eq_div_pow]

theorem toNat_nnn (op : Opcode) : op.nnn.toNat = op.first.toNat % 16 * 256 + op.second.toNat := by
  rw [nnn, toNat_join, toNat_x]

end Opcode

end Chip8
