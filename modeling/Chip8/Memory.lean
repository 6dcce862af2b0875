import Chip8.Fault
import Chip8.Opcode

/-! Memory: 4096 bytes and a cursor from which instructions are read.

The bytes are reached in two ways. Ranges name an address and a length, and may end
exactly at the end of memory; the cursor moves by seeking, advancing and reading,
and only reading can take it past the last byte. Every access outside memory is
refused with the address at fault, and a refused access changes nothing. -/
namespace Chip8

/-- How many bytes a memory has. -/
def Memory.size : Nat := 4096

structure Memory where
  bytes : Fin Memory.size → UInt8
  cursor : UInt16

namespace Memory

/-- Where programs start. -/
def origin : UInt16 := 0x200

/-- How many bytes of program fit from `origin` on. -/
def capacity : Nat := size - origin.toNat

/-- Zeros, and the cursor where programs start. -/
def blank : Memory := ⟨fun _ => 0, origin⟩

/-! ### Ranges -/

/-- The largest end that a range can be reported with. -/
def lastEnd : Nat := 0xFFFFFFFFFFFFFFFF

/-- The fault of a range that ends outside memory. -/
def outside (addr : UInt16) (len : Nat) : Fault := .badAddress (min (addr.toNat + len) lastEnd)

def slice (m : Memory) (addr : UInt16) (len : Nat) : Except Fault (List UInt8) :=
  if h : addr.toNat + len ≤ size then
    .ok (List.ofFn fun k : Fin len => m.bytes ⟨addr.toNat + k, by omega⟩)
  else .error (outside addr len)

/-- The big-endian word at an address. -/
def word (m : Memory) (addr : UInt16) : Except Fault UInt16 :=
  if h : addr.toNat + 2 ≤ size then
    .ok (Opcode.word ⟨m.bytes ⟨addr.toNat, by omega⟩, m.bytes ⟨addr.toNat + 1, by omega⟩⟩)
  else .error (outside addr 2)

def write (m : Memory) (addr : UInt16) (data : List UInt8) : Except Fault Memory :=
  if addr.toNat + data.length ≤ size then
    let image := data.toArray
    .ok { m with
      bytes := fun a =>
        if addr.toNat ≤ a.val then image[a.val - addr.toNat]?.getD (m.bytes a) else m.bytes a }
  else .error (outside addr data.length)

def fill (m : Memory) (addr : UInt16) (len : Nat) (byte : UInt8) : Except Fault Memory :=
  if addr.toNat + len ≤ size then
    .ok { m with
      bytes := fun a => if addr.toNat ≤ a.val ∧ a.val < addr.toNat + len then byte else m.bytes a }
  else .error (outside addr len)

/-! ### The cursor -/

/-- The byte at the cursor, which moves on by one. -/
def readByte (m : Memory) : Except Fault (UInt8 × Memory) :=
  if h : m.cursor.toNat < size then
    .ok (m.bytes ⟨m.cursor.toNat, h⟩, { m with cursor := m.cursor + 1 })
  else .error (.endOfMemory m.cursor)

def seek (m : Memory) (addr : UInt16) : Except Fault Memory :=
  if addr.toNat < size then .ok { m with cursor := addr } else .error (.badAddress addr.toNat)

def advance (m : Memory) (count : UInt16) : Except Fault Memory :=
  let target := m.cursor.toNat + count.toNat
  if target < size then .ok { m with cursor := target.toUInt16 } else .error (.badAddress target)

end Memory

end Chip8
