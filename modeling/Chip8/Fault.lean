import Chip8.DeviceError
import Chip8.Hex

/-! Faults: why an operation on a machine or one of its parts was refused.

A fault names its cause. `message` is the sentence for people, `detail` the cause
with its number, and `isFatal` tells a program that has crashed from a request
that was merely wrong. -/
namespace Chip8

inductive Fault where
  /-- A byte was to be read at `address`, which is past the last one. -/
  | endOfMemory (address : UInt16)
  /-- A range of bytes ends, or a cursor would stand, outside memory. -/
  | badAddress (address : Nat)
  /-- A call on top of `depth` others, which is as many as there can be. -/
  | stackOverflow (depth : Nat)
  | badRegister (index : UInt8)
  /-- No program has been loaded yet. -/
  | noProgram
  | closed
  /-- The display failed. -/
  | display (cause : DeviceError)
  /-- The program could not be read. -/
  | input (cause : DeviceError)
  deriving DecidableEq, Repr

namespace Fault

def name : Fault → String
  | endOfMemory _ => "OutOfBounds"
  | badAddress _ => "InvalidAddress"
  | stackOverflow _ => "StackOverflow"
  | badRegister _ => "InvalidRegister"
  | noProgram => "Uninitialized"
  | closed => "Closed"
  | display _ => "Display"
  | input _ => "Io"

/-- The address, depth or index that the fault is about. -/
def number? : Fault → Option Nat
  | endOfMemory address => some address.toNat
  | badAddress address => some address
  | stackOverflow depth => some depth
  | badRegister index => some index.toNat
  | _ => none

/-- The device's error behind the fault. -/
def cause? : Fault → Option DeviceError
  | display cause => some cause
  | input cause => some cause
  | _ => none

def message : Fault → String
  | endOfMemory address =>
    "read at 0x" ++ Hex.text .lower 4 address.toNat ++ " is past the end of memory"
  | badAddress address => "address 0x" ++ Hex.text .lower 4 address ++ " is outside memory"
  | stackOverflow depth => "call stack overflow (" ++ toString depth ++ " frames)"
  | badRegister index => "register index " ++ toString index.toNat ++ " is out of range"
  | noProgram => "machine has no program loaded"
  | closed => "machine is closed"
  | display cause => "display error: " ++ cause.text
  | input cause => "io error: " ++ cause.text

/-- The program has crashed. -/
def isFatal : Fault → Bool
  | endOfMemory _ | badAddress _ | stackOverflow _ | display _ => true
  | _ => false

def detail (f : Fault) : String :=
  match f.number?, f.cause? with
  | some n, _ => f.name ++ "(" ++ toString n ++ ")"
  | none, some cause => f.name ++ "(" ++ cause.detail ++ ")"
  | none, none => f.name

end Fault

end Chip8
