import Chip8.Host
import Chip8.Processor

/-! The board: a processor wired to a memory and a host, and one step of it.

A step fetches two bytes at the cursor, reports the instruction and executes it.
Actions on the board can fail, and what they had done by then stands; `step` undoes
the only part of it that matters, by putting the cursor back to where the step began. -/
namespace Chip8

structure Board where
  memory : Memory
  processor : Processor
  host : Host

/-- An action on a board; the board it leaves counts also when it fails. -/
abbrev Action := EStateM Fault Board

namespace Board

/-! ### Elementary actions -/

def record (event : Event) : Action Unit :=
  modify fun b => { b with host := b.host.record event }

/-- The cursor of the memory. -/
def cursor : Action UInt16 := fun b => .ok b.memory.cursor b

def readByte : Action UInt8 := fun b =>
  match b.memory.readByte with
  | .ok (byte, memory) => .ok byte { b with memory }
  | .error e => .error e b

def seek (addr : UInt16) : Action Unit := fun b =>
  match b.memory.seek addr with
  | .ok memory => .ok () { b with memory }
  | .error e => .error e b

def advance (count : UInt16) : Action Unit := fun b =>
  match b.memory.advance count with
  | .ok memory => .ok () { b with memory }
  | .error e => .error e b

def readRegisters (f : Registers → Except Fault UInt8) : Action UInt8 := fun b =>
  match f b.processor.registers with
  | .ok value => .ok value b
  | .error e => .error e b

def updateRegisters (f : Registers → Except Fault Registers) : Action Unit := fun b =>
  match f b.processor.registers with
  | .ok registers => .ok () { b with processor := { b.processor with registers } }
  | .error e => .error e b

def push (addr : UInt16) : Action Unit := fun b =>
  match b.processor.stack.push addr with
  | .ok stack => .ok () { b with processor := { b.processor with stack } }
  | .error e => .error e b

/-- The address on top of the call stack. -/
def top? : Action (Option UInt16) := fun b => .ok b.processor.stack.top? b

def pop : Action Unit :=
  modify fun b => { b with processor := { b.processor with stack := b.processor.stack.pop } }

def countUnknown : Action Unit :=
  modify fun b => { b with processor := { b.processor with unknown := b.processor.unknown + 1 } }

def clearDisplay : Action Unit := fun b =>
  match b.host.clear with
  | (.ok (), host) => .ok () { b with host }
  | (.error e, host) => .error (.display e) { b with host }

/-! ### A step -/

/-- How many bytes an instruction has. -/
def instructionSize : UInt16 := 2

/-- Execute an instruction that has just been fetched. A return without a call goes to
where programs start. -/
def execute : Instruction → Action Unit
  | .clearScreen => clearDisplay
  | .ret => do
    let target := (← top?).getD Memory.origin
    seek target
    pop
  | .system target => record (.systemCall target)
  | .jump target => seek target
  | .call target => do
    let back ← cursor
    seek target
    push back
  | .skip comparison x right => do
    let a ← readRegisters (·.get x)
    let b ← readRegisters (·.operand right)
    if comparison.holds a b then advance instructionSize
  | .load x nn => updateRegisters (·.set x nn)
  | .add x nn => updateRegisters (·.add x nn)
  | .loadIndex address => updateRegisters fun r => .ok (r.setI address)
  | .unknown op => do
    countUnknown
    let next ← cursor
    record (.unknownOpcode op (next - instructionSize))

/-- Fetch the instruction at the cursor and move on behind it. -/
def fetch : Action Instruction := do
  let first ← readByte
  let second ← readByte
  return Instruction.decode ⟨first, second⟩

def fetchAndExecute : Action Instruction := do
  let pc ← cursor
  let instruction ← fetch
  record (.executing pc instruction)
  execute instruction
  return instruction

/-- One instruction. If it fails, the cursor goes back to it. -/
def step : Action Instruction := fun b =>
  match fetchAndExecute b with
  | .ok instruction after => .ok instruction after
  | .error e after =>
    if after.memory.cursor = b.memory.cursor then .error e after
    else
      match seek b.memory.cursor after with
      | .ok () restored => .error e restored
      | .error e after => .error e after

end Board

end Chip8
