import Chip8.Board
import Chip8.Machine.Settings

/-! Machines: a board through its life.

A machine begins without a program, becomes ready with the first program that loads,
and stays ready, crashed or not, until it is closed for good. Loading starts it
afresh: only the settings and the host outlive a program. What a machine has done can
still be looked at when it is closed, but its memory is gone. -/
namespace Chip8

/-- Where a machine is in its life, with its memory as long as it has one. -/
inductive Phase where
  | unloaded (memory : Memory)
  | ready (memory : Memory)
  | closed

def Phase.memory? : Phase → Option Memory
  | .unloaded memory => some memory
  | .ready memory => some memory
  | .closed => none

structure Machine where
  phase : Phase
  processor : Processor := {}
  host : Host := {}
  settings : Settings := {}
  /-- How many steps have succeeded since the program was loaded. -/
  steps : Nat := 0

namespace Machine

/-- A machine without a program. -/
def unloaded (host : Host) : Machine := { phase := .unloaded Memory.blank, host }

def memory (m : Machine) : Except Fault Memory :=
  match m.phase.memory? with
  | some memory => .ok memory
  | none => .error .closed

def cursor (m : Machine) : Except Fault UInt16 := do
  return (← m.memory).cursor

def withSettings (m : Machine) (settings : Settings) : Machine := { m with settings }

def record (m : Machine) (event : Event) : Machine := { m with host := m.host.record event }

/-! ### Loading -/

/-- Start afresh with a program that has been laid into memory. -/
def start (m : Machine) (loading : LoadSummary × Memory) : Machine :=
  { m with
    phase := .ready loading.2
    processor := {}
    steps := 0
    host := m.host.recordAll loading.1.events }

/-- A machine that is ready to run a program. -/
def ofProgram (program : List UInt8) (host : Host) : Machine :=
  (unloaded host).start (Memory.blank.load program)

def load (program : List UInt8) : EStateM Fault Machine LoadSummary := fun m =>
  match m.memory with
  | .ok memory => .ok (memory.load program).1 (m.start (memory.load program))
  | .error e => .error e m

/-- Load what a stream delivers. A closed machine does not touch the stream, and a
stream that fails leaves the machine as it was. -/
def loadFrom : EStateM Fault (Machine × ByteStream) LoadSummary := fun (m, stream) =>
  match m.memory with
  | .error e => .error e (m, stream)
  | .ok memory =>
    match memory.loadFrom stream with
    | (.ok loading, left) => .ok loading.1 (m.start loading, left)
    | (.error e, left) => .error e (m, left)

/-! ### Stepping -/

/-- The machine with the parts of a board that it had lent out. -/
def withBoard (m : Machine) (b : Board) : Machine :=
  { m with phase := .ready b.memory, processor := b.processor, host := b.host }

/-- One instruction of the program. -/
def step : EStateM Fault Machine Instruction := fun m =>
  match m.phase with
  | .unloaded _ => .error .noProgram m
  | .closed => .error .closed m
  | .ready memory =>
    match Board.step ⟨memory, m.processor, m.host⟩ with
    | .ok instruction b => .ok instruction { m.withBoard b with steps := m.steps + 1 }
    | .error e b => .error e (m.withBoard b)

/-! ### The end -/

/-- Close the machine for good. Only the first close does anything. -/
def close (m : Machine) : Machine :=
  match m.phase with
  | .closed => m
  | _ => { m.record (.machineClosed m.steps) with phase := .closed }

/-- Give a machine up. It is closed, unless it has been already, and its host is left. -/
def drop (m : Machine) : Host := m.close.host

/-- Ask for the run to end before its next step. -/
def cancel (m : Machine) : Machine := { m with host := { m.host with cancelled := true } }

/-- Withdraw any request to end the run. -/
def uncancel (m : Machine) : Machine := { m with host := { m.host with cancelled := false } }

end Machine

end Chip8
