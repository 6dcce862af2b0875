import Chip8.Instruction.Disassembly
import Chip8.Log.Level
import Chip8.Memory.Loading

/-! Events: what a machine and the program around it report.

Each kind of event has a level, the component that reports it and a message, so a
line of the log is read off the event alone. -/
namespace Chip8

/-- The part of the program that reports an event. -/
inductive Component where
  | memory
  | processor
  | machine
  | commandLine
  deriving DecidableEq, Repr

def Component.name : Component → String
  | .memory => "chip8vm::memory"
  | .processor => "chip8vm::interpreter"
  | .machine => "chip8vm::machine"
  | .commandLine => "chip8vm"

inductive Event where
  /-- A program did not fit into memory. -/
  | truncated (summary : LoadSummary)
  /-- A program was laid into memory. -/
  | loaded (count : Nat)
  /-- An instruction was fetched and is about to be executed. -/
  | executing (pc : UInt16) (instruction : Instruction)
  | systemCall (target : UInt16)
  | unknownOpcode (op : Opcode) (pc : UInt16)
  /-- A run begins. -/
  | running (pc : UInt16)
  /-- A run of so many steps was cancelled. -/
  | cancelled (steps : Nat)
  | limitReached (limit : Nat)
  | machineClosed (steps : Nat)
  /-- The program file was loaded. -/
  | fileLoaded (count : Nat)
  /-- The reading of keys broke down during the session. -/
  | keysLost
  /-- The session ends because it was cancelled. -/
  | stopped
  /-- The session ends at its limit. -/
  | finished
  deriving DecidableEq, Repr

namespace Event

def level : Event → Level
  | truncated _ | unknownOpcode .. | keysLost => .warn
  | systemCall _ | running _ | fileLoaded _ | stopped | finished => .info
  | cancelled _ | limitReached _ | machineClosed _ => .debug
  | loaded _ | executing .. => .trace

def component : Event → Component
  | truncated _ | loaded _ => .memory
  | executing .. | systemCall _ | unknownOpcode .. => .processor
  | running _ | cancelled _ | limitReached _ | machineClosed _ => .machine
  | fileLoaded _ | keysLost | stopped | finished => .commandLine

/-- An address in three digits or more. -/
def addressText (a : UInt16) : String := "0x" ++ Hex.text .lower 3 a.toNat

def message : Event → String
  | truncated s =>
    "program is " ++ toString (s.loaded + s.discarded) ++ " bytes but only "
      ++ toString Memory.capacity ++ " fit above " ++ addressText Memory.origin
      ++ "; truncated " ++ toString s.discarded ++ " bytes"
  | loaded count => "loaded " ++ toString count ++ " program bytes"
  | executing pc instruction => addressText pc ++ ": " ++ instruction.text
  | systemCall target => "SYS " ++ addressText target
  | unknownOpcode op pc => "unrecognised opcode " ++ op.text ++ " at " ++ addressText pc
  | running pc => "running from " ++ addressText pc
  | cancelled steps => "cancelled after " ++ toString steps ++ " steps"
  | limitReached limit => "step limit of " ++ toString limit ++ " reached"
  | machineClosed steps => "machine closed after " ++ toString steps ++ " steps"
  | fileLoaded count => "loaded " ++ toString count ++ " bytes"
  | keysLost => "quit watcher thread panicked"
  | stopped => "stopped"
  | finished => "step limit reached"

/-- The event as a line of output: level in five columns, component and message. -/
def line (e : Event) : String :=
  String.ofList (e.level.name.toList.rightpad 5 ' ') ++ " [" ++ e.component.name ++ "] " ++ e.message

end Event

/-- What loading a program reports. -/
def LoadSummary.events (s : LoadSummary) : List Event :=
  (if s.truncated then [.truncated s] else []) ++ [.loaded s.loaded]

end Chip8
