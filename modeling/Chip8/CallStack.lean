import Chip8.Fault

/-! The call stack: the addresses to which calls return, the latest on top. -/
namespace Chip8

structure CallStack where
  /-- From the top down. -/
  frames : List UInt16 := []
  deriving DecidableEq, Repr

namespace CallStack

/-- How many calls can be open at once. -/
def limit : Nat := 15

def depth (s : CallStack) : Nat := s.frames.length

def top? (s : CallStack) : Option UInt16 := s.frames.head?

def push (s : CallStack) (addr : UInt16) : Except Fault CallStack :=
  if s.depth < limit then .ok ⟨addr :: s.frames⟩ else .error (.stackOverflow s.depth)

/-- The stack without its top; an empty one stays empty. -/
def pop (s : CallStack) : CallStack := ⟨s.frames.tail⟩

end CallStack

end Chip8
