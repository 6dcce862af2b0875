import Chip8.Log.Event

/-! The log: the events that its threshold admits, in the order in which they happened.

An event that is not admitted leaves no trace at all, so a lower threshold gives a part
of the same log and nothing else. -/
namespace Chip8

structure Log where
  /-- Events up to this level are kept; without a level none is. -/
  threshold : Option Level := none
  events : Array Event := #[]
  deriving DecidableEq, Repr

namespace Log

def admits (log : Log) (level : Level) : Bool :=
  match log.threshold with
  | none => false
  | some most => level.rank ≤ most.rank

def record (log : Log) (event : Event) : Log :=
  if log.admits event.level then { log with events := log.events.push event } else log

def recordAll (log : Log) (events : List Event) : Log := events.foldl record log

theorem threshold_record (log : Log) (event : Event) :
    (log.record event).threshold = log.threshold := by
  unfold record
  split <;> rfl

end Log

end Chip8
