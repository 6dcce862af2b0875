import Chip8.Machine

/-! Runs: steps one after another until the machine is cancelled, has made as many
steps as its settings allow, or fails.

A run is taken turn by turn, so one that never ends is an ordinary value too. Before
each step a request to cancel is looked at first and the limit second; the limit
counts the steps of this run. -/
namespace Chip8

/-- How a run ends that does not fail. -/
inductive Ending where
  | cancelled
  | limitReached
  deriving DecidableEq, Repr

inductive Run where
  /-- So many steps have been made. -/
  | going (steps : Nat) (machine : Machine)
  | ended (result : Except Fault Ending) (machine : Machine)

namespace Run

def machine : Run → Machine
  | going _ m => m
  | ended _ m => m

/-- The result of a run that is over. -/
def result? : Run → Option (Except Fault Ending)
  | going .. => none
  | ended result _ => some result

/-- Begin a run. A machine that is not ready refuses. -/
def start (m : Machine) : Run :=
  match m.phase with
  | .unloaded _ => ended (.error .noProgram) m
  | .closed => ended (.error .closed) m
  | .ready memory => going 0 (m.record (.running memory.cursor))

/-- One step of a run that has made so many. -/
def advance (steps : Nat) (m : Machine) : Run :=
  match m.step with
  | .ok _ m => going (steps + 1) m
  | .error e m => ended (.error e) m

/-- One more step, or the end. -/
def turn : Run → Run
  | ended result m => ended result m
  | going steps m =>
    if m.host.cancelled then ended (.ok .cancelled) (m.record (.cancelled steps))
    else
      match m.settings.limit with
      | none => advance steps m
      | some limit =>
        if limit ≤ steps then ended (.ok .limitReached) (m.record (.limitReached limit))
        else advance steps m

/-! ### Turns -/

section Turn
variable {m : Machine} {steps limit : Nat}

theorem turn_of_cancelled (h : m.host.cancelled = true) :
    turn (going steps m) = ended (.ok .cancelled) (m.record (.cancelled steps)) := by
  simp only [turn, h, if_true]

theorem turn_of_limit (h : m.host.cancelled = false) (hlimit : m.settings.limit = some limit)
    (hle : limit ≤ steps) :
    turn (going steps m) = ended (.ok .limitReached) (m.record (.limitReached limit)) := by
  simp only [turn, h, hlimit, hle, if_true, Bool.false_eq_true, if_false]

theorem turn_of_free (h : m.host.cancelled = false)
    (hlimit : ∀ limit, m.settings.limit = some limit → steps < limit) :
    turn (going steps m) = advance steps m := by
  simp only [turn, h, Bool.false_eq_true, if_false]
  cases hsome : m.settings.limit with
  | none => rfl
  | some limit => exact if_neg (Nat.not_le_of_lt (hlimit limit hsome))

/-- What becomes of a run that is on, and why. -/
theorem turn_cases (steps : Nat) (m : Machine) :
    (m.host.cancelled = true ∧
      turn (going steps m) = ended (.ok .cancelled) (m.record (.cancelled steps))) ∨
    (∃ limit, m.host.cancelled = false ∧ m.settings.limit = some limit ∧ limit ≤ steps ∧
      turn (going steps m) = ended (.ok .limitReached) (m.record (.limitReached limit))) ∨
    (m.host.cancelled = false ∧ (∀ limit, m.settings.limit = some limit → steps < limit) ∧
      turn (going steps m) = advance steps m) := by
  cases hc : m.host.cancelled with
  | true => exact .inl ⟨rfl, turn_of_cancelled hc⟩
  | false =>
    right
    by_cases hreached : ∃ limit, m.settings.limit = some limit ∧ limit ≤ steps
    · obtain ⟨limit, hlimit, hle⟩ := hreached
      exact .inl ⟨limit, rfl, hlimit, hle, turn_of_limit hc hlimit hle⟩
    · have hfree : ∀ limit, m.settings.limit = some limit → steps < limit :=
        fun limit hlimit => Nat.lt_of_not_le fun hle => hreached ⟨limit, hlimit, hle⟩
      exact .inr ⟨rfl, hfree, turn_of_free hc hfree⟩

end Turn

/-! ### Several turns -/

/-- The run after a number of turns; a run that has ended stays as it is. -/
def after : Nat → Run → Run
  | 0, r => r
  | _ + 1, ended result m => ended result m
  | turns + 1, going steps m => after turns (turn (going steps m))

theorem after_ended (turns : Nat) (result : Except Fault Ending) (m : Machine) :
    after turns (ended result m) = ended result m := by
  cases turns <;> rfl

theorem after_add (a b : Nat) (r : Run) : after (a + b) r = after b (after a r) := by
  induction a generalizing r with
  | zero => simp [after]
  | succ a ih =>
    rw [Nat.add_right_comm]
    cases r with
    | going steps m => exact ih _
    | ended result m => simp [after, after_ended]

end Run

end Chip8
