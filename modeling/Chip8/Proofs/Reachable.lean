import Chip8.Machine.Run
import Chip8.Proofs.Step

/-! What a host can do with a machine, and where that leads.

A host loads programs, steps, runs, changes the settings, cancels and closes, in any
order (`Operation`), and gets an `Answer` each time. While a run is on, somebody else may
ask for its end before any of its turns (`Run.under`), so a run is looked at turn by turn,
over or not. A machine is `Reachable` if it comes from a new one by such operations. -/
namespace Chip8

/-- The state that an action leaves, be it by failing. -/
def stateOf {ε σ α : Type} : EStateM.Result ε σ α → σ
  | .ok _ s => s
  | .error _ s => s

/-- What an action answers, be it a fault. -/
def resultOf {ε σ α : Type} : EStateM.Result ε σ α → Except ε α
  | .ok a _ => .ok a
  | .error e _ => .error e

namespace Run

/-- The run after as many turns as there are entries; an entry says whether the run is
asked to end just before that turn. -/
def under : List Bool → Run → Run
  | [], r => r
  | _ :: _, ended result m => ended result m
  | asked :: rest, going steps m => under rest (turn (going steps (if asked then m.cancel else m)))

/-- A run that nobody asks to end goes its own way. -/
theorem under_replicate (turns : Nat) (r : Run) :
    r.under (List.replicate turns false) = r.after turns := by
  induction turns generalizing r with
  | zero => cases r <;> rfl
  | succ turns ih =>
    cases r with
    | ended result m => rfl
    | going steps m => exact ih _

theorem under_append (a b : List Bool) (r : Run) : r.under (a ++ b) = (r.under a).under b := by
  induction a generalizing r with
  | nil => rfl
  | cons asked rest ih =>
    cases r with
    | going steps m => exact ih _
    | ended result m => cases b <;> rfl

/-- What neither a turn nor a request to end the run can take away stays, however many turns
are made. -/
theorem under_kept {Q : Run → Prop} (hturn : ∀ r, Q r → Q r.turn)
    (hcancel : ∀ steps m, Q (going steps m) → Q (going steps m.cancel)) {r : Run} (hr : Q r)
    (requests : List Bool) : Q (r.under requests) := by
  induction requests generalizing r with
  | nil => exact hr
  | cons asked rest ih =>
    cases r with
    | ended result m => exact hr
    | going steps m =>
      refine ih (hturn _ ?_)
      cases asked with
      | false => exact hr
      | true => exact hcancel steps m hr

variable {m last : Machine} {memory : Memory} {steps : Nat} {requests : List Bool} {e : Fault}

theorem start_ready (h : m.phase = .ready memory) :
    start m = going 0 (m.record (.running memory.cursor)) := by
  rw [start, h]

/-- A run that fails does so with a step, of a machine that has what steps and requests to end the
run keep. -/
theorem exists_step_of_error {P : Machine → Prop} (hstep : ∀ m, P m → P (stateOf m.step))
    (hcancel : ∀ m, P m → P m.cancel) (hm : P m)
    (h : (going steps m).under requests = .ended (.error e) last) :
    ∃ n, P n ∧ n.step = .error e last := by
  induction requests generalizing steps m with
  | nil => cases h
  | cons asked rest ih =>
    have hasked : P (if asked then m.cancel else m) := by
      cases asked with
      | false => exact hm
      | true => exact hcancel m hm
    rw [under] at h
    generalize (if asked then m.cancel else m) = n at h hasked
    obtain ⟨_, hturn⟩ | ⟨_, _, _, _, hturn⟩ | ⟨_, _, hturn⟩ := turn_cases steps n
    · rw [hturn] at h
      cases rest <;> cases h
    · rw [hturn] at h
      cases rest <;> cases h
    · have hnext := hstep n hasked
      rw [hturn, advance] at h
      cases hs : n.step with
      | ok i n' =>
        rw [hs] at h hnext
        exact ih hnext h
      | error e' n' =>
        rw [hs] at h
        cases rest <;> cases h <;> exact ⟨n, hasked, hs⟩

end Run

/-- What a host can do with a machine. -/
inductive Operation where
  | load (program : List UInt8)
  | loadFrom (stream : ByteStream)
  | step
  /-- So many turns of a run, fewer if it ends before. -/
  | run (requests : List Bool)
  | configure (settings : Settings)
  | cancel
  | uncancel
  | close

namespace Machine

/-- The machine after an operation, whatever its result. -/
def perform (m : Machine) : Operation → Machine
  | .load program => stateOf (m.load program)
  | .loadFrom stream => (stateOf (loadFrom (m, stream))).1
  | .step => stateOf m.step
  | .run requests => ((Run.start m).under requests).machine
  | .configure settings => m.withSettings settings
  | .cancel => m.cancel
  | .uncancel => m.uncancel
  | .close => m.close

/-- What an operation answers to the host. -/
inductive Answer where
  | loaded (result : Except Fault LoadSummary)
  | stepped (result : Except Fault Instruction)
  /-- Nothing yet as long as the run goes on. -/
  | ran (result? : Option (Except Fault Ending))
  | done

def answer (m : Machine) : Operation → Answer
  | .load program => .loaded (resultOf (m.load program))
  | .loadFrom stream => .loaded (resultOf (loadFrom (m, stream)))
  | .step => .stepped (resultOf m.step)
  | .run requests => .ran ((Run.start m).under requests).result?
  | .configure _ | .cancel | .uncancel | .close => .done

/-- The answers to operations that follow one another. -/
def answers (m : Machine) : List Operation → List Answer
  | [] => []
  | op :: rest => m.answer op :: (m.perform op).answers rest

/-- The machines that a host can have before it. -/
inductive Reachable : Machine → Prop
  | unloaded (host : Host) : Reachable (unloaded host)
  | ofProgram (program : List UInt8) (host : Host) : Reachable (ofProgram program host)
  | perform {m : Machine} (op : Operation) : Reachable m → Reachable (m.perform op)

/-- A machine with a program steps as its board does. -/
theorem step_board {m : Machine} {memory : Memory} (h : m.phase = .ready memory) :
    resultOf m.step = resultOf (m.board memory).step ∧
      ∃ steps, stateOf m.step = { m.withBoard (stateOf (m.board memory).step) with steps } := by
  cases hb : (m.board memory).step with
  | ok i b =>
    rw [step_ready_ok h hb]
    exact ⟨rfl, m.steps + 1, rfl⟩
  | error e b =>
    rw [step_ready_error h hb]
    exact ⟨rfl, m.steps, rfl⟩

/-- A machine without a program refuses to step; with one it lends its board the host, and
answers what the board does. -/
theorem step_lends (m : Machine) :
    (m.step = .error .noProgram m ∨ m.step = .error .closed m) ∨
      ∃ memory, resultOf m.step = resultOf (m.board memory).step ∧
        (stateOf m.step).host = (stateOf (m.board memory).step).host := by
  cases hphase : m.phase with
  | unloaded memory => exact .inl (.inl (step_unloaded hphase))
  | closed => exact .inl (.inr (step_closed hphase))
  | ready memory =>
    obtain ⟨hresult, steps, hstate⟩ := step_board hphase
    refine .inr ⟨memory, hresult, ?_⟩
    rw [hstate]
    rfl

section Load
variable {m : Machine} {memory : Memory} {program : List UInt8} {stream left : ByteStream}

/-- A machine has its memory until it is closed. -/
theorem memory?_of_open (h : m.phase ≠ .closed) : ∃ memory, m.phase.memory? = some memory := by
  cases hphase : m.phase with
  | unloaded memory => exact ⟨memory, rfl⟩
  | ready memory => exact ⟨memory, rfl⟩
  | closed => exact absurd hphase h

theorem load_ok (h : m.phase.memory? = some memory) (program : List UInt8) :
    m.load program = .ok (memory.load program).1 (m.start (memory.load program)) := by
  simp only [load, Machine.memory, h]

/-- A stream that is loaded is loaded like the program that it delivers. -/
theorem loadFrom_ok (h : m.phase.memory? = some memory)
    (hread : stream.readAll = (.ok program, left)) :
    loadFrom (m, stream) =
      .ok (memory.load program).1 (m.start (memory.load program), left) := by
  simp only [loadFrom, Machine.memory, h, Memory.loadFrom, hread]

theorem loadFrom_error {e : DeviceError} (h : m.phase.memory? = some memory)
    (hread : stream.readAll = (.error e, left)) :
    loadFrom (m, stream) = .error (.input e) (m, left) := by
  simp only [loadFrom, Machine.memory, h, Memory.loadFrom, hread]

end Load

end Machine

end Chip8
