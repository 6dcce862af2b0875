import Chip8.Proofs.History
import Chip8.Proofs.Rollback
import Mathlib.Algebra.GroupWithZero.Nat
import Mathlib.Data.List.DropRight

/-! What the trace says.

The trace of a machine is what it has executed since its program was loaded
(`Account.executed`), and registers and counts can be read off it without running anything:
a register holds what was loaded last and what was added since, `I` the last address, and the
counts count. What failed is not in the trace and has left nothing behind, except that the
display may have been asked in vain (`Records`, `records_of_history`). -/
namespace Chip8

/-! ### Reading a trace -/

namespace Instruction

/-- The byte that the register `x` gets, whatever is in it. -/
def loaded? (x : Fin 16) : Instruction → Option Nat
  | load y nn => if y.toNat = x then some nn.toNat else none
  | _ => none

theorem lt_of_loaded {x : Fin 16} {i : Instruction} {n : Nat} (h : i.loaded? x = some n) :
    n < 256 := by
  cases i with
  | load y nn =>
    obtain ⟨_, ⟨⟩⟩ := Option.ite_none_right_eq_some.mp h
    exact nn.toNat_lt
  | _ => cases h

/-- What is added to the register `x`. -/
def added (x : Fin 16) : Instruction → Nat
  | add y nn => if y.toNat = x then nn.toNat else 0
  | _ => 0

/-- The address that `I` gets. -/
def address? : Instruction → Option Nat
  | loadIndex nnn => some nnn.toNat
  | _ => none

def isUnknown : Instruction → Bool
  | unknown _ => true
  | _ => false

end Instruction

namespace Trace

/-- The last of the bytes that a trace loads into the register `x`. -/
def base (x : Fin 16) (T : List Instruction) : Nat := (T.filterMap (·.loaded? x)).getLast?.getD 0

/-- The part of a trace that is behind the last load of the register `x`. -/
def since (x : Fin 16) (T : List Instruction) : List Instruction :=
  T.rtakeWhile fun i => (i.loaded? x).isNone

/-- The register `x` after a trace. -/
def register (x : Fin 16) (T : List Instruction) : Nat :=
  (base x T + ((since x T).map (·.added x)).sum) % 256

/-- `I` after a trace. -/
def index (T : List Instruction) : Nat := (T.filterMap (·.address?)).getLast?.getD 0

variable (x : Fin 16) (T : List Instruction) (i : Instruction)

/-- A load makes all forgotten that was before it, and without one the sum goes on. -/
theorem register_snoc :
    register x (T ++ [i]) = (i.loaded? x).getD ((register x T + i.added x) % 256) := by
  cases h : i.loaded? x with
  | some n =>
    have hbase : base x (T ++ [i]) = n := by simp [base, List.filterMap_append, h]
    have hsince : since x (T ++ [i]) = [] := by simp [since, h]
    rw [register, hbase, hsince]
    exact Nat.mod_eq_of_lt (Instruction.lt_of_loaded h)
  | none =>
    have hbase : base x (T ++ [i]) = base x T := by simp [base, List.filterMap_append, h]
    have hsince : since x (T ++ [i]) = since x T ++ [i] := by simp [since, h]
    rw [register, hbase, hsince, List.map_append, List.sum_append, ← Nat.add_assoc, register,
      Option.getD_none, Nat.mod_add_mod]
    rfl

theorem index_snoc : index (T ++ [i]) = i.address?.getD (index T) := by
  cases h : i.address? <;> simp [index, List.filterMap_append, h]

end Trace

/-! ### One instruction -/

namespace Instruction

variable {i : Instruction} (s : Core)

/-- Registers are named by the half bytes below sixteen. -/
theorem slot_eq_iff {y : UInt8} (h : y.toNat < 16) (x : Fin 16) : x = Core.slot y ↔ y.toNat = x := by
  have hslot : (Core.slot y : Nat) = y.toNat := Nat.mod_eq_of_lt h
  rw [← Fin.val_inj, hslot, eq_comm]

/-- What an instruction makes of a register. -/
theorem act_v (hi : i.InRange) {x : Fin 16} (hv : s.v x < 256) :
    (i.act s).v x = (i.loaded? x).getD ((s.v x + i.added x) % 256) := by
  have hsame : s.v x = (s.v x + 0) % 256 := (Nat.mod_eq_of_lt hv).symm
  cases i with
  | load y nn =>
    simp only [act, Core.ahead, Core.setV, loaded?, added, slot_eq_iff hi]
    split
    · rfl
    · exact hsame
  | add y nn =>
    simp only [act, Core.ahead, Core.setV, loaded?, added, slot_eq_iff hi]
    split
    case isTrue h => rw [(slot_eq_iff hi x).mpr h]; rfl
    case isFalse => exact hsame
  | ret =>
    simp only [act]
    split <;> exact hsame
  | skip c y right =>
    simp only [act]
    split <;> exact hsame
  | _ => exact hsame

theorem act_i : (i.act s).i = i.address?.getD s.i := by
  cases i with
  | ret => simp only [act]; split <;> rfl
  | skip c y right => simp only [act]; split <;> rfl
  | _ => rfl

theorem act_unknown : (i.act s).unknown = s.unknown + i.isUnknown.toNat := by
  cases i with
  | ret => simp only [act]; split <;> rfl
  | skip c y right => simp only [act]; split <;> rfl
  | _ => rfl

end Instruction

/-! ### Requests to the display -/

/-- The display has failed. -/
def Fault.isDisplay : Fault → Bool
  | display _ => true
  | _ => false

/-- A step with this result has asked the display, in vain or not. -/
def asks : Except Fault Instruction → Bool
  | .ok i => i == .clearScreen
  | .error e => e.isDisplay

/-- A step with this result has asked it in vain. -/
def asksInVain : Except Fault Instruction → Bool
  | .ok _ => false
  | .error e => e.isDisplay

/-- Only who wants to clear the screen finds the display in the way. -/
theorem Instruction.isDisplay_obstacle {i : Instruction} {reply : Reply} {s : Core} {e : Fault}
    (h : i.obstacle reply s = some e) : e.isDisplay = (i == .clearScreen) := by
  cases i with
  | clearScreen =>
    obtain ⟨cause, _, rfl⟩ := Option.map_eq_some_iff.mp h
    rfl
  | ret =>
    obtain ⟨back, rest, _, _, rfl⟩ := obstacle_ret_iff.mp h
    rfl
  | call target =>
    obtain ⟨_, rfl⟩ := obstacle_call_iff.mp h
    rfl
  | skip c x right =>
    obtain ⟨_, _, rfl⟩ := obstacle_skip_iff.mp h
    rfl
  | _ => cases h

theorem Host.calls_observe (h : Host) (pc : UInt16) (i : Instruction) :
    (h.observe pc i).calls = h.calls + (i == .clearScreen).toNat := by
  by_cases hi : i = .clearScreen
  · rw [hi]
    exact Host.calls_clear _
  · obtain ⟨log, hlog⟩ := h.observe_of_ne pc hi
    rw [hlog, beq_false_of_ne hi]
    rfl

/-- A step asks the display once or not at all, and its result says which. -/
theorem Board.calls_step (b : Board) :
    (stateOf b.step).host.calls = b.host.calls + (asks (resultOf b.step)).toNat := by
  have houtcome := b.step_outcome
  generalize b.step = r at houtcome
  cases houtcome with
  | unfetched => rfl
  | refused _ he =>
    rw [stateOf, resultOf, asks, Instruction.isDisplay_obstacle he]
    exact Host.calls_observe _ _ _
  | performed _ _ _ _ hhost =>
    rw [stateOf, resultOf, asks, hhost]
    exact Host.calls_observe _ _ _

/-! ### Accounts -/

namespace Account

variable (a : Account)

/-- How often the steps have asked the display: for each clearing of the screen, and in vain. -/
def requests : Nat := a.executed.count .clearScreen + a.results.countP asksInVain

theorem executed_ok (i : Instruction) : (a.add [.ok i]).executed = a.executed ++ [i] := by
  rw [executed, add, List.filterMap_append, executed]
  rfl

theorem executed_error (e : Fault) : (a.add [.error e]).executed = a.executed := by
  rw [executed, add, List.filterMap_append, executed]
  exact List.append_nil _

theorem requests_add (r : Except Fault Instruction) :
    (a.add [r]).requests = a.requests + (asks r).toNat := by
  cases r with
  | ok i =>
    rw [requests, executed_ok, List.count_append, List.count_singleton, add, List.countP_append,
      requests, Nat.add_right_comm]
    cases h : i == .clearScreen <;> simp [asks, asksInVain, h]
  | error e =>
    rw [requests, executed_error, add, List.countP_append, requests, Nat.add_assoc]
    cases h : e.isDisplay <;> simp [asks, asksInVain, h]

end Account

namespace Machine

/-- What a machine has come to is what its account says. -/
structure Records (a : Account) (m : Machine) : Prop where
  steps : m.steps = a.executed.length
  unknown : m.processor.unknown = a.executed.countP Instruction.isUnknown
  /-- What was loaded last into a register and what was added to it since. -/
  register : ∀ x : Fin 16, m.processor.registers.v[x].toNat = Trace.register x a.executed
  index : m.processor.registers.i.toNat = Trace.index a.executed
  /-- Since the program was loaded the display was asked once for each clearing of the screen
  and once for each step that failed with it. -/
  calls : m.host.calls =
    a.calls + (a.executed.count .clearScreen + a.results.countP asksInVain)

variable {m : Machine} {a : Account}

/-- A machine asks its display as its board does. -/
theorem calls_step (m : Machine) :
    (stateOf m.step).host.calls = m.host.calls + (asks (resultOf m.step)).toNat := by
  obtain (hrefused | hrefused) | ⟨memory, hresult, hhost⟩ := m.step_lends
  · rw [hrefused]
    rfl
  · rw [hrefused]
    rfl
  · rw [hresult, hhost]
    exact (m.board memory).calls_step

theorem records_step (h : Records a m) :
    Records (a.add [resultOf m.step]) (stateOf m.step) := by
  have hcalls : (stateOf m.step).host.calls = a.calls + (a.add [resultOf m.step]).requests := by
    rw [calls_step, a.requests_add, ← Nat.add_assoc]
    exact congrArg (· + _) h.calls
  cases hstep : m.step with
  | error e m' =>
    -- Only the requests to the display are not as they were.
    rw [hstep] at hcalls
    obtain ⟨_, hprocessor, _, hsteps, _⟩ := step_failure hstep
    have hexecuted := a.executed_error e
    refine ⟨?_, ?_, ?_, ?_, hcalls⟩
    · rw [stateOf, resultOf, hexecuted, hsteps, h.steps]
    · rw [stateOf, resultOf, hexecuted, hprocessor, h.unknown]
    · rw [stateOf, resultOf, hexecuted, hprocessor]
      exact h.register
    · rw [stateOf, resultOf, hexecuted, hprocessor, h.index]
  | ok i m' =>
    rw [hstep] at hcalls
    obtain ⟨memory, b, hphase, hb, rfl⟩ := step_ok hstep
    have hsuccess := (Board.outcome_of_step hb).success
    have hexecuted := a.executed_ok i
    obtain ⟨op, _, hi⟩ := Memory.next_iff.mp hsuccess.word
    have hrange : i.InRange := hi ▸ Instruction.inRange_decode op
    have hcore (f : Core → Nat) : f b.core = f (i.act (m.board memory).core) :=
      congrArg f hsuccess.effect
    refine ⟨?_, ?_, fun x => ?_, ?_, hcalls⟩
    · rw [stateOf, resultOf, hexecuted, List.length_append, ← h.steps]
      rfl
    · rw [stateOf, resultOf, hexecuted, List.countP_append, ← h.unknown]
      refine (hcore Core.unknown).trans ((Instruction.act_unknown _).trans ?_)
      cases hunknown : i.isUnknown <;> simp [hunknown] <;> rfl
    · rw [stateOf, resultOf, hexecuted, Trace.register_snoc, ← h.register]
      refine (hcore (Core.v · x)).trans (Instruction.act_v _ hrange ?_)
      exact UInt8.toNat_lt _
    · rw [stateOf, resultOf, hexecuted, Trace.index_snoc, ← h.index]
      exact (hcore Core.i).trans (Instruction.act_i _)

/-- Nothing has been executed, and all is zero. -/
theorem records_new (hresults : a.results = []) (hprocessor : m.processor = {})
    (hsteps : m.steps = 0) (hcalls : m.host.calls = a.calls) : Records a m := by
  have hexecuted : a.executed = [] := by rw [Account.executed, hresults, List.filterMap_nil]
  refine ⟨?_, ?_, fun x => ?_, ?_, ?_⟩
  · rw [hexecuted, hsteps, List.length_nil]
  · rw [hexecuted, hprocessor, List.countP_nil]
  · rw [hexecuted, hprocessor, Fin.getElem_fin]
    exact congrArg UInt8.toNat (Vector.getElem_replicate x.isLt)
  · rw [hexecuted, hprocessor]
    rfl
  · rw [hexecuted, hresults, hcalls]
    rfl

theorem kept_records : Kept Records where
  start _ _ _ _ _ _ := records_new rfl rfl rfl rfl
  step _ _ h := records_step h
  record _ _ _ _ h := ⟨h.steps, h.unknown, h.register, h.index, h.calls⟩
  token _ _ _ h := ⟨h.steps, h.unknown, h.register, h.index, h.calls⟩
  configure _ _ _ h := ⟨h.steps, h.unknown, h.register, h.index, h.calls⟩
  close a m h := by
    unfold close
    split
    · exact ⟨h.steps, h.unknown, h.register, h.index, h.calls⟩
    · exact ⟨h.steps, h.unknown, h.register, h.index, h.calls⟩

end Machine

/-- **A machine is what its trace says**, by whatever operations it came to it: steps that
failed, runs that were cancelled and whatever else was refused have added nothing, but for the
requests that the display did not grant. -/
theorem records_of_history (h : History) : h.machine.Records h.account :=
  h.induction Machine.kept_records (Machine.records_new rfl rfl rfl rfl)

/-- A run that adds past the last byte, clears the screen in vain and is taken up again. -/
example :
    let display : Display := fun n => { failure := if n = 1 then some .noSuchDevice else none }
    let program : List UInt8 := [0x63, 0xFA, 0x73, 0x04, 0x00, 0xE0, 0x73, 0x09]
    let h := ((History.ofProgram program { display }).perform (.run [false, false, false])).perform
      (.run [false, false])
    h.account.executed = [.load 3 250, .add 3 4, .clearScreen, .add 3 9] ∧
      Trace.register 3 h.account.executed = 7 ∧ h.account.results.countP asksInVain = 1 := by
  decide +kernel

end Chip8
