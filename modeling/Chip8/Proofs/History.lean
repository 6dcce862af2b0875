import Chip8.Proofs.Reachable

/-! Histories.

A history is a reachable machine together with the way to it (`reachable_iff`). Whoever follows
a machine can keep an `Account` of it: which program was loaded last, what every step since has
come to, be it made by itself or in a run, and how many steps had been made when the machine was
closed. What new machines have and no operation takes away (`Kept`), account and all, holds of
every history (`History.induction`), and so does what is said of the machine alone
(`Reachable.induction`). Of a run it is enough to look at one step, one line of the log and the
token. -/
namespace Chip8

/-! ### What steps come to -/

namespace Run

/-- The result of the step that a turn of a run has made with `m`; a turn that ends the run
without a fault has made none. -/
def stepOf (m : Machine) : Run → List (Except Fault Instruction)
  | ended (.ok _) _ => []
  | _ => [resultOf m.step]

/-- The results of the steps that so many turns make, in order. -/
def results : List Bool → Run → List (Except Fault Instruction)
  | [], _ => []
  | _ :: _, ended _ _ => []
  | asked :: rest, going steps m =>
    let m := if asked then m.cancel else m
    let next := turn (going steps m)
    stepOf m next ++ results rest next

end Run

/-- The program that an operation is to load. -/
def Operation.program? : Operation → Option (List UInt8)
  | .load program => some program
  | .loadFrom stream => stream.readAll.1.toOption
  | _ => none

namespace Machine

/-- The program that an operation loads, if it is one that loads and succeeds. -/
def loads? (m : Machine) (op : Operation) : Option (List UInt8) :=
  match m.answer op with
  | .loaded (.ok _) => op.program?
  | _ => none

end Machine

/-! ### Accounts -/

structure Account where
  /-- The program that was loaded last, if one was. -/
  program? : Option (List UInt8) := none
  /-- How often the display had been asked to clear itself by then. -/
  calls : Nat
  /-- What the steps since have come to, in order. -/
  results : List (Except Fault Instruction) := []
  /-- How many steps the machine had made when it was closed first, if it was. -/
  closed? : Option Nat := none

namespace Account

def load (a : Account) (program : List UInt8) (calls : Nat) : Account :=
  { a with program? := some program, calls, results := [] }

def add (a : Account) (results : List (Except Fault Instruction)) : Account :=
  { a with results := a.results ++ results }

def close (a : Account) (steps : Nat) : Account :=
  { a with closed? := a.closed?.or (some steps) }

/-- The account of a machine after an operation on it. -/
def after (a : Account) (m : Machine) : Operation → Account
  | .step => a.add [resultOf m.step]
  | .run requests => a.add ((Run.start m).results requests)
  | .close => a.close m.steps
  | op =>
    match m.loads? op with
    | some program => a.load program m.host.calls
    | none => a

/-- The instructions that were executed since the program was loaded, in order. -/
def executed (a : Account) : List Instruction := a.results.filterMap Except.toOption

theorem add_nil (a : Account) : a.add [] = a := by simp only [add, List.append_nil]

theorem add_add (a : Account) (r r' : List (Except Fault Instruction)) :
    (a.add r).add r' = a.add (r ++ r') := by simp only [add, List.append_assoc]

end Account

/-! ### Histories -/

/-- All that a host has done with a machine. -/
inductive History where
  | unloaded (host : Host)
  | ofProgram (program : List UInt8) (host : Host)
  | perform (before : History) (op : Operation)

namespace History

/-- The host that the machine was given. -/
def host : History → Host
  | unloaded host => host
  | ofProgram _ host => host
  | perform before _ => before.host

def machine : History → Machine
  | unloaded host => Machine.unloaded host
  | ofProgram program host => Machine.ofProgram program host
  | perform before op => before.machine.perform op

def account : History → Account
  | unloaded host => { calls := host.calls }
  | ofProgram program host => Account.load { calls := host.calls } program host.calls
  | perform before op => before.account.after before.machine op

/-- Reachable machines are those with a history. -/
theorem reachable_iff {m : Machine} : Machine.Reachable m ↔ ∃ h : History, h.machine = m := by
  constructor
  · intro hm
    induction hm with
    | unloaded host => exact ⟨unloaded host, rfl⟩
    | ofProgram program host => exact ⟨ofProgram program host, rfl⟩
    | perform op _ ih =>
      obtain ⟨before, rfl⟩ := ih
      exact ⟨perform before op, rfl⟩
  · rintro ⟨h, rfl⟩
    induction h with
    | unloaded host => exact .unloaded host
    | ofProgram program host => exact .ofProgram program host
    | perform before op ih => exact ih.perform op

end History

/-! ### What every history keeps -/

/-- The event tells that the machine is closed. -/
def Event.isClosing : Event → Bool
  | machineClosed _ => true
  | _ => false

/-- What neither a line of the log nor a request to the display takes away from a host. -/
structure Host.Kept (P : Host → Prop) : Prop where
  record : ∀ h event, event.isClosing = false → P h → P (h.record event)
  clear : ∀ h, P h → P h.clear.2

section Host
variable {P : Host → Prop}

theorem Host.Kept.observe (hP : Host.Kept P) {h : Host} (hh : P h) (pc : UInt16)
    (i : Instruction) : P (h.observe pc i) := by
  have hexecuting := hP.record h (.executing pc i) rfl hh
  cases i with
  | clearScreen => exact hP.clear _ hexecuting
  | system target => exact hP.record _ _ rfl hexecuting
  | unknown op => exact hP.record _ _ rfl hexecuting
  | _ => exact hexecuting

/-- No step takes it away either. -/
theorem Host.Kept.board (hP : Host.Kept P) {b : Board} (hb : P b.host) :
    P (stateOf b.step).host := by
  have houtcome := b.step_outcome
  generalize b.step = r at houtcome
  cases houtcome with
  | unfetched => exact hb
  | refused => exact hP.observe hb _ _
  | performed _ _ _ _ hhost =>
    rw [stateOf, hhost]
    exact hP.observe hb _ _

theorem Host.Kept.machine (hP : Host.Kept P) {m : Machine} (hm : P m.host) :
    P (stateOf m.step).host := by
  obtain (hrefused | hrefused) | ⟨memory, _, hhost⟩ := m.step_lends
  · rw [hrefused]
    exact hm
  · rw [hrefused]
    exact hm
  · rw [hhost]
    exact hP.board hm

end Host

namespace Machine

/-- What no operation takes away. -/
structure Kept (Q : Account → Machine → Prop) : Prop where
  start : ∀ a m memory program, m.phase.memory? = some memory → Q a m →
    Q (a.load program m.host.calls) (m.start (memory.load program))
  step : ∀ a m, Q a m → Q (a.add [resultOf m.step]) (stateOf m.step)
  record : ∀ a m event, event.isClosing = false → Q a m → Q a (m.record event)
  token : ∀ a m cancelled, Q a m → Q a { m with host := { m.host with cancelled } }
  configure : ∀ a m settings, Q a m → Q a (m.withSettings settings)
  close : ∀ a m, Q a m → Q (a.close m.steps) m.close

variable {Q : Account → Machine → Prop} {a : Account}

theorem Kept.asked (hQ : Kept Q) {m : Machine} (hm : Q a m) (asked : Bool) :
    Q a (if asked then m.cancel else m) := by
  cases asked with
  | false => exact hm
  | true => exact hQ.token a m true hm

theorem Kept.advance (hQ : Kept Q) {m : Machine} (hm : Q a m) (steps : Nat) :
    Q (a.add (Run.stepOf m (Run.advance steps m))) (Run.advance steps m).machine := by
  have hstep := hQ.step a m hm
  unfold Run.advance
  cases hs : m.step with
  | ok i m' =>
    rw [hs] at hstep
    simp only [Run.stepOf, hs]
    exact hstep
  | error e m' =>
    rw [hs] at hstep
    simp only [Run.stepOf, hs]
    exact hstep

theorem Kept.turn (hQ : Kept Q) {m : Machine} (hm : Q a m) (steps : Nat) :
    Q (a.add (Run.stepOf m (Run.turn (.going steps m)))) (Run.turn (.going steps m)).machine := by
  obtain ⟨_, hturn⟩ | ⟨_, _, _, _, hturn⟩ | ⟨_, _, hturn⟩ := Run.turn_cases steps m
  · rw [hturn, Run.stepOf, a.add_nil]
    exact hQ.record a m _ rfl hm
  · rw [hturn, Run.stepOf, a.add_nil]
    exact hQ.record a m _ rfl hm
  · rw [hturn]
    exact hQ.advance hm steps

/-- What one turn keeps every run keeps, however many turns it takes. -/
theorem Kept.under (hQ : Kept Q) {r : Run} (hr : Q a r.machine) (requests : List Bool) :
    Q (a.add (r.results requests)) (r.under requests).machine := by
  induction requests generalizing a r with
  | nil =>
    rw [Run.results, a.add_nil]
    exact hr
  | cons asked rest ih =>
    cases r with
    | ended result m =>
      rw [Run.results, a.add_nil]
      exact hr
    | going steps m =>
      rw [Run.results, ← a.add_add]
      exact ih (hQ.turn (hQ.asked hr asked) steps)

theorem Kept.begin (hQ : Kept Q) {m : Machine} (hm : Q a m) : Q a (Run.start m).machine := by
  unfold Run.start
  split
  · exact hm
  · exact hm
  · exact hQ.record a m _ rfl hm

theorem loads?_load (m : Machine) (program : List UInt8) :
    (m.loads? (.load program) = none ∧ m.perform (.load program) = m) ∨
      ∃ memory, m.phase.memory? = some memory ∧ m.loads? (.load program) = some program ∧
        m.perform (.load program) = m.start (memory.load program) := by
  cases h : m.phase.memory? with
  | none => exact .inl (by simp [loads?, answer, perform, load, Machine.memory, h, resultOf, stateOf])
  | some memory =>
    refine .inr ⟨memory, rfl, ?_, ?_⟩
    · simp only [loads?, answer, load_ok h, resultOf, Operation.program?]
    · rw [perform, load_ok h, stateOf]

theorem loads?_loadFrom (m : Machine) (stream : ByteStream) :
    (m.loads? (.loadFrom stream) = none ∧ m.perform (.loadFrom stream) = m) ∨
      ∃ memory program, m.phase.memory? = some memory ∧
        m.loads? (.loadFrom stream) = some program ∧
        m.perform (.loadFrom stream) = m.start (memory.load program) := by
  cases h : m.phase.memory? with
  | none =>
    exact .inl (by simp [loads?, answer, perform, loadFrom, Machine.memory, h, resultOf, stateOf])
  | some memory =>
    cases hread : stream.readAll with
    | mk result left =>
      cases result with
      | error e =>
        left
        constructor
        · simp only [loads?, answer, loadFrom_error h hread, resultOf]
        · rw [perform, loadFrom_error h hread, stateOf]
      | ok program =>
        refine .inr ⟨memory, program, rfl, ?_, ?_⟩
        · simp only [loads?, answer, loadFrom_ok h hread, resultOf, Operation.program?, hread,
            Except.toOption]
        · rw [perform, loadFrom_ok h hread, stateOf]

theorem Kept.perform (hQ : Kept Q) {m : Machine} (hm : Q a m) (op : Operation) :
    Q (a.after m op) (m.perform op) := by
  cases op with
  | load program =>
    obtain ⟨hnone, hsame⟩ | ⟨memory, hmemory, hloads, hstart⟩ := loads?_load m program
    · simp only [Account.after, hnone, hsame]
      exact hm
    · simp only [Account.after, hloads, hstart]
      exact hQ.start a m memory program hmemory hm
  | loadFrom stream =>
    obtain ⟨hnone, hsame⟩ | ⟨memory, program, hmemory, hloads, hstart⟩ :=
      loads?_loadFrom m stream
    · simp only [Account.after, hnone, hsame]
      exact hm
    · simp only [Account.after, hloads, hstart]
      exact hQ.start a m memory program hmemory hm
  | step => exact hQ.step a m hm
  | run requests => exact hQ.under (hQ.begin hm) requests
  | configure settings => exact hQ.configure a m settings hm
  | cancel => exact hQ.token a m true hm
  | uncancel => exact hQ.token a m false hm
  | close => exact hQ.close a m hm

end Machine

/-- **What a new machine has and no operation takes away holds of every history.** -/
theorem History.induction {Q : Account → Machine → Prop} (hQ : Machine.Kept Q) (h : History)
    (hnew : Q { calls := h.host.calls } (Machine.unloaded h.host)) : Q h.account h.machine := by
  induction h with
  | unloaded host => exact hnew
  | ofProgram program host => exact hQ.start _ _ _ program rfl hnew
  | perform before op ih => exact hQ.perform (ih hnew) op

/-- The same without the account. -/
theorem Machine.Reachable.induction {P : Machine → Prop} (hP : Kept fun _ => P)
    (hnew : ∀ host, P (Machine.unloaded host)) {m : Machine} (hm : Reachable m) : P m := by
  obtain ⟨h, rfl⟩ := History.reachable_iff.mp hm
  exact History.induction hP h (hnew h.host)

end Chip8
