import Chip8.Proofs.Guarded
import Chip8.Proofs.Trace
import Mathlib.Data.List.Infix

/-! Nothing overflows.

Boards and machines are written once more with the guarded operations of a memory and with guarded
counts. A guarded action goes through on a board (`Safe`) if no step of it is stopped and it does
what the action itself does, and actions that go through one after another go through together
(`safe_bind`). So a step of a board is taken apart like the step itself, and only two instructions
do any arithmetic of their own: a skip, and an unknown opcode, which looks back to where it was
fetched (`safe_execute`).

From single requests it is an induction over their sequence. What cannot be had for nothing is
that the counts do not reach the largest word; that they do not is all that is asked for. -/
namespace Chip8

/-- An action in machine words. -/
abbrev GuardedAction := ExceptT Fault (StateT Board Guarded)

/-- An operation on the board's memory. -/
def Board.onMemory {α : Type} (f : Memory → Except Fault (α × Memory)) : Action α := fun b =>
  match f b.memory with
  | .ok (a, memory) => .ok a { b with memory }
  | .error e => .error e b

/-! ### Boards in machine words -/

namespace GuardedAction

variable {α : Type}

/-- An action that has nothing to guard. -/
def lift (x : Action α) : GuardedAction α := fun b => return (resultOf (x b), stateOf (x b))

/-- Arithmetic between actions. -/
def words (x : Guarded α) : GuardedAction α := fun b => return (.ok (← x), b)

def onMemory (f : Memory → Guarded (Except Fault (α × Memory))) : GuardedAction α := fun b => do
  match ← f b.memory with
  | .ok (a, memory) => return (.ok a, { b with memory })
  | .error e => return (.error e, b)

def readByte : GuardedAction UInt8 := onMemory Guarded.readByte

def advance (count : UInt16) : GuardedAction Unit :=
  onMemory fun m => return (← Guarded.advance m count).map ((), ·)

def countUnknown : GuardedAction Unit := fun b => do
  let unknown ← Guarded.sum 64 b.processor.unknown 1
  return (.ok (), { b with processor := { b.processor with unknown } })

def execute : Instruction → GuardedAction Unit
  | .skip comparison x right => do
    let a ← lift (Board.readRegisters (·.get x))
    let b ← lift (Board.readRegisters (·.operand right))
    if comparison.holds a b then advance Board.instructionSize
  | .unknown op => do
    countUnknown
    let next ← lift Board.cursor
    let pc ← words (Guarded.difference next.toNat Board.instructionSize.toNat)
    lift (Board.record (.unknownOpcode op pc.toUInt16))
  | i => lift (Board.execute i)

def fetch : GuardedAction Instruction := do
  let first ← readByte
  let second ← readByte
  return Instruction.decode ⟨first, second⟩

def fetchAndExecute : GuardedAction Instruction := do
  let pc ← lift Board.cursor
  let instruction ← fetch
  lift (Board.record (.executing pc instruction))
  execute instruction
  return instruction

def step : GuardedAction Instruction := fun b => do
  match ← fetchAndExecute b with
  | (.ok instruction, after) => return (.ok instruction, after)
  | (.error e, after) =>
    if after.memory.cursor = b.memory.cursor then return (.error e, after)
    else
      match Board.seek b.memory.cursor after with
      | .ok () restored => return (.error e, restored)
      | .error e after => return (.error e, after)

end GuardedAction

/-! ### Going through -/

/-- The guarded action goes through on this board, and does what the action does. -/
def Safe {α : Type} (g : GuardedAction α) (x : Action α) (b : Board) : Prop :=
  g b = .ok (resultOf (x b), stateOf (x b))

section Safe
variable {α β : Type} {g : GuardedAction α} {x : Action α} {b : Board}

theorem safe_lift (x : Action α) (b : Board) : Safe (.lift x) x b := rfl

theorem safe_bind {gf : α → GuardedAction β} {f : α → Action β} (h : Safe g x b)
    (hf : ∀ a b', x b = .ok a b' → Safe (gf a) (f a) b') : Safe (g >>= gf) (x >>= f) b := by
  unfold Safe at h ⊢
  show (ExceptT.bind g gf) b = _
  cases hx : x b with
  | ok a b' =>
    rw [Board.bind_ok hx, ← hf a b' hx]
    rw [hx] at h
    simp only [ExceptT.bind, ExceptT.mk, bind, StateT.bind, h]
    rfl
  | error e b' =>
    rw [Board.bind_error hx]
    rw [hx] at h
    simp only [ExceptT.bind, ExceptT.mk, bind, StateT.bind, h]
    rfl

/-- Arithmetic that does not fail is no action. -/
theorem safe_words {y : Guarded α} {gf : α → GuardedAction β} {f : Action β} {a : α}
    (hy : y = .ok a) (hf : Safe (gf a) f b) : Safe (.words y >>= gf) f b := by
  subst hy
  exact hf

theorem safe_onMemory {h : Memory → Guarded (Except Fault (α × Memory))}
    {k : Memory → Except Fault (α × Memory)} (heq : h b.memory = .ok (k b.memory)) :
    Safe (.onMemory h) (Board.onMemory k) b := by
  unfold Safe GuardedAction.onMemory Board.onMemory
  rw [heq]
  cases k b.memory <;> rfl

end Safe

/-! ### A step -/

section Step
variable {b : Board}

theorem onMemory_readByte : Board.onMemory Memory.readByte = Board.readByte := by
  funext b
  unfold Board.onMemory Board.readByte
  cases b.memory.readByte <;> rfl

theorem onMemory_advance (count : UInt16) :
    Board.onMemory (fun m => (m.advance count).map ((), ·)) = Board.advance count := by
  funext b
  unfold Board.onMemory Board.advance
  dsimp only
  cases b.memory.advance count <;> rfl

theorem safe_readByte (b : Board) : Safe .readByte Board.readByte b := by
  rw [← onMemory_readByte]
  exact safe_onMemory (Guarded.readByte_eq b.memory)

theorem safe_advance (count : UInt16) (b : Board) :
    Safe (.advance count) (Board.advance count) b := by
  rw [← onMemory_advance]
  refine safe_onMemory ?_
  rw [Guarded.advance_eq]
  rfl

theorem safe_countUnknown (h : b.processor.unknown + 1 < 2 ^ 64) :
    Safe .countUnknown Board.countUnknown b := by
  unfold Safe GuardedAction.countUnknown
  rw [Guarded.sum_eq h]
  rfl

/-- What has been fetched has two bytes, so it can be looked back to. -/
theorem safe_execute (i : Instruction) (hcursor : 2 ≤ b.memory.cursor.toNat)
    (h : b.processor.unknown + 1 < 2 ^ 64) : Safe (.execute i) (Board.execute i) b := by
  cases i with
  | skip comparison x right =>
    refine safe_bind (safe_lift _ _) fun a b' _ => safe_bind (safe_lift _ _) fun a' b'' _ => ?_
    split
    · exact safe_advance _ _
    · rfl
  | unknown op =>
    refine safe_bind (safe_countUnknown h) fun _ b' hcount => ?_
    refine safe_bind (safe_lift _ _) fun next b'' hnext => ?_
    cases hcount
    cases hnext
    have hback : ((b.memory.cursor.toNat - 2).toUInt16) = b.memory.cursor - 2 := by
      rw [Nat.toUInt16, UInt16.ofNat_sub hcursor, UInt16.ofNat_toNat]
      rfl
    refine safe_words (Guarded.difference_eq hcursor) ?_
    rw [show Board.instructionSize.toNat = 2 from rfl, hback]
    rfl
  | _ => exact safe_lift _ _

theorem safe_fetch (b : Board) : Safe .fetch Board.fetch b :=
  safe_bind (safe_readByte b) fun _ b' _ => safe_bind (safe_readByte b') fun _ _ _ => rfl

/-- A fetch leaves the cursor behind what was fetched, and the count alone. -/
theorem fetch_leaves {i : Instruction} {f : Board} (h : b.fetch = .ok i f) :
    2 ≤ f.memory.cursor.toNat ∧ f.processor = b.processor := by
  cases hop : b.memory.opcode? with
  | none =>
    obtain ⟨cursor, herror, _⟩ := Board.fetch_error hop
    cases herror.symm.trans h
  | some op =>
    cases (Board.fetch_ok hop).symm.trans h
    refine ⟨?_, rfl⟩
    have hcursor := Board.toNat_fetched hop (Instruction.decode op)
    exact hcursor ▸ Nat.le_add_left 2 _

theorem safe_fetchAndExecute (h : b.processor.unknown + 1 < 2 ^ 64) :
    Safe .fetchAndExecute Board.fetchAndExecute b := by
  refine safe_bind (safe_lift _ _) fun pc b' hpc => ?_
  cases hpc
  refine safe_bind (safe_fetch b) fun i f hfetch => ?_
  obtain ⟨hcursor, hprocessor⟩ := fetch_leaves hfetch
  refine safe_bind (safe_lift _ _) fun _ f' hrecord => ?_
  cases hrecord
  refine safe_bind (safe_execute i hcursor ?_) fun _ _ _ => rfl
  rwa [hprocessor]

theorem safe_step (h : b.processor.unknown + 1 < 2 ^ 64) : Safe .step Board.step b := by
  have hexecute := safe_fetchAndExecute h
  unfold Safe GuardedAction.step Board.step at *
  rw [hexecute]
  cases Board.fetchAndExecute b with
  | ok i after => rfl
  | error e after =>
    simp only [resultOf, stateOf, bind, Except.bind]
    split
    · rfl
    · cases Board.seek b.memory.cursor after <;> rfl

end Step

/-! ### Requests to a board -/

namespace Board

/-- What can be asked of a board and of its parts. -/
inductive Request where
  | memory (request : Memory.Request)
  | getRegister (index : UInt8)
  | setRegister (index value : UInt8)
  | addRegister (index delta : UInt8)
  | setIndex (addr : UInt16)
  | push (addr : UInt16)
  | pop
  | step
  /-- Back to a processor that has just been started. -/
  | reset

inductive Response where
  | done
  | memory (response : Memory.Response)
  | register (value : UInt8)
  | frame (top? : Option UInt16)
  | executed (instruction : Instruction)
  deriving DecidableEq, Repr

def serve : Request → Action Response
  | .memory request => do return .memory (← onMemory (·.serve request))
  | .getRegister index => do return .register (← readRegisters (·.get index))
  | .setRegister index value => do
    updateRegisters (·.set index value)
    return .done
  | .addRegister index delta => do
    updateRegisters (·.add index delta)
    return .done
  | .setIndex addr => do
    updateRegisters fun r => .ok (r.setI addr)
    return .done
  | .push addr => do
    push addr
    return .done
  | .pop => do
    let top ← top?
    pop
    return .frame top
  | .step => do return .executed (← step)
  | .reset => fun b => .ok .done { b with processor := {} }

/-- One request after another, refused or not. -/
def serveAll (b : Board) : List Request → List (Except Fault Response) × Board
  | [] => ([], b)
  | request :: rest =>
    let (responses, last) := serveAll (stateOf (serve request b)) rest
    (resultOf (serve request b) :: responses, last)

end Board

namespace GuardedAction

/-- Registers and frames are only ever looked for, and sums of registers wrap. -/
def serve : Board.Request → GuardedAction Board.Response
  | .memory request => do return .memory (← onMemory (Guarded.serve · request))
  | .step => do return .executed (← step)
  | request => lift (Board.serve request)

def serveAll (b : Board) :
    List Board.Request → Guarded (List (Except Fault Board.Response) × Board)
  | [] => return ([], b)
  | request :: rest => do
    let (response, next) ← serve request b
    let (responses, last) ← serveAll next rest
    return (response :: responses, last)

end GuardedAction

section Requests
variable {b : Board}

theorem safe_serve (request : Board.Request) (h : b.processor.unknown + 1 < 2 ^ 64) :
    Safe (.serve request) (Board.serve request) b := by
  cases request with
  | memory request =>
    have hmemory : Safe (.onMemory (Guarded.serve · request))
        (Board.onMemory (·.serve request)) b :=
      safe_onMemory (Guarded.serve_eq b.memory request)
    exact safe_bind hmemory fun _ _ _ => safe_lift (pure _) _
  | step => exact safe_bind (safe_step h) fun _ _ _ => safe_lift (pure _) _
  | _ => exact safe_lift _ _

theorem serveAll_eq (requests : List Board.Request)
    (h : ∀ before, before <+: requests → (b.serveAll before).2.processor.unknown + 1 < 2 ^ 64) :
    GuardedAction.serveAll b requests = .ok (b.serveAll requests) := by
  induction requests generalizing b with
  | nil => rfl
  | cons request rest ih =>
    have hserve : Safe (.serve request) (Board.serve request) b :=
      safe_serve request (h [] List.nil_prefix)
    have hrest := ih (b := stateOf (Board.serve request b)) fun before hbefore =>
      h (request :: before) (List.cons_prefix_cons.mpr ⟨rfl, hbefore⟩)
    unfold Safe at hserve
    rw [GuardedAction.serveAll, hserve]
    simp only [bind, Except.bind, hrest]
    rfl

end Requests

/-! ### Machines in words -/

namespace Guarded

def ofProgram (program : List UInt8) (host : Host) : Guarded Machine :=
  return (Machine.unloaded host).start (← load Memory.blank program)

def stepMachine (m : Machine) : Guarded (Except Fault Instruction × Machine) :=
  match m.phase with
  | .unloaded _ => return (.error .noProgram, m)
  | .closed => return (.error .closed, m)
  | .ready memory => do
    match ← GuardedAction.step (m.board memory) with
    | (.ok instruction, b) =>
      return (.ok instruction, { m.withBoard b with steps := ← sum 64 m.steps 1 })
    | (.error e, b) => return (.error e, m.withBoard b)

def advanceRun (steps : Nat) (m : Machine) : Guarded Run := do
  match ← stepMachine m with
  | (.ok _, next) => return .going (← sum 64 steps 1) next
  | (.error e, last) => return .ended (.error e) last

def turn : Run → Guarded Run
  | .ended result m => return .ended result m
  | .going steps m =>
    if m.host.cancelled then return .ended (.ok .cancelled) (m.record (.cancelled steps))
    else
      match m.settings.limit with
      | none => advanceRun steps m
      | some limit =>
        if limit ≤ steps then return .ended (.ok .limitReached) (m.record (.limitReached limit))
        else advanceRun steps m

def under : List Bool → Run → Guarded Run
  | [], r => return r
  | _ :: _, .ended result m => return .ended result m
  | asked :: rest, .going steps m => do
    under rest (← turn (.going steps (if asked then m.cancel else m)))

def perform (m : Machine) : Operation → Guarded (Machine.Answer × Machine)
  | .load program =>
    match m.memory with
    | .ok memory => do
      let loading ← load memory program
      return (.loaded (.ok loading.1), m.start loading)
    | .error e => return (.loaded (.error e), m)
  | .loadFrom stream =>
    match m.memory with
    | .ok memory => do
      match ← loadFrom memory stream with
      | (.ok loading, _) => return (.loaded (.ok loading.1), m.start loading)
      | (.error e, _) => return (.loaded (.error e), m)
    | .error e => return (.loaded (.error e), m)
  | .step => do
    let (result, next) ← stepMachine m
    return (.stepped result, next)
  | .run requests => do
    let r ← under requests (Run.start m)
    return (.ran r.result?, r.machine)
  | op => return (m.answer op, m.perform op)

def performAll (m : Machine) : List Operation → Guarded (List Machine.Answer × Machine)
  | [] => return ([], m)
  | op :: rest => do
    let (answer, next) ← perform m op
    let (answers, last) ← performAll next rest
    return (answer :: answers, last)

end Guarded

/-! ### Counts -/

namespace Machine

/-- The counts of a machine are below the largest word. -/
structure CountsFit (m : Machine) : Prop where
  steps : m.steps + 1 < 2 ^ 64
  unknown : m.processor.unknown + 1 < 2 ^ 64

/-- The one machine has counted on from the other. -/
structure CountsOn (m n : Machine) : Prop where
  steps : m.steps ≤ n.steps
  unknown : m.processor.unknown ≤ n.processor.unknown

variable {l m n : Machine}

theorem CountsOn.trans (h : CountsOn l m) (h' : CountsOn m n) : CountsOn l n :=
  ⟨Nat.le_trans h.steps h'.steps, Nat.le_trans h.unknown h'.unknown⟩

theorem CountsOn.fit (h : CountsOn m n) (hn : n.CountsFit) : m.CountsFit :=
  ⟨Nat.lt_of_le_of_lt (Nat.succ_le_succ h.steps) hn.steps,
    Nat.lt_of_le_of_lt (Nat.succ_le_succ h.unknown) hn.unknown⟩

theorem countsOn_step (m : Machine) : CountsOn m (stateOf m.step) := by
  cases hstep : m.step with
  | error e n =>
    obtain ⟨_, hprocessor, _, hsteps, _⟩ := step_failure hstep
    exact ⟨Nat.le_of_eq hsteps.symm, Nat.le_of_eq (congrArg (·.unknown) hprocessor.symm)⟩
  | ok i n =>
    obtain ⟨memory, b, _, hb, rfl⟩ := step_ok hstep
    have heffect := congrArg Core.unknown (Board.outcome_of_step hb).success.effect
    have hunknown : b.processor.unknown = m.processor.unknown + i.isUnknown.toNat :=
      heffect.trans (Instruction.act_unknown _)
    exact ⟨Nat.le_succ _, hunknown ▸ Nat.le_add_right _ _⟩

theorem countsOn_advance (steps : Nat) (m : Machine) :
    CountsOn m (Run.advance steps m).machine := by
  have hstep := countsOn_step m
  unfold Run.advance
  cases h : m.step with
  | ok i n => rwa [h] at hstep
  | error e n => rwa [h] at hstep

theorem countsOn_turn (r : Run) : CountsOn r.machine r.turn.machine := by
  cases r with
  | ended result m => exact ⟨Nat.le_refl _, Nat.le_refl _⟩
  | going steps m =>
    obtain ⟨_, hturn⟩ | ⟨_, _, _, _, hturn⟩ | ⟨_, _, hturn⟩ := Run.turn_cases steps m
    · rw [hturn]
      exact ⟨Nat.le_refl _, Nat.le_refl _⟩
    · rw [hturn]
      exact ⟨Nat.le_refl _, Nat.le_refl _⟩
    · rw [hturn]
      exact countsOn_advance steps m

theorem countsOn_under (r : Run) (requests : List Bool) :
    CountsOn r.machine (r.under requests).machine := by
  refine Run.under_kept (Q := fun r' => CountsOn r.machine r'.machine) ?_ ?_ ?_ requests
  · exact fun r' h => h.trans (countsOn_turn r')
  · exact fun _ _ h => ⟨h.steps, h.unknown⟩
  · exact ⟨Nat.le_refl _, Nat.le_refl _⟩

end Machine

/-! ### Operations of a machine -/

namespace Guarded

variable {m : Machine} {steps : Nat}

theorem ofProgram_eq (program : List UInt8) (host : Host) :
    ofProgram program host = .ok (Machine.ofProgram program host) := by
  rw [ofProgram, load_eq]
  rfl

theorem stepMachine_eq (h : m.CountsFit) :
    stepMachine m = .ok (resultOf m.step, stateOf m.step) := by
  cases hphase : m.phase with
  | unloaded memory =>
    rw [Machine.step_unloaded hphase]
    simp only [stepMachine, hphase]
    rfl
  | closed =>
    rw [Machine.step_closed hphase]
    simp only [stepMachine, hphase]
    rfl
  | ready memory =>
    have hstep : GuardedAction.step (m.board memory) = _ := safe_step h.unknown
    simp only [stepMachine, hphase, hstep]
    cases hb : (m.board memory).step with
    | ok i b =>
      rw [Machine.step_ready_ok hphase hb]
      simp only [resultOf, stateOf, bind, Except.bind, sum_eq h.steps]
      rfl
    | error e b =>
      rw [Machine.step_ready_error hphase hb]
      rfl

theorem advanceRun_eq (h : m.CountsFit) (hsteps : steps ≤ m.steps) :
    advanceRun steps m = .ok (Run.advance steps m) := by
  have hsum : steps + 1 < 2 ^ 64 := Nat.lt_of_le_of_lt (Nat.succ_le_succ hsteps) h.steps
  rw [advanceRun, stepMachine_eq h, Run.advance]
  cases m.step with
  | ok i n =>
    simp only [resultOf, stateOf, bind, Except.bind, sum_eq hsum]
    rfl
  | error e n => rfl

theorem turn_eq (h : m.CountsFit) (hsteps : steps ≤ m.steps) :
    turn (.going steps m) = .ok (Run.turn (.going steps m)) := by
  simp only [turn, Run.turn, advanceRun_eq h hsteps]
  split
  · rfl
  · cases m.settings.limit with
    | none => rfl
    | some limit =>
      dsimp only
      split <;> rfl

/-- A run has not made more steps than its machine. -/
def Counted : Run → Prop
  | .going steps m => steps ≤ m.steps
  | .ended _ _ => True

theorem counted_turn (hsteps : steps ≤ m.steps) : Counted (Run.turn (.going steps m)) := by
  obtain ⟨_, hturn⟩ | ⟨_, _, _, _, hturn⟩ | ⟨_, _, hturn⟩ := Run.turn_cases steps m
  · rw [hturn]
    trivial
  · rw [hturn]
    trivial
  · rw [hturn, Run.advance]
    cases hstep : m.step with
    | error e n => trivial
    | ok i n =>
      obtain ⟨_, b, _, _, rfl⟩ := Machine.step_ok hstep
      exact Nat.succ_le_succ hsteps

theorem under_eq {r : Run} (requests : List Bool) (hcounted : Counted r)
    (h : (r.under requests).machine.CountsFit) : under requests r = .ok (r.under requests) := by
  induction requests generalizing r with
  | nil => rfl
  | cons asked rest ih =>
    cases r with
    | ended result m => rfl
    | going steps m =>
      let asker := if asked then m.cancel else m
      have hasker : steps ≤ asker.steps := by cases asked <;> exact hcounted
      have hfit : asker.CountsFit :=
        ((Machine.countsOn_turn (.going steps asker)).trans (Machine.countsOn_under _ rest)).fit h
      have hturn : turn (.going steps asker) = _ := turn_eq hfit hasker
      show (do under rest (← turn (.going steps asker))) = _
      rw [hturn]
      exact ih (counted_turn hasker) h

theorem counted_start (m : Machine) : Counted (Run.start m) := by
  unfold Run.start
  split
  · trivial
  · trivial
  · exact Nat.zero_le _

theorem perform_eq (op : Operation) (h : m.CountsFit) (h' : (m.perform op).CountsFit) :
    perform m op = .ok (m.answer op, m.perform op) := by
  cases op with
  | load program =>
    simp only [perform, Machine.answer, Machine.perform, Machine.load, load_eq]
    cases m.memory <;> rfl
  | loadFrom stream =>
    simp only [perform, Machine.answer, Machine.perform, Machine.loadFrom, loadFrom_eq]
    cases m.memory with
    | error e => rfl
    | ok memory =>
      dsimp only
      cases memory.loadFrom stream with
      | mk result left => cases result <;> rfl
  | step =>
    rw [perform, stepMachine_eq h]
    rfl
  | run requests =>
    rw [perform, under_eq requests (counted_start m) h']
    rfl
  | _ => rfl

theorem performAll_eq (ops : List Operation)
    (h : ∀ before, before <+: ops → (before.foldl Machine.perform m).CountsFit) :
    performAll m ops = .ok (m.answers ops, ops.foldl Machine.perform m) := by
  induction ops generalizing m with
  | nil => rfl
  | cons op rest ih =>
    have hop : perform m op = _ := perform_eq op (h [] List.nil_prefix)
      (h [op] (List.cons_prefix_cons.mpr ⟨rfl, List.nil_prefix⟩))
    have hrest := ih (m := m.perform op) fun before hbefore =>
      h (op :: before) (List.cons_prefix_cons.mpr ⟨rfl, hbefore⟩)
    rw [performAll, hop]
    simp only [bind, Except.bind, hrest]
    rfl

end Guarded

/-- **Nothing overflows**, whatever is asked of a memory, of registers, of a stack, of a processor
with a memory or of a machine, in any order and with any arguments, as long as the counts stay below
the largest word: every sum, difference and cast fits its word and every range lies in its slice, so
that all requests are answered as they should be, the wrong ones by a fault. -/
theorem nothing_overflows :
    (∀ (b : Board) (requests : List Board.Request),
      (∀ before, before <+: requests → (b.serveAll before).2.processor.unknown + 1 < 2 ^ 64) →
      GuardedAction.serveAll b requests = .ok (b.serveAll requests)) ∧
    (∀ program host, Guarded.ofProgram program host = .ok (Machine.ofProgram program host)) ∧
    ∀ (m : Machine) (ops : List Operation),
      (∀ before, before <+: ops → (before.foldl Machine.perform m).CountsFit) →
      Guarded.performAll m ops = .ok (m.answers ops, ops.foldl Machine.perform m) :=
  ⟨fun _ => serveAll_eq, Guarded.ofProgram_eq, fun _ => Guarded.performAll_eq⟩

/-- An unknown opcode in the last word of memory. -/
def unknownAtEnd : Board where
  memory := ⟨fun a => if a.val = 4094 then 0xF0 else 0x0A, 4094⟩
  processor := {}
  host := {}

/-- It is passed over, and behind it nothing can be read; the largest lengths, counts and indices
are refused. -/
theorem unknownAtEnd_served :
    let requests := [.step, .memory .readByte, .memory (.slice 0xFFFF (2 ^ 64 - 1)),
      .memory (.advance 0xFFFF), .getRegister 0xFF]
    (∃ responses last, GuardedAction.serveAll unknownAtEnd requests = .ok (responses, last) ∧
      responses = [.ok (.executed (.unknown ⟨0xF0, 0x0A⟩)), .error (.endOfMemory 4096),
        .error (.badAddress (2 ^ 64 - 1)), .error (.badAddress 69631),
        .error (.badRegister 0xFF)]) ∧
    ∃ answers last, Guarded.performAll (Machine.ofProgram [0x12, 0x00] {})
      [.step, .run [false, false, false]] = .ok (answers, last) ∧ last.steps = 4 := by
  intro requests
  constructor
  · have hcounts : ∀ before ∈ requests.inits,
        (unknownAtEnd.serveAll before).2.processor.unknown + 1 < 2 ^ 64 := by decide +kernel
    have hserved := nothing_overflows.1 unknownAtEnd requests fun before hbefore =>
      hcounts before ((List.mem_inits _ _).mpr hbefore)
    exact ⟨_, _, hserved, by decide +kernel⟩
  · let ops : List Operation := [.step, .run [false, false, false]]
    let m := Machine.ofProgram [0x12, 0x00] {}
    have hcounts : ∀ before ∈ ops.inits,
        (before.foldl Machine.perform m).steps + 1 < 2 ^ 64 ∧
          (before.foldl Machine.perform m).processor.unknown + 1 < 2 ^ 64 := by decide +kernel
    have hperformed := nothing_overflows.2.2 m ops fun before hbefore =>
      have hfit := hcounts before ((List.mem_inits _ _).mpr hbefore)
      ⟨hfit.1, hfit.2⟩
    exact ⟨_, _, hperformed, by decide +kernel⟩

end Chip8
