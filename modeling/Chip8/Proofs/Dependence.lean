import Chip8.Proofs.Bracketing
import Chip8.Proofs.Likeness
import Chip8.Proofs.Trace

/-! What a program depends on.

Where a program goes is decided by the bytes that are fetched as opcodes, the cursor, the registers
`V0` to `VF`, the frames and whether the display fails (`flow_depends_on_fetched`). `I`, the counts,
the settings, the token and all other bytes can be anything: no instruction looks at them, not even
to fail (`obstacle_flow`, `act_flow`).

Two machines are compared step by step. Which bytes have to agree is told by the steps themselves,
so what is carried along is that the machines are abreast (`Abreast`), and that gives the next
address that both of them fetch from (`step_abreast`). -/
namespace Chip8

/-! ### Instructions -/

/-- What decides where a program goes, with nothing in place of `I` and the count. -/
def Core.flow (s : Core) : Core := { s with i := 0, unknown := 0 }

def Processor.flow (p : Processor) : Processor := { p with registers.i := 0, unknown := 0 }

theorem Core.of_flow (c : UInt16) (p : Processor) : of c p.flow = (of c p).flow := rfl

theorem Core.meets_flow (s : Core) (c : Comparison) (x : UInt8) (right : Operand) :
    s.flow.meets c x right = s.meets c x right := by
  cases c <;> cases right <;> rfl

/-- Nothing but a cursor, registers and frames is compared. -/
theorem Core.flow_eq_iff {c c' : UInt16} {p p' : Processor} :
    (of c p).flow = (of c' p').flow ↔
      c = c' ∧ p.registers.v = p'.registers.v ∧ p.stack.frames = p'.stack.frames := by
  constructor
  · intro h
    rw [← of_flow, ← of_flow] at h
    obtain ⟨hcursor, hprocessor⟩ := of_inj h
    exact ⟨hcursor, congrArg (·.registers.v) hprocessor, congrArg (·.stack.frames) hprocessor⟩
  · rintro ⟨rfl, hv, hframes⟩
    simp only [flow, of, hv, hframes]

namespace Instruction

theorem obstacle_flow (reply : Reply) (s : Core) (i : Instruction) :
    i.obstacle reply s.flow = i.obstacle reply s := by
  cases i with
  | skip c x right =>
    simp only [obstacle, s.meets_flow]
    rfl
  | _ => rfl

theorem act_flow (s : Core) (i : Instruction) : (i.act s.flow).flow = (i.act s).flow := by
  cases i with
  | ret =>
    cases hframes : s.frames <;> simp only [act, Core.flow, hframes]
  | skip c x right =>
    simp only [act, s.meets_flow]
    split <;> rfl
  | _ => rfl

end Instruction

/-! ### One step -/

/-- Displays that will fail alike from now on, however often they were asked before. -/
def Host.FailAlike (h h' : Host) : Prop :=
  ∀ n, (h.display (h.calls + 1 + n)).failure = (h'.display (h'.calls + 1 + n)).failure

theorem Host.stepLikeness_failAlike : StepLikeness FailAlike where
  failure hh := hh 0
  record _ hh := hh
  clear {h h'} hh n := by
    have hnext := hh (n + 1)
    rw [Nat.add_comm n 1, ← Nat.add_assoc, ← Nat.add_assoc] at hnext
    rw [clear_eq, clear_eq]
    exact hnext

namespace Memory

/-- The byte at this address is fetched if there is an opcode at the cursor. -/
def Fetches (m : Memory) (a : Fin size) : Prop :=
  a.val = m.cursor.toNat ∨ a.val = m.cursor.toNat + 1

/-- An opcode is the bytes that are fetched. -/
theorem opcode?_congr {m n : Memory} (hcursor : m.cursor = n.cursor)
    (hbytes : ∀ a, m.Fetches a → m.bytes a = n.bytes a) : m.opcode? = n.opcode? := by
  obtain ⟨bytes, cursor⟩ := m
  obtain ⟨bytes', _⟩ := n
  obtain rfl := hcursor
  unfold opcode?
  split
  · rw [hbytes _ (.inl rfl), hbytes _ (.inr rfl)]
  · rfl

end Memory

namespace Board

/-- Boards that an instruction cannot tell apart. -/
structure Peers (b c : Board) : Prop where
  flow : b.core.flow = c.core.flow
  host : Host.FailAlike b.host c.host

theorem bytes_step (b : Board) : (stateOf b.step).memory.bytes = b.memory.bytes := by
  cases hb : b.step with
  | ok i b' => exact (outcome_of_step hb).success.bytes
  | error e b' => exact congrArg Memory.bytes (step_failure hb).memory

/-- With the same opcode at their cursors they answer the same, and stay as they are to each
other. -/
theorem step_peers {b c : Board} (h : Peers b c) (hopcode : b.memory.opcode? = c.memory.opcode?) :
    Agree Peers b.step c.step := by
  have hseen := Host.stepLikeness_failAlike.observe h.host
  have hcursor : b.memory.cursor = c.memory.cursor := (Core.flow_eq_iff.mp h.flow).1
  have houtcomes := step_outcomes hcursor hopcode fun i => by
    rw [← i.obstacle_flow, h.flow, i.obstacle_flow]
    exact i.obstacle_congr (Host.stepLikeness_failAlike.failure h.host) _
  generalize b.step = r at houtcomes ⊢
  generalize c.step = r' at houtcomes ⊢
  cases houtcomes with
  | unfetched e => exact .error e h
  | refused i e =>
    rw [← hcursor]
    exact .error e ⟨h.flow, hseen _ i⟩
  | performed i _ _ hcore hcore' hhost hhost' =>
    refine .ok i ⟨?_, ?_⟩
    · rw [hcore, hcore', ← i.act_flow, h.flow, i.act_flow]
    · rw [hhost, hhost', ← hcursor]
      exact hseen _ i

end Board

/-! ### The steps that follow -/

namespace Machine

variable {m m' : Machine} {bytes bytes' : Fin Memory.size → UInt8} {memory memory' : Memory}
  {n : Nat}

/-- The next step, should it fail or not, reads the byte at this address as one of an opcode. -/
def Fetches (m : Machine) (a : Fin Memory.size) : Prop :=
  ∃ memory, m.phase = .ready memory ∧ memory.Fetches a

/-- Machines with these bytes that have come to the same point of their programs. -/
inductive Abreast (bytes bytes' : Fin Memory.size → UInt8) (m m' : Machine) : Prop
  | intro (memory memory' : Memory) (hphase : m.phase = .ready memory)
      (hphase' : m'.phase = .ready memory') (hbytes : memory.bytes = bytes)
      (hbytes' : memory'.bytes = bytes') (hpeers : Board.Peers (m.board memory) (m'.board memory'))

/-- If they agree on the bytes that the one fetches, machines that are abreast make the same step
and are abreast after it. -/
theorem step_abreast (h : Abreast bytes bytes' m m')
    (hread : ∀ a, m.Fetches a → bytes a = bytes' a) :
    resultOf m.step = resultOf m'.step ∧
      Abreast bytes bytes' (stateOf m.step) (stateOf m'.step) := by
  obtain ⟨memory, memory', hphase, hphase', rfl, rfl, hpeers⟩ := h
  have hopcode : memory.opcode? = memory'.opcode? := by
    refine Memory.opcode?_congr (Core.flow_eq_iff.mp hpeers.flow).1 fun a ha => ?_
    exact hread a ⟨memory, hphase, ha⟩
  have hagree := Board.step_peers hpeers hopcode
  obtain ⟨hresult, steps, hstate⟩ := step_board hphase
  obtain ⟨hresult', steps', hstate'⟩ := step_board hphase'
  refine ⟨(hresult.trans hagree.result).trans hresult'.symm, ?_⟩
  rw [hstate, hstate']
  exact ⟨_, _, rfl, rfl, Board.bytes_step _, Board.bytes_step _, hagree.state⟩

theorem stepped_abreast (h : Abreast bytes bytes' m m')
    (hread : ∀ j < n, ∀ a, (m.stepped j).Fetches a → bytes a = bytes' a) :
    Abreast bytes bytes' (m.stepped n) (m'.stepped n) := by
  induction n with
  | zero => exact h
  | succ n ih =>
    have hbefore := ih fun j hj => hread j (Nat.lt_succ_of_lt hj)
    exact (step_abreast hbefore (hread n (Nat.lt_succ_self n))).2

/-- The displays have been asked equally often, if the steps have answered the same. -/
theorem calls_stepped (hresults : ∀ j < n,
    resultOf (m.stepped j).step = resultOf (m'.stepped j).step) :
    ∃ asked, (m.stepped n).host.calls = m.host.calls + asked ∧
      (m'.stepped n).host.calls = m'.host.calls + asked := by
  induction n with
  | zero => exact ⟨0, rfl, rfl⟩
  | succ n ih =>
    obtain ⟨asked, hcalls, hcalls'⟩ := ih fun j hj => hresults j (Nat.lt_succ_of_lt hj)
    refine ⟨asked + (asks (resultOf (m.stepped n).step)).toNat, ?_, ?_⟩
    · rw [stepped, calls_step, hcalls, Nat.add_assoc]
    · rw [stepped, calls_step, hcalls', ← hresults n (Nat.lt_succ_self n), Nat.add_assoc]

/-! ### What a program goes by -/

/-- Machines at the same place in the program with the same in `V0` to `VF` and on the stack. -/
structure Peers (m m' : Machine) : Prop where
  cursor : m.cursor = m'.cursor
  v : m.processor.registers.v = m'.processor.registers.v
  frames : m.frames = m'.frames

/-- So many steps of two machines are alike. -/
structure Parallel (m m' : Machine) (n : Nat) : Prop where
  /-- Instructions, and faults with their numbers. -/
  results : ∀ j < n, resultOf (m.stepped j).step = resultOf (m'.stepped j).step
  asked : ∀ j ≤ n, ∃ asked, (m.stepped j).host.calls = m.host.calls + asked ∧
    (m'.stepped j).host.calls = m'.host.calls + asked
  peers : ∀ j ≤ n, Peers (m.stepped j) (m'.stepped j)

theorem Peers.abreast (h : Peers m m') (hphase : m.phase = .ready memory)
    (hphase' : m'.phase = .ready memory') (hdisplay : Host.FailAlike m.host m'.host) :
    Abreast memory.bytes memory'.bytes m m' := by
  have hcursor := h.cursor
  rw [cursor_of_ready hphase, cursor_of_ready hphase'] at hcursor
  refine ⟨memory, memory', hphase, hphase', rfl, rfl, ?_, hdisplay⟩
  exact Core.flow_eq_iff.mpr ⟨Except.ok.inj hcursor, h.v, h.frames⟩

theorem Abreast.peers (h : Abreast bytes bytes' m m') : Peers m m' := by
  obtain ⟨memory, memory', hphase, hphase', _, _, hpeers⟩ := h
  obtain ⟨hcursor, hv, hframes⟩ := Core.flow_eq_iff.mp hpeers.flow
  refine ⟨?_, hv, hframes⟩
  rw [cursor_of_ready hphase, cursor_of_ready hphase']
  exact congrArg Except.ok hcursor

theorem Abreast.parallel (h : Abreast bytes bytes' m m')
    (hread : ∀ j < n, ∀ a, (m.stepped j).Fetches a → bytes a = bytes' a) : Parallel m m' n := by
  have habreast (j : Nat) (hj : j ≤ n) : Abreast bytes bytes' (m.stepped j) (m'.stepped j) :=
    stepped_abreast h fun i hi => hread i (Nat.lt_of_lt_of_le hi hj)
  have hresults : ∀ j < n, resultOf (m.stepped j).step = resultOf (m'.stepped j).step :=
    fun j hj => (step_abreast (habreast j (Nat.le_of_lt hj)) (hread j hj)).1
  refine ⟨hresults, fun j hj => ?_, fun j hj => (habreast j hj).peers⟩
  exact calls_stepped fun i hi => hresults i (Nat.lt_of_lt_of_le hi hj)

/-- The machine with other things in place of those that a program does not go by. -/
def disguised (m : Machine) (i : UInt16) (unknown steps : Nat) (settings : Settings) : Machine :=
  { m with
    processor := { m.processor with registers := { m.processor.registers with i }, unknown }
    settings
    steps }

/-- **What a program does depends only on what it fetches**, the cursor, the registers `V0` to `VF`,
the frames and whether the display fails. `I`, the counts and the settings can be changed at will,
and the program goes the same way for ever. -/
theorem flow_depends_on_fetched (hphase : m.phase = .ready memory) :
    (∀ m' memory' n, m'.phase = .ready memory' → Peers m m' → Host.FailAlike m.host m'.host →
      (∀ j < n, ∀ a, (m.stepped j).Fetches a → memory.bytes a = memory'.bytes a) →
      Parallel m m' n) ∧
    ∀ i unknown steps settings n, Parallel m (m.disguised i unknown steps settings) n := by
  constructor
  · intro m' memory' n hphase' hpeers hdisplay hread
    exact (hpeers.abreast hphase hphase' hdisplay).parallel hread
  · intro i unknown steps settings n
    have hpeers : Peers m (m.disguised i unknown steps settings) := ⟨rfl, rfl, rfl⟩
    exact (hpeers.abreast hphase hphase fun _ => rfl).parallel fun _ _ _ _ => rfl

/-- A program that clears the screen over and over, every other time in vain. -/
def flickering : Machine :=
  ofProgram [0x00, 0xE0, 0x12, 0x00]
    { display := fun n => { failure := if n % 2 = 0 then some .noSuchDevice else none } }

/-- The same program before a machine that has been at something else, with a byte behind it. -/
def flickeringElsewhere : Machine :=
  let memory := (Memory.blank.load [0x00, 0xE0, 0x12, 0x00]).2
  { flickering.disguised 0x123 7 9 { limit := some 1 } with
    phase := .ready { memory with
      bytes := fun a => if a.val = 0x300 then 0xFF else memory.bytes a } }

/-- The third step fails and the fourth does not, here and there. -/
theorem flickering_parallel :
    resultOf (flickeringElsewhere.stepped 2).step = .error (.display .noSuchDevice) ∧
      resultOf (flickeringElsewhere.stepped 3).step = .ok .clearScreen ∧
      (flickeringElsewhere.stepped 5).cursor = .ok 0x200 := by
  have hread : ∀ j < 5, ∀ a, (flickering.stepped j).Fetches a → a.val ≠ 0x300 := by
    have hcursors : ∀ j < 5, (flickering.stepped j).cursor = .ok 0x200 ∨
        (flickering.stepped j).cursor = .ok 0x202 := by decide +kernel
    rintro j hj a ⟨memory, hphase, ha⟩ hbehind
    have hcursor := hcursors j hj
    rw [cursor_of_ready hphase, Except.ok.injEq, Except.ok.injEq] at hcursor
    rw [Memory.Fetches, hbehind] at ha
    rcases hcursor with hcursor | hcursor <;> rw [hcursor] at ha <;> revert ha <;> decide
  obtain ⟨hresults, _, hpeers⟩ := (flow_depends_on_fetched (m := flickering) rfl).1
    flickeringElsewhere _ 5 rfl ⟨rfl, rfl, rfl⟩ (fun _ => rfl)
    fun j hj a ha => (if_neg (hread j hj a ha)).symm
  refine ⟨?_, ?_, ?_⟩
  · exact (hresults 2 (by decide)).symm.trans rfl
  · exact (hresults 3 (by decide)).symm.trans rfl
  · exact (hpeers 5 (by decide)).cursor.symm.trans rfl

end Machine

end Chip8
