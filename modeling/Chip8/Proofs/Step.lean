import Chip8.Machine
import Chip8.Proofs.Execution

/-! What one step does.

`step_outcome` lists it: a step has one of three outcomes, and every fact about steps is
read off them. `step_success` is the first of these facts, that a step that succeeds has
the effect of the instruction at the cursor, and no other. -/
namespace Chip8

namespace Board

/-- What a step can make of a board, with all that it leaves behind. -/
inductive Outcome (b : Board) : EStateM.Result Fault Board Instruction → Prop
  /-- There is no whole instruction at the cursor. -/
  | unfetched (h : b.memory.opcode? = none) :
      Outcome b (.error (.endOfMemory (max 4096 b.memory.cursor)) b)
  /-- The instruction has an obstacle: only the host has noticed. -/
  | refused {op : Opcode} {e : Fault} (h : b.memory.opcode? = some op)
      (he : (Instruction.decode op).obstacle b.reply b.core = some e) :
      Outcome b (.error e
        { b with host := b.host.observe b.memory.cursor (Instruction.decode op) })
  /-- The instruction has acted. -/
  | performed {op : Opcode} {b' : Board} (h : b.memory.opcode? = some op)
      (hnone : (Instruction.decode op).obstacle b.reply b.core = none)
      (hbytes : b'.memory.bytes = b.memory.bytes)
      (hcore : b'.core = (Instruction.decode op).act b.core)
      (hhost : b'.host = b.host.observe b.memory.cursor (Instruction.decode op)) :
      Outcome b (.ok (Instruction.decode op) b')

/-- The cursor can always be put back to where a failed step began. -/
theorem seek_back {b after : Board} {e : Fault} (h : fetchAndExecute b = .error e after)
    (hmoved : after.memory.cursor ≠ b.memory.cursor) :
    seek b.memory.cursor after = .ok () { after with memory := b.memory } := by
  obtain ⟨cursor, host, rfl, hc⟩ := fetchAndExecute_error h
  rw [seek_ok (hc.resolve_left hmoved)]

/-- Whatever a failed instruction did to the cursor is undone. -/
theorem step_error {b : Board} {e : Fault} {cursor : UInt16} {host : Host}
    (h : fetchAndExecute b = .error e { b with memory.cursor := cursor, host }) :
    step b = .error e { b with host } := by
  simp only [step, h]
  split
  case isTrue heq => rw [show cursor = b.memory.cursor from heq]
  case isFalse hne => rw [seek_back h hne]

/-- **A step does what the instruction set says**: nothing at all without a whole
instruction, nothing but what the host notices if there is an obstacle, and otherwise
what the instruction does. -/
theorem step_outcome (b : Board) : Outcome b b.step := by
  cases hop : b.memory.opcode? with
  | none =>
    obtain ⟨cursor, hexec, _⟩ := fetchAndExecute_unfetched hop
    rw [step_error hexec]
    exact .unfetched hop
  | some op =>
    cases hobstacle : (Instruction.decode op).obstacle b.reply b.core with
    | some e =>
      obtain ⟨cursor, hexec⟩ := fetchAndExecute_refused hop hobstacle
      rw [step_error hexec]
      exact .refused hop hobstacle
    | none =>
      obtain ⟨b', hexec, hbytes, hcore, hhost⟩ := fetchAndExecute_performed hop hobstacle
      have hstep : b.step = .ok (Instruction.decode op) b' := by simp only [step, hexec]
      rw [hstep]
      exact .performed hop hobstacle hbytes hcore hhost

/-- A step whose result is known has one of the outcomes with that result. -/
theorem outcome_of_step {b : Board} {r : EStateM.Result Fault Board Instruction} (h : b.step = r) :
    Outcome b r :=
  h ▸ step_outcome b

/-! ### Success -/

/-- All that a successful step of an instruction leaves of a board. -/
structure Success (b : Board) (i : Instruction) (b' : Board) : Prop where
  room : b.core.cursor ≤ 4094
  word : ∃ w, b.memory.Holds b.core.cursor w ∧ i = Instruction.ofWord w
  bytes : b'.memory.bytes = b.memory.bytes
  effect : b'.core = i.act b.core
  /-- To clear the screen is to ask the display once, which then does it. -/
  cleared : i = .clearScreen → b.reply.failure = none ∧
    b'.host.calls = b.host.calls + 1 ∧ b'.host.clears = b.host.clears + 1
  /-- No other instruction asks it. -/
  uncalled : i ≠ .clearScreen → b'.host.calls = b.host.calls ∧ b'.host.clears = b.host.clears

theorem Outcome.success {b b' : Board} {i : Instruction} (h : Outcome b (.ok i b')) :
    Success b i b' := by
  cases h with
  | @performed op _ hop hnone hbytes hcore hhost =>
    have hroom : b.core.cursor + 1 < 4096 := Memory.opcode?_lt hop
    refine ⟨by omega, Memory.next_iff.mpr ⟨op, hop, rfl⟩, hbytes, hcore, ?_, ?_⟩
    · intro hi
      rw [hi] at hnone hhost
      have hreply : b.reply.failure = none := Option.map_eq_none_iff.mp hnone
      refine ⟨hreply, ?_, ?_⟩
      · rw [hhost]
        exact Host.calls_clear _
      · rw [hhost]
        exact (Host.clears_clear _).trans (if_pos hreply)
    · intro hi
      obtain ⟨log, hlog⟩ := b.host.observe_of_ne b.memory.cursor hi
      rw [hhost, hlog]
      exact ⟨rfl, rfl⟩

/-- **A step that succeeds does what the instruction set says** of the word at the
cursor: that word is whole and is the instruction that comes back, memory keeps its
bytes, and cursor, registers, stack and count are as the instruction leaves them. -/
theorem step_success {b b' : Board} {i : Instruction} (h : b.step = .ok i b') :
    Success b i b' :=
  (outcome_of_step h).success

/-- A program that has called before has its next call in the last word of memory. -/
def callAtEnd : Board where
  memory := ⟨fun a => if a.val = 4094 then 0x23 else 0x45, 4094⟩
  processor := { stack := ⟨[0x202]⟩ }
  host := {}

/-- The address to return to is the end of memory. -/
theorem callAtEnd_success :
    ∃ b', callAtEnd.step = .ok (.call 0x345) b' ∧ b'.core.cursor = 0x345 ∧
      b'.core.frames = [4096, 0x202] := by
  obtain ⟨b', h⟩ : ∃ b', callAtEnd.step = .ok (.call 0x345) b' := ⟨_, rfl⟩
  have heffect := (step_success h).effect
  exact ⟨b', h, by rw [heffect]; rfl, by rw [heffect]; rfl⟩

end Board

/-! ### Steps of a machine -/

namespace Machine

variable {m : Machine} {memory : Memory} {b : Board}

/-- The board that a machine with a program steps. -/
def board (m : Machine) (memory : Memory) : Board := ⟨memory, m.processor, m.host⟩

theorem cursor_of_ready (h : m.phase = .ready memory) : m.cursor = .ok memory.cursor := by
  simp only [cursor, Machine.memory, h, Phase.memory?]
  rfl

theorem step_unloaded (h : m.phase = .unloaded memory) : m.step = .error .noProgram m := by
  simp only [step, h]

theorem step_closed (h : m.phase = .closed) : m.step = .error .closed m := by
  simp only [step, h]

theorem step_ready_ok {i : Instruction} (h : m.phase = .ready memory)
    (hb : (m.board memory).step = .ok i b) :
    m.step = .ok i { m.withBoard b with steps := m.steps + 1 } := by
  unfold board at hb
  simp only [step, h, hb]

theorem step_ready_error {e : Fault} (h : m.phase = .ready memory)
    (hb : (m.board memory).step = .error e b) : m.step = .error e (m.withBoard b) := by
  unfold board at hb
  simp only [step, h, hb]

/-- A machine with a program fails as its board does. -/
theorem step_error_iff_board {e : Fault} (h : m.phase = .ready memory) :
    (∃ m', m.step = .error e m') ↔ ∃ b, (m.board memory).step = .error e b := by
  constructor
  · rintro ⟨m', hm⟩
    cases hb : (m.board memory).step with
    | ok i b =>
      rw [step_ready_ok h hb] at hm
      cases hm
    | error e' b =>
      rw [step_ready_error h hb] at hm
      cases hm
      exact ⟨b, rfl⟩
  · rintro ⟨b, hb⟩
    exact ⟨_, step_ready_error h hb⟩

/-- Only a ready machine steps, and then its board does. -/
theorem step_ok {m' : Machine} {i : Instruction} (h : m.step = .ok i m') :
    ∃ memory b, m.phase = .ready memory ∧ (m.board memory).step = .ok i b ∧
      m' = { m.withBoard b with steps := m.steps + 1 } := by
  cases hphase : m.phase with
  | unloaded memory =>
    rw [step_unloaded hphase] at h
    cases h
  | closed =>
    rw [step_closed hphase] at h
    cases h
  | ready memory =>
    cases hb : (m.board memory).step with
    | ok i' b =>
      rw [step_ready_ok hphase hb] at h
      cases h
      exact ⟨memory, b, rfl, hb, rfl⟩
    | error e b =>
      rw [step_ready_error hphase hb] at h
      cases h

end Machine

end Chip8
