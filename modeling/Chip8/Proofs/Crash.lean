import Chip8.Proofs.Invariant

/-! Crashes.

A program can crash in five ways and no other (`Board.Crash`), and which of them a board is
in can be read off the word at its cursor. That this list is exact takes the bounds of
reachable machines: with an address to return to beyond the end of memory there would be
further faults. A run crashes as one of its steps does, and no fault of a
ready machine is anything but a crash (`ready_fails_iff_crash`). -/
namespace Chip8

namespace Memory

theorem next_unique {m : Memory} {i j : Instruction} (hi : m.Next i) (hj : m.Next j) : i = j := by
  obtain ⟨op, hop, rfl⟩ := next_iff.mp hi
  obtain ⟨op', hop', rfl⟩ := next_iff.mp hj
  rw [hop, Option.some.injEq] at hop'
  rw [hop']

theorem opcode?_eq_none_iff {m : Memory} : m.opcode? = none ↔ 4095 ≤ m.cursor.toNat := by
  unfold opcode?
  split
  case isTrue hroom => exact iff_of_false (Option.some_ne_none _) (by unfold size at hroom; omega)
  case isFalse hroom => exact iff_of_true rfl (by unfold size at hroom; omega)

end Memory

namespace Board

/-- The ways in which a program crashes, each with its fault. -/
inductive Crash (b : Board) : Fault → Prop
  /-- There is no room for an instruction at the cursor. -/
  | pastEnd (h : 4095 ≤ b.core.cursor) : Crash b (.endOfMemory 4096)
  /-- The screen is to be cleared and the display fails. -/
  | display {cause : DeviceError} (hi : b.memory.Next .clearScreen)
      (h : b.reply.failure = some cause) : Crash b (.display cause)
  /-- The call to return from was in the last word of memory. -/
  | badReturn {rest : List Nat} (hi : b.memory.Next .ret) (h : b.core.frames = 4096 :: rest) :
      Crash b (.badAddress 4096)
  | overflow {target : UInt16} (hi : b.memory.Next (.call target))
      (h : b.core.frames.length = 15) : Crash b (.stackOverflow 15)
  /-- The instruction to skip is the last one, or there is none. -/
  | skip {c : Comparison} {x : UInt8} {right : Operand} (hi : b.memory.Next (.skip c x right))
      (hmeets : b.core.meets c x right = true) (hlow : 4092 ≤ b.core.cursor)
      (hhigh : b.core.cursor ≤ 4094) : Crash b (.badAddress (b.core.cursor + 4))

variable {b : Board} {e : Fault}

/-- A step fails for want of an instruction or by the obstacle of the next one. -/
theorem step_fails_iff :
    (∃ b', b.step = .error e b') ↔
      (b.memory.opcode? = none ∧ e = .endOfMemory (max 4096 b.memory.cursor)) ∨
        ∃ i, b.memory.Next i ∧ i.obstacle b.reply b.core = some e := by
  constructor
  · rintro ⟨b', h⟩
    have houtcome := step_outcome b
    rw [h] at houtcome
    cases houtcome with
    | unfetched hop => exact .inl ⟨hop, rfl⟩
    | refused hop he => exact .inr ⟨_, Memory.next_iff.mpr ⟨_, hop, rfl⟩, he⟩
  · rintro (⟨hop, rfl⟩ | ⟨i, hi, he⟩)
    · obtain ⟨cursor, hexec, _⟩ := fetchAndExecute_unfetched hop
      exact ⟨_, step_error hexec⟩
    · obtain ⟨op, hop, rfl⟩ := Memory.next_iff.mp hi
      obtain ⟨cursor, hexec⟩ := fetchAndExecute_refused hop he
      exact ⟨_, step_error hexec⟩

/-- The obstacles of a board within bounds are its crashes. -/
theorem crash_of_obstacle {i : Instruction} {steps : Nat} (hb : b.core.Bounded steps)
    (hi : b.memory.Next i) (h : i.obstacle b.reply b.core = some e) : Crash b e := by
  cases i with
  | clearScreen =>
    obtain ⟨cause, hreply, rfl⟩ := Option.map_eq_some_iff.mp h
    exact .display hi hreply
  | ret =>
    obtain ⟨back, rest, hframes, hback, rfl⟩ := Instruction.obstacle_ret_iff.mp h
    have hbound := (hb.frames back (hframes ▸ List.mem_cons_self)).2
    obtain rfl : back = 4096 := Nat.le_antisymm hbound hback
    exact .badReturn hi hframes
  | call target =>
    obtain ⟨hfull, rfl⟩ := Instruction.obstacle_call_iff.mp h
    have hdepth : b.core.frames.length = 15 := Nat.le_antisymm hb.depth hfull
    rw [hdepth]
    exact .overflow hi hdepth
  | skip c x right =>
    obtain ⟨hmeets, hend, rfl⟩ := Instruction.obstacle_skip_iff.mp h
    obtain ⟨op, hop, _⟩ := Memory.next_iff.mp hi
    have hroom : b.core.cursor + 1 < 4096 := Memory.opcode?_lt hop
    exact .skip hi hmeets (by omega) (by omega)
  | system _ | jump _ | load _ _ | add _ _ | loadIndex _ | unknown _ => cases h

/-- What crashes a program is in the way of its next instruction. -/
theorem Crash.obstacle (h : Crash b e) :
    (b.memory.opcode? = none ∧ e = .endOfMemory 4096) ∨
      ∃ i, b.memory.Next i ∧ i.obstacle b.reply b.core = some e := by
  cases h with
  | pastEnd h => exact .inl ⟨Memory.opcode?_eq_none_iff.mpr h, rfl⟩
  | @display cause hi h => exact .inr ⟨_, hi, Option.map_eq_some_iff.mpr ⟨cause, h, rfl⟩⟩
  | badReturn hi h =>
    exact .inr ⟨_, hi, Instruction.obstacle_ret_iff.mpr ⟨_, _, h, Nat.le_refl _, rfl⟩⟩
  | overflow hi h =>
    exact .inr ⟨_, hi, Instruction.obstacle_call_iff.mpr ⟨Nat.le_of_eq h.symm, by rw [h]⟩⟩
  | skip hi hmeets hlow hhigh =>
    have hend := Nat.add_le_add_right hlow 4
    exact .inr ⟨_, hi, Instruction.obstacle_skip_iff.mpr ⟨hmeets, hend, rfl⟩⟩

/-- A fetch in memory or just behind it can fail in one way only. -/
theorem max_cursor {steps : Nat} (hb : b.core.Bounded steps) : max 4096 b.memory.cursor = 4096 := by
  by_cases hle : 4096 ≤ b.memory.cursor
  · have hcursor : b.memory.cursor = 4096 :=
      UInt16.le_antisymm (UInt16.le_iff_toNat_le.mpr hb.cursor) hle
    rw [hcursor]
    rfl
  · exact if_neg hle

/-- **A board within bounds fails to step exactly when its program crashes.** -/
theorem step_fails_iff_crash {steps : Nat} (hb : b.core.Bounded steps) :
    (∃ b', b.step = .error e b') ↔ Crash b e := by
  rw [step_fails_iff, max_cursor hb]
  constructor
  · rintro (⟨hop, rfl⟩ | ⟨i, hi, he⟩)
    · exact .pastEnd (Memory.opcode?_eq_none_iff.mp hop)
    · exact crash_of_obstacle hb hi he
  · exact Crash.obstacle

/-- Nothing is in the way of a jump. -/
theorem step_jump {target : UInt16} (h : b.memory.Next (.jump target)) :
    ∃ b', b.step = .ok (.jump target) b' := by
  have houtcome := step_outcome b
  cases hstep : b.step with
  | error e b' =>
    obtain ⟨hnone, _⟩ | ⟨i, hi, he⟩ := step_fails_iff.mp ⟨b', hstep⟩
    · obtain ⟨op, hop, _⟩ := Memory.next_iff.mp h
      rw [hop] at hnone
      cases hnone
    · cases Memory.next_unique h hi
      cases he
  | ok i b' =>
    rw [hstep] at houtcome
    cases houtcome with
    | performed hop =>
      rw [← Memory.next_unique h (Memory.next_iff.mpr ⟨_, hop, rfl⟩)]
      exact ⟨b', rfl⟩

end Board

/-- A fault with which a program crashes, and not a refusal to somebody who asks too
much. -/
structure Fault.OfProgram (e : Fault) : Prop where
  fatal : e.isFatal = true
  register : ∀ index, e ≠ .badRegister index
  input : ∀ cause, e ≠ .input cause
  closed : e ≠ .closed
  unloaded : e ≠ .noProgram

theorem Board.Crash.ofProgram {b : Board} {e : Fault} (h : b.Crash e) : e.OfProgram := by
  cases h <;> exact ⟨rfl, nofun, nofun, nofun, nofun⟩

namespace Machine

/-- A machine crashes as its board does. -/
theorem step_error_iff_crash {m : Machine} {memory : Memory} {e : Fault} (h : Reachable m)
    (hphase : m.phase = .ready memory) :
    (∃ m', m.step = .error e m') ↔ (m.board memory).Crash e := by
  rw [step_error_iff_board hphase, Board.step_fails_iff_crash (h.bounded hphase)]

end Machine

/-! ### Runs -/

namespace Run

/-- A run that goes on has a ready machine; one that has failed crashed where a step of
a machine would have. -/
def Sane : Run → Prop
  | going _ m => Machine.Reachable m ∧ ∃ memory, m.phase = .ready memory
  | ended (.error e) _ => ∃ m memory, Machine.Reachable m ∧ m.phase = .ready memory ∧
      (m.board memory).Crash e
  | ended (.ok _) _ => True

variable {m : Machine} {memory : Memory}

theorem sane_advance (hm : Machine.Reachable m) (hphase : m.phase = .ready memory) (steps : Nat) :
    (advance steps m).Sane := by
  unfold advance
  cases hs : m.step with
  | ok i m' =>
    have hreach := hm.perform .step
    obtain ⟨_, b, _, _, hm'⟩ := Machine.step_ok hs
    rw [Machine.perform, hs] at hreach
    exact ⟨hreach, b.memory, by rw [hm']; rfl⟩
  | error e m' =>
    have hcrash := (Machine.step_error_iff_crash hm hphase).mp ⟨m', hs⟩
    exact ⟨m, memory, hm, hphase, hcrash⟩

theorem sane_turn {r : Run} (h : r.Sane) : r.turn.Sane := by
  cases r with
  | ended result m => exact h
  | going steps m =>
    obtain ⟨hm, memory, hphase⟩ := h
    obtain ⟨_, hturn⟩ | ⟨_, _, _, _, hturn⟩ | ⟨_, _, hturn⟩ := turn_cases steps m
    · rw [hturn]
      trivial
    · rw [hturn]
      trivial
    · rw [hturn]
      exact sane_advance hm hphase steps

theorem sane_under {r : Run} (h : r.Sane) (requests : List Bool) : (r.under requests).Sane := by
  refine under_kept (Q := Sane) (fun _ => sane_turn) ?_ h requests
  exact fun _ _ hm => ⟨hm.1.perform .cancel, hm.2⟩

theorem sane_start (hm : Machine.Reachable m) (hphase : m.phase = .ready memory) :
    (start m).Sane := by
  have hreach := hm.perform (.run [])
  simp only [Machine.perform, under, start, hphase] at hreach ⊢
  exact ⟨hreach, memory, hphase⟩

end Run

namespace Machine

/-- **A machine that is ready fails exactly when its program crashes.** A step of it fails
in the five ways of a crash, each with its fault, and never for a jump; a run of it, asked
to end or not, fails only in these ways; and all of that is the program's own doing. -/
theorem ready_fails_iff_crash {m : Machine} {memory : Memory} (h : Reachable m)
    (hphase : m.phase = .ready memory) :
    (∀ e, (∃ m', m.step = .error e m') ↔ (m.board memory).Crash e) ∧
    (∀ target, memory.Next (.jump target) → ∃ m', m.step = .ok (.jump target) m') ∧
    (∀ e m', m.step = .error e m' → e.OfProgram) ∧
    ∀ requests e m', (Run.start m).under requests = .ended (.error e) m' → e.OfProgram ∧
      ∃ n memory', Reachable n ∧ n.phase = .ready memory' ∧ (n.board memory').Crash e := by
  have hcrash := fun e => step_error_iff_crash h hphase (e := e)
  refine ⟨hcrash, ?_, ?_, ?_⟩
  · intro target hnext
    obtain ⟨b, hb⟩ := Board.step_jump (b := m.board memory) hnext
    exact ⟨_, step_ready_ok hphase hb⟩
  · intro e m' hm'
    exact ((hcrash e).mp ⟨m', hm'⟩).ofProgram
  · intro requests e m' hrun
    have hsane := Run.sane_under (Run.sane_start h hphase) requests
    rw [hrun] at hsane
    obtain ⟨n, memory', hn, hready, hc⟩ := hsane
    exact ⟨hc.ofProgram, n, memory', hn, hready, hc⟩

set_option maxRecDepth 20000 in
/-- A call from the last word of memory cannot be returned from. -/
theorem callFromEnd_crashes :
    ∃ memory m', Reachable callFromEnd ∧ callFromEnd.phase = .ready memory ∧
      callFromEnd.step = .error (.badAddress 4096) m' ∧
      (callFromEnd.board memory).Crash (.badAddress 4096) := by
  have hreach : Reachable callFromEnd := .perform _ (.ofProgram _ {})
  obtain ⟨memory, hphase⟩ : ∃ memory, callFromEnd.phase = .ready memory := ⟨_, rfl⟩
  obtain ⟨m', hstep⟩ : ∃ m', callFromEnd.step = .error (.badAddress 4096) m' := ⟨_, rfl⟩
  have hcrash := (ready_fails_iff_crash hreach hphase).1 (.badAddress 4096)
  exact ⟨memory, m', hreach, hphase, hstep, hcrash.mp ⟨m', hstep⟩⟩

end Machine

end Chip8
