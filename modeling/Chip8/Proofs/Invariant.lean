import Chip8.Proofs.History
import Chip8.Proofs.Rollback

/-! What is always true of a machine.

`Core.Bounded` is the invariant of a running program: the cursor is in memory or just
behind it, addresses to return to are those behind a call, `I` has twelve bits, and no
more was counted or called than steps were made. An instruction that acts keeps it and
makes one step more (`act_bounded`). `Machine.Sound` is the invariant of a machine in any
phase, and `reachable_sound` says that no host can break it. -/
namespace Chip8

/-- The bounds of a program that has made so many steps. -/
structure Core.Bounded (s : Core) (steps : Nat) : Prop where
  cursor : s.cursor ≤ 4096
  depth : s.frames.length ≤ 15
  frames : ∀ back ∈ s.frames, 2 ≤ back ∧ back ≤ 4096
  index : s.i ≤ 0xFFF
  count : s.unknown + s.frames.length ≤ steps

namespace Instruction

variable {i : Instruction} {s : Core} {steps : Nat}

/-- An instruction that leaves the stack alone and counts itself at most. -/
theorem bounded_of_frames_eq {s' : Core} (h : s.Bounded steps) (hcursor : s'.cursor ≤ 4096)
    (hframes : s'.frames = s.frames) (hindex : s'.i ≤ 0xFFF)
    (hcount : s'.unknown ≤ s.unknown + 1) : s'.Bounded (steps + 1) := by
  have := h.count
  refine ⟨hcursor, ?_, ?_, hindex, ?_⟩
  · rw [hframes]
    exact h.depth
  · rw [hframes]
    exact h.frames
  · rw [hframes]
    omega

/-- An instruction keeps the bounds, as long as nothing is in its way. -/
theorem act_bounded {reply : Reply} (hi : i.InRange) (hroom : s.cursor ≤ 4094)
    (hnone : i.obstacle reply s = none) (h : s.Bounded steps) :
    (i.act s).Bounded (steps + 1) := by
  have hnext : (s.ahead 2).cursor ≤ 4096 := Nat.add_le_add_right hroom 2
  cases i with
  | clearScreen | system _ | load x nn | add x nn =>
    exact bounded_of_frames_eq h hnext rfl h.index (Nat.le_succ _)
  | loadIndex address =>
    exact bounded_of_frames_eq h hnext rfl (Nat.le_of_lt_succ hi) (Nat.le_succ _)
  | unknown op => exact bounded_of_frames_eq h hnext rfl h.index (Nat.le_refl _)
  | jump target => exact bounded_of_frames_eq h (Nat.le_of_lt hi) rfl h.index (Nat.le_succ _)
  | ret =>
    cases hframes : s.frames with
    | nil =>
      have horigin : 0x200 ≤ 4096 := by decide
      simp only [act, hframes]
      exact bounded_of_frames_eq h horigin hframes.symm h.index (Nat.le_succ _)
    | cons back rest =>
      have hback := lt_of_free_ret hframes hnone
      obtain ⟨_, hdepth, hbacks, hindex, hcount⟩ := h
      rw [hframes] at hdepth hbacks hcount
      simp only [List.length_cons] at hdepth hcount
      simp only [act, hframes]
      exact ⟨Nat.le_of_lt hback, by show rest.length ≤ 15; omega,
        fun t ht => hbacks t (List.mem_cons_of_mem _ ht), hindex,
        by show s.unknown + rest.length ≤ steps + 1; omega⟩
  | call target =>
    have hcount := h.count
    refine ⟨Nat.le_of_lt hi, lt_of_free_call hnone, ?_, h.index, ?_⟩
    · intro back hback
      rcases List.mem_cons.mp hback with rfl | hback
      · exact ⟨Nat.le_add_left 2 _, hnext⟩
      · exact h.frames back hback
    · show s.unknown + (s.frames.length + 1) ≤ steps + 1
      omega
  | skip c x right =>
    simp only [act]
    split
    next hmeets =>
      have hlt := lt_of_free_skip hmeets hnone
      exact bounded_of_frames_eq h (Nat.le_of_lt hlt) rfl h.index (Nat.le_succ _)
    next => exact bounded_of_frames_eq h hnext rfl h.index (Nat.le_succ _)

end Instruction

namespace Machine

/-- The bounds of a machine, whatever its phase. -/
structure Sound (m : Machine) : Prop where
  /-- The memory goes when the machine is closed, and only then. -/
  memory : m.phase.memory? = none ↔ m.phase = .closed
  bytes : ∀ memory, m.phase.memory? = some memory → (List.ofFn memory.bytes).length = 4096
  cursor : ∀ memory, m.phase.memory? = some memory → memory.cursor.toNat ≤ 4096
  depth : m.processor.stack.depth ≤ 15
  frames : ∀ back ∈ m.processor.stack.frames, 2 ≤ back.toNat ∧ back.toNat ≤ 4096
  index : m.processor.registers.i.toNat ≤ 0xFFF
  count : m.processor.unknown + m.processor.stack.depth ≤ m.steps
  /-- Nothing has happened before a program is loaded. -/
  fresh : ∀ memory, m.phase = .unloaded memory →
    m.steps = 0 ∧ m.processor.unknown = 0 ∧ (∀ k : Fin 16, m.processor.registers.v[k] = 0) ∧
    m.processor.registers.i = 0 ∧ m.processor.stack.frames = [] ∧
    (∀ a, memory.bytes a = 0) ∧ memory.cursor = 0x200

variable {m : Machine} {memory : Memory}

theorem Sound.bounded (h : Sound m) (hphase : m.phase = .ready memory) :
    (m.board memory).core.Bounded m.steps := by
  have hframes : (m.board memory).core.frames = m.processor.stack.frames.map (·.toNat) := rfl
  refine ⟨h.cursor memory (by rw [hphase]; rfl), ?_, ?_, h.index, ?_⟩
  · rw [hframes, List.length_map]
    exact h.depth
  · rw [hframes]
    exact List.forall_mem_map.mpr h.frames
  · rw [hframes, List.length_map]
    exact h.count

theorem sound_of_bounded (hphase : m.phase = .ready memory)
    (h : (m.board memory).core.Bounded m.steps) : Sound m := by
  obtain ⟨hcursor, hdepth, hframes, hindex, hcount⟩ := h
  have hmap : (m.board memory).core.frames = m.processor.stack.frames.map (·.toNat) := rfl
  rw [hmap, List.length_map] at hdepth hcount
  rw [hmap] at hframes
  have hmemory : m.phase.memory? = some memory := by
    rw [hphase]
    rfl
  refine ⟨?_, ?_, ?_, hdepth, List.forall_mem_map.mp hframes, hindex, hcount, ?_⟩
  · simp [hphase, Phase.memory?]
  · intro _ _
    exact List.length_ofFn
  · intro memory' h'
    rw [hmemory] at h'
    cases h'
    exact hcursor
  · intro memory' h'
    rw [hphase] at h'
    cases h'

/-- The host of a machine has no part in its soundness. -/
theorem sound_host (h : Sound m) (host : Host) : Sound { m with host } :=
  ⟨h.memory, h.bytes, h.cursor, h.depth, h.frames, h.index, h.count, h.fresh⟩

theorem sound_step (h : Sound m) : Sound (stateOf m.step) := by
  cases hstep : m.step with
  | error e m' =>
    rw [step_error_eq hstep]
    exact sound_host h _
  | ok i m' =>
    obtain ⟨memory, b, hphase, hb, rfl⟩ := step_ok hstep
    have houtcome := Board.step_outcome (m.board memory)
    rw [hb] at houtcome
    cases houtcome with
    | @performed op _ hop hnone _ hcore _ =>
      have hroom : (m.board memory).core.cursor + 1 < 4096 := Memory.opcode?_lt hop
      have hbounded := Instruction.act_bounded (Instruction.inRange_decode op) (by omega) hnone
        (h.bounded hphase)
      rw [← hcore] at hbounded
      exact sound_of_bounded rfl hbounded

theorem bounded_new : (Core.of Memory.origin {}).Bounded 0 :=
  ⟨by decide, by decide, by decide, by decide, by decide⟩

/-- A program that was just loaded has done nothing. -/
theorem sound_start (m : Machine) (memory : Memory) (program : List UInt8) :
    Sound (m.start (memory.load program)) :=
  sound_of_bounded rfl bounded_new

theorem sound_unloaded (host : Host) : Sound (unloaded host) := by
  refine ⟨by simp [unloaded, Phase.memory?], fun _ _ => List.length_ofFn, ?_, Nat.zero_le _,
    nofun, Nat.zero_le _, Nat.le_refl _, ?_⟩
  · rintro memory ⟨⟩
    decide
  · rintro memory ⟨⟩
    refine ⟨rfl, rfl, fun k => ?_, rfl, rfl, fun _ => rfl, rfl⟩
    exact Vector.getElem_replicate k.isLt

theorem sound_close (h : Sound m) : Sound m.close := by
  unfold close
  split
  · exact h
  · exact ⟨by simp [Phase.memory?], nofun, nofun, h.depth, h.frames, h.index, h.count, nofun⟩

theorem kept_sound : Kept fun _ => Sound where
  start _ m memory program _ _ := sound_start m memory program
  step _ _ := sound_step
  record _ _ _ _ h := sound_host h _
  token _ _ _ h := sound_host h _
  configure _ _ _ h := ⟨h.memory, h.bytes, h.cursor, h.depth, h.frames, h.index, h.count, h.fresh⟩
  close _ _ := sound_close

/-- The program of a machine that is ready is within its bounds. -/
theorem Reachable.bounded (h : Reachable m) (hphase : m.phase = .ready memory) :
    (m.board memory).core.Bounded m.steps :=
  (Reachable.induction kept_sound sound_unloaded h).bounded hphase

/-- **The invariant of a machine**: whatever a host has done with it, its memory is there
until it is closed, its bounds hold, and before the first program it is as new. -/
theorem reachable_sound {m : Machine} (h : Reachable m) : Sound m :=
  Reachable.induction kept_sound sound_unloaded h

/-- A program that fills memory has jumped to its last word, which is a call of the
return behind the jump. -/
def callFromEnd : Machine :=
  (ofProgram ([0x1F, 0xFE, 0x00, 0xEE] ++ List.replicate 3578 0 ++ [0x22, 0x02]) {}).perform
    (.run [false, false])

/-- The end of memory is an address to return to, and within the bounds. -/
theorem callFromEnd_sound :
    Reachable callFromEnd ∧ callFromEnd.processor.stack.frames = [4096] ∧ callFromEnd.steps = 2 ∧
      Sound callFromEnd := by
  have hreach : Reachable callFromEnd := .perform _ (.ofProgram _ {})
  exact ⟨hreach, by decide +kernel, by decide +kernel, reachable_sound hreach⟩

end Machine

end Chip8
