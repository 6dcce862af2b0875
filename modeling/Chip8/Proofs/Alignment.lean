import Chip8.Proofs.Bracketing
import Chip8.Proofs.Crash
import Chip8.Proofs.Programs

/-! Programs that stay aligned.

Instructions have two bytes, but nothing makes a program stay at even addresses: an odd target of a
jump or a call is as good as an even one. A program that has none where an instruction can be as
long as it is at even addresses (`Aligned`) never leaves them, be it by a return or after a crash
(`step_even`, `even_of_history`). So it never fetches half an instruction, and there is little that
its faults can say (`EvenFault`). -/
namespace Chip8

namespace Instruction

/-- The instruction is no jump or call, or one to an even address. -/
def EvenTarget : Instruction → Prop
  | jump target | call target => target.toNat % 2 = 0
  | _ => True

end Instruction

/-- All words at even addresses that are jumps or calls have even targets. -/
def Aligned (program : List UInt8) : Prop :=
  ∀ a w : UInt16, a.toNat % 2 = 0 → (Memory.ofProgram program).word a = .ok w →
    (Instruction.decode (.ofWord w)).EvenTarget

/-- It is enough to look at the words that the program was written down as. -/
theorem aligned_assemble {words : List UInt16}
    (h : ∀ w ∈ words, (Instruction.decode (.ofWord w)).EvenTarget) : Aligned (assemble words) := by
  intro a w heven hw
  rcases Memory.mem_of_word heven hw with rfl | hmem
  · trivial
  · exact h w hmem

/-- The cursor and all addresses to return to are even. -/
structure Core.Even (s : Core) : Prop where
  cursor : s.cursor % 2 = 0
  frames : ∀ back ∈ s.frames, back % 2 = 0

/-- An instruction whose target is even, if it has one, keeps all that. -/
theorem Instruction.act_even {i : Instruction} {s : Core} (h : s.Even) (hi : i.EvenTarget) :
    (i.act s).Even := by
  have hnext : (s.cursor + 2) % 2 = 0 := by
    rw [Nat.add_mod_right]
    exact h.cursor
  cases i with
  | jump target => exact ⟨hi, h.frames⟩
  | call target =>
    refine ⟨hi, fun back hback => ?_⟩
    rcases List.mem_cons.mp hback with rfl | hback
    · exact hnext
    · exact h.frames back hback
  | ret =>
    obtain ⟨_, hbacks⟩ := h
    cases hframes : s.frames with
    | nil =>
      simp only [act, hframes]
      exact ⟨(rfl : 0x200 % 2 = 0), List.forall_mem_nil _⟩
    | cons back rest =>
      simp only [act, hframes]
      rw [hframes] at hbacks
      exact ⟨hbacks back List.mem_cons_self, fun b hb => hbacks b (List.mem_cons_of_mem _ hb)⟩
  | skip c x right =>
    simp only [act]
    split
    · exact ⟨(Nat.add_mod_right (s.cursor + 2) 2).trans hnext, h.frames⟩
    · exact ⟨hnext, h.frames⟩
  | clearScreen | system _ | load _ _ | add _ _ | loadIndex _ | unknown _ => exact ⟨hnext, h.frames⟩

namespace Board

variable {b f : Board} {e : Fault} {steps : Nat}

/-- Where there is no room for an instruction memory is at its end. -/
theorem cursor_of_no_room (hb : b.core.Bounded steps)
    (heven : b.core.Even) (h : 4095 ≤ b.core.cursor) : b.memory.cursor = 4096 := by
  have hend : b.core.cursor = 4096 := by
    have hhigh := hb.cursor
    have hparity := heven.cursor
    omega
  exact UInt16.toNat_inj.mp hend

/-- A fetch from an even address takes a whole instruction or nothing. -/
theorem fetch_error_of_even (hb : b.core.Bounded steps)
    (heven : b.core.Even) (h : b.fetch = .error e f) : b.memory.cursor = 4096 ∧ f = b := by
  cases hop : b.memory.opcode? with
  | some op => cases (fetch_ok hop).symm.trans h
  | none =>
    have hend := cursor_of_no_room hb heven (Memory.opcode?_eq_none_iff.mp hop)
    obtain ⟨cursor, hfetch, hcursor⟩ := fetch_error hop
    cases hfetch.symm.trans h
    obtain rfl : cursor = b.memory.cursor := hcursor.resolve_right (by rw [hend]; decide)
    exact ⟨hend, rfl⟩

end Board

namespace Machine

variable {program : List UInt8} {h : History} {m m' last : Machine} {memory : Memory} {e : Fault}

/-! ### Even addresses -/

/-- As long as it has this program, the machine is at even addresses. -/
def Evenly (program : List UInt8) (m : Machine) : Prop :=
  ∀ memory, m.phase = .ready memory →
    memory.bytes = (Memory.ofProgram program).bytes ∧ (m.board memory).core.Even

theorem step_even (hprogram : Aligned program) (hm : Evenly program m) :
    Evenly program (stateOf m.step) := by
  cases hstep : m.step with
  | error e m' =>
    -- A failed step leaves cursor and frames as they were.
    rw [step_error_eq hstep]
    exact hm
  | ok i m' =>
    obtain ⟨memory, b, hphase, hb, rfl⟩ := step_ok hstep
    obtain ⟨himage, heven⟩ := hm memory hphase
    have houtcome := (m.board memory).step_outcome
    rw [hb] at houtcome
    cases houtcome with
    | @performed op _ hop _ hbytes hcore _ =>
      rintro _ ⟨⟩
      refine ⟨hbytes.trans himage, ?_⟩
      show b.core.Even
      rw [hcore]
      refine Instruction.act_even heven ?_
      have hword : (Memory.ofProgram program).word memory.cursor = .ok op.word := by
        rw [← Memory.word_congr himage]
        exact Memory.word_of_opcode? hop
      have htarget := hprogram memory.cursor op.word heven.cursor hword
      rwa [Opcode.ofWord_word] at htarget

/-- Nothing that a host does takes a program with this property off even addresses. -/
theorem kept_even : Kept fun a m => m.image? = a.image? ∧
    ∀ program, a.program? = some program → Aligned program → Evenly program m where
  start a m memory loaded hmemory h := by
    refine ⟨kept_image.start a m memory loaded hmemory h.1, ?_⟩
    obtain ⟨_, hbytes⟩ := bytes_of_image? hmemory h.1
    rintro _ ⟨⟩ _ _ ⟨⟩
    exact ⟨congrArg (·.2.bytes) (Memory.load_over hbytes loaded), (rfl : 0x200 % 2 = 0), nofun⟩
  step a m h :=
    ⟨kept_image.step a m h.1, fun program hprogram haligned =>
      step_even haligned (h.2 program hprogram haligned)⟩
  record _ _ _ _ h := h
  token _ _ _ h := h
  configure _ _ _ h := h
  close a m h := by
    refine ⟨kept_image.close a m h.1, fun program _ _ memory hphase => ?_⟩
    unfold close at hphase
    split at hphase
    case h_1 hclosed => cases hclosed.symm.trans hphase
    case h_2 => cases hphase

theorem even_of_history (hprogram : h.account.program? = some program)
    (haligned : Aligned program) : Evenly program h.machine :=
  (h.induction kept_even ⟨image?_of_history (.unloaded h.host), nofun⟩).2 program hprogram haligned

/-! ### Faults -/

/-- What a fault says of a machine that is at even addresses. -/
structure EvenFault (e : Fault) (m : Machine) : Prop where
  /-- Memory ends where the next instruction would begin, and not within it. -/
  endOfMemory : ∀ a, e = .endOfMemory a → a = 4096 ∧ m.cursor = .ok 4096
  badAddress : ∀ a, e = .badAddress a → a = 4096 ∨ a = 4098

theorem step_fault (hm : Reachable m) (heven : Evenly program m) (hstep : m.step = .error e m') :
    EvenFault e m' := by
  cases hphase : m.phase with
  | unloaded memory =>
    cases (step_unloaded hphase).symm.trans hstep
    exact ⟨nofun, nofun⟩
  | closed =>
    cases (step_closed hphase).symm.trans hstep
    exact ⟨nofun, nofun⟩
  | ready memory =>
    obtain ⟨_, hthere⟩ := heven memory hphase
    have hbounded := hm.bounded hphase
    have hsame : m'.phase = .ready memory := (step_failure hstep).phase.trans hphase
    cases (step_error_iff_crash hm hphase).mp ⟨m', hstep⟩ with
    | pastEnd hlow =>
      have hcursor : memory.cursor = 4096 := Board.cursor_of_no_room hbounded hthere hlow
      refine ⟨?_, nofun⟩
      rintro a ⟨⟩
      refine ⟨rfl, ?_⟩
      rw [cursor_of_ready hsame, hcursor]
    | badReturn =>
      refine ⟨nofun, ?_⟩
      rintro a ⟨⟩
      exact .inl rfl
    | skip _ _ hlow hhigh =>
      refine ⟨nofun, ?_⟩
      rintro a ⟨⟩
      have := hthere.cursor
      omega
    | display | overflow => exact ⟨nofun, nofun⟩

theorem run_fault (hprogram : Aligned program) (hm : Reachable m) (heven : Evenly program m)
    (hphase : m.phase = .ready memory) {requests : List Bool}
    (h : (Run.start m).under requests = .ended (.error e) last) : EvenFault e last := by
  have hbegun : Reachable (Run.start m).machine := hm.perform (.run [])
  rw [Run.start_ready hphase] at h hbegun
  obtain ⟨n, ⟨hn, hthere⟩, hstep⟩ := Run.exists_step_of_error
    (P := fun m => Reachable m ∧ Evenly program m)
    (fun _ hm => ⟨hm.1.perform .step, step_even hprogram hm.2⟩)
    (fun _ hm => ⟨hm.1.perform .cancel, hm.2⟩) ⟨hbegun, heven⟩ h
  exact step_fault hn hthere hstep

end Machine

/-- What is true of a machine with a program that keeps to even addresses. -/
structure StaysEven (m : Machine) (memory : Memory) : Prop where
  cursor : memory.cursor.toNat % 2 = 0
  frames : ∀ back ∈ m.frames, back.toNat % 2 = 0
  /-- No fetch takes one byte only: one that fails fails at the end of memory and has read none. -/
  fetch : ∀ e f, (m.board memory).fetch = .error e f → memory.cursor = 4096 ∧ f = m.board memory
  step : ∀ e m', m.step = .error e m' → Machine.EvenFault e m'
  run : ∀ requests e last, (Run.start m).under requests = .ended (.error e) last →
    Machine.EvenFault e last

/-- **Aligned programs stay aligned**, whatever has been done with the machine since it has loaded
one. -/
theorem aligned_stays_even {h : History} {program : List UInt8} {memory : Memory}
    (hprogram : h.account.program? = some program) (haligned : Aligned program)
    (hphase : h.machine.phase = .ready memory) : StaysEven h.machine memory := by
  have hreach : h.machine.Reachable := History.reachable_iff.mpr ⟨h, rfl⟩
  have heven := Machine.even_of_history hprogram haligned
  obtain ⟨_, hcursor, hframes⟩ := heven memory hphase
  refine ⟨hcursor, List.forall_mem_map.mp hframes, ?_, ?_, fun requests e last hended => ?_⟩
  · exact fun _ _ => Board.fetch_error_of_even (hreach.bounded hphase) ⟨hcursor, hframes⟩
  · exact fun _ _ => Machine.step_fault hreach heven
  · exact Machine.run_fault haligned hreach heven hphase hended

/-- A call of a routine that may skip its return, and a jump to the last word of memory. -/
def callsEvenly : List UInt16 := [0x2204, 0x1FFE, 0x3001, 0x00EE, 0x00E0]

/-- In the routine. -/
def inRoutine : History := (History.ofProgram (assemble callsEvenly) {}).perform .step

/-- There is an even address to return to, and when the routine has returned the program runs off
the end of memory, but not out of the middle of a word. -/
theorem inRoutine_stays_even :
    inRoutine.machine.frames = [0x202] ∧ (∀ back ∈ inRoutine.machine.frames, back.toNat % 2 = 0) ∧
    ∃ last, (Run.start inRoutine.machine).under (List.replicate 5 false) =
      .ended (.error (.endOfMemory 4096)) last ∧ last.cursor = .ok 4096 := by
  have haligned : Aligned (assemble callsEvenly) := by
    refine aligned_assemble ?_
    simp only [callsEvenly, List.forall_mem_cons]
    exact ⟨rfl, rfl, trivial, trivial, trivial, nofun⟩
  obtain ⟨memory, hphase⟩ : ∃ memory, inRoutine.machine.phase = .ready memory := ⟨_, rfl⟩
  have heven := aligned_stays_even (h := inRoutine) rfl haligned hphase
  obtain ⟨last, hended⟩ : ∃ last, (Run.start inRoutine.machine).under (List.replicate 5 false) =
      .ended (.error (.endOfMemory 4096)) last := ⟨_, rfl⟩
  have hfault := heven.run _ _ _ hended
  exact ⟨rfl, heven.frames, last, hended, (hfault.endOfMemory 4096 rfl).2⟩

end Chip8
