import Chip8.Proofs.Crash

/-! Calls and returns are brackets.

A call opens a bracket and the return that takes its frame off the stack closes it. In
between the program may call, return, jump and fail as it likes: as long as the bracket is
open, the frames below it are those of the caller and the one above them is the address
behind the call (`Open`), and the step that brings the depth back to the caller's is a
return to that address which leaves the caller's frames (`call_brackets`). A step opens or
closes brackets at the top of the stack only (`open_step`), so an induction over the
steps that follow the call carries all of this.

A call in the last word of memory is a bracket that cannot be closed: the address behind
it is the end of memory, and every return to there fails. -/
namespace Chip8

namespace Instruction

/-- The frames after an instruction at `pc`. -/
def frames (pc : UInt16) (old : List UInt16) : Instruction → List UInt16
  | .call _ => (pc + 2) :: old
  | .ret => old.tail
  | _ => old

end Instruction

namespace Board

variable {b b' : Board} {i : Instruction}

theorem act_frames (hroom : b.core.cursor ≤ 4094) (i : Instruction) :
    (i.act b.core).frames =
      (i.frames b.memory.cursor b.processor.stack.frames).map (·.toNat) := by
  cases i with
  | call target =>
    have hback : (b.memory.cursor + 2).toNat = b.memory.cursor.toNat + 2 := by
      refine Memory.toNat_add_of_le (d := 2) ?_
      exact Nat.add_le_of_le_sub (by decide) hroom
    exact congrArg (· :: b.processor.stack.frames.map (·.toNat)) hback.symm
  | ret =>
    rw [core, act_ret]
    rfl
  | skip comparison x right =>
    simp only [Instruction.act]
    split <;> rfl
  | _ => rfl

theorem step_frames (h : b.step = .ok i b') :
    b'.processor.stack.frames = i.frames b.memory.cursor b.processor.stack.frames := by
  have hsuccess := (outcome_of_step h).success
  have hframes := congrArg Core.frames hsuccess.effect
  rw [act_frames hsuccess.room] at hframes
  exact (List.map_inj_right fun _ _ => UInt16.toNat_inj.mp).mp hframes

/-- A return that succeeds goes to its target, and the target is in memory. -/
theorem step_ret (h : b.step = .ok .ret b') :
    b'.memory.cursor = b.target ∧ b.target.toNat < 4096 := by
  have houtcome := step_outcome b
  rw [h] at houtcome
  generalize hi : Instruction.ret = i at houtcome
  cases houtcome with
  | performed hop hnone hbytes hcore hhost =>
    rw [← hi] at hnone hcore
    constructor
    · have hcursor := congrArg Core.cursor hcore
      rw [core, core, act_ret] at hcursor
      exact UInt16.toNat_inj.mp hcursor
    · rw [core, obstacle_ret] at hnone
      split at hnone
      · assumption
      · cases hnone

/-- A return to the end of memory fails. -/
theorem step_ret_to_end {rest : List UInt16} (hnext : b.memory.Next .ret)
    (h : b.processor.stack.frames = 4096 :: rest) :
    ∃ b', b.step = .error (.badAddress 4096) b' := by
  refine step_fails_iff.mpr (.inr ⟨.ret, hnext, ?_⟩)
  exact Instruction.obstacle_ret_iff.mpr
    ⟨4096, rest.map (·.toNat), by simp [core, Core.of, h], Nat.le_refl _, rfl⟩

end Board

/-! ### Brackets -/

/-- Among these frames is an open call, to return to `back`, of a caller whose frames are
`caller`. -/
def Open (back : UInt16) (caller frames : List UInt16) : Prop :=
  ∃ inner, frames = inner ++ back :: caller

section Open
variable {back : UInt16} {caller frames : List UInt16}

theorem Open.length_lt (h : Open back caller frames) : caller.length < frames.length := by
  obtain ⟨inner, rfl⟩ := h
  simp only [List.length_append, List.length_cons]
  omega

/-- With one more frame than the caller has, the call itself is on top. -/
theorem Open.eq_of_length (h : Open back caller frames)
    (hlength : frames.length = caller.length + 1) : frames = back :: caller := by
  obtain ⟨inner, rfl⟩ := h
  simp only [List.length_append, List.length_cons] at hlength
  obtain rfl : inner = [] := List.length_eq_zero_iff.mp (by omega)
  rfl

/-- An instruction leaves an open call open, or it is the return from it. -/
theorem open_step (h : Open back caller frames) (pc : UInt16) (i : Instruction) :
    Open back caller (i.frames pc frames) ∨
      (i = .ret ∧ frames = back :: caller ∧ i.frames pc frames = caller) := by
  obtain ⟨inner, rfl⟩ := h
  cases i with
  | call target => exact .inl ⟨(pc + 2) :: inner, rfl⟩
  | ret =>
    cases inner with
    | nil => exact .inr ⟨rfl, rfl, rfl⟩
    | cons top inner => exact .inl ⟨inner, rfl⟩
  | _ => exact .inl ⟨inner, rfl⟩

end Open

namespace Machine

/-! ### The steps that follow -/

def frames (m : Machine) : List UInt16 := m.processor.stack.frames

/-- One step after another, failed ones included, whatever the host does to its side of
the machine and to the settings in between. -/
def Course (t : Nat → Machine) : Prop :=
  ∀ k, ∃ host settings, t (k + 1) = { stateOf (t k).step with host, settings }

/-- The machine after so many calls of `step`. -/
def stepped (m : Machine) : Nat → Machine
  | 0 => m
  | k + 1 => stateOf (m.stepped k).step

theorem course_stepped (m : Machine) : Course m.stepped := fun _ => ⟨_, _, rfl⟩

variable {m m' : Machine} {i : Instruction} {t : Nat → Machine} {k : Nat}
  {back : UInt16} {caller : List UInt16}

theorem step_frames (h : m.step = .ok i m') :
    ∃ pc, m.cursor = .ok pc ∧ m'.frames = i.frames pc m.frames := by
  obtain ⟨memory, b, hphase, hb, rfl⟩ := step_ok h
  exact ⟨memory.cursor, cursor_of_ready hphase, Board.step_frames hb⟩

theorem step_ret_cursor {rest : List UInt16} (h : m.step = .ok .ret m')
    (hframes : m.frames = back :: rest) : m'.cursor = .ok back ∧ back.toNat < 4096 := by
  obtain ⟨memory, b, hphase, hb, rfl⟩ := step_ok h
  obtain ⟨hcursor, hback⟩ := Board.step_ret hb
  have htarget : (m.board memory).target = back := by
    show (m.frames.head?).getD _ = back
    rw [hframes]
    rfl
  rw [htarget] at hcursor hback
  exact ⟨congrArg Except.ok hcursor, hback⟩

/-- The next of a course comes from a step that failed and left the frames alone, or from
one that has done an instruction. -/
theorem Course.cases (ht : Course t) (k : Nat) :
    (t (k + 1)).frames = (t k).frames ∨
      ∃ i n pc, (t k).step = .ok i n ∧ (t (k + 1)).cursor = n.cursor ∧
        (t (k + 1)).frames = i.frames pc (t k).frames := by
  obtain ⟨host, settings, hnext⟩ := ht k
  cases hstep : (t k).step with
  | error e n =>
    left
    rw [hnext, hstep]
    exact congrArg (·.stack.frames) (step_failure hstep).processor
  | ok i n =>
    right
    obtain ⟨pc, _, hframes⟩ := step_frames hstep
    rw [hnext, hstep]
    exact ⟨i, n, pc, rfl, rfl, hframes⟩

/-- A step of a course leaves an open call open, or it returns from it. -/
theorem Course.open_succ (ht : Course t) (h : Open back caller (t k).frames) :
    Open back caller (t (k + 1)).frames ∨
      (∃ n, (t k).step = .ok .ret n) ∧ (t (k + 1)).cursor = .ok back ∧
        (t (k + 1)).frames = caller ∧ back.toNat < 4096 := by
  obtain hsame | ⟨i, n, pc, hstep, hcursor, hframes⟩ := ht.cases k
  · left
    rwa [hsame]
  · obtain hopen | ⟨rfl, htop, hcaller⟩ := open_step h pc i
    · left
      rwa [hframes]
    · right
      obtain ⟨hback, hlt⟩ := step_ret_cursor hstep htop
      exact ⟨⟨n, hstep⟩, hcursor.trans hback, hframes.trans hcaller, hlt⟩

/-- A call stays open until the depth is the caller's again. -/
theorem Course.stays_open (ht : Course t) (h : Open back caller (t 0).frames)
    (hdepth : ∀ j ≤ k, (t j).frames.length ≠ caller.length) : Open back caller (t k).frames := by
  induction k with
  | zero => exact h
  | succ k ih =>
    obtain hopen | ⟨_, _, hcaller, _⟩ :=
      ht.open_succ (ih fun j hj => hdepth j (Nat.le_succ_of_le hj))
    · exact hopen
    · exact absurd (congrArg List.length hcaller) (hdepth (k + 1) (Nat.le_refl _))

/-- A call whose return address is the end of memory stays open for ever. -/
theorem Course.never_closed (ht : Course t) (h : Open 4096 caller (t 0).frames) (k : Nat) :
    Open 4096 caller (t k).frames := by
  induction k with
  | zero => exact h
  | succ k ih =>
    obtain hopen | ⟨_, _, _, hlt⟩ := ht.open_succ ih
    · exact hopen
    · exact absurd hlt (by decide)

theorem open_call {c target : UInt16} (hcursor : m.cursor = .ok c)
    (h : m.step = .ok (.call target) m') : Open (c + 2) m.frames m'.frames := by
  obtain ⟨pc, hpc, hframes⟩ := step_frames h
  cases hcursor.symm.trans hpc
  exact ⟨[], hframes⟩

/-- **Calls and returns are well bracketed.** After a call at `c`, as long as the stack is
deeper than before it, the frames of before are at its bottom with `c + 2` above them; the
first step after which it is as deep as before is a return to `c + 2` that leaves the frames
of before; and after a call in the last word of memory there is no such step, for a return
with nothing above the call fails. -/
theorem call_brackets {c target : UInt16} (hcursor : m.cursor = .ok c)
    (hcall : m.step = .ok (.call target) m') (ht : Course t) (hstart : t 0 = m') :
    (∀ k, (∀ j ≤ k, m.frames.length < (t j).frames.length) →
      ∃ inner, (t k).frames = inner ++ (c + 2) :: m.frames) ∧
    (∀ k, (∀ j ≤ k, (t j).frames.length ≠ m.frames.length) →
      (t (k + 1)).frames.length = m.frames.length →
      (∃ n, (t k).step = .ok .ret n) ∧ (t (k + 1)).cursor = .ok (c + 2) ∧
        (t (k + 1)).frames = m.frames) ∧
    (c = 4094 →
      (∀ k, m.frames.length < (t k).frames.length) ∧
      ∀ k memory, (t k).phase = .ready memory → memory.Next .ret →
        (t k).frames.length = m.frames.length + 1 →
        ∃ n, (t k).step = .error (.badAddress 4096) n) := by
  have hopen : Open (c + 2) m.frames (t 0).frames := by
    rw [hstart]
    exact open_call hcursor hcall
  refine ⟨?_, ?_, ?_⟩
  · exact fun k hdeep => ht.stays_open hopen fun j hj => Nat.ne_of_gt (hdeep j hj)
  · intro k hdepth hback
    obtain hstill | ⟨hret, hto, hframes, _⟩ := ht.open_succ (ht.stays_open hopen hdepth)
    · exact absurd hback (Nat.ne_of_gt hstill.length_lt)
    · exact ⟨hret, hto, hframes⟩
  · rintro rfl
    refine ⟨fun k => (ht.never_closed hopen k).length_lt, ?_⟩
    intro k memory hphase hnext hdepth
    have hframes := (ht.never_closed hopen k).eq_of_length hdepth
    obtain ⟨b, hb⟩ := Board.step_ret_to_end (b := (t k).board memory) hnext hframes
    exact ⟨_, step_ready_error hphase hb⟩

/-- A call of a call that clears the screen, which the display refuses the first time. -/
def nestedCalls : Machine :=
  ofProgram [0x22, 0x04, 0x12, 0x02, 0x22, 0x08, 0x00, 0xEE, 0x00, 0xE0, 0x00, 0xEE]
    { display := fun n => { failure := if n = 1 then some .noSuchDevice else none } }

/-- The fifth step after the call is the return from it: behind the inner call, the screen
that was not cleared, the screen that was and the inner return. -/
theorem nestedCalls_return :
    let after := stateOf nestedCalls.step
    nestedCalls.step = .ok (.call 0x204) after ∧ (∃ n, (after.stepped 4).step = .ok .ret n) ∧
      (after.stepped 5).cursor = .ok 0x202 ∧ (after.stepped 5).frames = [] := by
  intro after
  have hcall : nestedCalls.step = .ok (.call 0x204) after := rfl
  have hdepth : ∀ j ≤ 4, (after.stepped j).frames.length ≠ nestedCalls.frames.length := by
    decide +kernel
  have hback : (after.stepped 5).frames.length = nestedCalls.frames.length := by decide +kernel
  obtain ⟨hret, hto, hframes⟩ :=
    (call_brackets rfl hcall (course_stepped after) rfl).2.1 4 hdepth hback
  exact ⟨hcall, hret, hto, hframes⟩

end Machine

end Chip8
