import Chip8.Proofs.Stopping

/-! Steps in a row.

A stride is a number of steps one after another, watched by nobody, that ends early if one of
them fails. Strides add up (`stride_add`, `stride_add_error`), and what a step keeps they keep
(`stride_kept`). With a reliable display, what a stride comes to depends neither on the settings
nor on anything else that the host does (`stride_matches`), and where one has failed the next
step fails again with the same fault (`stuck_of_stride_error`). -/
namespace Chip8

/-- The display does what it is asked. -/
def Host.Reliable (h : Host) : Prop := ∀ n, (h.display n).failure = none

/-- A step cannot tell reliable displays apart. -/
theorem Host.stepLikeness_reliable : StepLikeness fun h h' => h.Reliable ∧ h'.Reliable where
  failure hh := (hh.1 _).trans (hh.2 _).symm
  record _ hh := hh
  clear hh := by
    rw [clear_eq, clear_eq]
    exact hh

namespace Machine

/-- Machines that have come to the same, before reliable displays. -/
abbrev Matches (m n : Machine) : Prop := Twin (fun h h' => h.Reliable ∧ h'.Reliable) m n

variable {m n last : Machine} {e : Fault} {k : Nat}

theorem matches_self (hm : m.host.Reliable) : Matches m m := ⟨⟨rfl, rfl, rfl⟩, hm, hm⟩

theorem Matches.symm (h : Matches m n) : Matches n m :=
  ⟨⟨h.phase.symm, h.processor.symm, h.steps.symm⟩, h.host.symm⟩

theorem Matches.trans (h : Matches m n) (h' : Matches n last) : Matches m last :=
  ⟨⟨h.phase.trans h'.phase, h.processor.trans h'.processor, h.steps.trans h'.steps⟩,
    h.host.1, h'.host.2⟩

theorem step_matches (h : Matches m n) : Agree Matches m.step n.step :=
  step_twin Host.stepLikeness_reliable h

/-- The log does not count. -/
theorem matches_of_sameButLog (h : Like Host.SameButLog m n) (hm : m.host.Reliable) :
    Matches m n := by
  refine ⟨h.twin.toSame, hm, ?_⟩
  rw [h.host]
  exact hm

/-! ### Strides -/

/-- So many steps one after another, up to the first that fails. -/
def stride : Nat → EStateM Fault Machine Unit
  | 0, m => .ok () m
  | k + 1, m =>
    match m.step with
    | .ok _ n => stride k n
    | .error e n => .error e n

theorem stride_succ_ok {i : Instruction} (h : m.step = .ok i n) (k : Nat) :
    stride (k + 1) m = stride k n := by
  simp only [stride, h]

theorem stride_succ_error (h : m.step = .error e n) (k : Nat) : stride (k + 1) m = .error e n := by
  simp only [stride, h]

/-- Steps after steps that have succeeded are steps. -/
theorem stride_add (h : stride k m = .ok () n) (l : Nat) : stride (k + l) m = stride l n := by
  fun_induction stride k m with
  | case1 m =>
    cases h
    rw [Nat.zero_add]
  | case2 k m i m' hstep ih =>
    rw [Nat.succ_add, stride_succ_ok hstep]
    exact ih h
  | case3 k m e m' hstep => cases h

/-- No step is made after one that has failed. -/
theorem stride_add_error (h : stride k m = .error e n) (l : Nat) :
    stride (k + l) m = .error e n := by
  fun_induction stride k m with
  | case1 m => cases h
  | case2 k m i m' hstep ih =>
    rw [Nat.succ_add, stride_succ_ok hstep]
    exact ih h
  | case3 k m e' m' hstep =>
    rw [Nat.succ_add, stride_succ_error hstep]
    exact h

/-- A stride fails with the step after some that have succeeded. -/
theorem exists_of_stride_error (h : stride k m = .error e n) :
    ∃ j < k, ∃ n₀, stride j m = .ok () n₀ ∧ n₀.step = .error e n := by
  fun_induction stride k m with
  | case1 m => cases h
  | case2 k m i m' hstep ih =>
    obtain ⟨j, hj, n₀, hn₀, hfails⟩ := ih h
    refine ⟨j + 1, Nat.succ_lt_succ hj, n₀, ?_, hfails⟩
    rw [stride_succ_ok hstep, hn₀]
  | case3 k m e' m' hstep =>
    cases h
    exact ⟨0, Nat.succ_pos k, m, rfl, hstep⟩

/-- What a step keeps any number of them keeps. -/
theorem stride_kept {P : Machine → Prop} (hP : ∀ m, P m → P (stateOf m.step)) (hm : P m) (k : Nat) :
    P (stateOf (stride k m)) := by
  fun_induction stride k m with
  | case1 m => exact hm
  | case2 k m i m' hstep ih =>
    have hnext := hP m hm
    rw [hstep] at hnext
    exact ih hnext
  | case3 k m e m' hstep =>
    have hnext := hP m hm
    rw [hstep] at hnext
    exact hnext

/-- Steps that succeed are counted. -/
theorem steps_of_stride (h : stride k m = .ok () n) : n.steps = m.steps + k := by
  fun_induction stride k m with
  | case1 m =>
    cases h
    rfl
  | case2 k m i m' hstep ih =>
    obtain ⟨_, _, _, _, rfl⟩ := step_ok hstep
    rw [ih h, Nat.add_assoc, Nat.add_comm 1 k]
  | case3 k m e m' hstep => cases h

theorem stride_matches (h : Matches m n) (k : Nat) : Agree Matches (stride k m) (stride k n) := by
  induction k generalizing m n with
  | zero => exact .ok () h
  | succ k ih =>
    have hstep := step_matches h
    generalize hm : m.step = r at hstep
    generalize hn : n.step = r' at hstep
    cases hstep with
    | ok i hnext =>
      rw [stride_succ_ok hm, stride_succ_ok hn]
      exact ih hnext
    | error e hnext =>
      rw [stride_succ_error hm, stride_succ_error hn]
      exact .error e hnext

/-- Unless it is asked to end, a machine stands where its steps lead. -/
theorem stride_of_standing (h : m.standing (fun _ => false) k = some n) : stride k m = .ok () n := by
  induction k generalizing n with
  | zero =>
    cases h
    rfl
  | succ k ih =>
    obtain ⟨n₀, i, n₁, h₀, hstep, rfl⟩ := standing_succ.mp h
    rw [stride_add (ih h₀), stride_succ_ok hstep]
    rfl

/-- A machine with a program and a display to rely on. -/
structure Working (m : Machine) : Prop where
  ready : ∃ memory, m.phase = .ready memory
  reliable : m.host.Reliable

theorem Working.matches (h : Working m) (hmn : Matches m n) : Working n :=
  ⟨hmn.phase ▸ h.ready, hmn.host.2⟩

theorem working_step (m : Machine) (h : Working m) : Working (stateOf m.step) := by
  refine ⟨?_, (step_matches (matches_self h.reliable)).state.host.1⟩
  obtain ⟨memory, hphase⟩ := h.ready
  unfold step
  rw [hphase]
  dsimp only
  split <;> exact ⟨_, rfl⟩

theorem working_stride (h : Working m) (k : Nat) : Working (stateOf (stride k m)) :=
  stride_kept working_step h k

/-! ### Crashes -/

/-- The next step fails. -/
def Stuck (e : Fault) (m : Machine) : Prop := ∃ n, m.step = .error e n

theorem stuck_of_matches (h : Stuck e m) (hmn : Matches m n) : Stuck e n := by
  obtain ⟨m', hstep⟩ := h
  have hagree := step_matches hmn
  rw [hstep] at hagree
  generalize hn : n.step = r at hagree
  cases hagree with
  | @error _ _ n' => exact ⟨n', hn⟩

/-- With a reliable display a step that has failed has done nothing, and fails again. -/
theorem matches_of_step_error (h : m.step = .error e n) (hm : m.host.Reliable) : Matches m n := by
  obtain ⟨hphase, hprocessor, _, hsteps, hhost⟩ := step_failure h
  refine ⟨⟨hphase.symm, hprocessor.symm, hsteps.symm⟩, hm, ?_⟩
  rw [Host.Reliable, hhost.display]
  exact hm

/-- A stride that fails has counted the steps before the failure, and leaves another failure to
come. -/
theorem stuck_of_stride_error (h : Working m) (hstride : stride k m = .error e n) :
    Stuck e n ∧ ∃ j < k, n.steps = m.steps + j := by
  obtain ⟨j, hj, n₀, hn₀, hstep⟩ := exists_of_stride_error hstride
  have hworking := working_stride h j
  rw [hn₀] at hworking
  have hmatches := matches_of_step_error hstep hworking.reliable
  exact ⟨stuck_of_matches ⟨n, hstep⟩ hmatches, j, hj,
    hmatches.steps.symm.trans (steps_of_stride hn₀)⟩

end Machine

end Chip8
