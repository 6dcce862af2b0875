import Chip8.Proofs.Interruption
import Chip8.Proofs.Transcript

/-! Runs that nobody disturbs.

With a display that does what it is asked and never cancels, and with nobody else asking for its
end, a run is the steps of its machine and nothing else. It ends after those that its limit
allows or with the first that fails (`Outcome`), and whether and how it does so can be told
without a run, from the program and the limit alone (`ended_iff_outcome`). What it reports
depends on no more than that either (`runReport_congr`), and its steps not even on the limit
(`step_withSettings`). -/
namespace Chip8

namespace Machine

variable {m n last : Machine} {memory : Memory} {limit : Option Nat} {j k turns : Nat} {e : Fault}
  {result result' : Except Fault Ending}

/-! ### Strides and standing -/

/-- The last of some steps in a row. -/
theorem stride_last (h : stride (k + 1) m = .ok () n) :
    ∃ n₀ i, stride k m = .ok () n₀ ∧ n₀.step = .ok i n := by
  cases hbefore : stride k m with
  | error e n₀ =>
    rw [stride_add_error hbefore 1] at h
    cases h
  | ok u n₀ =>
    rw [stride_add hbefore 1] at h
    cases hstep : n₀.step with
    | ok i n₁ =>
      rw [stride_succ_ok hstep] at h
      cases h
      exact ⟨n₀, i, rfl, hstep⟩
    | error e n₁ =>
      rw [stride_succ_error hstep] at h
      cases h

/-- None of them has failed. -/
theorem stride_before (h : stride k m = .ok () n) (hj : j < k) :
    ∃ n₀ i n₁, stride j m = .ok () n₀ ∧ n₀.step = .ok i n₁ := by
  induction k generalizing n with
  | zero => cases hj
  | succ k ih =>
    obtain ⟨n₀, i, hbefore, hstep⟩ := stride_last h
    rcases Nat.lt_succ_iff_lt_or_eq.mp hj with hlt | rfl
    · exact ih hbefore hlt
    · exact ⟨n₀, i, n, hbefore, hstep⟩

theorem standing_iff_stride : m.standing (fun _ => false) k = some n ↔ stride k m = .ok () n := by
  refine ⟨stride_of_standing, fun h => ?_⟩
  induction k generalizing n with
  | zero =>
    cases h
    rfl
  | succ k ih =>
    obtain ⟨n₀, i, hbefore, hstep⟩ := stride_last h
    exact standing_succ.mpr ⟨n₀, i, n, ih hbefore, hstep, rfl⟩

/-! ### Outcomes -/

/-- After how many steps a run ends that nobody disturbs, and how. -/
inductive Outcome (m : Machine) (limit : Option Nat) : Nat → Except Fault Ending → Prop
  /-- All the steps that it is allowed have succeeded. -/
  | finished {k : Nat} {n : Machine} (hlimit : limit = some k) (h : stride k m = .ok () n) :
      Outcome m limit k (.ok .limitReached)
  /-- The step after them, if it is allowed, fails. -/
  | crashed {k : Nat} {e : Fault} {n n' : Machine} (hbelow : ∀ most, limit = some most → k < most)
      (h : stride k m = .ok () n) (hstep : n.step = .error e n') : Outcome m limit k (.error e)

theorem Outcome.stride_ok (h : Outcome m limit k result) : ∃ n, stride k m = .ok () n := by
  cases h with
  | finished _ h | crashed _ h => exact ⟨_, h⟩

/-- Nothing has stopped the run before. -/
theorem Outcome.le_limit (h : Outcome m limit k result) {most : Nat} (hmost : limit = some most) :
    k ≤ most := by
  cases h with
  | finished hlimit => exact Nat.le_of_eq (Option.some_inj.mp (hlimit.symm.trans hmost))
  | crashed hbelow => exact Nat.le_of_lt (hbelow most hmost)

/-- A step that fails is not followed by one that succeeds. -/
theorem Outcome.not_lt (h : Outcome m limit j result) (h' : Outcome m limit k result') :
    ¬ j < k := by
  intro hlt
  obtain ⟨n', hn'⟩ := h'.stride_ok
  obtain ⟨n₀, i, n₁, hn₀, hsucceeds⟩ := stride_before hn' hlt
  cases h with
  | finished hlimit => exact absurd (h'.le_limit hlimit) (Nat.not_le_of_lt hlt)
  | crashed _ hn hfails =>
    cases hn.symm.trans hn₀
    cases hfails.symm.trans hsucceeds

/-- There is one outcome at most. -/
theorem Outcome.unique (h : Outcome m limit j result) (h' : Outcome m limit k result') :
    j = k ∧ result = result' := by
  obtain rfl : j = k := Nat.le_antisymm (Nat.not_lt.mp (h'.not_lt h)) (Nat.not_lt.mp (h.not_lt h'))
  refine ⟨rfl, ?_⟩
  cases h with
  | finished hlimit =>
    cases h' with
    | finished => rfl
    | crashed hbelow => exact absurd (hbelow j hlimit) (Nat.lt_irrefl j)
  | crashed hbelow hn hstep =>
    cases h' with
    | finished hlimit => exact absurd (hbelow j hlimit) (Nat.lt_irrefl j)
    | crashed _ hn' hstep' =>
      cases hn.symm.trans hn'
      cases hstep.symm.trans hstep'
      rfl

/-- Settings, log and token make no difference, nor does one reliable display or another. -/
theorem Outcome.congr (hmn : Matches m n) (h : Outcome m limit k result) :
    Outcome n limit k result := by
  have hstride := stride_matches hmn k
  generalize hn : stride k n = r at hstride
  cases h with
  | finished hlimit hm =>
    rw [hm] at hstride
    cases hstride with
    | ok _ hmatches => exact .finished hlimit hn
  | crashed hbelow hm hstep =>
    rw [hm] at hstride
    cases hstride with
    | @ok _ _ n₀ hmatches =>
      obtain ⟨n₁, hfails⟩ := stuck_of_matches ⟨_, hstep⟩ hmatches
      exact .crashed hbelow hn hfails

/-- The run finishes if it has a limit and all its steps succeed, and in no other way. -/
theorem Outcome.finished_iff (h : Outcome m limit k result) :
    result = .ok .limitReached ↔ ∃ most n, limit = some most ∧ stride most m = .ok () n := by
  constructor
  · rintro rfl
    cases h with
    | finished hlimit hn => exact ⟨k, _, hlimit, hn⟩
  · rintro ⟨most, n, hlimit, hn⟩
    exact (h.unique (.finished hlimit hn)).2

/-! ### Runs -/

theorem calm_of_stride (h : Free m) (hn : stride k m = .ok () n) : n.host.Calm := by
  have hcalm := stride_kept (P := fun m => m.host.Calm) (fun _ => Host.kept_calm.machine) h.calm k
  rwa [hn] at hcalm

/-- Where a run stops that nobody disturbs, it has an outcome. -/
theorem outcome_of_verdict (hm : Free m) (hfirst : m.HaltsFirst (fun _ => false) k)
    (hn : m.standing (fun _ => false) k = some n) {final : Machine}
    (h : n.Verdict k result final) : Outcome m m.settings.limit k result := by
  have hstride := standing_iff_stride.mp hn
  have hsettings := (standing_counts hn).2
  cases h with
  | cancelled hcancelled => cases (calm_of_stride hm hstride).token.symm.trans hcancelled
  | limitReached _ hlimit =>
    rw [hsettings] at hlimit
    exact .finished hlimit hstride
  | crashed _ hlimit hstep =>
    rw [hsettings] at hlimit
    refine .crashed (fun most hmost => ?_) hstride hstep
    refine Nat.lt_of_le_of_ne (le_limit hfirst.2 hmost) fun heq => hlimit ?_
    rw [heq, hmost]

/-- An outcome is the first reason to stop. -/
theorem Outcome.haltsFirst (hm : Free m) (h : Outcome m m.settings.limit k result) :
    m.HaltsFirst (fun _ => false) k := by
  obtain ⟨n, hn⟩ := h.stride_ok
  constructor
  · refine ⟨n, standing_iff_stride.mpr hn, .inr ?_⟩
    cases h with
    | finished hlimit => exact .inl hlimit
    | crashed _ hn' hstep =>
      cases hn.symm.trans hn'
      exact .inr ⟨_, _, hstep⟩
  · rintro j hj ⟨n₀, hn₀, hreason⟩
    have hstride := standing_iff_stride.mp hn₀
    obtain ⟨n₀', i, n₁, hn₀', hstep⟩ := stride_before hn hj
    cases hstride.symm.trans hn₀'
    rcases hreason with hcancelled | hlimit | ⟨e, n', hfails⟩
    · cases (calm_of_stride hm hstride).token.symm.trans hcancelled
    · exact absurd (h.le_limit hlimit) (Nat.not_le_of_lt hj)
    · cases hfails.symm.trans hstep

/-- What a run is known by that nobody has disturbed: its outcome, the steps that are counted and
all that it has reported. -/
structure Undisturbed (m : Machine) (memory : Memory) (k : Nat) (result : Except Fault Ending)
    (last : Machine) : Prop where
  outcome : Outcome m m.settings.limit k result
  phase : last.phase ≠ .closed
  steps : last.steps = m.steps + k
  log : last.host.log = m.host.log.recordAll (m.runReport memory (fun _ => false) k result)

theorem undisturbed_of_halts (hm : Free m) (hphase : m.phase = .ready memory)
    (hfirst : m.HaltsFirst (fun _ => false) k) :
    ∃ result last, (Run.start m).after (k + 1) = .ended result last ∧
      Undisturbed m memory k result last := by
  obtain ⟨n, result, final, last, hn, hverdict, hlike, hended⟩ := runFor_ended hphase hfirst
  have hworking := working_stride hm.toWorking k
  rw [standing_iff_stride.mp hn] at hworking
  obtain ⟨memory', hready⟩ := hworking.ready
  refine ⟨result, last, ?_, outcome_of_verdict hm hfirst hn hverdict, ?_, ?_,
    log_ended hphase hfirst hended⟩
  · rw [← runFor_unasked, hended]
  · have hfinal : final.phase = n.phase := by
      cases hverdict with
      | cancelled | limitReached => rfl
      | crashed _ _ hstep => exact (step_failure hstep).phase
    rw [← hlike.phase, hfinal]
    exact fun hclosed => nomatch hready.symm.trans hclosed
  · rw [← hlike.steps, hverdict.steps_eq, (standing_counts hn).1]

theorem undisturbed_of_ended (hm : Free m) (hphase : m.phase = .ready memory)
    (hended : (Run.start m).after turns = .ended result last) :
    ∃ k, Undisturbed m memory k result last := by
  rw [← runFor_unasked] at hended
  obtain ⟨k, hfirst⟩ := haltsFirst_of_ended hphase hended
  obtain ⟨result', last', hended', h⟩ := undisturbed_of_halts hm hphase hfirst
  rw [← runFor_unasked] at hended'
  obtain ⟨rfl, rfl⟩ := runFor_unique hended hended'
  exact ⟨k, h⟩

/-- **A run that nobody disturbs ends exactly if it has an outcome**, and then with it. -/
theorem ended_iff_outcome (hm : Free m) (hphase : m.phase = .ready memory) :
    (∃ turns last, (Run.start m).after turns = .ended result last) ↔
      ∃ k, Outcome m m.settings.limit k result := by
  constructor
  · rintro ⟨turns, last, hended⟩
    obtain ⟨k, h⟩ := undisturbed_of_ended hm hphase hended
    exact ⟨k, h.outcome⟩
  · rintro ⟨k, houtcome⟩
    obtain ⟨result', last, hended, h⟩ := undisturbed_of_halts hm hphase (houtcome.haltsFirst hm)
    obtain ⟨_, rfl⟩ := houtcome.unique h.outcome
    exact ⟨k + 1, last, hended⟩

/-- As long as its limit allows, such a run is where its steps lead. -/
theorem after_of_stride {steps : Nat} (hcalm : m.host.Calm)
    (hlimit : ∀ most, m.settings.limit = some most → steps + k ≤ most)
    (hn : stride k m = .ok () n) : (Run.going steps m).after k = .going (steps + k) n := by
  fun_induction stride k m generalizing steps with
  | case1 m =>
    cases hn
    rfl
  | case2 k m i m' hstep ih =>
    have hcalm' := Host.kept_calm.machine hcalm
    have hsettings := settings_step m
    rw [hstep] at hcalm' hsettings
    have hfree (most : Nat) (hmost : m.settings.limit = some most) : steps < most := by
      have := hlimit most hmost
      omega
    rw [Run.after, Run.turn_of_free hcalm.token hfree, Run.advance, hstep]
    refine (ih hcalm' (fun most hmost => ?_) hn).trans ?_
    · rw [stateOf] at hsettings
      have := hlimit most (hsettings ▸ hmost)
      omega
    · rw [Nat.add_assoc, Nat.add_comm 1]
  | case3 k m e m' hstep => cases hn

/-- And it ends with the step after them, if that fails. -/
theorem after_of_crash (hm : Free m) {steps : Nat}
    (hlimit : ∀ most, m.settings.limit = some most → steps + k < most)
    (hn : stride k m = .ok () n) (hstep : n.step = .error e last) (hturns : k < turns) :
    (Run.going steps m).after turns = .ended (.error e) last := by
  obtain ⟨rest, rfl⟩ := Nat.exists_eq_add_of_lt hturns
  have hsettings : n.settings = m.settings := (standing_counts (standing_iff_stride.mpr hn)).2
  have hgoing := after_of_stride hm.calm (fun most hmost => Nat.le_of_lt (hlimit most hmost)) hn
  have hturn : Run.turn (.going (steps + k) n) = .ended (.error e) last := by
    rw [Run.turn_of_free (calm_of_stride hm hn).token (by rwa [hsettings]), Run.advance, hstep]
  rw [Nat.add_assoc, Run.after_add, hgoing, Nat.add_comm rest 1, Run.after_add, Run.after,
    hturn]
  exact Run.after_ended rest _ _

/-! ### Settings -/

/-- No step looks at the settings. -/
theorem step_withSettings (m : Machine) (settings : Settings) :
    (m.withSettings settings).step =
      match m.step with
      | .ok i n => .ok i (n.withSettings settings)
      | .error e n => .error e (n.withSettings settings) := by
  cases hphase : m.phase with
  | unloaded memory =>
    rw [step_unloaded hphase, step_unloaded (m := m.withSettings settings) hphase]
  | closed => rw [step_closed hphase, step_closed (m := m.withSettings settings) hphase]
  | ready memory =>
    cases hb : (m.board memory).step with
    | ok i b =>
      rw [step_ready_ok hphase hb, step_ready_ok (m := m.withSettings settings) hphase hb]
      rfl
    | error e b =>
      rw [step_ready_error hphase hb, step_ready_error (m := m.withSettings settings) hphase hb]
      rfl

theorem stride_withSettings (h : stride k m = .ok () n) (settings : Settings) :
    stride k (m.withSettings settings) = .ok () (n.withSettings settings) := by
  fun_induction stride k m with
  | case1 m =>
    cases h
    rfl
  | case2 k m i m' hstep ih =>
    have hsettings := m.step_withSettings settings
    rw [hstep] at hsettings
    rw [stride_succ_ok hsettings]
    exact ih h
  | case3 k m e m' hstep => cases h

/-! ### Reports -/

theorem asked_matches (request : Bool) (h : Matches m n) :
    Matches (m.asked request) (n.asked request) := by
  cases request with
  | false => exact h
  | true => exact ⟨⟨h.phase, h.processor, h.steps⟩, h.host⟩

/-- Machines that have come to the same report the same from there on. -/
theorem runReport_congr (h : Matches m n) (hlimit : m.settings.limit = n.settings.limit)
    (memory : Memory) (requests : Nat → Bool) (k : Nat) (result : Except Fault Ending) :
    m.runReport memory requests k result = n.runReport memory requests k result := by
  have hreports (steps : Nat) : m.reports requests steps = n.reports requests steps :=
    reports_related (fun hab => hab.phase) (standing_related step_matches asked_matches h) steps
  rw [runReport, runReport, hreports, hlimit]

end Machine

end Chip8
