import Chip8.Proofs.Likeness
import Chip8.Proofs.Rollback
import Mathlib.Data.Nat.Find

/-! When a run stops.

A run makes steps, and before each of them there are three reasons to stop: its end has
been asked for, it has made as many steps as it may, or the next step fails. The run goes
as far as the first of them, and no further (`run_iterates_step`): it has made exactly the
steps before it, one after another, and if there are several reasons at once a request
counts more than the limit and the limit more than the failure. Nothing else can end a
run, so one with a limit always ends and one without ends exactly if there is a reason.

Requests may come from outside before any turn (`asked`) or from the display in the middle
of a step; the latter are noticed before the next step, if there is one. -/
namespace Chip8

namespace Machine

/-! ### How far a run goes -/

/-- The machine after somebody has or has not asked for the end of its run. -/
def asked (m : Machine) (request : Bool) : Machine := if request then m.cancel else m

/-- The machine that a step leaves, if the step succeeds. -/
def next? (m : Machine) : Option Machine :=
  match m.step with
  | .ok _ n => some n
  | .error _ _ => none

/-- The machine after so many successful steps, one after another; `requests` says before
which of its steps, this next one included, the end of its run was asked for. -/
def standing (m : Machine) (requests : Nat → Bool) : Nat → Option Machine
  | 0 => some (m.asked (requests 0))
  | k + 1 => ((m.standing requests k).bind next?).map (·.asked (requests (k + 1)))

/-- There is a reason to stop after so many steps. -/
def Halts (m : Machine) (requests : Nat → Bool) (k : Nat) : Prop :=
  ∃ n, m.standing requests k = some n ∧
    (n.host.cancelled = true ∨ m.settings.limit = some k ∨ ∃ e n', n.step = .error e n')

/-- There is, and there was none before. -/
def HaltsFirst (m : Machine) (requests : Nat → Bool) (k : Nat) : Prop :=
  m.Halts requests k ∧ ∀ j < k, ¬ m.Halts requests j

/-- What becomes of a run that has made `k` steps and has a reason to stop, and of its
machine. -/
inductive Verdict (n : Machine) (k : Nat) : Except Fault Ending → Machine → Prop
  | cancelled (h : n.host.cancelled = true) : Verdict n k (.ok .cancelled) n
  | limitReached (h : n.host.cancelled = false) (hlimit : n.settings.limit = some k) :
      Verdict n k (.ok .limitReached) n
  | crashed {e : Fault} {n' : Machine} (h : n.host.cancelled = false)
      (hlimit : n.settings.limit ≠ some k) (hstep : n.step = .error e n') :
      Verdict n k (.error e) n'

/-- A run after so many turns. -/
def runFor (m : Machine) (requests : Nat → Bool) (turns : Nat) : Run :=
  (Run.start m).under ((List.range turns).map requests)

variable {m n n' : Machine} {requests : Nat → Bool} {k : Nat}

/-- A run that nobody asks to end goes its own way. -/
theorem runFor_unasked (m : Machine) (turns : Nat) :
    m.runFor (fun _ => false) turns = (Run.start m).after turns := by
  rw [runFor, List.map_const', List.length_range, Run.under_replicate]

theorem runFor_succ (m : Machine) (requests : Nat → Bool) (turns : Nat) :
    m.runFor requests (turns + 1) = (m.runFor requests turns).under [requests turns] := by
  rw [runFor, List.range_succ, List.map_append, Run.under_append]
  rfl

theorem runFor_of_ended {result : Except Fault Ending} {turns turns' : Nat}
    (h : m.runFor requests turns = .ended result n) (hle : turns ≤ turns') :
    m.runFor requests turns' = .ended result n := by
  induction hle with
  | refl => exact h
  | step _ ih =>
    rw [runFor_succ, ih]
    rfl

theorem runFor_unique {result result' : Except Fault Ending} {turns turns' : Nat}
    (h : m.runFor requests turns = .ended result n)
    (h' : m.runFor requests turns' = .ended result' n') : result = result' ∧ n = n' := by
  have hlate := runFor_of_ended h (Nat.le_max_left turns turns')
  have hlate' := runFor_of_ended h' (Nat.le_max_right turns turns')
  exact Run.ended.inj (hlate.symm.trans hlate')

/-! ### One step after another -/

theorem next?_eq_some : m.next? = some n ↔ ∃ i, m.step = .ok i n := by
  unfold next?
  cases m.step <;> simp

theorem standing_succ :
    m.standing requests (k + 1) = some n ↔
      ∃ n₀ i n₁, m.standing requests k = some n₀ ∧ n₀.step = .ok i n₁ ∧
        n = n₁.asked (requests (k + 1)) := by
  simp only [standing, Option.map_eq_some_iff, Option.bind_eq_some_iff, next?_eq_some]
  constructor
  · rintro ⟨n₁, ⟨n₀, h₀, i, hstep⟩, rfl⟩
    exact ⟨n₀, i, n₁, h₀, hstep, rfl⟩
  · rintro ⟨n₀, i, n₁, h₀, hstep, rfl⟩
    exact ⟨n₁, ⟨n₀, h₀, i, hstep⟩, rfl⟩

/-- A machine that was asked to end its run is otherwise as it was. -/
theorem asked_eq (m : Machine) (request : Bool) :
    m.asked request = { m with host := (m.asked request).host } := by
  cases request <;> rfl

theorem asked_alike {R : Host → Host → Prop} (hR : Host.Likeness R) (h : Like R m n)
    (request : Bool) : Like R (m.asked request) (n.asked request) := by
  cases request with
  | false => exact h
  | true => exact cancel_alike hR h

/-- The steps made are counted, and no step changes the settings. -/
theorem standing_counts (h : m.standing requests k = some n) :
    n.steps = m.steps + k ∧ n.settings = m.settings := by
  induction k generalizing n with
  | zero =>
    cases h
    rw [asked_eq]
    exact ⟨rfl, rfl⟩
  | succ k ih =>
    obtain ⟨n₀, i, n₁, h₀, hstep, rfl⟩ := standing_succ.mp h
    obtain ⟨hsteps, hsettings⟩ := ih h₀
    obtain ⟨_, b, _, _, rfl⟩ := step_ok hstep
    rw [asked_eq]
    exact ⟨by rw [← Nat.add_assoc, ← hsteps], hsettings⟩

/-- Where there is no reason to stop a further step is made. -/
theorem step_of_not_halts (h : ¬ m.Halts requests k) (hn : m.standing requests k = some n) :
    n.host.cancelled = false ∧ m.settings.limit ≠ some k ∧ ∃ i n', n.step = .ok i n' := by
  refine ⟨?_, ?_, ?_⟩
  · exact Bool.eq_false_iff.mpr fun hc => h ⟨n, hn, .inl hc⟩
  · exact fun hlimit => h ⟨n, hn, .inr (.inl hlimit)⟩
  · cases hstep : n.step with
    | ok i n' => exact ⟨i, n', rfl⟩
    | error e n' => exact absurd ⟨n, hn, .inr (.inr ⟨e, n', hstep⟩)⟩ h

theorem standing_of_not_halts (h : ∀ j < k, ¬ m.Halts requests j) :
    ∃ n, m.standing requests k = some n := by
  induction k with
  | zero => exact ⟨_, rfl⟩
  | succ k ih =>
    obtain ⟨n, hn⟩ := ih fun j hj => h j (Nat.lt_succ_of_lt hj)
    obtain ⟨_, _, i, n', hstep⟩ := step_of_not_halts (h k (Nat.lt_succ_self k)) hn
    exact ⟨_, standing_succ.mpr ⟨n, i, n', hn, hstep, rfl⟩⟩

/-- As long as there is no reason to stop the limit is not behind. -/
theorem le_limit {limit : Nat} (h : ∀ j < k, ¬ m.Halts requests j)
    (hlimit : m.settings.limit = some limit) : k ≤ limit := by
  refine Nat.le_of_not_lt fun hlt => h limit hlt ?_
  obtain ⟨n, hn⟩ := standing_of_not_halts fun j hj => h j (Nat.lt_trans hj hlt)
  exact ⟨n, hn, .inr (.inl hlimit)⟩

theorem haltsFirst_of_halts (h : m.Halts requests k) : ∃ j ≤ k, m.HaltsFirst requests j := by
  classical
  have hex : ∃ j, m.Halts requests j := ⟨k, h⟩
  exact ⟨Nat.find hex, Nat.find_min' hex h, Nat.find_spec hex, fun j => Nat.find_min hex⟩

/-- The limit itself is a reason to stop, if there is none before it. -/
theorem haltsFirst_of_limit {limit : Nat} (hlimit : m.settings.limit = some limit) :
    ∃ k ≤ limit, m.HaltsFirst requests k := by
  by_cases hbefore : ∃ j < limit, m.Halts requests j
  · obtain ⟨j, hj, hhalts⟩ := hbefore
    obtain ⟨k, hk, hfirst⟩ := haltsFirst_of_halts hhalts
    exact ⟨k, Nat.le_trans hk (Nat.le_of_lt hj), hfirst⟩
  · have hnone : ∀ j < limit, ¬ m.Halts requests j := fun j hj hh => hbefore ⟨j, hj, hh⟩
    obtain ⟨n, hn⟩ := standing_of_not_halts hnone
    exact ⟨limit, Nat.le_refl _, ⟨n, hn, .inr (.inl hlimit)⟩, hnone⟩

/-! ### The run -/

variable {memory : Memory} {w : Machine}

/-- A turn of a run that is neither to be cancelled nor at its limit is a step, and finds
what the step finds. -/
theorem turn_advances (h : ∀ j < k, ¬ m.Halts requests j) (hn : m.standing requests k = some n)
    (hlike : Like Host.SameButLog n w) (hcancelled : n.host.cancelled = false)
    (hlimit : m.settings.limit ≠ some k) :
    Run.turn (.going k w) = Run.advance k w ∧ Agree (Like Host.SameButLog) n.step w.step := by
  refine ⟨Run.turn_of_free ?_ ?_, step_alike Host.likeness_sameButLog hlike⟩
  · rw [← hcancelled, Host.likeness_sameButLog.cancelled hlike.host]
  · intro limit hsome
    rw [← hlike.settings, (standing_counts hn).2] at hsome
    exact Nat.lt_of_le_of_ne (le_limit h hsome) fun he => hlimit (he ▸ hsome)

theorem runFor_turn (hgoing : m.runFor requests k = .going k w) :
    m.runFor requests (k + 1) = Run.turn (.going k (w.asked (requests k))) := by
  rw [runFor_succ, hgoing]
  rfl

/-- As long as there is no reason to stop, the run is where the steps lead. -/
theorem runFor_going (hphase : m.phase = .ready memory) (h : ∀ j < k, ¬ m.Halts requests j)
    (hn : m.standing requests k = some n) :
    ∃ w, m.runFor requests k = .going k w ∧ Like Host.SameButLog n (w.asked (requests k)) := by
  induction k generalizing n with
  | zero =>
    cases hn
    refine ⟨m.record (.running memory.cursor), ?_, asked_alike Host.likeness_sameButLog ?_ _⟩
    · simp only [runFor, List.range_zero, List.map_nil, Run.under, Run.start, hphase]
    · exact like_record m _
  | succ k ih =>
    obtain ⟨n₀, i, n₁, hn₀, hstep, rfl⟩ := standing_succ.mp hn
    have hbefore : ∀ j < k, ¬ m.Halts requests j := fun j hj => h j (Nat.lt_succ_of_lt hj)
    obtain ⟨w, hgoing, hlike⟩ := ih hbefore hn₀
    obtain ⟨hcancelled, hlimit, _⟩ := step_of_not_halts (h k (Nat.lt_succ_self k)) hn₀
    obtain ⟨hturn, hagree⟩ := turn_advances hbefore hn₀ hlike hcancelled hlimit
    rw [hstep] at hagree
    generalize hw : (w.asked (requests k)).step = r at hagree
    cases hagree with
    | @ok _ _ w' hlike' =>
      refine ⟨w', ?_, asked_alike Host.likeness_sameButLog hlike' _⟩
      rw [runFor_turn hgoing, hturn, Run.advance, hw]

/-- At the first reason to stop the run ends. -/
theorem runFor_ended (hphase : m.phase = .ready memory) (h : m.HaltsFirst requests k) :
    ∃ n result final last, m.standing requests k = some n ∧ n.Verdict k result final ∧
      Like Host.SameButLog final last ∧ m.runFor requests (k + 1) = .ended result last := by
  obtain ⟨⟨n, hn, hreason⟩, hbefore⟩ := h
  obtain ⟨w, hgoing, hlike⟩ := runFor_going hphase hbefore hn
  have hsettings := (standing_counts hn).2
  have hasked := Host.likeness_sameButLog.cancelled hlike.host
  rw [runFor_turn hgoing]
  cases hc : n.host.cancelled with
  | true =>
    exact ⟨n, _, n, _, hn, .cancelled hc, like_trans_record hlike _,
      Run.turn_of_cancelled (hasked.symm.trans hc)⟩
  | false =>
    by_cases hlimit : m.settings.limit = some k
    · have hn' : n.settings.limit = some k := by rw [hsettings, hlimit]
      exact ⟨n, _, n, _, hn, .limitReached hc hn', like_trans_record hlike _,
        Run.turn_of_limit (hasked.symm.trans hc) (hlike.settings ▸ hn') (Nat.le_refl k)⟩
    · obtain ⟨e, n', hstep⟩ : ∃ e n', n.step = .error e n' := by
        rcases hreason with hc' | hl | hfails
        · cases hc.symm.trans hc'
        · exact absurd hl hlimit
        · exact hfails
      obtain ⟨hturn, hagree⟩ := turn_advances hbefore hn hlike hc hlimit
      rw [hstep] at hagree
      generalize hw : (w.asked (requests k)).step = r at hagree
      cases hagree with
      | @error _ _ w' hlike' =>
        refine ⟨n, _, n', w', hn, .crashed hc (by rwa [hsettings]) hstep, hlike', ?_⟩
        rw [hturn, Run.advance, hw]

/-- A run that has ended had a reason to stop. -/
theorem haltsFirst_of_ended {result : Except Fault Ending} {turns : Nat}
    (hphase : m.phase = .ready memory) (hended : m.runFor requests turns = .ended result n) :
    ∃ k, m.HaltsFirst requests k := by
  by_cases hhalts : ∃ k, m.Halts requests k
  · obtain ⟨k, hk⟩ := hhalts
    obtain ⟨j, _, hfirst⟩ := haltsFirst_of_halts hk
    exact ⟨j, hfirst⟩
  · have hnone : ∀ j < turns, ¬ m.Halts requests j := fun j _ hj => hhalts ⟨j, hj⟩
    obtain ⟨n, hn⟩ := standing_of_not_halts hnone
    obtain ⟨w, hgoing, _⟩ := runFor_going hphase hnone hn
    cases hended.symm.trans hgoing

theorem Verdict.steps_eq {result : Except Fault Ending} {final : Machine}
    (h : n.Verdict k result final) : final.steps = n.steps := by
  cases h with
  | cancelled | limitReached => rfl
  | crashed _ _ hstep => exact (step_failure hstep).steps

/-- **A run is one step after another, up to the first reason to stop.** It makes exactly
the steps before it, ends as that reason has it, and leaves the machine that those steps
leave, the log apart. With a limit there always is such a reason, within the limit; and
a run ends only if there is one. -/
theorem run_iterates_step (hphase : m.phase = .ready memory) (requests : Nat → Bool) :
    (∀ k, m.HaltsFirst requests k → ∃ n result final last,
      m.standing requests k = some n ∧ n.Verdict k result final ∧
      Like Host.SameButLog final last ∧ last.steps = m.steps + k ∧
      ∀ turns, (turns ≤ k → ∃ w, m.runFor requests turns = .going turns w) ∧
        (k < turns → m.runFor requests turns = .ended result last)) ∧
    (∀ limit, m.settings.limit = some limit → ∃ k ≤ limit, m.HaltsFirst requests k) ∧
    ((∃ turns result last, m.runFor requests turns = .ended result last) ↔
      ∃ k, m.HaltsFirst requests k) := by
  refine ⟨?_, fun _ => haltsFirst_of_limit, ?_, ?_⟩
  · intro k hfirst
    obtain ⟨n, result, final, last, hn, hverdict, hlike, hended⟩ := runFor_ended hphase hfirst
    refine ⟨n, result, final, last, hn, hverdict, hlike, ?_, fun turns => ⟨?_, ?_⟩⟩
    · rw [← hlike.steps, hverdict.steps_eq, (standing_counts hn).1]
    · intro hle
      have hbefore : ∀ j < turns, ¬ m.Halts requests j :=
        fun j hj => hfirst.2 j (Nat.lt_of_lt_of_le hj hle)
      obtain ⟨n', hn'⟩ := standing_of_not_halts hbefore
      obtain ⟨w, hgoing, _⟩ := runFor_going hphase hbefore hn'
      exact ⟨w, hgoing⟩
    · exact runFor_of_ended hended
  · rintro ⟨turns, result, last, hended⟩
    exact haltsFirst_of_ended hphase hended
  · rintro ⟨k, hfirst⟩
    obtain ⟨_, result, _, last, _, _, _, hended⟩ := runFor_ended hphase hfirst
    exact ⟨k + 1, result, last, hended⟩

/-- A machine that may make one step, which clears the screen; `reply` is the display's
only answer. -/
def clearing (reply : Reply) : Machine :=
  (ofProgram [0x00, 0xE0, 0x00, 0xE0] { display := fun _ => reply }).withSettings
    { limit := some 1 }

/-- A request that comes with the last step counts more than the limit, and less than the
failure of that very step. -/
theorem clearing_stops :
    (∃ last, (Run.start (clearing { cancels := true })).after 2 = .ended (.ok .cancelled) last ∧
      last.steps = 1) ∧
    ∃ last, (Run.start (clearing { failure := some .noSuchDevice, cancels := true })).after 1 =
      .ended (.error (.display .noSuchDevice)) last ∧ last.steps = 0 ∧
        last.host.cancelled = true := by
  constructor
  · have hfirst : (clearing { cancels := true }).HaltsFirst (fun _ => false) 1 := by
      refine ⟨⟨_, rfl, .inl rfl⟩, ?_⟩
      rintro j hj ⟨n, hn, hreason⟩
      obtain rfl : j = 0 := Nat.lt_one_iff.mp hj
      cases hn
      rcases hreason with h | h | ⟨e, n', h⟩ <;> cases h
    obtain ⟨n, result, final, last, hn, hverdict, _, hsteps, hrun⟩ :=
      (run_iterates_step rfl _).1 1 hfirst
    cases hn
    cases hverdict with
    | cancelled =>
      refine ⟨last, ?_, hsteps⟩
      rw [← runFor_unasked]
      exact (hrun 2).2 (by decide)
    | limitReached hc | crashed hc => cases hc
  · have hfirst : (clearing { failure := some .noSuchDevice, cancels := true }).HaltsFirst
        (fun _ => false) 0 := ⟨⟨_, rfl, .inr (.inr ⟨_, _, rfl⟩)⟩, nofun⟩
    obtain ⟨n, result, final, last, hn, hverdict, hlike, hsteps, hrun⟩ :=
      (run_iterates_step rfl _).1 0 hfirst
    cases hn
    cases hverdict with
    | cancelled h => cases h
    | limitReached _ hlimit => cases hlimit
    | crashed _ _ hstep =>
      cases hstep
      refine ⟨last, ?_, hsteps, (Host.likeness_sameButLog.cancelled hlike.host).symm⟩
      rw [← runFor_unasked]
      exact (hrun 1).2 (by decide)

end Machine

end Chip8
