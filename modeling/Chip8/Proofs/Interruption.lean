import Chip8.Proofs.History
import Chip8.Proofs.Stride
import Mathlib.Algebra.GroupWithZero.Nat

/-! Runs that are interrupted.

A run can be cut into pieces, by limits that add up to its own, or it can be cancelled by the
display and taken up again with what is left of its limit. Neither makes a difference to what
it comes to. A run that was not cancelled is a stride as long as its limit allows
(`accords_of_ended`), and so are pieces (`cut_stride`) and a run that was taken up again
(`accords_of_resumed`). The display must be reliable: one that fails is asked again by each
further piece, and may then think better of it. -/
namespace Chip8

/-- Nobody has asked for the end of the run, and the display never will. -/
structure Host.Calm (h : Host) : Prop where
  token : h.cancelled = false
  display : ∀ n, (h.display n).cancels = false

theorem Host.kept_calm : Host.Kept Calm where
  record _ _ _ hh := ⟨hh.token, hh.display⟩
  clear h hh := by
    rw [clear_eq]
    refine ⟨?_, hh.display⟩
    show (h.cancelled || _) = false
    rw [hh.token, hh.display]
    rfl

namespace Machine

variable {m n last : Machine} {memory : Memory} {e : Fault} {k limit : Nat}
  {result : Except Fault Ending}

/-! ### Runs with a limit -/

/-- A machine that is about to run with a limit. -/
def limited (m : Machine) (limit : Nat) : Machine := m.withSettings (m.settings.withLimit limit)

/-- The run with a limit, which is over after one turn more. -/
def runUpTo (m : Machine) (limit : Nat) : Run := (Run.start (m.limited limit)).after (limit + 1)

theorem matches_limited (hm : m.host.Reliable) (limit : Nat) : Matches m (m.limited limit) :=
  ⟨⟨rfl, rfl, rfl⟩, hm, hm⟩

/-- What a run has come to is what so many steps come to. -/
inductive Accords : EStateM.Result Fault Machine Unit → Except Fault Ending → Machine → Prop
  | limitReached {n last : Machine} (h : Matches n last) :
      Accords (.ok () n) (.ok .limitReached) last
  | crashed {e : Fault} {n last : Machine} (h : Matches n last) :
      Accords (.error e n) (.error e) last

theorem Accords.congr {r r' : EStateM.Result Fault Machine Unit} (hr : Accords r' result last)
    (h : Agree Matches r r') : Accords r result last := by
  cases h with
  | ok _ hn =>
    cases hr with
    | limitReached h => exact .limitReached (hn.trans h)
  | error e hn =>
    cases hr with
    | crashed h => exact .crashed (hn.trans h)

theorem Accords.unique {r : EStateM.Result Fault Machine Unit} {result' : Except Fault Ending}
    {last' : Machine} (h : Accords r result last) (h' : Accords r result' last') :
    result = result' ∧ Matches last last' := by
  cases h with
  | limitReached hn =>
    cases h' with
    | limitReached hn' => exact ⟨rfl, hn.symm.trans hn'⟩
  | crashed hn =>
    cases h' with
    | crashed hn' => exact ⟨rfl, hn.symm.trans hn'⟩

theorem Accords.working {r : EStateM.Result Fault Machine Unit} (h : Accords r result last)
    (hr : Working (stateOf r)) : Working last := by
  cases h with
  | limitReached h | crashed h => exact hr.matches h

/-- A run makes steps up to a reason to stop. -/
theorem runUpTo_ended (h : Working m) (limit : Nat) :
    ∃ k ≤ limit, ∃ n result final last,
      stride k (m.limited limit) = .ok () n ∧ n.settings.limit = some limit ∧
      n.Verdict k result final ∧ Like Host.SameButLog final last ∧
      m.runUpTo limit = .ended result last := by
  obtain ⟨memory, hphase⟩ := h.ready
  have hlimit : (m.limited limit).settings.limit = some limit := rfl
  obtain ⟨k, hk, hfirst⟩ : ∃ k ≤ limit, (m.limited limit).HaltsFirst (fun _ => false) k :=
    haltsFirst_of_limit hlimit
  obtain ⟨n, result, final, last, hn, hverdict, hlike, hended⟩ :=
    runFor_ended (m := m.limited limit) hphase hfirst
  refine ⟨k, hk, n, result, final, last, stride_of_standing hn, ?_, hverdict, hlike, ?_⟩
  · rw [(standing_counts hn).2, hlimit]
  · rw [runUpTo, ← runFor_unasked]
    exact runFor_of_ended hended (Nat.succ_le_succ hk)

/-- A run that was not cancelled has made the steps that its limit allows. -/
theorem accords_of_ended (h : Working m) (hended : m.runUpTo limit = .ended result last)
    (hresult : result ≠ .ok .cancelled) : Accords (stride limit m) result last := by
  obtain ⟨k, hk, n, _, final, _, hn, hlimit, hverdict, hlike, hended'⟩ := runUpTo_ended h limit
  cases hended'.symm.trans hended
  have hmatches := matches_limited h.reliable limit
  have hreliable : n.host.Reliable := by
    have hworking := working_stride (h.matches hmatches) k
    rw [hn] at hworking
    exact hworking.reliable
  refine .congr ?_ (stride_matches hmatches limit)
  cases hverdict with
  | cancelled => exact absurd rfl hresult
  | limitReached _ hreached =>
    obtain rfl : limit = k := Option.some_inj.mp (hlimit.symm.trans hreached)
    rw [hn]
    exact .limitReached (matches_of_sameButLog hlike hreliable)
  | @crashed e _ _ hbelow hstep =>
    have hlt : k < limit := Nat.lt_of_le_of_ne hk fun he => hbelow (he ▸ hlimit)
    have herror : stride limit (m.limited limit) = .error e final := by
      obtain ⟨rest, rfl⟩ := Nat.exists_eq_add_of_lt hlt
      exact (stride_add hn (rest + 1)).trans (stride_succ_error hstep rest)
    rw [herror]
    exact .crashed (matches_of_sameButLog hlike (matches_of_step_error hstep hreliable).host.2)

/-- A run that was cancelled has made some of its steps or all, and one at least if nobody had
asked for its end before. -/
theorem stride_of_cancelled (h : Working m)
    (hended : m.runUpTo limit = .ended (.ok .cancelled) last) :
    ∃ k ≤ limit, ∃ n, stride k m = .ok () n ∧ Matches n last ∧
      (m.host.cancelled = false → 0 < k) := by
  obtain ⟨k, hk, n, _, _, _, hn, _, hverdict, hlike, hended'⟩ := runUpTo_ended h limit
  cases hended'.symm.trans hended
  have hstride := stride_matches (matches_limited h.reliable limit) k
  rw [hn] at hstride
  generalize hn₀ : stride k m = r at hstride
  cases hstride with
  | @ok _ n₀ _ hmatches =>
    cases hverdict with
    | cancelled hcancelled =>
      refine ⟨k, hk, n₀, hn₀, ?_, fun htoken => Nat.pos_of_ne_zero ?_⟩
      · exact hmatches.trans (matches_of_sameButLog hlike hmatches.host.2)
      · rintro rfl
        cases hn
        cases htoken.symm.trans hcancelled

/-- A machine that nobody stops before it has come to its limit or crashed. -/
structure Free (m : Machine) : Prop extends Working m where
  calm : m.host.Calm

/-- Its runs are the steps that their limits allow, and leave it as free as it was. -/
theorem runUpTo_free (h : Free m) (limit : Nat) :
    ∃ result last, m.runUpTo limit = .ended result last ∧ Free last ∧
      Accords (stride limit m) result last := by
  obtain ⟨k, _, n, result, final, last, hn, _, hverdict, hlike, hended⟩ :=
    runUpTo_ended h.toWorking limit
  have hkept : n.host.Calm := by
    have hcalm := stride_kept (P := fun m => m.host.Calm) (fun _ => Host.kept_calm.machine)
      (m := m.limited limit) h.calm k
    rwa [hn] at hcalm
  have hresult : result ≠ .ok .cancelled := by
    rintro rfl
    cases hverdict with
    | cancelled hcancelled => cases hkept.token.symm.trans hcancelled
  have hfinal : final.host.Calm := by
    cases hverdict with
    | cancelled | limitReached => exact hkept
    | crashed _ _ hstep =>
      have hcrashed : (stateOf n.step).host.Calm := Host.kept_calm.machine hkept
      rwa [hstep] at hcrashed
  have haccords := accords_of_ended h.toWorking hended hresult
  refine ⟨result, last, hended, ⟨haccords.working (working_stride h.toWorking limit), ?_⟩, haccords⟩
  rw [hlike.host]
  exact ⟨hfinal.token, hfinal.display⟩

/-! ### Pieces -/

/-- The machine after runs with these limits, one after another. -/
def runs (m : Machine) : List Nat → Machine
  | [] => m
  | limit :: rest => (m.runUpTo limit).machine.runs rest

/-- What these runs come to. -/
def outcomes (m : Machine) : List Nat → List (Option (Except Fault Ending))
  | [] => []
  | limit :: rest => (m.runUpTo limit).result? :: (m.runUpTo limit).machine.outcomes rest

/-- The outcome of a piece that has made all its steps. -/
def completed : Option (Except Fault Ending) := some (.ok .limitReached)

theorem runs_cons (h : m.runUpTo limit = .ended result last) (rest : List Nat) :
    m.runs (limit :: rest) = last.runs rest := by
  rw [runs, h]
  rfl

theorem outcomes_cons (h : m.runUpTo limit = .ended result last) (rest : List Nat) :
    m.outcomes (limit :: rest) = some result :: last.outcomes rest := by
  rw [outcomes, h]
  rfl

theorem accords_of_stuck (hm : m.host.Reliable) (hstuck : Stuck e m)
    (h : Accords (stride limit m) result last) :
    Matches m last ∧ (some result = completed ∨ some result = some (.error e)) := by
  cases limit with
  | zero =>
    cases h with
    | limitReached hmatches => exact ⟨hmatches, .inl rfl⟩
  | succ limit =>
    obtain ⟨n, hstep⟩ := hstuck
    rw [stride_succ_error hstep] at h
    cases h with
    | crashed hmatches => exact ⟨(matches_of_step_error hstep hm).trans hmatches, .inr rfl⟩

/-- Where a step fails, further pieces either have no step to make or fail with it, and change
nothing. -/
theorem runs_of_stuck (h : Free m) (hstuck : Stuck e m) (limits : List Nat) :
    Matches m (m.runs limits) ∧
      ∀ outcome ∈ m.outcomes limits, outcome = completed ∨ outcome = some (.error e) := by
  induction limits generalizing m with
  | nil => exact ⟨matches_self h.reliable, nofun⟩
  | cons limit rest ih =>
    obtain ⟨result, last, hended, hlast, haccords⟩ := runUpTo_free h limit
    obtain ⟨hmatches, hresult⟩ := accords_of_stuck h.reliable hstuck haccords
    obtain ⟨hruns, houtcomes⟩ := ih hlast (stuck_of_matches hstuck hmatches)
    rw [runs_cons hended, outcomes_cons hended]
    refine ⟨hmatches.trans hruns, fun outcome houtcome => ?_⟩
    rcases List.mem_cons.mp houtcome with rfl | hrest
    · exact hresult
    · exact houtcomes outcome hrest

/-- What becomes of a number of steps that is cut into pieces. -/
inductive Cut (m : Machine) (limits : List Nat) : EStateM.Result Fault Machine Unit → Prop
  /-- All are made. -/
  | whole {n : Machine}
      (houtcomes : m.outcomes limits = List.replicate limits.length completed)
      (hruns : Matches n (m.runs limits)) : Cut m limits (.ok () n)
  /-- The piece that the failing step falls into is the first that fails, and no further piece
  changes anything. -/
  | crashed {e : Fault} {n : Machine} {later : List (Option (Except Fault Ending))}
      (before : List Nat) (limit : Nat) (after : List Nat) (k : Nat)
      (hlimits : limits = before ++ limit :: after)
      (houtcomes : m.outcomes limits =
        List.replicate before.length completed ++ some (.error e) :: later)
      (hlater : ∀ outcome ∈ later, outcome = completed ∨ outcome = some (.error e))
      (hsteps : n.steps = m.steps + k) (hfirst : before.sum ≤ k) (hlast : k < before.sum + limit)
      (hruns : ∀ rest, Matches n (m.runs (before ++ limit :: rest))) : Cut m limits (.error e n)

theorem cut_congr {r r' : EStateM.Result Fault Machine Unit} {limits : List Nat}
    (h : Agree Matches r r') (hr : Cut m limits r') : Cut m limits r := by
  cases h with
  | ok _ hn =>
    cases hr with
    | whole houtcomes hruns => exact .whole houtcomes (hn.trans hruns)
  | error e hn =>
    cases hr with
    | crashed before limit after k hlimits houtcomes hlater hsteps hfirst hlast hruns =>
      exact .crashed before limit after k hlimits houtcomes hlater (hn.steps.trans hsteps) hfirst
        hlast fun rest => hn.trans (hruns rest)

/-- A piece that makes all its steps can be put before others. -/
theorem cut_cons {r : EStateM.Result Fault Machine Unit} {limits : List Nat}
    (hended : m.runUpTo limit = .ended (.ok .limitReached) last)
    (hcount : last.steps = m.steps + limit) (hr : Cut last limits r) :
    Cut m (limit :: limits) r := by
  cases hr with
  | whole houtcomes hruns =>
    refine .whole ?_ ?_
    · rw [outcomes_cons hended, houtcomes]
      rfl
    · rwa [runs_cons hended]
  | crashed before piece after k hlimits houtcomes hlater hsteps hfirst hlast hruns =>
    refine .crashed (limit :: before) piece after (limit + k) ?_ ?_ hlater ?_ ?_ ?_ ?_
    · rw [hlimits, List.cons_append]
    · rw [outcomes_cons hended, houtcomes]
      rfl
    · rw [hsteps, hcount, Nat.add_assoc]
    · rw [List.sum_cons]
      exact Nat.add_le_add_left hfirst limit
    · rw [List.sum_cons, Nat.add_assoc]
      exact Nat.add_lt_add_left hlast limit
    · intro rest
      rw [List.cons_append, runs_cons hended]
      exact hruns rest

/-- **Pieces are steps**, as many as their limits add up to. -/
theorem cut_stride (h : Free m) (limits : List Nat) : Cut m limits (stride limits.sum m) := by
  induction limits generalizing m with
  | nil => exact .whole rfl (matches_self h.reliable)
  | cons limit rest ih =>
    obtain ⟨result, last, hended, hlast, haccords⟩ := runUpTo_free h limit
    rw [List.sum_cons]
    generalize hr : stride limit m = r at haccords
    cases haccords with
    | limitReached hmatches =>
      -- The steps of the other pieces begin where this piece has ended.
      have hrest := cut_congr (stride_matches hmatches _) (ih hlast)
      rw [stride_add hr]
      exact cut_cons hended (hmatches.steps.symm.trans (steps_of_stride hr)) hrest
    | crashed hmatches =>
      obtain ⟨hstuck, k, hk, hsteps⟩ := stuck_of_stride_error h.toWorking hr
      have hlater := runs_of_stuck hlast (stuck_of_matches hstuck hmatches)
      rw [stride_add_error hr]
      refine .crashed [] limit rest k rfl (outcomes_cons hended rest) (hlater rest).2 hsteps
        (Nat.zero_le k) ?_ fun rest' => ?_
      · rwa [List.sum_nil, Nat.zero_add]
      · rw [List.nil_append, runs_cons hended]
        exact hmatches.trans (hlater rest').1

/-! ### Resumption -/

/-- What a run with a limit comes to if it is taken up again, each time that it was cancelled,
with a fresh token and what is left of the limit. -/
inductive Resumed : Machine → Nat → Except Fault Ending → Machine → Prop
  | done {m last : Machine} {limit : Nat} {result : Except Fault Ending}
      (h : m.runUpTo limit = .ended result last) (hresult : result ≠ .ok .cancelled) :
      Resumed m limit result last
  | again {m stopped last : Machine} {limit : Nat} {result : Except Fault Ending}
      (h : m.runUpTo limit = .ended (.ok .cancelled) stopped)
      (hrest : Resumed stopped.uncancel (limit - (stopped.steps - m.steps)) result last) :
      Resumed m limit result last

/-- A machine that was cancelled has some of its steps behind it, and with a fresh token the
others before it. -/
theorem stride_of_resumed (h : Working m)
    (hended : m.runUpTo limit = .ended (.ok .cancelled) last) :
    Working last.uncancel ∧
      Agree Matches (stride limit m) (stride (limit - (last.steps - m.steps)) last.uncancel) := by
  obtain ⟨k, hk, n, hn, hmatches, _⟩ := stride_of_cancelled h hended
  have hworking := working_stride h k
  rw [hn] at hworking
  have huncancel : Matches n last.uncancel :=
    ⟨⟨hmatches.phase, hmatches.processor, hmatches.steps⟩, hmatches.host⟩
  refine ⟨hworking.matches huncancel, ?_⟩
  have hsteps : last.steps - m.steps = k := by
    rw [← hmatches.steps, steps_of_stride hn, Nat.add_sub_cancel_left]
  have hwhole : stride limit m = stride (limit - k) n := by
    rw [← stride_add hn, Nat.add_sub_cancel' hk]
  rw [hsteps, hwhole]
  exact stride_matches huncancel _

/-- **To be cancelled and taken up again is to have gone on.** -/
theorem accords_of_resumed (h : Resumed m limit result last) (hm : Working m) :
    Accords (stride limit m) result last := by
  induction h with
  | done hended hresult => exact accords_of_ended hm hended hresult
  | again hended _ ih =>
    obtain ⟨hworking, hagree⟩ := stride_of_resumed hm hended
    exact (ih hworking).congr hagree

/-- A run that is taken up again and again is over at some time, because each time it has made a
step. -/
theorem exists_resumed (h : Working m) (htoken : m.host.cancelled = false) (limit : Nat) :
    ∃ result last, Resumed m limit result last := by
  induction limit using Nat.strongRecOn generalizing m with
  | ind limit ih =>
    obtain ⟨_, _, _, result, _, last, _, _, _, _, hended⟩ := runUpTo_ended h limit
    by_cases hresult : result = .ok .cancelled
    · subst hresult
      obtain ⟨k, hk, n, hn, hmatches, hpos⟩ := stride_of_cancelled h hended
      have hsteps : last.steps = m.steps + k := by
        rw [← hmatches.steps, steps_of_stride hn]
      have hless : limit - (last.steps - m.steps) < limit := by
        have := hpos htoken
        omega
      obtain ⟨result, final, hrest⟩ := ih _ hless (stride_of_resumed h hended).1 rfl
      exact ⟨result, final, .again hended hrest⟩
    · exact ⟨result, last, .done hended hresult⟩

/-! ### Interruptions make no difference -/

/-- What a run comes to in pieces and in one. -/
structure Divided (m : Machine) (limits : List Nat) : Prop where
  same : Same (m.runUpTo limits.sum).machine (m.runs limits)
  completed_iff : (m.runUpTo limits.sum).result? = completed ↔
    ∀ outcome ∈ m.outcomes limits, outcome = completed
  error_iff : ∀ e, (m.runUpTo limits.sum).result? = some (.error e) ↔
    some (.error e) ∈ m.outcomes limits
  /-- The first piece that fails is the one whose share of the steps has the failing step in it,
  and no further pieces, whatever their limits, change anything. -/
  first : ∀ e, (m.runUpTo limits.sum).result? = some (.error e) →
    ∃ before limit after k later, limits = before ++ limit :: after ∧
      (m.runUpTo limits.sum).machine.steps = m.steps + k ∧
      before.sum ≤ k ∧ k < before.sum + limit ∧
      m.outcomes limits = List.replicate before.length completed ++ some (.error e) :: later ∧
      ∀ rest, Same (m.runUpTo limits.sum).machine (m.runs (before ++ limit :: rest))

theorem divided_of_free (h : Free m) (limits : List Nat) : Divided m limits := by
  obtain ⟨result, last, hended, _, haccords⟩ := runUpTo_free h limits.sum
  have hcut := cut_stride h limits
  generalize stride limits.sum m = r at haccords hcut
  cases haccords with
  | limitReached hlast =>
    cases hcut with
    | whole houtcomes hruns =>
      have hcompleted : ∀ outcome ∈ m.outcomes limits, outcome = completed := by
        rw [houtcomes]
        exact fun _ => List.eq_of_mem_replicate
      refine ⟨?_, ?_, fun e => ?_, fun e herror => ?_⟩
      · rw [hended]
        exact (hlast.symm.trans hruns).toSame
      · rw [hended]
        exact ⟨fun _ => hcompleted, fun _ => rfl⟩
      · rw [hended]
        exact ⟨nofun, fun hmem => nomatch hcompleted _ hmem⟩
      · rw [hended] at herror
        cases herror
  | @crashed e _ _ hlast =>
    cases hcut with
    | @crashed _ _ later before limit after k hlimits houtcomes hlater hsteps hfirst hk hruns =>
      have hmem : some (.error e) ∈ m.outcomes limits := by
        rw [houtcomes]
        exact List.mem_append_right _ List.mem_cons_self
      have hsame (rest : List Nat) : Same last (m.runs (before ++ limit :: rest)) :=
        (hlast.symm.trans (hruns rest)).toSame
      refine ⟨?_, ?_, fun e' => ?_, fun e' herror => ?_⟩
      · rw [hended]
        have hwhole := hsame after
        rwa [← hlimits] at hwhole
      · rw [hended]
        exact ⟨nofun, fun hcompleted => nomatch hcompleted _ hmem⟩
      · rw [hended]
        constructor
        · rintro ⟨⟩
          exact hmem
        · intro hmem'
          rw [houtcomes] at hmem'
          rcases List.mem_append.mp hmem' with hbefore | hrest
          · cases List.eq_of_mem_replicate hbefore
          · rcases List.mem_cons.mp hrest with heq | hin
            · exact heq.symm
            · rcases hlater _ hin with hcompleted | heq
              · cases hcompleted
              · exact heq.symm
      · rw [hended] at herror ⊢
        cases herror
        refine ⟨before, limit, after, k, later, hlimits, ?_, hfirst, hk, houtcomes, hsame⟩
        exact hlast.steps.symm.trans hsteps

/-- The machine before another display. -/
def withDisplay (m : Machine) (display : Display) : Machine :=
  { m with host := { m.host with display } }

/-- **Interruptions make no difference to a run.** In pieces, by limits that add up to its own, it
comes to what it comes to in one, down to the piece that fails; and if the display cancels it now
and then, it comes to the same as if it never did, provided that it is taken up again each time
with what is left of its limit. -/
theorem interruptions_invisible (hphase : m.phase = .ready memory)
    (hreliable : ∀ n, (m.host.display n).failure = none) (htoken : m.host.cancelled = false) :
    ((∀ n, (m.host.display n).cancels = false) → ∀ limits, Divided m limits) ∧
    ∀ display : Display, (∀ n, (display n).failure = none) → (∀ n, (display n).cancels = false) →
      ∀ limit, (∃ result last, Resumed m limit result last) ∧
        ∀ result last, Resumed m limit result last →
          ∃ last', (m.withDisplay display).runUpTo limit = .ended result last' ∧
            Same last last' := by
  have hworking : Working m := ⟨⟨memory, hphase⟩, hreliable⟩
  refine ⟨fun hcancels => divided_of_free ⟨hworking, htoken, hcancels⟩, ?_⟩
  intro display hfailure hcancels limit
  refine ⟨exists_resumed hworking htoken limit, fun result last hresumed => ?_⟩
  have hfree : Free (m.withDisplay display) := ⟨⟨⟨memory, hphase⟩, hfailure⟩, htoken, hcancels⟩
  have hmatches : Matches m (m.withDisplay display) := ⟨⟨rfl, rfl, rfl⟩, hreliable, hfailure⟩
  obtain ⟨result', last', hended, _, haccords'⟩ := runUpTo_free hfree limit
  obtain ⟨rfl, hlast⟩ := (accords_of_resumed hresumed hworking).unique
    (haccords'.congr (stride_matches hmatches limit))
  exact ⟨last', hended, hlast.toSame⟩

/-- A program that clears the screen twice and then jumps to the last byte of memory. -/
def clearsTwice (display : Display) : Machine :=
  ofProgram [0x00, 0xE0, 0x00, 0xE0, 0x1F, 0xFF] { display }

/-- It crashes with its fourth step, which is the first of the piece after an empty one, and to be
cancelled by the display each time makes no difference. -/
theorem clearsTwice_interrupted :
    (∃ last, (clearsTwice Display.steady).runUpTo 6 = .ended (.error (.endOfMemory 4096)) last ∧
      last.steps = 3 ∧ Same last ((clearsTwice Display.steady).runs [3, 0, 2, 1])) ∧
    (clearsTwice fun _ => { cancels := true }).runUpTo 6 ≠ (clearsTwice Display.steady).runUpTo 6 ∧
    ∃ last, Resumed (clearsTwice fun _ => { cancels := true }) 6
      (.error (.endOfMemory 4096)) last ∧ last.steps = 3 := by
  obtain ⟨last, hended, hsteps⟩ : ∃ last,
      (clearsTwice Display.steady).runUpTo 6 = .ended (.error (.endOfMemory 4096)) last ∧
        last.steps = 3 := ⟨_, rfl, rfl⟩
  refine ⟨⟨last, hended, hsteps, ?_⟩, ?_, ?_⟩
  · have hdivided := (interruptions_invisible (m := clearsTwice Display.steady) rfl
      (fun _ => rfl) rfl).1 (fun _ => rfl) [3, 0, 2, 1]
    have hsame := hdivided.same
    rwa [show [3, 0, 2, 1].sum = 6 from rfl, hended] at hsame
  · rw [hended]
    nofun
  · obtain ⟨⟨result, final, hresumed⟩, hall⟩ :=
      (interruptions_invisible (m := clearsTwice fun _ => { cancels := true }) rfl (fun _ => rfl)
        rfl).2 Display.steady (fun _ => rfl) (fun _ => rfl) 6
    obtain ⟨last', hended', hsame⟩ := hall result final hresumed
    cases hended.symm.trans hended'
    exact ⟨final, hresumed, hsame.steps.trans hsteps⟩

end Machine

end Chip8
