import Chip8.Proofs.History
import Chip8.Proofs.InMemory
import Chip8.Proofs.Launching
import Chip8.Proofs.Rollback

/-! The terminal that a session gives back.

In whatever way a session ends, its terminal is put back and the last frame is left on it
(`terminal_put_back`). The display is asked once for every executed instruction that clears the
screen and never in vain (`calls_under`), so when the run is over its terminal shows the frame for
so many clears. The watcher can only bring the end forward (`ended_of_quit`); to the terminal it
does nothing. -/
namespace Chip8

/-! ### Clears -/

namespace Run

/-- The instructions that so many turns execute, in order. -/
def executed (requests : List Bool) (r : Run) : List Instruction :=
  (r.results requests).filterMap Except.toOption

end Run

theorem Account.executed_add (a : Account) (results : List (Except Fault Instruction)) :
    (a.add results).executed = a.executed ++ results.filterMap Except.toOption :=
  List.filterMap_append

/-- The display never fails, so it has been cleared whenever it was asked. -/
structure Host.Obeyed (h : Host) : Prop where
  display : h.display = Display.steady
  calls : h.calls = h.clears

theorem Host.kept_obeyed : Host.Kept Obeyed where
  record _ _ _ h := ⟨h.display, h.calls⟩
  clear h hh := by
    rw [clear_eq, hh.display]
    exact ⟨rfl, congrArg (· + 1) hh.calls⟩

namespace Machine

/-- A step clears the display if that is the instruction it executes. -/
theorem clears_step (m : Machine) :
    (stateOf m.step).host.clears =
      m.host.clears + ([resultOf m.step].filterMap Except.toOption).count .clearScreen := by
  cases hstep : m.step with
  | error e m' => exact (step_failure hstep).host.clears
  | ok i m' =>
    obtain ⟨memory, b, _, hb, rfl⟩ := step_ok hstep
    have hsuccess := (Board.outcome_of_step hb).success
    show b.host.clears = m.host.clears + [i].count .clearScreen
    by_cases hi : i = .clearScreen
    · rw [(hsuccess.cleared hi).2.2, hi]
      rfl
    · have hother : [i].count .clearScreen = 0 :=
        List.count_eq_zero.mpr fun hmem => hi (List.mem_singleton.mp hmem).symm
      rw [(hsuccess.uncalled hi).2, hother]
      rfl

/-- The display has been asked once for each time that the screen was cleared. -/
structure Drawn (a : Account) (m : Machine) : Prop where
  obeyed : m.host.Obeyed
  calls : m.host.calls = a.calls + a.executed.count .clearScreen

theorem drawn_step {a : Account} {m : Machine} (h : Drawn a m) :
    Drawn (a.add [resultOf m.step]) (stateOf m.step) := by
  have hobeyed := Host.kept_obeyed.machine h.obeyed
  refine ⟨hobeyed, ?_⟩
  rw [hobeyed.calls, clears_step, ← h.obeyed.calls, h.calls, a.executed_add, List.count_append,
    Nat.add_assoc]
  rfl

theorem kept_drawn : Kept Drawn where
  start _ _ _ _ _ h := ⟨⟨h.obeyed.display, h.obeyed.calls⟩, rfl⟩
  step _ _ h := drawn_step h
  record _ _ _ _ h := ⟨⟨h.obeyed.display, h.obeyed.calls⟩, h.calls⟩
  token _ _ _ h := ⟨⟨h.obeyed.display, h.obeyed.calls⟩, h.calls⟩
  configure _ _ _ h := ⟨h.obeyed, h.calls⟩
  close a m h := by
    unfold close
    split
    · exact ⟨h.obeyed, h.calls⟩
    · exact ⟨⟨h.obeyed.display, h.obeyed.calls⟩, h.calls⟩

end Machine

namespace CommandLine

/-- Before its run a session has not asked for anything to be cleared. -/
theorem drawn_launch (o : Options) (stream : ByteStream) :
    ∃ a : Account, a.calls = 0 ∧ a.executed = [] ∧
      Machine.Drawn a (launch (machine o Display.steady) stream).machine := by
  have hnew : Machine.Drawn { calls := 0 } (machine o Display.steady) := ⟨⟨rfl, rfl⟩, rfl⟩
  cases hread : stream.readAll with
  | mk result left =>
    cases result with
    | ok program =>
      rw [launch_ok rfl hread]
      have hloaded := Machine.kept_drawn.start _ _ Memory.blank program rfl hnew
      exact ⟨_, rfl, rfl, Machine.kept_drawn.begin (Machine.kept_drawn.record _ _ _ rfl hloaded)⟩
    | error e =>
      rw [launch_error rfl hread]
      exact ⟨_, rfl, rfl, hnew⟩

/-- **The display is asked as often as the session clears the screen.** -/
theorem calls_under (o : Options) (stream : ByteStream) (requests : List Bool) :
    ((launch (machine o Display.steady) stream).under requests).machine.host.calls =
      ((launch (machine o Display.steady) stream).executed requests).count .clearScreen := by
  obtain ⟨a, hcalls, hexecuted, hdrawn⟩ := drawn_launch o stream
  rw [(Machine.kept_drawn.under hdrawn requests).calls, a.executed_add, hexecuted]
  exact (congrArg (· + _) hcalls).trans (Nat.zero_add _)

/-- The instructions that a sitting executes in so many turns, in order. -/
def Sitting.executed (looks : Looks) (turns : Nat) (s : Sitting) : List Instruction :=
  s.run.executed (s.requests looks turns)

/-! ### The end -/

variable {T M : Type}

/-- The terminal `t` is put back as `t'`, with the frame for so many clears on it. Only the first
frame, which leaves the cursor in its bottom row, is moved up, to make room for four rows. -/
structure PutBack (sight : Sight T M) (tty : Tty T) (width height clears : Nat) (t t' : T) :
    Prop where
  modes : sight.modes t' = sight.modes t
  cursor : sight.cursorShown t' = true
  frame : ∀ row column, row < height → column < width →
    (sight.cell t' row column).symbol =
      (Canvas.frameRow clears (row + Sight.closing height clears))[column]?.getD ' '
  /-- Around the frame there is nothing. -/
  blank : ∀ row column, row < height → column < width →
    34 ≤ row + Sight.closing height clears ∨ 66 ≤ column → sight.cell t' row column = {}
  /-- What has been drawn over cannot be seen: it looks as if the terminal had been cleared and
  this frame drawn on it. -/
  afresh : ∀ t₁ t₂ t₃, tty.clear t₁ = .ok () t₂ →
    tty.draw (TerminalDisplay.framed clears) t₂ = .ok () t₃ →
    ∀ row column, row < height → column < width →
      sight.cell t' row column =
        if row + Sight.closing height clears < height then
          sight.cell t₃ (row + Sight.closing height clears) column
        else {}

variable {env : Surroundings T} {sight : Sight T M} {paint : Widget → Picture} {width height : Nat}

/-- From the last frame to the end. -/
theorem putBack_of_framed (hlaws : sight.Lawful env.tty paint width height)
    (hpaint : Widget.Painted paint) (hroom : env.tty.HasRoom width height) {clears : Nat}
    {t s t' : T} (hsaved : sight.saved s = some (sight.modes t))
    (hframed : sight.Framed paint width height clears s)
    (hcooked : env.tty.disableRaw (env.tty.finish s) = .ok () t') :
    PutBack sight env.tty width height clears t (env.tty.lineBreaks 4 t') := by
  obtain ⟨hfinish, hcells, hrow, hshown⟩ := hlaws.finish s
  obtain ⟨hmodes, hcells', hrow', hshown'⟩ := hlaws.disableRaw hcooked
  obtain ⟨hkept, hstill⟩ := hlaws.lineBreaks_kept 4 t'
  rw [hcells] at hcells'
  rw [hrow] at hrow'
  have hbottom : sight.row t' < height := by
    have hhigh := hroom.high
    rw [hrow', hframed.row]
    split <;> omega
  have hcell {row column : Nat} (hr : row < height) (hc : column < width) :
      sight.cell (env.tty.lineBreaks 4 t') row column =
        if row + Sight.closing height clears < height then
          paint (TerminalDisplay.framed clears) (row + Sight.closing height clears) column
        else {} := by
    rw [hlaws.cell_lineBreaks 4 hbottom hr hc, hrow', hframed.scrolled_four hroom.high, hcells']
    split
    case isTrue hin => exact hframed.depicts _ _ hin hc
    case isFalse => rfl
  -- The rows that come in at the bottom are as blank as those below the frame.
  have hpainted {row column : Nat} (hr : row < height) (hc : column < width) :
      sight.cell (env.tty.lineBreaks 4 t') row column =
        paint (TerminalDisplay.framed clears) (row + Sight.closing height clears) column := by
    rw [hcell hr hc]
    split
    case isTrue => rfl
    case isFalse hout =>
      have hbelow := Nat.le_trans hroom.high (Nat.le_of_not_lt hout)
      exact (hpaint.below_framed clears hbelow column).symm
  exact
    { modes := hkept.modes.trans (hmodes _ (hfinish.saved.trans hsaved))
      cursor := by rw [hstill, hshown', hshown, hframed.hidden, Bool.or_true]
      frame := fun row column hr hc => by
        rw [hpainted hr hc, hpaint.symbol_framed, Canvas.symbol_eq_frameRow]
      blank := fun row column hr hc hout =>
        (hpainted hr hc).trans (hpaint.outside (TerminalDisplay.simple_framed clears) hout)
      afresh := fun t₁ t₂ t₃ hclear hdraw row column hr hc => by
        rw [hcell hr hc]
        split
        case isTrue hin => exact (hlaws.depicts_afresh hroom hclear hdraw _ _ hin hc).symm
        case isFalse => rfl }

/-- A session is over with the turn before which the watcher comes upon a key to end it. -/
theorem ended_of_quit {tty : Tty T} {o : Options} {stream : ByteStream} {d : TerminalDisplay T}
    {looks : Looks} {turns steps : Nat} {m : Machine}
    (hgoing : ((sitting tty o stream d).after looks turns).run = .going steps m)
    (hwatching : ((sitting tty o stream d).after looks turns).watcher = .watching)
    (hquit : Watcher.Quit (looks turns)) :
    ∃ last, ((sitting tty o stream d).after looks (turns + 1)).run =
      .ended (.ok .cancelled) last := by
  obtain ⟨hnext, hturns⟩ := Sitting.after_succ looks turns hgoing
  rw [show (sitting tty o stream d).turns + turns = turns from Nat.zero_add turns] at hturns
  rw [hnext]
  exact ⟨_, Sitting.run_of_quit looks hgoing hwatching (by rw [hturns]; exact hquit)⟩

/-- **The terminal is put back and the last frame is right**, in whatever way the session ends: at
its limit, with a crash, for a stream that cannot be read, or because the user has had enough; and
that ends it before whichever turn it may be. -/
theorem terminal_put_back (hworks : env.tty.Works width height)
    (hroom : env.tty.HasRoom width height) (hlaws : sight.Lawful env.tty paint width height)
    (hpaint : Widget.Painted paint) {args : List String} {o : Options} {stream : ByteStream} {t : T}
    (hargs : env.parse args = .ok o) (hheadless : o.headless = false)
    (hfile : (env.files o.program).stream = .ok stream) (hfresh : sight.saved t = none) :
    ∃ t₁ d, env.tty.enableRaw t = .ok () t₁ ∧
      TerminalDisplay.new env.tty Canvas.display t₁ = .ok d ∧
      (∀ (looks : Looks) (turns : Nat) (result : Except Fault Ending) (m : Machine),
        ((sitting env.tty o stream d).after looks turns).run = .ended result m →
        ∃ departure, env.session? turns looks args t = some departure ∧
          PutBack sight env.tty width height
            (((sitting env.tty o stream d).executed looks turns).count .clearScreen) t
            departure.terminal) ∧
      ∀ (looks : Looks) (turns steps : Nat) (m : Machine),
        ((sitting env.tty o stream d).after looks turns).run = .going steps m →
        ((sitting env.tty o stream d).after looks turns).watcher = .watching →
        Watcher.Quit (looks turns) →
        ∃ last, ((sitting env.tty o stream d).after looks (turns + 1)).run =
          .ended (.ok .cancelled) last := by
  obtain ⟨t₁, t₂, t₃, t₄, hraw, hbegin, hclear, hdraw, hnew, hsession⟩ :=
    session?_displayed hworks hroom hargs hfile hheadless t
  have hfirst := Sight.framed_first hlaws hpaint hroom hclear hdraw
  have hmodes : sight.SameModes t₁ t₄ :=
    ((hlaws.begin hbegin).trans (hlaws.clear hclear).1).trans (hlaws.draws hroom hdraw).toSameModes
  refine ⟨t₁, _, hraw, hnew, fun looks turns result m hended => ?_,
    fun _ _ _ _ hgoing hwatching hquit => ended_of_quit hgoing hwatching hquit⟩
  -- To its machine the display is the one that never fails, and there calls can be counted.
  have hcalls : m.host.calls =
      ((sitting env.tty o stream ⟨t₄, Canvas.display, 0⟩).executed looks turns).count
        .clearScreen := by
    rw [Sitting.run_after, sitting_eq hworks hroom] at hended
    rw [sitting_eq hworks hroom, Sitting.executed, ← calls_under, hended]
    rfl
  obtain ⟨hframed, hkept⟩ :=
    Sight.framed_after hlaws hpaint hroom hworks hfirst m.host.calls
  obtain ⟨t', hcooked, hdeparture⟩ := departure?_ended hworks hroom looks hended t₄
  refine ⟨_, (hsession turns looks).trans hdeparture, ?_⟩
  rw [← hcalls]
  refine putBack_of_framed hlaws hpaint hroom ?_ hframed hcooked
  rw [hkept.saved, hmodes.saved, hlaws.enableRaw hraw hfresh]

/-- A program that clears the screen twice and would go on, if its run were not limited. -/
def clearsTwice : ProgramFile := .regular [0x00, 0xE0, 0x00, 0xE0, 0x12, 0x04]

/-- What a session leaves on the smallest terminal. -/
def onSmallest (args : List String) (o : Options) (file : ProgramFile) (turns : Nat)
    (looks : Looks) : Option (Departure (Screen 66 34)) :=
  (around 66 34 args o file).session? turns looks args {}

/-- Two clears leave the second frame where it was drawn, whether the limit ends the run or a `q`
while it jumps; and of a directory there is no more to see than the frame drawn before it was read,
moved up by four rows. -/
theorem clearsTwice_puts_back :
    (∃ departure, onSmallest ["--max-steps=5", "two.ch8"] { program := "two.ch8", limit := some 5 }
        clearsTwice 6 (fun _ => []) = some departure ∧
      PutBack Screen.sight (Screen.tty 66 34) 66 34 2 {} departure.terminal) ∧
    (∃ departure, onSmallest ["two.ch8"] { program := "two.ch8" } clearsTwice 5
        (fun turn => if turn = 4 then [.nothing, .key (.character 'q') false] else [.nothing]) =
          some departure ∧
      PutBack Screen.sight (Screen.tty 66 34) 66 34 2 {} departure.terminal) ∧
    ∃ departure, onSmallest ["rom"] { program := "rom" } .directory 0 (fun _ => []) =
        some departure ∧
      PutBack Screen.sight (Screen.tty 66 34) 66 34 0 {} departure.terminal := by
  have hworks : (Screen.tty 66 34).Works 66 34 := Screen.works_tty
  have hroom : (Screen.tty 66 34).HasRoom 66 34 :=
    Screen.hasRoom_tty (by decide) (by decide) (by decide)
  have hlaws := Screen.lawful_tty (show 66 * 34 ≤ 65535 by decide)
  have hstream : clearsTwice.stream = .ok [.bytes [0x00, 0xE0, 0x00, 0xE0, 0x12, 0x04]] := by
    simp [clearsTwice, ProgramFile.stream, ByteStream.ofBytes, pieces]
  have hputs {args : List String} {o : Options} {file : ProgramFile} {stream : ByteStream}
      {looks : Looks} {turns clears : Nat} {result : Except Fault Ending} {m : Machine}
      (hplain : headlessOption ∉ args) (hheadless : o.headless = false)
      (hfile : file.stream = .ok stream)
      (hended :
        (({ run := launch (machine o Display.steady) stream } : Sitting).after looks turns).run =
          .ended result m)
      (hclears : (Sitting.executed looks turns
        { run := launch (machine o Display.steady) stream }).count .clearScreen = clears) :
      ∃ departure, onSmallest args o file turns looks = some departure ∧
        PutBack Screen.sight (Screen.tty 66 34) 66 34 clears {} departure.terminal := by
    subst hclears
    have hargs : (around 66 34 args o file).parse args = .ok o := understands_plain hplain hheadless
    obtain ⟨t₁, d, _, hnew, hback, _⟩ := terminal_put_back hworks hroom hlaws Screen.painted_paint
      hargs hheadless hfile (t := {}) rfl
    rw [show sitting (around 66 34 args o file).tty o stream d = _ from
      sitting_of_new hworks hroom o stream hnew] at hback
    exact hback looks turns result m hended
  exact ⟨hputs (by decide) rfl hstream rfl rfl, hputs (by decide) rfl hstream rfl rfl,
    hputs (by decide) rfl rfl rfl rfl⟩

end CommandLine

end Chip8
