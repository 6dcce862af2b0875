import Chip8.Proofs.Drawing
import Chip8.Proofs.Watching
import Chip8.Screen

/-! How sessions begin, and what becomes of them at a terminal.

Once its arguments are accepted and its file is open, a session is a machine and a stream. The
stream is read to its end: either the run begins with what it delivers (`launch_ok`), or it is
over before its first turn (`launch_error`). A headless session is its run and nothing else
(`session?_headless`). At a terminal that works and has room, a session gets its display
(`session?_displayed`) and its run is the one of a display that never fails (`sitting_eq`). When
that is over the terminal is put back (`departure?_ended`). -/
namespace Chip8.CommandLine

/-! ### The run -/

section Launch
variable {m : Machine} {memory : Memory} {stream left : ByteStream}

theorem launch_ok {program : List UInt8} (h : m.phase.memory? = some memory)
    (hread : stream.readAll = (.ok program, left)) :
    launch m stream =
      Run.start ((m.start (memory.load program)).record
        (.fileLoaded (memory.load program).1.loaded)) := by
  simp only [launch, Machine.loadFrom_ok h hread]

theorem launch_error {e : DeviceError} (h : m.phase.memory? = some memory)
    (hread : stream.readAll = (.error e, left)) :
    launch m stream = .ended (.error (.input e)) m := by
  simp only [launch, Machine.loadFrom_error h hread]

end Launch

/-! ### Sessions -/

variable {T : Type} {env : Surroundings T} {args : List String} {o : Options} {stream : ByteStream}

section Prepared
variable (hargs : env.parse args = .ok o) (hfile : (env.files o.program).stream = .ok stream)
include hargs hfile

theorem prepare_ok : prepare env.parse env.files args = .ok (o, stream) := by
  simp only [prepare, hargs, hfile]

/-- Without a display the terminal is left alone. -/
theorem session?_headless (hheadless : o.headless = true) (turns : Nat) (looks : Looks) (t : T) :
    env.session? turns looks args t =
      (report? ((launch (machine o Display.steady) stream).after turns)).map fun report =>
        { report, terminal := t } := by
  simp only [Surroundings.session?, prepare_ok hargs hfile, hheadless, if_true]

end Prepared

variable {tty : Tty T} {width height : Nat}

section Working
variable (hworks : tty.Works width height) (hroom : tty.HasRoom width height)
include hworks hroom

/-- The machine of a session has a display that never fails. -/
theorem sitting_eq (o : Options) (stream : ByteStream) (t : T) :
    sitting tty o stream ⟨t, Canvas.display, 0⟩ =
      { run := launch (machine o Display.steady) stream } := by
  rw [sitting, TerminalDisplay.display_eq_steady hworks hroom]

theorem sitting_of_new (o : Options) (stream : ByteStream) {t : T} {d : TerminalDisplay T}
    (hnew : TerminalDisplay.new tty Canvas.display t = .ok d) :
    sitting tty o stream d = { run := launch (machine o Display.steady) stream } := by
  obtain ⟨_, _, t', _, _, _, hnew'⟩ := TerminalDisplay.new_ok hworks hroom t
  cases hnew.symm.trans hnew'
  exact sitting_eq hworks hroom o stream t'

/-- When the run is over, the drawing ends, keys are read as before and four lines are broken. -/
theorem departure?_ended (looks : Looks) {s : Sitting} {result : Except Fault Ending} {m : Machine}
    (h : s.run = .ended result m) (t : T) :
    ∃ t', tty.disableRaw (tty.finish
        (TerminalDisplay.after tty ⟨t, Canvas.display, 0⟩ m.host.calls).terminal) = .ok () t' ∧
      departure? tty looks ⟨t, Canvas.display, 0⟩ s =
        some
          { report :=
              finish result
                (if (s.watch looks).watcher = .panicked then m.close.record .keysLost else m.close)
            terminal := tty.lineBreaks 4 t'
            brokeDown := (s.watch looks).watcher = .panicked } := by
  obtain ⟨t', hcooked⟩ := hworks.disableRaw (tty.finish
    (TerminalDisplay.after tty ⟨t, Canvas.display, 0⟩ m.host.calls).terminal)
  refine ⟨t', hcooked, ?_⟩
  simp only [departure?, h, TerminalDisplay.trouble?_eq_none hworks hroom, depart, hcooked,
    reduceCtorEq, if_false]

end Working

theorem session?_displayed (hworks : env.tty.Works width height)
    (hroom : env.tty.HasRoom width height) (hargs : env.parse args = .ok o)
    (hfile : (env.files o.program).stream = .ok stream) (hheadless : o.headless = false) (t : T) :
    ∃ t₁ t₂ t₃ t₄, env.tty.enableRaw t = .ok () t₁ ∧ env.tty.begin t₁ = .ok () t₂ ∧
      env.tty.clear t₂ = .ok () t₃ ∧ env.tty.draw (TerminalDisplay.framed 0) t₃ = .ok () t₄ ∧
      TerminalDisplay.new env.tty Canvas.display t₁ = .ok ⟨t₄, Canvas.display, 0⟩ ∧
      ∀ turns looks, env.session? turns looks args t =
        departure? env.tty looks ⟨t₄, Canvas.display, 0⟩
          ((sitting env.tty o stream ⟨t₄, Canvas.display, 0⟩).after looks turns) := by
  obtain ⟨t₁, hraw⟩ := hworks.enableRaw t
  obtain ⟨t₂, t₃, t₄, hbegin, hclear, hdraw, hnew⟩ := TerminalDisplay.new_ok hworks hroom t₁
  refine ⟨t₁, t₂, t₃, t₄, hraw, hbegin, hclear, hdraw, hnew, fun turns looks => ?_⟩
  simp only [Surroundings.session?, prepare_ok hargs hfile, hheadless, hraw, hnew,
    Bool.false_eq_true, if_false]

/-! ### Parsers -/

/-- The option that does without the display. -/
def headlessOption : String := "--headless"

/-- What a parser makes of the option if it is added to arguments that do without it. -/
structure Parser.TakesHeadless (parse : Parser) : Prop where
  /-- It can be added in front. -/
  first : ∀ {args o}, parse args = .ok o → o.headless = false →
    ∃ o', parse (headlessOption :: args) = .ok o'
  /-- Wherever it is understood it changes nothing else. -/
  added : ∀ {before after o o'}, parse (before ++ after) = .ok o → o.headless = false →
    parse (before ++ headlessOption :: after) = .ok o' → o' = { o with headless := true }

/-- A parser that understands one command line, with the option or without it. -/
def understands (args : List String) (o : Options) : Parser := fun given =>
  if given.filter (· ≠ headlessOption) = args then
    .ok { o with headless := given.contains headlessOption }
  else .error { status := 2 }

section Understands
variable {args given : List String} {o o' : Options}

theorem understands_plain (hplain : headlessOption ∉ args) (ho : o.headless = false) :
    understands args o args = .ok o := by
  have hargs : args.filter (· ≠ headlessOption) = args :=
    List.filter_eq_self.mpr fun arg harg => decide_eq_true fun heq => hplain (heq ▸ harg)
  have hcontains : args.contains headlessOption = false := by
    rw [List.contains_eq_mem, decide_eq_false hplain]
  rw [understands, if_pos hargs, hcontains, ← ho]

theorem understands_ok (h : understands args o given = .ok o') :
    given.filter (· ≠ headlessOption) = args ∧
      o' = { o with headless := given.contains headlessOption } := by
  unfold understands at h
  split at h
  case isTrue hgiven => exact ⟨hgiven, (Except.ok.inj h).symm⟩
  case isFalse => cases h

theorem takesHeadless_understands (args : List String) (o : Options) :
    (understands args o).TakesHeadless where
  first h _ := by
    refine ⟨{ o with headless := true }, ?_⟩
    rw [understands, List.filter_cons_of_neg (by simp), if_pos (understands_ok h).1]
    simp
  added h _ h' := by
    rw [(understands_ok h).2, (understands_ok h').2]
    simp

end Understands

/-- A terminal in memory, a command line, and a file that is found everywhere. -/
def around (width height : Nat) (args : List String) (o : Options) (file : ProgramFile) :
    Surroundings (Screen width height) where
  parse := understands args o
  files := fun _ => file
  tty := Screen.tty width height

end Chip8.CommandLine
