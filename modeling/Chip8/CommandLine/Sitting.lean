import Chip8.CommandLine.Session
import Chip8.Watcher

/-! Sessions at a terminal.

Unless it is headless, a session takes the terminal over: it reads keys without waiting
for the end of a line, shows the display, and has a watcher look for keys that end it
while the run goes on turn by turn (`Sitting`). In the end it puts the terminal back, with
some room under the last frame (`depart`). -/
namespace Chip8.CommandLine

/-- What a session finds around it. -/
structure Surroundings (T : Type) where
  parse : Parser
  files : String → ProgramFile
  tty : Tty T

/-- What a session leaves behind at a terminal. -/
structure Departure (T : Type) where
  report : Report
  terminal : T
  /-- The session, or its watcher, broke down, which is told of as an error as well. -/
  brokeDown : Bool := false

/-- What the watcher comes upon before each turn of the run, and after the last. -/
abbrev Looks := Nat → List Look

/-- A run and its watcher. -/
structure Sitting where
  run : Run
  watcher : Watcher := .watching
  /-- How many turns the run has taken. -/
  turns : Nat := 0

namespace Sitting

/-- The watcher's part before a turn: the run may be asked to end. -/
def watch (looks : Looks) (s : Sitting) : Sitting :=
  let watcher := s.watcher.seeAll (looks s.turns)
  match s.run with
  | .going steps m =>
    { s with watcher, run := .going steps (if watcher = .asked then m.cancel else m) }
  | .ended .. => { s with watcher }

def turn (looks : Looks) (s : Sitting) : Sitting :=
  let s := s.watch looks
  { s with run := s.run.turn, turns := s.turns + 1 }

/-- The sitting after a number of turns; one whose run is over stays as it is. -/
def after (looks : Looks) : Nat → Sitting → Sitting
  | 0, s => s
  | turns + 1, s =>
    match s.run with
    | .ended .. => s
    | .going .. => after looks turns (s.turn looks)

end Sitting

variable {T : Type}

/-- Put the terminal back and report. If the terminal cannot be put back, that is what is
reported. -/
def depart (tty : Tty T) (watcher : Watcher) (m : Machine) (report : Machine → Report) (t : T) :
    Departure T :=
  let brokeDown := watcher = .panicked
  let m := if brokeDown then m.record .keysLost else m
  match tty.disableRaw t with
  | .ok _ t => { report := report m, terminal := tty.lineBreaks 4 t, brokeDown }
  | .error e t => { report := Report.failure (lines m) e.detail, terminal := t, brokeDown }

/-- A session that has broken down: nothing is put back but what the display puts back itself. -/
def broken (m : Machine) (t : T) : Departure T :=
  { report := { status := 101, output := lines m }, terminal := t, brokeDown := true }

/-- The end of a session without a display. -/
def undisplayed (tty : Tty T) (looks : Looks) (o : Options) (trouble : Trouble) (t : T) :
    Departure T :=
  -- There is no machine yet. Of this one no more is seen than the log.
  let m := machine o Display.steady
  match trouble with
  | .panicked => broken m t
  | .failed e =>
    depart tty (Watcher.watching.seeAll (looks 0)) m (fun m => .failure (lines m) e.detail) t

/-- A session with a display as it begins. -/
def sitting (tty : Tty T) (o : Options) (stream : ByteStream) (d : TerminalDisplay T) : Sitting :=
  { run := launch (machine o (d.display tty)) stream }

/-- The end of a session with a display, once its run is over. -/
def departure? (tty : Tty T) (looks : Looks) (d : TerminalDisplay T) (s : Sitting) :
    Option (Departure T) :=
  match s.run with
  | .going .. => none
  | .ended result m =>
    let shown := (d.after tty m.host.calls).terminal
    let t := tty.finish shown
    if d.trouble? tty m.host.calls = some .panicked then some (broken m.close t)
    else some (depart tty (s.watch looks).watcher m.close (finish result) t)

/-- What a session leaves behind that takes no more than so many turns. -/
def Surroundings.session? (env : Surroundings T) (turns : Nat) (looks : Looks)
    (args : List String) (t : T) : Option (Departure T) :=
  match prepare env.parse env.files args with
  | .error report => some { report, terminal := t }
  | .ok (o, stream) =>
    if o.headless then
      (report? ((launch (machine o Display.steady) stream).after turns)).map fun report =>
        { report, terminal := t }
    else
      match env.tty.enableRaw t with
      | .error e t => some { report := Report.failure [] e.detail, terminal := t }
      | .ok _ t =>
        match TerminalDisplay.new env.tty Canvas.display t with
        | .error (trouble, t) => some (undisplayed env.tty looks o trouble t)
        | .ok d => departure? env.tty looks d ((sitting env.tty o stream d).after looks turns)

end Chip8.CommandLine
