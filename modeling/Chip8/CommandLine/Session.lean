import Chip8.CommandLine.Options
import Chip8.Machine.Run
import Chip8.Screen.TerminalDisplay

/-! Sessions: one use of the command line, from its arguments to its report.

A session opens the program file, loads the machine from it (`launch`), lets the run
go on as long as it does, and closes the machine (`conclude`). The report is what is
left of it: an exit status, the lines of the log, and the error, if there was one. -/
namespace Chip8.CommandLine

/-- What a path names. -/
inductive ProgramFile where
  /-- Nothing that can be opened. -/
  | unavailable (e : DeviceError)
  | directory
  | regular (content : List UInt8)
  deriving DecidableEq, Repr

/-- What reading the file delivers. A directory can be opened, but not read. -/
def ProgramFile.stream : ProgramFile → Except DeviceError ByteStream
  | .unavailable e => .error e
  | .directory => .ok [.failure DeviceError.isADirectory]
  | .regular content => .ok (ByteStream.ofBytes 4096 content)

/-- What a session leaves behind. -/
structure Report where
  status : Nat
  /-- The lines that the program has written itself; what it is built on may add to them. -/
  output : List String := []
  error : String := ""
  deriving DecidableEq, Repr

/-- A session that failed, for a reason given in detail. -/
def Report.failure (output : List String) (detail : String) : Report :=
  { status := 1, output, error := "Error: " ++ detail ++ "\n" }

/-- What the arguments of a command line ask for: a session with options, or no more than a
report. -/
abbrev Parser := List String → Except Report Options

/-- The options and the opened file, or the report of a session that ends before that. -/
def prepare (parse : Parser) (files : String → ProgramFile) (args : List String) :
    Except Report (Options × ByteStream) :=
  match parse args with
  | .error report => .error report
  | .ok options =>
    match (files options.program).stream with
    | .ok stream => .ok (options, stream)
    | .error e => .error (Report.failure [] e.detail)

/-- The machine of a session before its program is loaded. -/
def machine (o : Options) (display : Display) : Machine :=
  (Machine.unloaded { display, log := { threshold := o.level } }).withSettings o.settings

/-- Load the program and begin the run. A program that cannot be read ends it at once. -/
def launch (m : Machine) (stream : ByteStream) : Run :=
  match Machine.loadFrom (m, stream) with
  | .ok summary (m, _) => Run.start (m.record (.fileLoaded summary.loaded))
  | .error e (m, _) => .ended (.error e) m

def lines (m : Machine) : List String := m.host.log.events.toList.map Event.line

/-- Report how a run ended, with the machine closed already. -/
def finish (result : Except Fault Ending) (m : Machine) : Report :=
  match result with
  | .ok .cancelled => { status := 0, output := lines (m.record .stopped) }
  | .ok .limitReached => { status := 0, output := lines (m.record .finished) }
  | .error e => Report.failure (lines m) e.detail

/-- Close the machine of a run that is over and report. -/
def conclude (result : Except Fault Ending) (m : Machine) : Report := finish result m.close

/-- The report of a run, once it is over. -/
def report? : Run → Option Report
  | .going .. => none
  | .ended result m => some (conclude result m)

end Chip8.CommandLine
