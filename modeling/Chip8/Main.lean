import Chip8.CommandLine.Session

/-! The program: reads the file, plays the run and prints what it reports.

There are no keys and no screen here, so only headless sessions get to run. -/
namespace Chip8.CommandLine

/-- The operating system's number of an error, which may come with its sign turned. -/
def errorNumber : IO.Error → UInt32
  | .noFileOrDirectory _ n _ | .noSuchThing _ n _ | .inappropriateType _ n _
  | .invalidArgument _ n _ => min n (0 - n)
  | _ => 0

/-- What is to be found at a path. -/
def readProgram (path : String) : IO ProgramFile := do
  try
    return .regular (← IO.FS.readBinFile path).toList
  catch e =>
    match errorNumber e with
    | 2 => return .unavailable DeviceError.noSuchFile
    | 6 => return .unavailable DeviceError.noSuchDevice
    | 20 => return .unavailable DeviceError.notADirectory
    | 21 => return .directory
    | 36 => return .unavailable DeviceError.nameTooLong
    | _ => throw e

/-- Print a report, less the lines that have been printed already. -/
def print (printed : Nat) (report : Report) : IO UInt32 := do
  for line in report.output.drop printed do
    IO.println line
  IO.eprint report.error
  return report.status.toUInt32

/-- How many turns to take at a time, and how many milliseconds to rest after them. -/
def beat (settings : Settings) : Nat × UInt32 :=
  match settings.pause with
  | none => (1000, 0)
  | some pause =>
    let turns := max 1 (1000000 / max 1 pause)
    (turns, (turns * pause / 1000000).toUInt32)

/-- Play a run to its end and print its lines as they come. -/
partial def play (printed : Nat) (run : Run) : IO UInt32 := do
  let (turns, rest) := beat run.machine.settings
  let run := run.after turns
  match report? run with
  | some report => print printed report
  | none =>
    let output := lines run.machine
    for line in output.drop printed do
      IO.println line
    IO.sleep rest
    play output.length run

/-- The session needs a terminal and has none. -/
def noTerminal : Report := Report.failure [] DeviceError.noSuchDevice.detail

/-- The program, with arguments read by `parse`. -/
def program (parse : Parser) (args : List String) : IO UInt32 := do
  let file ← match parse args with
    | .ok options => readProgram options.program
    | .error _ => pure (.unavailable DeviceError.noSuchFile)
  match prepare parse (fun _ => file) args with
  | .error report => print 0 report
  | .ok (options, stream) =>
    if options.headless then play 0 (launch (machine options Display.steady) stream)
    else print 0 noTerminal

end Chip8.CommandLine
