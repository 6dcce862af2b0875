import Chip8.Log.Level
import Chip8.Machine.Settings

/-! The options of a session. -/
namespace Chip8.CommandLine

/-- What a session was asked for. -/
structure Options where
  /-- The path of the program. -/
  program : String
  headless : Bool := false
  limit : Option Nat := none
  hertz : Nat := 500
  /-- The threshold of the log. -/
  level : Option Level := some .info
  deriving DecidableEq, Repr

def Options.settings (o : Options) : Settings :=
  let paced := Settings.withClock {} o.hertz
  match o.limit with
  | some limit => paced.withLimit limit
  | none => paced

end Chip8.CommandLine
