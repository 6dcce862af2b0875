/-! Errors of the devices that a machine is attached to: its display and the files
and streams that programs are read from.

An error has a kind, a `text` for people and a `detail` that shows how it is made
up. One kind is not a failure at all: an `interrupted` read is simply repeated. -/
namespace Chip8

/-- The class of a device's error. Each system has its own, so a kind is its name. -/
structure DeviceError.Kind where
  name : String
  deriving DecidableEq, Repr

/-- An error as a device reports it. -/
inductive DeviceError where
  /-- One of the operating system's, with its number. -/
  | system (code : Nat) (kind : DeviceError.Kind) (message : String)
  /-- One that the device describes in its own words. -/
  | described (kind : DeviceError.Kind) (text : String)
  deriving DecidableEq, Repr

namespace DeviceError

def Kind.interrupted : Kind := ⟨"Interrupted"⟩

def kind : DeviceError → Kind
  | system _ kind _ => kind
  | described kind _ => kind

/-- The read that met this error is to be repeated. -/
def isInterruption (e : DeviceError) : Bool := e.kind = .interrupted

def text : DeviceError → String
  | system code _ message => message ++ " (os error " ++ toString code ++ ")"
  | described _ text => text

/-- A text between quotes, with a backslash before each quote and backslash in it. -/
def quoted (s : String) : String :=
  let escape (c : Char) : List Char := if c = '"' ∨ c = '\\' then ['\\', c] else [c]
  "\"" ++ String.ofList (s.toList.flatMap escape) ++ "\""

def detail : DeviceError → String
  | system code kind message =>
    "Os \x7b code: " ++ toString code ++ ", kind: " ++ kind.name ++ ", message: " ++ quoted message
      ++ " \x7d"
  | described kind text =>
    "Custom \x7b kind: " ++ kind.name ++ ", error: " ++ quoted text ++ " \x7d"

/-! ### The operating system's errors that opening and reading a file can meet -/

def noSuchFile : DeviceError := .system 2 ⟨"NotFound"⟩ "No such file or directory"

def noSuchDevice : DeviceError := .system 6 ⟨"Uncategorized"⟩ "No such device or address"

def notADirectory : DeviceError := .system 20 ⟨"NotADirectory"⟩ "Not a directory"

def isADirectory : DeviceError := .system 21 ⟨"IsADirectory"⟩ "Is a directory"

def nameTooLong : DeviceError := .system 36 ⟨"InvalidFilename"⟩ "File name too long"

end DeviceError

end Chip8
