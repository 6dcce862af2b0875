/-! The watcher: what looks for a key that ends the session.

It looks again and again, until such a key comes or looking is no longer possible, and
then never again. -/
namespace Chip8

/-- A key, without the other keys held. -/
inductive KeyCode where
  | escape
  | character (c : Char)
  | other
  deriving DecidableEq, Repr

/-- The keys that end a session: escape, `q` whatever else is held, and control `c`. -/
def KeyCode.quits (control : Bool) : KeyCode → Bool
  | escape => true
  | character c => c = 'q' || (c = 'c' && control)
  | other => false

/-- What comes of looking once. -/
inductive Look where
  /-- Nothing has happened for some time. -/
  | nothing
  /-- A key, perhaps with the control key held. -/
  | key (code : KeyCode) (control : Bool)
  /-- Something other than a key, or nothing that can be read. -/
  | other
  /-- It is not to be known whether anything has happened. -/
  | failed
  /-- Whoever was to read it has broken down. -/
  | panicked
  deriving DecidableEq, Repr

inductive Watcher where
  | watching
  /-- The session is to end. -/
  | asked
  /-- It cannot look, and has given up. -/
  | gone
  /-- It has broken down. -/
  | panicked
  deriving DecidableEq, Repr

namespace Watcher

def see : Watcher → Look → Watcher
  | watching, .key code control => if code.quits control then asked else watching
  | watching, .failed => gone
  | watching, .panicked => panicked
  | w, _ => w

/-- The watcher after several looks. -/
def seeAll (w : Watcher) (looks : List Look) : Watcher := looks.foldl see w

end Watcher

end Chip8
