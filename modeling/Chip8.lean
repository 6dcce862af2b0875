import Chip8.CommandLine.Sitting
import Chip8.Screen
import Chip8.Main
import Chip8.Proofs.Step
import Chip8.Proofs.Rollback
import Chip8.Proofs.Reachable
import Chip8.Proofs.History
import Chip8.Proofs.Invariant
import Chip8.Proofs.Crash
import Chip8.Proofs.Stopping
import Chip8.Proofs.Bracketing
import Chip8.Proofs.Delivery
import Chip8.Proofs.Lifecycle
import Chip8.Proofs.Image
import Chip8.Proofs.Reloading
import Chip8.Proofs.Trace
import Chip8.Proofs.Stride
import Chip8.Proofs.Interruption
import Chip8.Proofs.Retrying
import Chip8.Proofs.Transcript
import Chip8.Proofs.Dependence
import Chip8.Proofs.Guarded
import Chip8.Proofs.Overflow
import Chip8.Proofs.LastWriter
import Chip8.Proofs.Frame
import Chip8.Proofs.Drawing
import Chip8.Proofs.Redraw
import Chip8.Proofs.InMemory
import Chip8.Proofs.Watching
import Chip8.Proofs.Launching
import Chip8.Proofs.Restoration
import Chip8.Proofs.Undisturbed
import Chip8.Proofs.Sessions
import Chip8.Proofs.Headless
import Chip8.Proofs.Displays
import Chip8.Proofs.Reading
import Chip8.Proofs.Programs
import Chip8.Proofs.Onward
import Chip8.Proofs.Alignment
import Chip8.Proofs.Encoding
import Chip8.Proofs.Geometry
import Chip8.Proofs.Bookkeeping
import Chip8.Proofs.Listing
