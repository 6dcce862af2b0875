import Chip8.DeviceError
import Chip8.Pieces

/-! Streams of bytes, which arrive in pieces and may fail on the way.

A stream is the list of what its device will deliver. Reading it to the end
(`readAll`) collects pieces until the device has no more, repeats interrupted reads
and gives up at any other failure, leaving what has not been delivered. -/
namespace Chip8

/-- The answer of a device to one read. -/
inductive Delivery where
  /-- Some bytes; none at all says that the stream has ended. -/
  | bytes (piece : List UInt8)
  | failure (e : DeviceError)
  deriving DecidableEq, Repr

abbrev ByteStream := List Delivery

namespace ByteStream

/-- `data` in pieces of `chunk` bytes, the last of them perhaps shorter. -/
def ofBytes (chunk : Nat) (data : List UInt8) : ByteStream := (pieces chunk data).map .bytes

/-- `data` in pieces of `chunk` bytes with one failure before the byte at `offset`. A
failure past the end of the data is never met; one exactly at the end is. -/
def failingAt (offset : Nat) (e : DeviceError) (chunk : Nat) (data : List UInt8) : ByteStream :=
  if offset ≤ data.length then
    ofBytes chunk (data.take offset) ++ .failure e :: ofBytes chunk (data.drop offset)
  else ofBytes chunk data

/-- Everything up to the end of the stream, or the failure that stopped the reading;
and what is left of the stream. -/
def readAll : ByteStream → Except DeviceError (List UInt8) × ByteStream
  | [] => (.ok [], [])
  | .bytes [] :: rest => (.ok [], rest)
  | .bytes (b :: piece) :: rest =>
    match readAll rest with
    | (.ok more, left) => (.ok (b :: piece ++ more), left)
    | (.error e, left) => (.error e, left)
  | .failure e :: rest => if e.isInterruption then readAll rest else (.error e, rest)

end ByteStream

end Chip8
