import Chip8.Proofs.Reachable

/-! Loading from a stream.

A device hands its bytes out in pieces, is interrupted now and then, and may fail for good
before it has handed out all of them (`ByteStream.Delivers`). How it cuts its bytes and how
often it is interrupted makes no difference to what is read (`Delivers.readAll_eq`), so a
stream is loaded as its bytes are, or, if the device fails, not at all, however much of
it had been read by then (`loadFrom_whole_or_nothing`). -/
namespace Chip8

namespace ByteStream

/-- What a device with `data` may deliver in pieces of at most `chunk` bytes. It goes on to
the end of the data unless it meets a failure to `stop` at, which may be there from the
first byte to behind the last. -/
inductive Delivers (chunk : Nat) : ByteStream → List UInt8 → Option DeviceError → Prop
  | silent : Delivers chunk [] [] none
  | finished (rest : ByteStream) : Delivers chunk (.bytes [] :: rest) [] none
  | piece {p : List UInt8} {rest : ByteStream} {data : List UInt8} {stop : Option DeviceError}
      (hne : p ≠ []) (hle : p.length ≤ chunk) (h : Delivers chunk rest data stop) :
      Delivers chunk (.bytes p :: rest) (p ++ data) stop
  | interrupted {e : DeviceError} {rest : ByteStream} {data : List UInt8}
      {stop : Option DeviceError} (he : e.isInterruption = true)
      (h : Delivers chunk rest data stop) : Delivers chunk (.failure e :: rest) data stop
  | failed {e : DeviceError} (he : e.isInterruption = false) (rest : ByteStream)
      (data : List UInt8) : Delivers chunk (.failure e :: rest) data (some e)

/-- What comes of reading `data` up to a failure. -/
def reading (data : List UInt8) : Option DeviceError → Except DeviceError (List UInt8)
  | none => .ok data
  | some e => .error e

variable {chunk : Nat} {stream rest : ByteStream} {data : List UInt8} {stop : Option DeviceError}

/-- Neither the pieces nor the interruptions can be seen in what was read. -/
theorem Delivers.readAll_eq (h : Delivers chunk stream data stop) :
    ∃ left, stream.readAll = (reading data stop, left) := by
  induction h with
  | silent => exact ⟨[], rfl⟩
  | finished rest => exact ⟨rest, rfl⟩
  | @piece p rest data stop hne hle h ih =>
    obtain ⟨left, hread⟩ := ih
    obtain ⟨b, p, rfl⟩ := List.exists_cons_of_ne_nil hne
    refine ⟨left, ?_⟩
    simp only [readAll, hread]
    cases stop <;> rfl
  | interrupted he h ih =>
    obtain ⟨left, hread⟩ := ih
    exact ⟨left, by rw [readAll, if_pos he, hread]⟩
  | failed he rest data =>
    exact ⟨rest, by rw [readAll, if_neg (Bool.eq_false_iff.mp he), reading]⟩

theorem delivers_parts {parts : List (List UInt8)}
    (hparts : ∀ p ∈ parts, p ≠ [] ∧ p.length ≤ chunk) (h : Delivers chunk rest data stop) :
    Delivers chunk (parts.map .bytes ++ rest) (parts.flatten ++ data) stop := by
  induction parts with
  | nil => exact h
  | cons p parts ih =>
    obtain ⟨hne, hle⟩ := hparts p List.mem_cons_self
    rw [List.flatten_cons, List.append_assoc]
    exact .piece hne hle (ih fun q hq => hparts q (List.mem_cons_of_mem p hq))

theorem delivers_ofBytes (hchunk : 0 < chunk) (bytes : List UInt8)
    (h : Delivers chunk rest data stop) :
    Delivers chunk (ofBytes chunk bytes ++ rest) (bytes ++ data) stop := by
  have hpieces : ∀ p ∈ pieces chunk bytes, p ≠ [] ∧ p.length ≤ chunk := fun p => mem_pieces
  have hparts := delivers_parts hpieces h
  rwa [flatten_pieces hchunk] at hparts

/-- A device that fails once stops there, unless the failure is an interruption or too far
behind the data to be met. -/
theorem delivers_failingAt (hchunk : 0 < chunk) (offset : Nat) (e : DeviceError)
    (data : List UInt8) :
    Delivers chunk (failingAt offset e chunk data) data
      (if offset ≤ data.length ∧ e.isInterruption = false then some e else none) := by
  have hend (bytes : List UInt8) : Delivers chunk (ofBytes chunk bytes) bytes none := by
    have h := delivers_ofBytes hchunk bytes .silent
    rwa [List.append_nil, List.append_nil] at h
  unfold failingAt
  by_cases hoffset : offset ≤ data.length
  · rw [if_pos hoffset]
    cases he : e.isInterruption with
    | true =>
      have h := delivers_ofBytes hchunk (data.take offset)
        (.interrupted he (hend (data.drop offset)))
      simpa using h
    | false =>
      have h := delivers_ofBytes hchunk (data.take offset)
        (.failed he (ofBytes chunk (data.drop offset)) (data.drop offset))
      simpa [hoffset] using h
  · simpa [hoffset] using hend data

end ByteStream

/-! ### Loading -/

namespace Machine

/-- **A stream is loaded like its bytes, or not at all.** However a device cuts its data
into pieces and however often it is interrupted, loading from it gives what loading the
data gives; but if it fails for good, its failure is the fault that comes of it, and nothing
has changed. -/
theorem loadFrom_whole_or_nothing {chunk : Nat} {stream : ByteStream} {data : List UInt8}
    {stop : Option DeviceError} (h : stream.Delivers chunk data stop) :
    ∃ left,
      (stop = none →
        (∀ memory : Memory, memory.loadFrom stream = (.ok (memory.load data), left)) ∧
        ∀ m : Machine, m.phase ≠ .closed → ∃ summary m',
          m.load data = .ok summary m' ∧ loadFrom (m, stream) = .ok summary (m', left)) ∧
      ∀ e, stop = some e →
        (∀ memory : Memory, memory.loadFrom stream = (.error (.input e), left)) ∧
        ∀ m : Machine, m.phase ≠ .closed →
          loadFrom (m, stream) = .error (.input e) (m, left) := by
  obtain ⟨left, hread⟩ := h.readAll_eq
  refine ⟨left, ?_, ?_⟩
  · rintro rfl
    refine ⟨fun memory => by rw [Memory.loadFrom, hread, ByteStream.reading], fun m hopen => ?_⟩
    obtain ⟨memory, hmemory⟩ := memory?_of_open hopen
    exact ⟨_, _, load_ok hmemory data, loadFrom_ok hmemory hread⟩
  · rintro e rfl
    refine ⟨fun memory => by rw [Memory.loadFrom, hread, ByteStream.reading], fun m hopen => ?_⟩
    obtain ⟨memory, hmemory⟩ := memory?_of_open hopen
    exact loadFrom_error hmemory hread

/-- More bytes than fit into memory, in pieces of seven, and an error behind the last. -/
def longStream (e : DeviceError) : ByteStream :=
  .failingAt 5000 e 7 (List.replicate 5000 0x12)

/-- A memory with nothing but this byte where programs are. -/
def filled (byte : UInt8) : Memory := ⟨fun a => if a.val < 0x200 then 0 else byte, 0x200⟩

/-- As many of a byte as do not fit fill it. -/
theorem load_replicate (byte : UInt8) {count : Nat} (h : 3584 ≤ count) :
    Memory.blank.load (List.replicate count byte) = (⟨3584, count - 3584⟩, filled byte) := by
  have hbytes (a : Fin Memory.size) :
      (Memory.blank.load (List.replicate count byte)).2.bytes a = (filled byte).bytes a := by
    simp only [Memory.load, filled, Memory.blank]
    split
    case isTrue hbelow => exact (if_pos hbelow).symm
    case isFalse hbehind =>
      have hlt : a.val - Memory.origin.toNat < count := by
        have horigin : Memory.origin.toNat = 0x200 := rfl
        have hsize : a.val < 4096 := a.isLt
        omega
      rw [if_neg (show ¬ a.val < 0x200 from hbehind), List.getElem?_toArray,
        List.getElem?_replicate_of_lt hlt]
      rfl
  have hmemory : (Memory.blank.load (List.replicate count byte)).2 = filled byte :=
    congrArg (Memory.mk · 0x200) (funext hbytes)
  have hsummary : (Memory.blank.load (List.replicate count byte)).1 = ⟨3584, count - 3584⟩ := by
    have hloaded : min count Memory.capacity = 3584 := Nat.min_eq_right h
    simp only [Memory.load, List.length_replicate, hloaded]
  exact Prod.ext hsummary hmemory

/-- All of it has been read when the device fails, and nothing is loaded; if that was a mere
interruption, as much is as fits. -/
theorem longStream_loads :
    (∃ left, loadFrom (unloaded {}, longStream .noSuchDevice) =
      .error (.input .noSuchDevice) (unloaded {}, left)) ∧
    ∃ left, (unloaded {}).load (List.replicate 5000 0x12) =
        .ok ⟨3584, 1416⟩ ((unloaded {}).start (⟨3584, 1416⟩, filled 0x12)) ∧
      loadFrom (unloaded {}, longStream (.described .interrupted "signal")) =
        .ok ⟨3584, 1416⟩ ((unloaded {}).start (⟨3584, 1416⟩, filled 0x12), left) := by
  have hchunk : 0 < 7 := by decide
  have hopen : (unloaded {}).phase ≠ .closed := nofun
  constructor
  · have h := ByteStream.delivers_failingAt hchunk 5000 .noSuchDevice (List.replicate 5000 0x12)
    rw [if_pos ⟨Nat.le_of_eq List.length_replicate.symm, rfl⟩] at h
    obtain ⟨left, _, hstop⟩ := loadFrom_whole_or_nothing h
    exact ⟨left, (hstop _ rfl).2 _ hopen⟩
  · have h := ByteStream.delivers_failingAt hchunk 5000 (.described .interrupted "signal")
      (List.replicate 5000 0x12)
    rw [if_neg fun hmet => nomatch hmet.2] at h
    obtain ⟨left, hwhole, _⟩ := loadFrom_whole_or_nothing h
    obtain ⟨summary, m', hload, hfrom⟩ := (hwhole rfl).2 _ hopen
    have hdirect : (unloaded {}).load (List.replicate 5000 0x12) =
        .ok ⟨3584, 1416⟩ ((unloaded {}).start (⟨3584, 1416⟩, filled 0x12)) := by
      rw [load_ok rfl, load_replicate 0x12 (by decide)]
    cases hload.symm.trans hdirect
    exact ⟨left, hdirect, hfrom⟩

end Machine

end Chip8
