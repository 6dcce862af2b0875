import Chip8.Memory.Loading
import Mathlib.Algebra.GroupWithZero.Nat
import Mathlib.Data.List.OfFn

/-! Arithmetic that can go wrong.

Addresses, lengths and counts are numbers in the definitions of the machine, so a sum is never too
large for them and no byte is asked for that is not there. A host has words of so many bits, and
slices that it cuts by their indices: a sum may not fit its word, a difference may be below zero, a
range may not lie within its slice. A `Guarded` computation looks at that before every such step,
and if it cannot be made it stops the whole program with a `Panic`, which is not a fault.

The operations of a memory are written with guarded steps here, in the order in which they are made
in words. They go through, for any memory and any arguments, and what they come to is what
the operations are (`slice_eq` and so on, one lemma for each). -/
namespace Chip8

/-- What stops a program in the middle of an operation. -/
inductive Panic where
  /-- A number does not fit its machine word. -/
  | overflow
  /-- A slice has no such index or range. -/
  | outOfRange
  /-- Bytes are copied onto a slice of another length. -/
  | mismatch
  deriving DecidableEq, Repr

/-- A computation in machine words and slices. -/
abbrev Guarded := Except Panic

namespace Guarded

/-! ### Words -/

def sum (bits a b : Nat) : Guarded Nat :=
  if a + b < 2 ^ bits then .ok (a + b) else .error .overflow

def difference (a b : Nat) : Guarded Nat := if b ≤ a then .ok (a - b) else .error .overflow

/-- The same number in a word of so many bits. -/
def narrow (bits a : Nat) : Guarded Nat := if a < 2 ^ bits then .ok a else .error .overflow

section Words
variable {bits a b : Nat}

theorem sum_eq (h : a + b < 2 ^ bits) : sum bits a b = .ok (a + b) := if_pos h

theorem difference_eq (h : b ≤ a) : difference a b = .ok (a - b) := if_pos h

theorem narrow_eq (h : a < 2 ^ bits) : narrow bits a = .ok a := if_pos h

end Words

/-! ### Slices -/

section Slices
variable {α : Type} {n start stop : Nat}

def item (xs : List α) (index : Nat) : Guarded α :=
  match xs[index]? with
  | some x => .ok x
  | none => .error .outOfRange

/-- What is before an index. -/
def front (xs : List α) (stop : Nat) : Guarded (List α) :=
  if stop ≤ xs.length then .ok (xs.take stop) else .error .outOfRange

/-- What is from one index up to another one. -/
def part (bytes : Fin n → UInt8) (start stop : Nat) : Guarded (List UInt8) :=
  if h : start ≤ stop ∧ stop ≤ n then
    .ok (List.ofFn fun k : Fin (stop - start) => bytes ⟨start + k, by omega⟩)
  else .error .outOfRange

def fillPart (bytes : Fin n → UInt8) (start stop : Nat) (byte : UInt8) :
    Guarded (Fin n → UInt8) :=
  if start ≤ stop ∧ stop ≤ n then
    .ok fun a => if start ≤ a.val ∧ a.val < stop then byte else bytes a
  else .error .outOfRange

def copyPart (bytes : Fin n → UInt8) (start stop : Nat) (data : List UInt8) :
    Guarded (Fin n → UInt8) :=
  if start ≤ stop ∧ stop ≤ n then
    if data.length = stop - start then
      .ok fun a => if start ≤ a.val then data[a.val - start]?.getD (bytes a) else bytes a
    else .error .mismatch
  else .error .outOfRange

theorem front_eq {xs : List α} (h : stop ≤ xs.length) : front xs stop = .ok (xs.take stop) :=
  if_pos h

theorem part_eq (bytes : Fin n → UInt8) {len : Nat} (h : start + len ≤ n) :
    part bytes start (start + len) =
      .ok (List.ofFn fun k : Fin len => bytes ⟨start + k, by omega⟩) := by
  rw [part, dif_pos ⟨Nat.le_add_right _ _, h⟩]
  congr 1
  exact List.ofFn_congr (Nat.add_sub_cancel_left _ _) _

theorem fillPart_eq (bytes : Fin n → UInt8) (byte : UInt8) (h : start ≤ stop) (hstop : stop ≤ n) :
    fillPart bytes start stop byte =
      .ok fun a => if start ≤ a.val ∧ a.val < stop then byte else bytes a :=
  if_pos ⟨h, hstop⟩

theorem copyPart_eq (bytes : Fin n → UInt8) {data : List UInt8} (hstop : stop ≤ n)
    (hlength : start + data.length = stop) :
    copyPart bytes start stop data =
      .ok fun a => if start ≤ a.val then data[a.val - start]?.getD (bytes a) else bytes a := by
  subst hlength
  rw [copyPart, if_pos ⟨Nat.le_add_right _ _, hstop⟩, if_pos (Nat.add_sub_cancel_left _ _).symm]

end Slices

/-! ### Ranges of a memory -/

variable (m : Memory) (addr : UInt16) (len : Nat) (data : List UInt8)

/-- The ends of a range of bytes. A sum too large for its word is as large as can be. -/
def range : Except Fault (Nat × Nat) :=
  let stop := min (addr.toNat + len) Memory.lastEnd
  if Memory.size < stop then .error (.badAddress stop) else .ok (addr.toNat, stop)

def slice : Guarded (Except Fault (List UInt8)) :=
  match range addr len with
  | .error e => return .error e
  | .ok (start, stop) => return .ok (← part m.bytes start stop)

def word : Guarded (Except Fault UInt16) :=
  match range addr 2 with
  | .error e => return .error e
  | .ok (start, stop) => do
    let bytes ← part m.bytes start stop
    let first ← item bytes 0
    let second ← item bytes 1
    return .ok (Opcode.word ⟨first, second⟩)

def write : Guarded (Except Fault Memory) :=
  match range addr data.length with
  | .error e => return .error e
  | .ok (start, stop) => return .ok { m with bytes := ← copyPart m.bytes start stop data }

def fill (byte : UInt8) : Guarded (Except Fault Memory) :=
  match range addr len with
  | .error e => return .error e
  | .ok (start, stop) => return .ok { m with bytes := ← fillPart m.bytes start stop byte }

section Range
variable {addr : UInt16} {len : Nat}

theorem range_ok (h : addr.toNat + len ≤ Memory.size) :
    range addr len = .ok (addr.toNat, addr.toNat + len) := by
  have hlast : addr.toNat + len ≤ Memory.lastEnd := Nat.le_trans h (by decide)
  rw [range, Nat.min_eq_left hlast, if_neg (Nat.not_lt_of_le h)]

theorem range_error (h : ¬ addr.toNat + len ≤ Memory.size) :
    range addr len = .error (Memory.outside addr len) := by
  have hstop : Memory.size < min (addr.toNat + len) Memory.lastEnd :=
    Nat.lt_min.mpr ⟨Nat.lt_of_not_le h, by decide⟩
  exact if_pos hstop

end Range

theorem slice_eq : slice m addr len = .ok (m.slice addr len) := by
  by_cases h : addr.toNat + len ≤ Memory.size
  · rw [slice, range_ok h, Memory.slice, dif_pos h]
    simp only [part_eq m.bytes h]
    rfl
  · rw [slice, range_error h, Memory.slice, dif_neg h]
    rfl

theorem word_eq : word m addr = .ok (m.word addr) := by
  by_cases h : addr.toNat + 2 ≤ Memory.size
  · rw [word, range_ok h, Memory.word, dif_pos h]
    simp only [part_eq m.bytes h]
    rfl
  · rw [word, range_error h, Memory.word, dif_neg h]
    rfl

theorem write_eq : write m addr data = .ok (m.write addr data) := by
  by_cases h : addr.toNat + data.length ≤ Memory.size
  · rw [write, range_ok h, Memory.write, if_pos h]
    simp only [copyPart_eq m.bytes h rfl, List.getElem?_toArray]
    rfl
  · rw [write, range_error h, Memory.write, if_neg h]
    rfl

theorem fill_eq (byte : UInt8) : fill m addr len byte = .ok (m.fill addr len byte) := by
  by_cases h : addr.toNat + len ≤ Memory.size
  · rw [fill, range_ok h, Memory.fill, if_pos h]
    simp only [fillPart_eq m.bytes byte (Nat.le_add_right _ _) h]
    rfl
  · rw [fill, range_error h, Memory.fill, if_neg h]
    rfl

/-! ### The cursor of a memory -/

def readByte : Guarded (Except Fault (UInt8 × Memory)) :=
  if h : m.cursor.toNat < Memory.size then do
    let next ← sum 16 m.cursor.toNat 1
    return .ok (m.bytes ⟨m.cursor.toNat, h⟩, { m with cursor := next.toUInt16 })
  else return .error (.endOfMemory m.cursor)

def advance (count : UInt16) : Guarded (Except Fault Memory) := do
  let target ← sum 64 m.cursor.toNat count.toNat
  if target < Memory.size then
    let cursor ← narrow 16 target
    return .ok { m with cursor := cursor.toUInt16 }
  else return .error (.badAddress target)

theorem readByte_eq : readByte m = .ok m.readByte := by
  rw [readByte, Memory.readByte]
  split
  case isTrue h =>
    have hsum : m.cursor.toNat + 1 < 2 ^ 16 := Nat.lt_of_le_of_lt h (by decide)
    rw [sum_eq hsum]
    show Except.ok (Except.ok (_, Memory.mk m.bytes (m.cursor.toNat + 1).toUInt16)) = _
    rw [Nat.toUInt16, UInt16.ofNat_add, UInt16.ofNat_toNat]
    rfl
  case isFalse => rfl

theorem advance_eq (count : UInt16) : advance m count = .ok (m.advance count) := by
  have hsum : m.cursor.toNat + count.toNat < 2 ^ 64 := by
    have := m.cursor.toNat_lt
    have := count.toNat_lt
    omega
  rw [advance, sum_eq hsum, Memory.advance]
  show (if _ then _ else _) = Except.ok (if _ then _ else _)
  split
  case isTrue h =>
    rw [narrow_eq (Nat.lt_trans h (by decide))]
    rfl
  case isFalse => rfl

/-! ### Loading -/

def load (program : List UInt8) : Guarded (LoadSummary × Memory) := do
  let start := Memory.origin.toNat
  let loaded := min program.length Memory.capacity
  let discarded ← difference program.length loaded
  let cleared ← fillPart m.bytes start Memory.size 0
  let stop ← sum 64 start loaded
  let image ← front program loaded
  let bytes ← copyPart cleared start stop image
  return (⟨loaded, discarded⟩, ⟨bytes, Memory.origin⟩)

/-- A stream is read before anything else is done. -/
def loadFrom (s : ByteStream) : Guarded (Except Fault (LoadSummary × Memory) × ByteStream) :=
  match s.readAll with
  | (.ok program, left) => return (.ok (← load m program), left)
  | (.error e, left) => return (.error (.input e), left)

/-- What fits of a program is copied over zeros. -/
theorem copied_load (program : List UInt8) :
    (fun a : Fin Memory.size =>
      if Memory.origin.toNat ≤ a.val then
        (program.take (min program.length Memory.capacity))[a.val - Memory.origin.toNat]?.getD
          (if Memory.origin.toNat ≤ a.val ∧ a.val < Memory.size then 0 else m.bytes a)
      else if Memory.origin.toNat ≤ a.val ∧ a.val < Memory.size then 0 else m.bytes a) =
    (m.load program).2.bytes := by
  funext a
  simp only [Memory.load, List.getElem?_toArray]
  by_cases h : a.val < Memory.origin.toNat
  · rw [if_neg (Nat.not_le_of_lt h), if_neg (fun hin => Nat.not_le_of_lt h hin.1), if_pos h]
  · have hle := Nat.le_of_not_lt h
    have hfits : a.val - Memory.origin.toNat < Memory.capacity := Nat.sub_lt_sub_right hle a.isLt
    rw [if_pos hle, if_pos ⟨hle, a.isLt⟩, if_neg h, Nat.min_comm, ← List.take_eq_take_min,
      List.getElem?_take, if_pos hfits]

theorem load_eq (program : List UInt8) : load m program = .ok (m.load program) := by
  have hloaded : min program.length Memory.capacity ≤ program.length := Nat.min_le_left _ _
  have hfits : Memory.origin.toNat + min program.length Memory.capacity ≤ Memory.size :=
    Nat.add_le_of_le_sub' (by decide) (Nat.min_le_right _ _)
  have hcleared : fillPart m.bytes Memory.origin.toNat Memory.size 0 = _ :=
    fillPart_eq m.bytes 0 (by decide) (Nat.le_refl _)
  have hsum : sum 64 Memory.origin.toNat (min program.length Memory.capacity) = _ :=
    sum_eq (Nat.lt_of_le_of_lt hfits (by decide))
  have hlength := congrArg (Memory.origin.toNat + ·) (List.length_take_of_le hloaded)
  simp only [load, difference_eq hloaded, hcleared, hsum, front_eq hloaded, bind, Except.bind,
    copyPart_eq _ hfits hlength, copied_load]
  rfl

theorem loadFrom_eq (s : ByteStream) : loadFrom m s = .ok (m.loadFrom s) := by
  rw [loadFrom, Memory.loadFrom]
  cases s.readAll with
  | mk result left =>
    cases result with
    | ok program =>
      simp only [load_eq]
      rfl
    | error e => rfl

end Guarded

/-! ### Requests -/

namespace Memory

/-- What can be asked of a memory. -/
inductive Request where
  | load (program : List UInt8)
  | loadFrom (stream : ByteStream)
  | write (addr : UInt16) (data : List UInt8)
  | fill (addr : UInt16) (len : Nat) (value : UInt8)
  | slice (addr : UInt16) (len : Nat)
  | word (addr : UInt16)
  | readByte
  | seek (addr : UInt16)
  | advance (count : UInt16)

inductive Response where
  | done
  | loaded (summary : LoadSummary)
  | bytes (bytes : List UInt8)
  | word (word : UInt16)
  | byte (value : UInt8)
  deriving DecidableEq, Repr

def serve (m : Memory) : Request → Except Fault (Response × Memory)
  | .load program => .ok (.loaded (m.load program).1, (m.load program).2)
  | .loadFrom stream => (m.loadFrom stream).1.map fun loading => (.loaded loading.1, loading.2)
  | .write addr data => (m.write addr data).map (.done, ·)
  | .fill addr len value => (m.fill addr len value).map (.done, ·)
  | .slice addr len => (m.slice addr len).map (.bytes ·, m)
  | .word addr => (m.word addr).map (.word ·, m)
  | .readByte => m.readByte.map fun read => (.byte read.1, read.2)
  | .seek addr => (m.seek addr).map (.done, ·)
  | .advance count => (m.advance count).map (.done, ·)

end Memory

namespace Guarded

def serve (m : Memory) : Memory.Request → Guarded (Except Fault (Memory.Response × Memory))
  | .load program => do
    let loading ← load m program
    return .ok (.loaded loading.1, loading.2)
  | .loadFrom stream => do
    let (result, _) ← loadFrom m stream
    return result.map fun loading => (.loaded loading.1, loading.2)
  | .write addr data => return (← write m addr data).map (.done, ·)
  | .fill addr len value => return (← fill m addr len value).map (.done, ·)
  | .slice addr len => return (← slice m addr len).map (.bytes ·, m)
  | .word addr => return (← word m addr).map (.word ·, m)
  | .readByte => return (← readByte m).map fun read => (.byte read.1, read.2)
  -- To seek is to compare and to set.
  | .seek addr => return (m.seek addr).map (.done, ·)
  | .advance count => return (← advance m count).map (.done, ·)

/-- **Whatever is asked of a memory**, with any arguments, can be done in words and slices, and is
done or refused as it should be. -/
theorem serve_eq (m : Memory) (request : Memory.Request) :
    serve m request = .ok (m.serve request) := by
  cases request with
  | load program => rw [serve, load_eq]; rfl
  | loadFrom stream => rw [serve, loadFrom_eq]; rfl
  | write addr data => rw [serve, write_eq]; rfl
  | fill addr len value => rw [serve, fill_eq]; rfl
  | slice addr len => rw [serve, slice_eq]; rfl
  | word addr => rw [serve, word_eq]; rfl
  | readByte => rw [serve, readByte_eq]; rfl
  | seek addr => rfl
  | advance count => rw [serve, advance_eq]; rfl

end Guarded

end Chip8
