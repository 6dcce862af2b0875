import Chip8.Proofs.Image

/-! Two ways to read a memory.

A memory is read by ranges or at its cursor, and each way has bounds and faults of its own. They
read the same bytes. Reads at the cursor, one after another, are the slice that begins there, and
when memory ends before the slice does they read what is left of it and then fail for ever
(`reads_within`, `reads_beyond`). The word at an address is what two reads from there make, so it
is the opcode that a step from there decodes (`word_eq_ok_iff`). And a write is read back by both,
and by nobody who reads elsewhere (`slice_write`, `slice_write_of_disjoint`). -/
namespace Chip8

/-! ### Words and their bytes -/

namespace Opcode

variable (w : UInt16)

theorem toNat_first_ofWord : (ofWord w).first.toNat = w.toNat / 256 := by
  have := w.toNat_lt
  rw [ofWord, UInt16.toNat_toUInt8, UInt16.toNat_shiftRight, Nat.shiftRight_eq_div_pow]
  simp only [UInt16.reduceToNat, Nat.reduceMod]
  omega

theorem toNat_second_ofWord : (ofWord w).second.toNat = w.toNat % 256 :=
  UInt16.toNat_toUInt8 w

/-- A word is the word of its opcode. -/
theorem word_ofWord : (ofWord w).word = w := by
  apply UInt16.toNat_inj.mp
  rw [toNat_word, toNat_first_ofWord, toNat_second_ofWord, Nat.mul_comm, Nat.div_add_mod]

/-- An opcode is the opcode of its word. -/
theorem ofWord_word (op : Opcode) : ofWord op.word = op := by
  have hsecond := op.second.toNat_lt
  have hfirst : (ofWord op.word).first = op.first := by
    apply UInt8.toNat_inj.mp
    rw [toNat_first_ofWord, toNat_word]
    omega
  have hsecond : (ofWord op.word).second = op.second := by
    apply UInt8.toNat_inj.mp
    rw [toNat_second_ofWord, toNat_word]
    omega
  show Opcode.mk (ofWord op.word).first (ofWord op.word).second = op
  rw [hfirst, hsecond]

end Opcode

namespace Memory

variable {m m' : Memory} {addr : UInt16} {len n : Nat} {bytes data : List UInt8}

/-! ### Slices and words -/

/-- A slice is so many bytes from an address on, if memory has them. -/
theorem slice_eq_ok_iff :
    m.slice addr len = .ok bytes ↔ bytes.length = len ∧ addr.toNat + len ≤ size ∧
      ∀ k (hk : k < bytes.length) (hs : addr.toNat + k < size),
        bytes[k] = m.bytes ⟨addr.toNat + k, hs⟩ := by
  unfold slice
  split
  case isTrue h =>
    rw [Except.ok.injEq]
    constructor
    · rintro rfl
      exact ⟨List.length_ofFn, h, fun k hk hs => List.getElem_ofFn _⟩
    · rintro ⟨hlen, _, hbytes⟩
      apply List.ext_getElem
      · rw [List.length_ofFn, hlen]
      · intro k _ hk
        rw [List.getElem_ofFn, hbytes k hk]
  case isFalse h => exact iff_of_false nofun fun ⟨_, hle, _⟩ => h hle

theorem slice_error (h : ¬ addr.toNat + len ≤ size) :
    m.slice addr len = .error (outside addr len) :=
  dif_neg h

/-- Only the bytes of a range count for its slice. -/
theorem slice_congr
    (h : ∀ a : Fin size, addr.toNat ≤ a.val → a.val < addr.toNat + len → m'.bytes a = m.bytes a) :
    m'.slice addr len = m.slice addr len := by
  by_cases hroom : addr.toNat + len ≤ size
  · rw [slice, dif_pos hroom, slice, dif_pos hroom]
    congr 2
    funext k
    exact h _ (Nat.le_add_right _ _) (Nat.add_lt_add_left k.isLt _)
  · rw [slice_error hroom, slice_error hroom]

theorem slice_two (h : addr.toNat + 2 ≤ size) :
    m.slice addr 2 =
      .ok [m.bytes ⟨addr.toNat, Nat.lt_of_succ_lt h⟩, m.bytes ⟨addr.toNat + 1, h⟩] :=
  dif_pos h

/-- A word is the two bytes of a slice, most significant first. -/
theorem word_eq_ok_iff {w : UInt16} :
    m.word addr = .ok w ↔
      m.slice addr 2 = .ok [(Opcode.ofWord w).first, (Opcode.ofWord w).second] := by
  by_cases h : addr.toNat + 2 ≤ size
  · rw [word, dif_pos h, slice_two h, Except.ok.injEq, Except.ok.injEq]
    constructor
    · rintro rfl
      rw [Opcode.ofWord_word]
    · intro hbytes
      simp only [List.cons.injEq, and_true] at hbytes
      rw [hbytes.1, hbytes.2]
      exact Opcode.word_ofWord w
  · rw [word, dif_neg h, slice_error h]
    exact iff_of_false nofun nofun

/-- There is a word at each address but the last one of memory. -/
theorem exists_word_iff : (∃ w, m.word addr = .ok w) ↔ addr.toNat ≤ 4094 := by
  unfold word
  split
  case isTrue h => exact iff_of_true ⟨_, rfl⟩ (Nat.le_sub_of_add_le h)
  case isFalse h => exact iff_of_false nofun fun hle => h (Nat.add_le_of_le_sub (by decide) hle)

/-- The word at the cursor is the opcode that is fetched there. -/
theorem word_cursor {w : UInt16} :
    m.word m.cursor = .ok w ↔ m.opcode? = some (Opcode.ofWord w) := by
  by_cases h : m.cursor.toNat + 2 ≤ size
  · have hsecond : m.cursor.toNat + 1 < size := h
    rw [word, dif_pos h, opcode?, dif_pos hsecond, Except.ok.injEq, Option.some.injEq]
    constructor
    · rintro rfl
      rw [Opcode.ofWord_word]
    · intro hop
      rw [hop, Opcode.word_ofWord]
  · have hsecond : ¬ m.cursor.toNat + 1 < size := h
    rw [word, dif_neg h, opcode?, dif_neg hsecond]
    constructor
    · rintro ⟨⟩
    · rintro ⟨⟩

theorem word_of_opcode? {op : Opcode} (h : m.opcode? = some op) :
    m.word m.cursor = .ok op.word := by
  rw [word_cursor, Opcode.ofWord_word]
  exact h

/-- A word is read from the bytes alone. -/
theorem word_congr (h : m.bytes = m'.bytes) (a : UInt16) : m.word a = m'.word a := by
  simp only [word, h]

/-! ### Reads at the cursor -/

/-- What so many reads of a byte answer, one after another, and the memory that they leave. A
read that is refused leaves it as it was. -/
def reads : Nat → Memory → List (Except Fault UInt8) × Memory
  | 0, m => ([], m)
  | n + 1, m =>
    match m.readByte with
    | .ok (byte, next) => (.ok byte :: (reads n next).1, (reads n next).2)
    | .error e => (.error e :: (reads n m).1, (reads n m).2)

theorem readByte_ok (h : m.cursor.toNat < size) :
    m.readByte = .ok (m.bytes ⟨m.cursor.toNat, h⟩, { m with cursor := m.cursor + 1 }) :=
  dif_pos h

theorem readByte_error (h : ¬ m.cursor.toNat < size) :
    m.readByte = .error (.endOfMemory m.cursor) :=
  dif_neg h

theorem reads_add (a b : Nat) (m : Memory) :
    reads (a + b) m =
      ((reads a m).1 ++ (reads b (reads a m).2).1, (reads b (reads a m).2).2) := by
  induction a generalizing m with
  | zero => simp [reads]
  | succ a ih =>
    rw [Nat.succ_add, reads, reads]
    split <;> simp [ih]

/-- A slice begins with the byte at the cursor, and goes on behind it. -/
theorem slice_cons {rest : List UInt8} (h : m.cursor.toNat < size)
    (hrest : m.slice (m.cursor + 1) n = .ok rest) :
    m.slice m.cursor (n + 1) = .ok (m.bytes ⟨m.cursor.toNat, h⟩ :: rest) := by
  have hsucc : (m.cursor + 1).toNat = m.cursor.toNat + 1 := toNat_add_of_le (d := 1) h
  obtain ⟨hlen, hroom, hbytes⟩ := slice_eq_ok_iff.mp hrest
  rw [hsucc] at hroom
  refine slice_eq_ok_iff.mpr ⟨by rw [List.length_cons, hlen], by omega, fun k hk hs => ?_⟩
  cases k with
  | zero => rfl
  | succ k =>
    rw [List.getElem_cons_succ, hbytes k _ (by omega)]
    congr 2
    omega

/-- As long as there is memory, reads are the slice from the cursor on. -/
theorem reads_within (h : m.cursor.toNat + n ≤ size) :
    ∃ bytes, m.slice m.cursor n = .ok bytes ∧
      m.reads n = (bytes.map .ok, { m with cursor := (m.cursor.toNat + n).toUInt16 }) := by
  induction n generalizing m with
  | zero =>
    refine ⟨[], slice_eq_ok_iff.mpr ⟨rfl, h, nofun⟩, ?_⟩
    rw [reads, Nat.add_zero, Nat.toUInt16, UInt16.ofNat_toNat]
    rfl
  | succ n ih =>
    have hfirst : m.cursor.toNat < size := by omega
    have hsucc : (m.cursor + 1).toNat = m.cursor.toNat + 1 := toNat_add_of_le (d := 1) hfirst
    obtain ⟨rest, hslice, hreads⟩ := ih (m := { m with cursor := m.cursor + 1 }) (by
      show (m.cursor + 1).toNat + n ≤ size
      omega)
    refine ⟨_, slice_cons hfirst hslice, ?_⟩
    rw [reads, readByte_ok hfirst]
    dsimp only
    rw [hreads, hsucc, Nat.add_right_comm]
    rfl

/-- At the end of memory all reads fail. -/
theorem reads_at_end (h : m.cursor = 4096) (n : Nat) :
    m.reads n = (List.replicate n (.error (.endOfMemory 4096)), m) := by
  have herror : m.readByte = .error (.endOfMemory 4096) := by
    rw [readByte_error (by rw [h]; decide), h]
  induction n with
  | zero => rfl
  | succ n ih =>
    rw [reads, herror, ih]
    rfl

/-- Where memory ends before the slice does, reads are what is left of it, and then fail. -/
theorem reads_beyond (hm : m.cursor.toNat ≤ 4096) (h : 4096 < m.cursor.toNat + n) :
    ∃ bytes, m.slice m.cursor (4096 - m.cursor.toNat) = .ok bytes ∧
      m.reads n =
        (bytes.map .ok ++
          List.replicate (m.cursor.toNat + n - 4096) (.error (.endOfMemory 4096)),
          { m with cursor := 4096 }) ∧
      m.slice m.cursor n = .error (outside m.cursor n) := by
  obtain ⟨late, rfl⟩ : ∃ late, n = 4096 - m.cursor.toNat + late :=
    Nat.exists_eq_add_of_le (by omega)
  have hleft : m.cursor.toNat + (4096 - m.cursor.toNat) = 4096 := Nat.add_sub_of_le hm
  obtain ⟨bytes, hslice, hreads⟩ := reads_within (m := m) (Nat.le_of_eq hleft)
  refine ⟨bytes, hslice, ?_, slice_error (Nat.not_le_of_lt h)⟩
  rw [reads_add, hreads, reads_at_end (by rw [hleft]; rfl), ← Nat.add_assoc, hleft,
    Nat.add_sub_cancel_left]
  rfl

/-! ### Writes -/

/-- What is written at an address is read there. -/
theorem slice_write (h : m.write addr data = .ok m') : m'.slice addr data.length = .ok data := by
  unfold write at h
  split at h
  case isTrue hroom =>
    cases h
    refine slice_eq_ok_iff.mpr ⟨rfl, hroom, fun k hk hs => ?_⟩
    simp only [Nat.le_add_right, if_true, Nat.add_sub_cancel_left, List.getElem?_toArray]
    rw [List.getElem?_eq_getElem hk, Option.getD_some]
  case isFalse => cases h

/-- Who reads nothing of what is written reads what was there before. -/
theorem slice_write_of_disjoint (h : m.write addr data = .ok m') {addr' : UInt16}
    (hdisjoint : ∀ a, addr'.toNat ≤ a → a < addr'.toNat + len →
      ¬ (addr.toNat ≤ a ∧ a < addr.toNat + data.length)) :
    m'.slice addr' len = m.slice addr' len := by
  unfold write at h
  split at h
  case isTrue =>
    cases h
    refine slice_congr fun a hlow hhigh => ?_
    dsimp only
    split
    case isTrue hle =>
      have hpast : data.length ≤ a.val - addr.toNat := by
        have := hdisjoint a hlow hhigh
        omega
      rw [List.getElem?_toArray, List.getElem?_eq_none hpast, Option.getD_none]
    case isFalse => rfl
  case isFalse => cases h

/-- A word within a slice is two of its bytes. -/
theorem word_of_slice (h : m.slice addr len = .ok bytes) {addr' : UInt16}
    (hlow : addr.toNat ≤ addr'.toNat) (hhigh : addr'.toNat - addr.toNat + 1 < bytes.length) :
    ∃ w, m.word addr' = .ok w ∧
      w.toNat = 256 * bytes[addr'.toNat - addr.toNat].toNat +
        bytes[addr'.toNat - addr.toNat + 1].toNat := by
  obtain ⟨hlen, hroom, hbytes⟩ := slice_eq_ok_iff.mp h
  have htwo : addr'.toNat + 2 ≤ size := by omega
  refine ⟨_, dif_pos htwo, ?_⟩
  rw [Opcode.toNat_word, Nat.mul_comm, hbytes _ _ (by omega), hbytes _ _ (by omega)]
  have hfirst : addr.toNat + (addr'.toNat - addr.toNat) = addr'.toNat := Nat.add_sub_of_le hlow
  simp only [hfirst, ← Nat.add_assoc]

/-! ### Both ways -/

/-- What the two ways to read a memory have to do with each other. -/
structure Agreeing (m : Memory) : Prop where
  /-- In memory, reads are the slice from the cursor on and take the cursor to its end. -/
  within : ∀ n, m.cursor.toNat + n ≤ 4096 → ∃ bytes, m.slice m.cursor n = .ok bytes ∧
    m.reads n = (bytes.map .ok, { m with cursor := (m.cursor.toNat + n).toUInt16 })
  /-- Across the end of memory they are what is left of it, and then they fail where the cursor
  stays; the slice is refused as a whole. -/
  beyond : ∀ n, 4096 < m.cursor.toNat + n → ∃ bytes,
    m.slice m.cursor (4096 - m.cursor.toNat) = .ok bytes ∧
    m.reads n =
      (bytes.map .ok ++ List.replicate (m.cursor.toNat + n - 4096) (.error (.endOfMemory 4096)),
        { m with cursor := 4096 }) ∧
    m.slice m.cursor n = .error (outside m.cursor n)
  hasWord : ∀ a, (∃ w, m.word a = .ok w) ↔ a.toNat ≤ 4094
  /-- A word is the two bytes that are read at its address, in this order. -/
  word : ∀ a w, m.word a = .ok w → ∃ first second,
    w.toNat = 256 * first.toNat + second.toNat ∧ m.slice a 2 = .ok [first, second] ∧
    m.seek a = .ok { m with cursor := a } ∧
    reads 2 { m with cursor := a } =
      ([.ok first, .ok second], { m with cursor := (a.toNat + 2).toUInt16 })
  /-- What any processor fetches from an address is the word there. -/
  fetched : ∀ a processor host i f,
    Board.fetch ⟨{ m with cursor := a }, processor, host⟩ = .ok i f →
    ∃ w, m.word a = .ok w ∧ i = Instruction.decode (.ofWord w)
  /-- So where there is a word, it is what a step decodes, reports and, if it can, executes. -/
  stepped : ∀ a processor host w, m.word a = .ok w →
    let b : Board := ⟨{ m with cursor := a }, processor, host⟩
    (∃ f, b.fetch = .ok (Instruction.decode (.ofWord w)) f) ∧
      (stateOf b.step).host = host.observe a (Instruction.decode (.ofWord w)) ∧
      ∀ i b', b.step = .ok i b' → i = Instruction.decode (.ofWord w)
  /-- What is written is read, as a slice and as words, and elsewhere all is as it was. -/
  written : ∀ a data m', m.write a data = .ok m' →
    m'.slice a data.length = .ok data ∧
    (∀ a' : UInt16, a.toNat ≤ a'.toNat → ∀ _ : a'.toNat - a.toNat + 1 < data.length,
      ∃ w, m'.word a' = .ok w ∧
        w.toNat = 256 * data[a'.toNat - a.toNat].toNat + data[a'.toNat - a.toNat + 1].toNat) ∧
    ∀ (a' : UInt16) len, (∀ k, a'.toNat ≤ k → k < a'.toNat + len →
      ¬ (a.toNat ≤ k ∧ k < a.toNat + data.length)) → m'.slice a' len = m.slice a' len

/-- The bytes of a word are read one after the other at its address. -/
theorem reads_word {w : UInt16} (h : m.word addr = .ok w) :
    m.seek addr = .ok { m with cursor := addr } ∧
      reads 2 { m with cursor := addr } =
        ([.ok (Opcode.ofWord w).first, .ok (Opcode.ofWord w).second],
          { m with cursor := (addr.toNat + 2).toUInt16 }) := by
  have hslice := word_eq_ok_iff.mp h
  obtain ⟨_, hroom, _⟩ := slice_eq_ok_iff.mp hslice
  have hseek : addr.toNat < size := by omega
  obtain ⟨bytes, hbytes, hreads⟩ := reads_within (m := { m with cursor := addr }) hroom
  cases hslice.symm.trans hbytes
  exact ⟨if_pos hseek, hreads⟩

/-- A step that finds a word decodes it, whatever comes of it. -/
theorem step_word {b : Board} {w : UInt16} (h : b.memory.word b.memory.cursor = .ok w) :
    (∃ f, b.fetch = .ok (Instruction.decode (.ofWord w)) f) ∧
      (stateOf b.step).host =
        b.host.observe b.memory.cursor (Instruction.decode (.ofWord w)) ∧
      ∀ i b', b.step = .ok i b' → i = Instruction.decode (.ofWord w) := by
  have hop := word_cursor.mp h
  refine ⟨⟨_, Board.fetch_ok hop⟩, ?_⟩
  have houtcome := b.step_outcome
  generalize b.step = r at houtcome ⊢
  cases houtcome with
  | unfetched hnone => cases hop.symm.trans hnone
  | refused hop' =>
    cases hop.symm.trans hop'
    exact ⟨rfl, nofun⟩
  | performed hop' _ _ _ hhost =>
    cases hop.symm.trans hop'
    refine ⟨hhost, ?_⟩
    rintro i b' ⟨⟩
    rfl

/-- **Memory reads the same at its cursor and by ranges**, up to its end, where both refuse, each
in its own way; steps read what both read, and so does whoever reads what was written. -/
theorem cursor_agrees_with_ranges (hm : m.cursor.toNat ≤ 4096) : Agreeing m where
  within _ := reads_within
  beyond _ := reads_beyond hm
  hasWord _ := exists_word_iff
  word a w h := by
    obtain ⟨hseek, hreads⟩ := reads_word h
    refine ⟨_, _, ?_, word_eq_ok_iff.mp h, hseek, hreads⟩
    rw [Opcode.toNat_first_ofWord, Opcode.toNat_second_ofWord, Nat.div_add_mod]
  fetched a processor host i f h := by
    obtain ⟨op, hop, rfl⟩ := Machine.opcode?_of_fetch h
    exact ⟨op.word, word_of_opcode? hop, by rw [Opcode.ofWord_word]⟩
  stepped a processor host w h := step_word (b := ⟨{ m with cursor := a }, processor, host⟩) h
  written a data m' h :=
    ⟨slice_write h, fun _ hlow hhigh => word_of_slice (slice_write h) hlow hhigh,
      fun _ _ => slice_write_of_disjoint h⟩

/-- Memory whose last word is a return, with half of it read. -/
def halfRead : Memory where
  bytes a := if a.val = 4095 then 0xEE else 0
  cursor := 4095

/-- Three reads are one byte and two faults, and a slice of three bytes is refused; the last word
begins before the cursor, and there is none at it. -/
theorem halfRead_agrees :
    halfRead.cursor.toNat ≤ 4096 ∧
    halfRead.reads 3 =
      ([.ok 0xEE, .error (.endOfMemory 4096), .error (.endOfMemory 4096)],
        { halfRead with cursor := 4096 }) ∧
    halfRead.slice 4095 3 = .error (.badAddress 4098) ∧
    (∃ w, halfRead.word 4094 = .ok w) ∧ ¬ ∃ w, halfRead.word 4095 = .ok w := by
  have hcursor : halfRead.cursor.toNat ≤ 4096 := by decide
  have h := cursor_agrees_with_ranges hcursor
  obtain ⟨bytes, hlast, hreads, hrefused⟩ := h.beyond 3 (by decide)
  have hslice : halfRead.slice 4095 1 = .ok [0xEE] := rfl
  cases hslice.symm.trans hlast
  refine ⟨hcursor, hreads, hrefused, (h.hasWord 4094).mpr (by decide), fun hword => ?_⟩
  exact absurd ((h.hasWord 4095).mp hword) (by decide)

end Memory

end Chip8
