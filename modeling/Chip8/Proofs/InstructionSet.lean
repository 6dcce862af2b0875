import Chip8.Board

/-! The instruction set on paper.

What a programmer is told of the machine: a word is an instruction by its four
hexadecimal digits (`ofWord`), an instruction either has an obstacle (`obstacle`) or
does one thing to the cursor, the registers and the stack (`act`), and the host notices
some of it (`Host.observe`). All of it is in numbers, without fetching, undoing or
machine words, so a board can be held against it.

`decode_eq_ofWord` says that opcodes are read as the paper reads words; `inRange_decode`
that no field of a decoded instruction names a register or an address that does not
exist. -/
namespace Chip8

/-! ### Words -/

namespace Instruction

/-- The instruction that a word of four hexadecimal digits stands for. -/
def ofWord (w : Nat) : Instruction :=
  let x := (w / 0x100 % 0x10).toUInt8
  let y := (w / 0x10 % 0x10).toUInt8
  let nn := (w % 0x100).toUInt8
  let nnn := (w % 0x1000).toUInt16
  match w / 0x1000 with
  | 0x0 => if w = 0x00E0 then .clearScreen else if w = 0x00EE then .ret else .system nnn
  | 0x1 => .jump nnn
  | 0x2 => .call nnn
  | 0x3 => .skip .equal x (.byte nn)
  | 0x4 => .skip .unequal x (.byte nn)
  | 0x5 => .skip .equal x (.register y)
  | 0x6 => .load x nn
  | 0x7 => .add x nn
  | 0x9 => .skip .unequal x (.register y)
  | 0xA => .loadIndex nnn
  | _ => .unknown ⟨(w / 0x100).toUInt8, nn⟩

end Instruction

namespace Memory

/-- The bytes at an address and behind it are a word, most significant first. -/
def Holds (m : Memory) (a w : Nat) : Prop :=
  ∃ h : a + 1 < size,
    w = 256 * (m.bytes ⟨a, Nat.lt_of_succ_lt h⟩).toNat + (m.bytes ⟨a + 1, h⟩).toNat

/-- The instruction that stands at the cursor. -/
def Next (m : Memory) (i : Instruction) : Prop :=
  ∃ w, m.Holds m.cursor.toNat w ∧ i = Instruction.ofWord w

end Memory

namespace Instruction

/-- Registers are numbered below sixteen, addresses have twelve bits. -/
def InRange : Instruction → Prop
  | .system a | .jump a | .call a | .loadIndex a => a.toNat < 0x1000
  | .skip _ x (.byte _) | .load x _ | .add x _ => x.toNat < 16
  | .skip _ x (.register y) => x.toNat < 16 ∧ y.toNat < 16
  | .clearScreen | .ret | .unknown _ => True

end Instruction

/-! ### What an instruction does -/

/-- What instructions read and change, in numbers. -/
@[ext]
structure Core where
  cursor : Nat
  v : Fin 16 → Nat
  i : Nat
  /-- The addresses to return to, from the top down. -/
  frames : List Nat
  /-- How many unknown opcodes were passed over. -/
  unknown : Nat

namespace Core

/-- The place of a register that is named by half a byte. -/
def slot (x : UInt8) : Fin 16 := Fin.ofNat 16 x.toNat

def operand (s : Core) : Operand → Nat
  | .byte nn => nn.toNat
  | .register y => s.v (slot y)

/-- The condition of a skip. -/
def meets (s : Core) : Comparison → UInt8 → Operand → Bool
  | .equal, x, right => s.v (slot x) == s.operand right
  | .unequal, x, right => s.v (slot x) != s.operand right

/-- The register `x` gets a value. -/
def setV (s : Core) (x : UInt8) (value : Nat) : Core :=
  { s with v := fun k => if k = slot x then value else s.v k }

/-- On to the instruction that is `distance` bytes ahead. -/
def ahead (s : Core) (distance : Nat) : Core := { s with cursor := s.cursor + distance }

end Core

namespace Instruction

/-- What an instruction that stands at the cursor does if nothing is in its way. -/
def act : Instruction → Core → Core
  | .clearScreen, s | .system _, s => s.ahead 2
  | .ret, s =>
    match s.frames with
    | [] => { s with cursor := 0x200 }
    | back :: rest => { s with cursor := back, frames := rest }
  | .jump nnn, s => { s with cursor := nnn.toNat }
  | .call nnn, s => { s with cursor := nnn.toNat, frames := (s.cursor + 2) :: s.frames }
  | .skip comparison x right, s => if s.meets comparison x right then s.ahead 4 else s.ahead 2
  | .load x nn, s => (s.setV x nn.toNat).ahead 2
  | .add x nn, s => (s.setV x ((s.v (Core.slot x) + nn.toNat) % 256)).ahead 2
  | .loadIndex nnn, s => { s.ahead 2 with i := nnn.toNat }
  | .unknown _, s => { s.ahead 2 with unknown := s.unknown + 1 }

/-- What stands in the way of an instruction at the cursor; `reply` is the display's
answer in case it is asked. -/
def obstacle (reply : Reply) (s : Core) : Instruction → Option Fault
  | .clearScreen => reply.failure.map .display
  | .ret =>
    match s.frames with
    | [] => none
    | back :: _ => if back < 4096 then none else some (.badAddress back)
  | .call _ => if s.frames.length < 15 then none else some (.stackOverflow s.frames.length)
  | .skip comparison x right =>
    if s.meets comparison x right && 4096 ≤ s.cursor + 4 then some (.badAddress (s.cursor + 4))
    else none
  | _ => none

section Obstacle
variable {reply : Reply} {s : Core} {e : Fault} {target : UInt16}
  {c : Comparison} {x : UInt8} {right : Operand}

theorem obstacle_ret_iff :
    obstacle reply s .ret = some e ↔
      ∃ back rest, s.frames = back :: rest ∧ 4096 ≤ back ∧ e = .badAddress back := by
  cases hframes : s.frames with
  | nil => simp [obstacle, hframes]
  | cons back rest =>
    simp only [obstacle, hframes]
    by_cases hback : back < 4096
    · simp [hback, Nat.not_le_of_lt]
    · simp [hback, Nat.le_of_not_lt, eq_comm]

theorem obstacle_call_iff :
    obstacle reply s (.call target) = some e ↔
      15 ≤ s.frames.length ∧ e = .stackOverflow s.frames.length := by
  simp only [obstacle]
  by_cases hdepth : s.frames.length < 15
  · simp [hdepth, Nat.not_le_of_lt]
  · simp [hdepth, Nat.le_of_not_lt, eq_comm]

theorem obstacle_skip_iff :
    obstacle reply s (.skip c x right) = some e ↔
      s.meets c x right = true ∧ 4096 ≤ s.cursor + 4 ∧ e = .badAddress (s.cursor + 4) := by
  simp only [obstacle]
  cases hmeets : s.meets c x right with
  | false => simp
  | true =>
    by_cases hend : 4096 ≤ s.cursor + 4
    · simp [hend, eq_comm]
    · simp [hend]

theorem lt_of_free_ret {back : Nat} {rest : List Nat} (hframes : s.frames = back :: rest)
    (h : obstacle reply s .ret = none) : back < 4096 := by
  simp only [obstacle, hframes] at h
  split at h
  · assumption
  · cases h

theorem lt_of_free_call (h : obstacle reply s (.call target) = none) :
    s.frames.length < 15 := by
  simp only [obstacle] at h
  split at h
  · assumption
  · cases h

theorem lt_of_free_skip (hmeets : s.meets c x right = true)
    (h : obstacle reply s (.skip c x right) = none) : s.cursor + 4 < 4096 := by
  simp only [obstacle, hmeets, Bool.true_and, decide_eq_true_eq] at h
  split at h
  · cases h
  · exact Nat.lt_of_not_le (by assumption)

end Obstacle

end Instruction

namespace Host

/-- What the execution of an instruction at `pc` shows the host, be there an obstacle or
not. -/
def heed (h : Host) (pc : UInt16) : Instruction → Host
  | .clearScreen => h.clear.2
  | .system target => h.record (.systemCall target)
  | .unknown op => h.record (.unknownOpcode op pc)
  | _ => h

/-- The host after an instruction at `pc` was reported and executed. -/
def observe (h : Host) (pc : UInt16) (i : Instruction) : Host :=
  (h.record (.executing pc i)).heed pc i

variable (h : Host) (pc : UInt16)

theorem clear_of_none {h : Host} (hr : (h.display (h.calls + 1)).failure = none) :
    h.clear = (.ok (), h.clear.2) := by
  simp only [clear, hr]

theorem clear_of_some {h : Host} {e : DeviceError}
    (hr : (h.display (h.calls + 1)).failure = some e) : h.clear = (.error e, h.clear.2) := by
  simp only [clear, hr]

/-- The host after a request, granted or not. -/
theorem clear_eq :
    h.clear.2 =
      { h with
        calls := h.calls + 1
        clears := if (h.display (h.calls + 1)).failure = none then h.clears + 1 else h.clears
        cancelled := h.cancelled || (h.display (h.calls + 1)).cancels } := by
  cases hr : (h.display (h.calls + 1)).failure with
  | none =>
    rw [if_pos rfl]
    simp only [clear, hr]
  | some e =>
    rw [if_neg nofun]
    simp only [clear, hr]

theorem calls_clear : h.clear.2.calls = h.calls + 1 := by rw [clear_eq]

theorem clears_clear :
    h.clear.2.clears =
      if (h.display (h.calls + 1)).failure = none then h.clears + 1 else h.clears := by
  rw [clear_eq]

theorem display_clear : h.clear.2.display = h.display := by rw [clear_eq]

/-- An instruction changes neither the display nor the token by itself: what it shows the
host is a line of the log, unless it clears the screen. -/
theorem observe_of_ne {i : Instruction} (hi : i ≠ .clearScreen) :
    ∃ log, h.observe pc i = { h with log } := by
  cases i with
  | clearScreen => exact absurd rfl hi
  | _ => exact ⟨_, rfl⟩

end Host

/-! ### Opcodes are words -/

namespace Opcode

variable (op : Opcode)

theorem toNat_nn : op.nn.toNat = op.word.toNat % 0x100 := by
  have := op.second.toNat_lt
  rw [toNat_word]
  show op.second.toNat = _
  omega

theorem nn_eq : op.nn = (op.word.toNat % 0x100).toUInt8 := by
  apply UInt8.toNat_inj.mp
  rw [toNat_nn, Nat.toUInt8, UInt8.toNat_ofNat']
  omega

theorem x_eq : op.x = (op.word.toNat / 0x100 % 0x10).toUInt8 := by
  apply UInt8.toNat_inj.mp
  have := op.second.toNat_lt
  rw [toNat_x, toNat_word, Nat.toUInt8, UInt8.toNat_ofNat']
  omega

theorem y_eq : op.y = (op.word.toNat / 0x10 % 0x10).toUInt8 := by
  apply UInt8.toNat_inj.mp
  have := op.second.toNat_lt
  rw [toNat_y, toNat_word, Nat.toUInt8, UInt8.toNat_ofNat']
  omega

theorem toNat_nnn_eq : op.nnn.toNat = op.word.toNat % 0x1000 := by
  have := op.second.toNat_lt
  rw [toNat_nnn, toNat_word]
  omega

theorem nnn_eq : op.nnn = (op.word.toNat % 0x1000).toUInt16 := by
  apply UInt16.toNat_inj.mp
  rw [toNat_nnn_eq, Nat.toUInt16, UInt16.toNat_ofNat']
  omega

theorem first_eq : op.first = (op.word.toNat / 0x100).toUInt8 := by
  apply UInt8.toNat_inj.mp
  have := op.second.toNat_lt
  have := op.first.toNat_lt
  rw [toNat_word, Nat.toUInt8, UInt8.toNat_ofNat']
  omega

theorem family_toNat_eq : op.family.toNat = op.word.toNat / 0x1000 := by
  have := op.second.toNat_lt
  rw [toNat_family, toNat_word]
  omega

end Opcode

namespace Instruction

/-- In the host family the address is the word. -/
theorem nnn_eq_iff {op : Opcode} (h : op.family = 0) (a : UInt16) :
    op.nnn = a ↔ op.word.toNat = a.toNat := by
  have hfamily := op.family_toNat_eq
  rw [h] at hfamily
  have hzero : op.word.toNat / 0x1000 = 0 := hfamily.symm
  rw [← UInt16.toNat_inj, op.toNat_nnn_eq]
  omega

/-- An opcode means what its word stands for. -/
theorem decode_eq_ofWord (op : Opcode) : decode op = ofWord op.word.toNat := by
  simp only [decode, ofWord, ← op.nn_eq, ← op.x_eq, ← op.y_eq, ← op.nnn_eq, ← op.first_eq,
    ← op.family_toNat_eq]
  split
  case h_1 h =>
    simp only [h, nnn_eq_iff h]
    rfl
  case h_11 h0 h1 h2 h3 h4 h5 h6 h7 h9 hA =>
    simp only [← UInt8.toNat_inj, UInt8.reduceToNat] at h0 h1 h2 h3 h4 h5 h6 h7 h9 hA
    split
    case h_11 => rfl
    all_goals contradiction
  all_goals
    rename_i h
    simp only [h]
    rfl

theorem inRange_decode (op : Opcode) : (decode op).InRange := by
  have hx : op.x.toNat < 16 := by rw [op.toNat_x]; omega
  have hy : op.y.toNat < 16 := by
    have := op.second.toNat_lt
    rw [op.toNat_y]
    omega
  have hnnn : op.nnn.toNat < 0x1000 := by
    have := op.second.toNat_lt
    rw [op.toNat_nnn]
    omega
  unfold decode
  split
  case h_1 =>
    split
    · trivial
    · split
      · trivial
      · exact hnnn
  case h_2 | h_3 | h_10 => exact hnnn
  case h_4 | h_5 | h_7 | h_8 => exact hx
  case h_6 | h_9 => exact ⟨hx, hy⟩
  case h_11 => trivial

end Instruction

end Chip8
