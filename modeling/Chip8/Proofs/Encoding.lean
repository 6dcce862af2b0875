import Chip8.Proofs.Reading

/-! Encoding.

An instruction is put back into an opcode by the digit of its kind and the three digits of its
fields (`Instruction.encode`); behind two registers one of these is left that means nothing. What
comes out of decoding is encoded as it was, that digit apart (`encode_decode`), and what is
encoded is decoded as it was, provided that its fields fit their places and that its word does not
stand for something else (`decode_encode`).

So decoding forgets that one digit and no more, and its results are exactly the instructions that
have an opcode (`decode_kernel_and_image`). -/
namespace Chip8

namespace Instruction

/-! ### The encoder -/

/-- The first digit of the word, which tells the kind. -/
def digit : Instruction → Nat
  | clearScreen | ret | system _ => 0x0
  | jump _ => 0x1
  | call _ => 0x2
  | skip .equal _ (.byte _) => 0x3
  | skip .unequal _ (.byte _) => 0x4
  | skip .equal _ (.register _) => 0x5
  | load _ _ => 0x6
  | add _ _ => 0x7
  | skip .unequal _ (.register _) => 0x9
  | loadIndex _ => 0xA
  | unknown op => op.family.toNat

/-- The three digits behind it. -/
def fields : Instruction → Nat
  | clearScreen => 0x0E0
  | ret => 0x0EE
  | system a | jump a | call a | loadIndex a => a.toNat
  | skip _ x (.byte nn) | load x nn | add x nn => x.toNat * 0x100 + nn.toNat
  | skip _ x (.register y) => x.toNat * 0x100 + y.toNat * 0x10
  | unknown op => op.nnn.toNat

def toWord (i : Instruction) : Nat := i.digit * 0x1000 + i.fields

def encode (i : Instruction) : Opcode := Opcode.ofWord i.toWord.toUInt16

/-- The fields of an instruction fit their places, and its word stands for nothing else. -/
structure HasOpcode (i : Instruction) : Prop where
  inRange : i.InRange
  notClearScreen : i ≠ .system 0x0E0
  notReturn : i ≠ .system 0x0EE
  unknown : ∀ op, i = .unknown op → op.family.toNat = 0x8 ∨ 0xB ≤ op.family.toNat

variable {i : Instruction}

theorem digit_lt (i : Instruction) : i.digit < 0x10 := by
  cases i with
  | skip comparison x right => cases comparison <;> cases right <;> simp [digit]
  | unknown op =>
    have hfirst := op.first.toNat_lt
    rw [digit, op.toNat_family]
    omega
  | _ => simp [digit]

theorem fields_lt (h : i.InRange) : i.fields < 0x1000 := by
  cases i with
  | clearScreen | ret => decide
  | system a | jump a | call a | loadIndex a => exact h
  | load x nn | add x nn =>
    have hx : x.toNat < 16 := h
    have hnn := nn.toNat_lt
    rw [fields]
    omega
  | skip comparison x right =>
    cases right with
    | byte nn =>
      have hx : x.toNat < 16 := h
      have hnn := nn.toNat_lt
      rw [fields]
      omega
    | register y =>
      obtain ⟨hx, hy⟩ := h
      rw [fields]
      omega
  | unknown op =>
    have hsecond := op.second.toNat_lt
    rw [fields, op.toNat_nnn]
    omega

/-! ### What is encoded is decoded -/

theorem byte_fields (x nn : UInt8) :
    ((x.toNat * 0x100 + nn.toNat) / 0x100).toUInt8 = x ∧
      ((x.toNat * 0x100 + nn.toNat) % 0x100).toUInt8 = nn := by
  have hnn := nn.toNat_lt
  have hhigh : (x.toNat * 0x100 + nn.toNat) / 0x100 = x.toNat := by omega
  have hlow : (x.toNat * 0x100 + nn.toNat) % 0x100 = nn.toNat := by omega
  rw [hhigh, hlow]
  exact ⟨UInt8.ofNat_toNat, UInt8.ofNat_toNat⟩

theorem register_fields (x : UInt8) {y : UInt8} (hy : y.toNat < 16) :
    ((x.toNat * 0x100 + y.toNat * 0x10) / 0x100).toUInt8 = x ∧
      ((x.toNat * 0x100 + y.toNat * 0x10) / 0x10 % 0x10).toUInt8 = y := by
  have hhigh : (x.toNat * 0x100 + y.toNat * 0x10) / 0x100 = x.toNat := by omega
  have hlow : (x.toNat * 0x100 + y.toNat * 0x10) / 0x10 % 0x10 = y.toNat := by omega
  rw [hhigh, hlow]
  exact ⟨UInt8.ofNat_toNat, UInt8.ofNat_toNat⟩

/-- What no kind of instruction covers keeps its opcode. -/
theorem decode_unknown {op : Opcode} (h : op.family.toNat = 0x8 ∨ 0xB ≤ op.family.toNat) :
    decode op = unknown op := by
  unfold decode
  split
  case h_11 => rfl
  all_goals
    rename_i hfamily
    exact absurd h (by rw [hfamily]; decide)

theorem toWord_unknown (op : Opcode) : (unknown op).toWord = op.word.toNat := by
  rw [toWord, digit, fields, op.toNat_family, op.toNat_nnn, op.toNat_word]
  omega

theorem ofWord_toWord (h : i.HasOpcode) : ofWord i.toWord = i := by
  by_cases hknown : ∃ op, i = unknown op
  · obtain ⟨op, rfl⟩ := hknown
    rw [toWord_unknown, ← decode_eq_ofWord, decode_unknown (h.unknown op rfl)]
  have hfields := fields_lt h.inRange
  have hdigit : i.toWord / 0x1000 = i.digit := by rw [toWord]; omega
  have hx : i.toWord / 0x100 % 0x10 = i.fields / 0x100 := by rw [toWord]; omega
  have hy : i.toWord / 0x10 % 0x10 = i.fields / 0x10 % 0x10 := by rw [toWord]; omega
  have hnn : i.toWord % 0x100 = i.fields % 0x100 := by rw [toWord]; omega
  have hnnn : i.toWord % 0x1000 = i.fields := by rw [toWord]; omega
  simp only [ofWord, hdigit, hx, hy, hnn, hnnn]
  cases i with
  | clearScreen | ret => rfl
  | system a =>
    have hclear : a.toNat ≠ 0x00E0 :=
      fun he => h.notClearScreen (congrArg system (UInt16.toNat_inj.mp he))
    have hret : a.toNat ≠ 0x00EE :=
      fun he => h.notReturn (congrArg system (UInt16.toNat_inj.mp he))
    have hword : (system a).toWord = a.toNat := by simp [toWord, digit, fields]
    simp only [digit, hword, hclear, hret, if_false]
    exact congrArg system UInt16.ofNat_toNat
  | jump a => exact congrArg jump UInt16.ofNat_toNat
  | call a => exact congrArg call UInt16.ofNat_toNat
  | loadIndex a => exact congrArg loadIndex UInt16.ofNat_toNat
  | load x nn | add x nn =>
    obtain ⟨hfirst, hrest⟩ := byte_fields x nn
    simp only [digit, fields, hfirst, hrest]
  | skip comparison x right =>
    cases right with
    | byte nn =>
      obtain ⟨hfirst, hrest⟩ := byte_fields x nn
      cases comparison <;> simp only [digit, fields, hfirst, hrest]
    | register y =>
      obtain ⟨hfirst, hrest⟩ := register_fields x h.inRange.2
      cases comparison <;> simp only [digit, fields, hfirst, hrest]
  | unknown op => exact absurd ⟨op, rfl⟩ hknown

/-- **What is encoded is decoded as it was.** -/
theorem decode_encode {i : Instruction} (h : i.HasOpcode) : decode i.encode = i := by
  have hfields := fields_lt h.inRange
  have hdigit := digit_lt i
  have hword : i.toWord < 2 ^ 16 := by rw [toWord]; omega
  rw [decode_eq_ofWord, encode, Opcode.word_ofWord]
  exact (congrArg ofWord (UInt16.toNat_ofNat_of_lt' hword)).trans (ofWord_toWord h)

end Instruction

/-! ### What is decoded is encoded -/

namespace Opcode

variable (op : Opcode)

/-- Two registers are compared, so that the last digit means nothing. -/
def ComparesRegisters : Prop := op.family = 0x5 ∨ op.family = 0x9

instance : Decidable op.ComparesRegisters := inferInstanceAs (Decidable (_ ∨ _))

/-- The opcode with zero for a digit that means nothing. -/
def plain : Opcode := if op.ComparesRegisters then ⟨op.first, op.y <<< 4⟩ else op

theorem toNat_y_shiftLeft : (op.y <<< 4).toNat = op.y.toNat * 0x10 := by
  have hy := op.toNat_y
  have hsecond := op.second.toNat_lt
  rw [UInt8.toNat_shiftLeft]
  simp only [UInt8.reduceToNat, Nat.reduceMod]
  rw [Nat.shiftLeft_eq]
  omega

theorem first_plain : op.plain.first = op.first := by
  unfold plain
  split <;> rfl

theorem toNat_word_fields : op.word.toNat = op.family.toNat * 0x1000 + op.nnn.toNat := by
  rw [op.toNat_word, op.toNat_family, op.toNat_nnn]
  omega

end Opcode

namespace Instruction

variable (op : Opcode)

theorem hasOpcode_decode : (decode op).HasOpcode := by
  have hrange := inRange_decode op
  revert hrange
  unfold decode
  split
  case h_1 =>
    split
    · exact fun hrange => ⟨hrange, nofun, nofun, nofun⟩
    · split
      · exact fun hrange => ⟨hrange, nofun, nofun, nofun⟩
      · rename_i hclear hret
        refine fun hrange => ⟨hrange, ?_, ?_, nofun⟩
        · exact fun h => hclear (system.inj h)
        · exact fun h => hret (system.inj h)
  case h_11 h0 h1 h2 h3 h4 h5 h6 h7 h9 hA =>
    refine fun hrange => ⟨hrange, nofun, nofun, fun op' h => ?_⟩
    cases h
    simp only [imp_false, ← UInt8.toNat_inj, UInt8.reduceToNat] at h0 h1 h2 h3 h4 h5 h6 h7 h9 hA
    omega
  all_goals exact fun hrange => ⟨hrange, nofun, nofun, nofun⟩

theorem digit_decode : (decode op).digit = op.family.toNat := by
  unfold decode
  split
  case h_1 hfamily =>
    rw [hfamily]
    split
    · rfl
    · split <;> rfl
  case h_11 => rfl
  all_goals
    rename_i hfamily
    rw [hfamily]
    rfl

theorem fields_decode : (decode op).fields = op.plain.nnn.toNat := by
  by_cases hcompares : op.ComparesRegisters
  · have hregisters : op.x.toNat * 0x100 + op.y.toNat * 0x10 = op.plain.nnn.toNat := by
      rw [Opcode.plain, if_pos hcompares, Opcode.toNat_nnn, op.toNat_y_shiftLeft, op.toNat_x]
    rw [← hregisters]
    obtain hfamily | hfamily := hcompares <;> simp only [decode, hfamily, fields]
  · have hbyte : op.x.toNat * 0x100 + op.nn.toNat = op.nnn.toNat := by
      rw [op.toNat_x, op.toNat_nnn]
      rfl
    rw [Opcode.plain, if_neg hcompares]
    unfold decode
    split
    case h_1 =>
      split
      case isTrue hclear =>
        rw [hclear]
        rfl
      case isFalse =>
        split
        case isTrue hret =>
          rw [hret]
          rfl
        case isFalse => rfl
    case h_4 | h_5 | h_7 | h_8 => exact hbyte
    case h_6 hfamily => exact absurd (.inl hfamily) hcompares
    case h_9 hfamily => exact absurd (.inr hfamily) hcompares
    all_goals rfl

/-- **What is decoded is encoded as it was**, but for a digit that means nothing. -/
theorem encode_decode (op : Opcode) : (decode op).encode = op.plain := by
  have hfamily : op.plain.family = op.family := by rw [Opcode.family, op.first_plain, Opcode.family]
  have hword : (decode op).toWord = op.plain.word.toNat := by
    rw [toWord, digit_decode, fields_decode, Opcode.toNat_word_fields, hfamily]
  rw [encode, hword]
  exact (congrArg Opcode.ofWord UInt16.ofNat_toNat).trans (Opcode.ofWord_word _)

/-- The digit that means nothing does not count. -/
theorem decode_plain (op : Opcode) : decode op.plain = decode op := by
  rw [← encode_decode, decode_encode (hasOpcode_decode op)]

theorem decode_eq_iff_plain {a b : Opcode} : decode a = decode b ↔ a.plain = b.plain := by
  constructor
  · intro h
    rw [← encode_decode, h, encode_decode]
  · intro h
    rw [← decode_plain, h, decode_plain]

end Instruction

namespace Opcode

variable {a b : Opcode}

theorem first_eq_iff : a.first = b.first ↔ a.family = b.family ∧ a.x = b.x := by
  simp only [← UInt8.toNat_inj, toNat_family, toNat_x]
  omega

/-- Opcodes whose meaningless digits are cleared are equal if they were so before or if nothing
else told them apart. -/
theorem plain_eq_iff : a.plain = b.plain ↔
    a = b ∨ (a.ComparesRegisters ∧ a.family = b.family ∧ a.x = b.x ∧ a.y = b.y) := by
  constructor
  · intro h
    have hfirst : a.first = b.first := by rw [← first_plain, h, first_plain]
    obtain ⟨hfamily, hx⟩ := first_eq_iff.mp hfirst
    have hsame : b.ComparesRegisters ↔ a.ComparesRegisters := by
      rw [ComparesRegisters, ← hfamily, ComparesRegisters]
    by_cases hcompares : a.ComparesRegisters
    · rw [plain, if_pos hcompares, plain, if_pos (hsame.mpr hcompares)] at h
      have hshifted := congrArg (·.second.toNat) h
      simp only [toNat_y_shiftLeft] at hshifted
      have hy : a.y = b.y := UInt8.toNat_inj.mp (Nat.eq_of_mul_eq_mul_right (by decide) hshifted)
      exact .inr ⟨hcompares, hfamily, hx, hy⟩
    · rw [plain, if_neg hcompares, plain, if_neg fun hb => hcompares (hsame.mp hb)] at h
      exact .inl h
  · rintro (rfl | ⟨hcompares, hfamily, hx, hy⟩)
    · rfl
    · have hb : b.ComparesRegisters := by rwa [ComparesRegisters, ← hfamily]
      rw [plain, if_pos hcompares, plain, if_pos hb, first_eq_iff.mpr ⟨hfamily, hx⟩, hy]

end Opcode

namespace Instruction

/-- **What decoding forgets and what it can produce.** Two opcodes are one instruction exactly if
they are equal or differ in no more than the last digit of a comparison of registers. The
instructions that come from opcodes are those that have one, and of these the encoder gives it
back. -/
theorem decode_kernel_and_image :
    (∀ a b : Opcode, decode a = decode b ↔ a = b ∨
      ((a.family = 0x5 ∨ a.family = 0x9) ∧ a.family = b.family ∧ a.x = b.x ∧ a.y = b.y)) ∧
    (∀ i : Instruction, (∃ op, decode op = i) ↔ i.HasOpcode) ∧
    ∀ i : Instruction, i.HasOpcode → decode i.encode = i := by
  refine ⟨fun a b => decode_eq_iff_plain.trans Opcode.plain_eq_iff, fun i => ⟨?_, ?_⟩,
    fun i => decode_encode⟩
  · rintro ⟨op, rfl⟩
    exact hasOpcode_decode op
  · exact fun h => ⟨i.encode, decode_encode h⟩

/-- The last digit of a comparison is not given back. -/
theorem comparesLast_recoded :
    decode ⟨0x9E, 0xF7⟩ = decode ⟨0x9E, 0xF0⟩ ∧
      (skip .unequal 0xE (.register 0xF)).HasOpcode ∧
      decode (skip .unequal 0xE (.register 0xF)).encode = skip .unequal 0xE (.register 0xF) ∧
      (skip .unequal 0xE (.register 0xF)).encode = ⟨0x9E, 0xF0⟩ := by
  obtain ⟨hkernel, _, hinverse⟩ := decode_kernel_and_image
  have hcoded : (skip .unequal 0xE (.register 0xF)).HasOpcode :=
    ⟨⟨by decide, by decide⟩, nofun, nofun, nofun⟩
  exact ⟨(hkernel _ _).mpr (.inr (by decide)), hcoded, hinverse _ hcoded, by decide⟩

end Instruction

end Chip8
