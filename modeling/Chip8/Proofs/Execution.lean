import Chip8.Proofs.InstructionSet

/-! Fetching and executing, action by action.

An instruction that was fetched is held against the instruction set: without an
obstacle it acts as the instruction set says (`execute_ok`), with one it fails with that
obstacle and has done nothing that counts but to the cursor (`execute_error`). A fetch
reads a whole opcode or fails at the end of memory (`fetch_ok`, `fetch_error`). What the
elementary actions do is said once for each of them; nothing later opens them. -/
namespace Chip8

/-- A cursor and a processor in numbers. -/
def Core.of (cursor : UInt16) (p : Processor) : Core where
  cursor := cursor.toNat
  v k := p.registers.v[k].toNat
  i := p.registers.i.toNat
  frames := p.stack.frames.map (·.toNat)
  unknown := p.unknown

/-- The numbers say all that there is to a cursor and a processor. -/
theorem Core.of_inj {c c' : UInt16} {p p' : Processor} (h : Core.of c p = Core.of c' p') :
    c = c' ∧ p = p' := by
  obtain ⟨⟨v, i⟩, ⟨frames⟩, unknown⟩ := p
  obtain ⟨⟨v', i'⟩, ⟨frames'⟩, unknown'⟩ := p'
  simp only [Core.of, Core.mk.injEq] at h
  obtain ⟨hcursor, hv, hi, hframes, hunknown⟩ := h
  have hregisters : v = v' := by
    apply Vector.ext
    intro k hk
    exact UInt8.toNat_inj.mp (congrFun hv ⟨k, hk⟩)
  have hstack : frames = frames' :=
    (List.map_inj_right fun _ _ => UInt16.toNat_inj.mp).mp hframes
  rw [hregisters, hstack, hunknown, UInt16.toNat_inj.mp hi]
  exact ⟨UInt16.toNat_inj.mp hcursor, rfl⟩

namespace Memory

/-- The two bytes at the cursor, if both are in memory. -/
def opcode? (m : Memory) : Option Opcode :=
  if h : m.cursor.toNat + 1 < size then
    some ⟨m.bytes ⟨m.cursor.toNat, Nat.lt_of_succ_lt h⟩, m.bytes ⟨m.cursor.toNat + 1, h⟩⟩
  else none

/-- Addresses in memory are far from the largest machine word. -/
theorem toNat_add_of_le {c d : UInt16} (h : c.toNat + d.toNat ≤ size) :
    (c + d).toNat = c.toNat + d.toNat := by
  rw [UInt16.toNat_add]
  exact Nat.mod_eq_of_lt (Nat.lt_of_le_of_lt h (by decide))

theorem opcode?_lt {m : Memory} {op : Opcode} (h : m.opcode? = some op) :
    m.cursor.toNat + 1 < size := by
  unfold opcode? at h
  split at h
  · assumption
  · cases h

/-- The next instruction is the one that the opcode at the cursor means. -/
theorem next_iff {m : Memory} {i : Instruction} :
    m.Next i ↔ ∃ op, m.opcode? = some op ∧ Instruction.decode op = i := by
  constructor
  · rintro ⟨w, ⟨h, rfl⟩, rfl⟩
    refine ⟨_, dif_pos h, ?_⟩
    rw [Instruction.decode_eq_ofWord, Opcode.toNat_word, Nat.mul_comm]
  · rintro ⟨op, hop, rfl⟩
    have h := opcode?_lt hop
    rw [opcode?, dif_pos h, Option.some.injEq] at hop
    subst hop
    refine ⟨_, ⟨h, rfl⟩, ?_⟩
    rw [Instruction.decode_eq_ofWord, Opcode.toNat_word, Nat.mul_comm]

end Memory

namespace Board

def core (b : Board) : Core := Core.of b.memory.cursor b.processor

/-- What the display would answer if it were asked now. -/
def reply (b : Board) : Reply := b.host.display (b.host.calls + 1)

/-! ### Actions -/

theorem bind_ok {α β : Type} {x : Action α} {f : α → Action β} {b b' : Board} {a : α}
    (h : x b = .ok a b') : (x >>= f) b = f a b' := by
  show EStateM.bind x f b = _
  simp only [EStateM.bind, h]

theorem bind_error {α β : Type} {x : Action α} {f : α → Action β} {b b' : Board} {e : Fault}
    (h : x b = .error e b') : (x >>= f) b = .error e b' := by
  show EStateM.bind x f b = _
  simp only [EStateM.bind, h]

theorem cursor_ok (b : Board) : cursor b = .ok b.memory.cursor b := rfl

theorem record_ok (event : Event) (b : Board) :
    record event b = .ok () { b with host := b.host.record event } := rfl

theorem seek_ok {addr : UInt16} {b : Board} (h : addr.toNat < Memory.size) :
    seek addr b = .ok () { b with memory := { b.memory with cursor := addr } } := by
  simp only [seek, Memory.seek, h, if_true]

theorem seek_error {addr : UInt16} {b : Board} (h : ¬ addr.toNat < Memory.size) :
    seek addr b = .error (.badAddress addr.toNat) b := by
  simp only [seek, Memory.seek, h, if_false]

theorem advance_ok {count : UInt16} {b : Board}
    (h : b.memory.cursor.toNat + count.toNat < Memory.size) :
    advance count b = .ok () { b with memory := { b.memory with cursor :=
      (b.memory.cursor.toNat + count.toNat).toUInt16 } } := by
  simp only [advance, Memory.advance, h, if_true]

theorem advance_error {count : UInt16} {b : Board}
    (h : ¬ b.memory.cursor.toNat + count.toNat < Memory.size) :
    advance count b = .error (.badAddress (b.memory.cursor.toNat + count.toNat)) b := by
  simp only [advance, Memory.advance, h, if_false]

theorem push_ok {addr : UInt16} {b : Board} (h : b.processor.stack.depth < CallStack.limit) :
    push addr b = .ok () { b with processor.stack := ⟨addr :: b.processor.stack.frames⟩ } := by
  simp only [push, CallStack.push, h, if_true]

theorem push_error {addr : UInt16} {b : Board} (h : ¬ b.processor.stack.depth < CallStack.limit) :
    push addr b = .error (.stackOverflow b.processor.stack.depth) b := by
  simp only [push, CallStack.push, h, if_false]

theorem getRegister_ok {x : UInt8} {b : Board} (h : x.toNat < 16) :
    readRegisters (·.get x) b = .ok b.processor.registers.v[Core.slot x] b := by
  have hslot : (Core.slot x : Nat) = x.toNat := Nat.mod_eq_of_lt h
  simp [readRegisters, Registers.get, h, hslot]

/-- The register `x` gets a value. -/
def setV (b : Board) (x value : UInt8) : Board :=
  { b with processor.registers.v := b.processor.registers.v.set (Core.slot x) value }

theorem setRegister_ok {x value : UInt8} {b : Board} (h : x.toNat < 16) :
    updateRegisters (·.set x value) b = .ok () (b.setV x value) := by
  have hslot : (Core.slot x : Nat) = x.toNat := Nat.mod_eq_of_lt h
  simp [updateRegisters, Registers.set, setV, h, hslot]

theorem addRegister_ok {x value : UInt8} {b : Board} (h : x.toNat < 16) :
    updateRegisters (·.add x value) b =
      .ok () (b.setV x (b.processor.registers.v[Core.slot x] + value)) := by
  have hslot : (Core.slot x : Nat) = x.toNat := Nat.mod_eq_of_lt h
  simp [updateRegisters, Registers.add, Registers.get, Registers.set, setV, h, hslot, bind,
    Except.bind]

theorem operand_ok {right : Operand} {b : Board}
    (h : ∀ y, right = .register y → y.toNat < 16) :
    ∃ value : UInt8, readRegisters (·.operand right) b = .ok value b ∧
      value.toNat = b.core.operand right := by
  cases right with
  | byte nn => exact ⟨nn, rfl, rfl⟩
  | register y => exact ⟨_, getRegister_ok (h y rfl), rfl⟩

theorem holds_eq_meets {right : Operand} {b : Board} {value : UInt8} (c : Comparison) (x : UInt8)
    (h : value.toNat = b.core.operand right) :
    c.holds b.processor.registers.v[Core.slot x] value = b.core.meets c x right := by
  have hiff : b.processor.registers.v[Core.slot x] = value ↔
      b.core.v (Core.slot x) = b.core.operand right := by
    rw [← h, ← UInt8.toNat_inj]
    rfl
  cases c with
  | equal => exact Bool.eq_iff_iff.mpr (by simpa only [Comparison.holds, Core.meets, beq_iff_eq])
  | unequal =>
    exact Bool.eq_iff_iff.mpr
      (by simpa only [Comparison.holds, Core.meets, bne_iff_ne] using not_congr hiff)

/-- A skip asks for its condition and then advances or does nothing. -/
theorem execute_skip {c : Comparison} {x : UInt8} {right : Operand} {b : Board}
    (hi : (Instruction.skip c x right).InRange) :
    execute (.skip c x right) b =
      if b.core.meets c x right then advance instructionSize b else .ok () b := by
  have hx : x.toNat < 16 := by
    cases right with
    | byte _ => exact hi
    | register _ => exact hi.1
  have hright : ∀ y, right = .register y → y.toNat < 16 := by
    rintro y rfl
    exact hi.2
  obtain ⟨value, hread, hvalue⟩ := operand_ok hright (b := b)
  rw [execute, bind_ok (getRegister_ok hx), bind_ok hread, holds_eq_meets c x hvalue]
  split <;> rfl

/-! ### Executing an instruction that was fetched -/

theorem toNat_getElem_set (v : Vector UInt8 16) (x k : Fin 16) (a : UInt8) :
    (v.set x a)[k].toNat = if k = x then a.toNat else v[k].toNat := by
  rw [Fin.getElem_fin, Fin.getElem_fin, Vector.getElem_set]
  by_cases h : k = x
  · simp [h]
  · simp [h, Fin.val_inj, Ne.symm h]

variable {i : Instruction} {f : Board} {pc : UInt16}

/-- Where a return goes. -/
def target (b : Board) : UInt16 := b.processor.stack.top?.getD Memory.origin

theorem execute_ret (b : Board) : execute .ret b = (do seek b.target; pop) b := rfl

/-- A return that goes outside memory has an obstacle. -/
theorem obstacle_ret (b : Board) (pc : UInt16) :
    Instruction.ret.obstacle b.reply (Core.of pc b.processor) =
      if b.target.toNat < Memory.size then none else some (.badAddress b.target.toNat) := by
  cases h : b.processor.stack.frames with
  | nil =>
    simp [Instruction.obstacle, Core.of, h, target, CallStack.top?, Memory.origin, Memory.size]
  | cons back rest => simp [Instruction.obstacle, Core.of, h, target, CallStack.top?, Memory.size]

theorem act_ret (b : Board) (pc : UInt16) :
    Instruction.ret.act (Core.of pc b.processor) =
      { Core.of pc b.processor with
        cursor := b.target.toNat, frames := b.processor.stack.frames.tail.map (·.toNat) } := by
  cases h : b.processor.stack.frames with
  | nil => simp [Instruction.act, Core.of, h, target, CallStack.top?, Memory.origin]
  | cons back rest => simp [Instruction.act, Core.of, h, target, CallStack.top?]

/-- The condition of a skip does not depend on the cursor. -/
theorem meets_of (b : Board) (pc : UInt16) (c : Comparison) (x : UInt8) (right : Operand) :
    (Core.of pc b.processor).meets c x right = b.core.meets c x right := by
  cases c <;> cases right <;> rfl

/-- With nothing in its way an instruction is executed as the instruction set has it. -/
theorem execute_ok (hi : i.InRange) (hf : f.memory.cursor = pc + 2)
    (hcursor : f.memory.cursor.toNat = pc.toNat + 2)
    (h : i.obstacle f.reply (Core.of pc f.processor) = none) :
    ∃ f', execute i f = .ok () f' ∧ f'.memory.bytes = f.memory.bytes ∧
      f'.core = i.act (Core.of pc f.processor) ∧ f'.host = f.host.heed pc i := by
  cases i with
  | clearScreen =>
    have hreply : f.reply.failure = none := Option.map_eq_none_iff.mp h
    refine ⟨{ f with host := f.host.clear.2 }, ?_, rfl, Core.ext hcursor rfl rfl rfl rfl, rfl⟩
    simp only [execute, clearDisplay]
    rw [Host.clear_of_none hreply]
  | ret =>
    have htarget : f.target.toNat < Memory.size := by
      simpa only [obstacle_ret, ite_eq_left_iff, reduceCtorEq, imp_false, Decidable.not_not] using h
    rw [execute_ret, act_ret, bind_ok (seek_ok htarget)]
    exact ⟨_, rfl, rfl, rfl, rfl⟩
  | system target => exact ⟨_, rfl, rfl, Core.ext hcursor rfl rfl rfl rfl, rfl⟩
  | jump target => exact ⟨_, seek_ok hi, rfl, rfl, rfl⟩
  | call target =>
    have hdepth : f.processor.stack.depth < CallStack.limit := by
      have hlt := Instruction.lt_of_free_call h
      rwa [Core.of, List.length_map] at hlt
    refine ⟨_, (bind_ok rfl).trans ((bind_ok (seek_ok hi)).trans (push_ok hdepth)), rfl, ?_, rfl⟩
    refine Core.ext rfl rfl rfl ?_ rfl
    show f.memory.cursor.toNat :: _ = _
    rw [hcursor]
    rfl
  | skip c x right =>
    rw [execute_skip hi, Instruction.act, meets_of]
    cases hm : f.core.meets c x right with
    | false => exact ⟨f, rfl, rfl, Core.ext hcursor rfl rfl rfl rfl, rfl⟩
    | true =>
      have hroom : f.memory.cursor.toNat + instructionSize.toNat < Memory.size := by
        rw [hcursor]
        exact Instruction.lt_of_free_skip ((meets_of f pc c x right).trans hm) h
      refine ⟨_, advance_ok hroom, rfl, Core.ext ?_ rfl rfl rfl rfl, rfl⟩
      show ((f.memory.cursor.toNat + instructionSize.toNat).toUInt16).toNat = pc.toNat + 4
      rw [Nat.toUInt16, UInt16.toNat_ofNat', Nat.mod_eq_of_lt (Nat.lt_trans hroom (by decide)),
        hcursor]
      rfl
  | load x nn =>
    exact ⟨_, setRegister_ok hi, rfl, Core.ext hcursor
      (funext fun k => toNat_getElem_set _ _ k _) rfl rfl rfl, rfl⟩
  | add x nn =>
    refine ⟨_, addRegister_ok hi, rfl, Core.ext hcursor (funext fun k => ?_) rfl rfl rfl, rfl⟩
    refine (toNat_getElem_set _ _ k _).trans ?_
    rw [UInt8.toNat_add]
    rfl
  | loadIndex address =>
    refine ⟨_, rfl, rfl, Core.ext hcursor rfl ?_ rfl rfl, rfl⟩
    show (address &&& 0x0FFF).toNat = address.toNat
    rw [UInt16.toNat_and]
    exact (Nat.and_two_pow_sub_one_eq_mod address.toNat 12).trans (Nat.mod_eq_of_lt hi)
  | unknown op =>
    refine ⟨_, rfl, rfl, Core.ext hcursor rfl rfl rfl rfl, ?_⟩
    show f.host.record (.unknownOpcode op (f.memory.cursor - 2)) = _
    rw [hf, UInt16.add_sub_cancel]
    rfl

/-- An obstacle is the fault with which an instruction fails; whatever it had done by then
is to the cursor or for the host to see. -/
theorem execute_error {e : Fault} (hi : i.InRange)
    (hcursor : f.memory.cursor.toNat = pc.toNat + 2)
    (h : i.obstacle f.reply (Core.of pc f.processor) = some e) :
    ∃ cursor, execute i f =
      .error e { f with memory.cursor := cursor, host := f.host.heed pc i } := by
  cases i with
  | clearScreen =>
    obtain ⟨cause, hreply, rfl⟩ := Option.map_eq_some_iff.mp h
    refine ⟨f.memory.cursor, ?_⟩
    simp only [execute, clearDisplay]
    rw [Host.clear_of_some hreply]
    rfl
  | ret =>
    rw [obstacle_ret] at h
    split at h
    · cases h
    · cases h
      rename_i htarget
      rw [execute_ret, bind_error (seek_error htarget)]
      exact ⟨f.memory.cursor, rfl⟩
  | call target =>
    obtain ⟨hdepth, rfl⟩ := Instruction.obstacle_call_iff.mp h
    have hlength : (Core.of pc f.processor).frames.length = f.processor.stack.depth :=
      List.length_map _
    rw [hlength] at hdepth ⊢
    have hfull : ¬ f.processor.stack.depth < CallStack.limit := Nat.not_lt_of_le hdepth
    -- The cursor has gone to the target before the stack turns out to be full.
    exact ⟨target, (bind_ok rfl).trans ((bind_ok (seek_ok hi)).trans (push_error hfull))⟩
  | skip c x right =>
    obtain ⟨hmeets, hend, rfl⟩ := Instruction.obstacle_skip_iff.mp h
    have hroom : ¬ f.memory.cursor.toNat + instructionSize.toNat < Memory.size := by
      rw [hcursor]
      exact Nat.not_lt_of_le hend
    refine ⟨f.memory.cursor, ?_⟩
    rw [execute_skip hi, if_pos ((meets_of f pc c x right).symm.trans hmeets), advance_error hroom,
      hcursor]
    rfl
  | system target | jump target | load x nn | add x nn | loadIndex address | unknown op => cases h

/-! ### Fetching -/

theorem readByte_ok {b : Board} (h : b.memory.cursor.toNat < Memory.size) :
    readByte b = .ok (b.memory.bytes ⟨b.memory.cursor.toNat, h⟩)
      { b with memory.cursor := b.memory.cursor + 1 } := by
  simp only [readByte, Memory.readByte, h, dif_pos]

theorem readByte_error {b : Board} (h : ¬ b.memory.cursor.toNat < Memory.size) :
    readByte b = .error (.endOfMemory b.memory.cursor) b := by
  simp only [readByte, Memory.readByte, h, dif_neg, not_false_iff]

theorem fetch_ok {b : Board} {op : Opcode} (h : b.memory.opcode? = some op) :
    fetch b = .ok (Instruction.decode op) { b with memory.cursor := b.memory.cursor + 2 } := by
  unfold Memory.opcode? at h
  split at h
  case isFalse => cases h
  case isTrue hsecond =>
    have hfirst := Nat.lt_of_succ_lt hsecond
    have hsucc := Memory.toNat_add_of_le (c := b.memory.cursor) (d := 1) hfirst
    simp only [Option.some.injEq] at h
    subst h
    rw [fetch, bind_ok (readByte_ok hfirst), bind_ok (readByte_ok (by rw [hsucc]; exact hsecond))]
    simp only [hsucc, UInt16.add_assoc]
    rfl

/-- A fetch that fails has read at most one byte. -/
theorem fetch_error {b : Board} (h : b.memory.opcode? = none) :
    ∃ cursor, fetch b = .error (.endOfMemory (max 4096 b.memory.cursor))
        { b with memory.cursor := cursor } ∧
      (cursor = b.memory.cursor ∨ b.memory.cursor.toNat < Memory.size) := by
  have hsecond : ¬ b.memory.cursor.toNat + 1 < Memory.size := by
    intro hlt
    rw [Memory.opcode?, dif_pos hlt] at h
    cases h
  by_cases hfirst : b.memory.cursor.toNat < Memory.size
  · have hsucc := Memory.toNat_add_of_le (c := b.memory.cursor) (d := 1) hfirst
    -- The first byte was the last one of memory, and the cursor is behind it.
    have hlast : b.memory.cursor = 4095 := by
      apply UInt16.toNat_inj.mp
      have hlow := Nat.le_of_succ_le_succ (Nat.le_of_not_lt hsecond)
      exact Nat.le_antisymm (Nat.le_of_lt_succ hfirst) hlow
    refine ⟨b.memory.cursor + 1, ?_, .inr hfirst⟩
    rw [fetch, bind_ok (readByte_ok hfirst), bind_error (readByte_error (by rwa [hsucc]))]
    simp only [hlast]
    rfl
  · have hmax : max 4096 b.memory.cursor = b.memory.cursor := by
      have hle : (4096 : UInt16) ≤ b.memory.cursor := by
        rw [UInt16.le_iff_toNat_le]
        exact Nat.le_of_not_lt hfirst
      exact if_pos hle
    refine ⟨b.memory.cursor, ?_, .inl rfl⟩
    rw [fetch, bind_error (readByte_error hfirst), hmax]

/-! ### Fetching and executing -/

/-- The board between the fetch of an instruction and its execution. -/
def fetched (b : Board) (i : Instruction) : Board :=
  { b with
    memory.cursor := b.memory.cursor + 2
    host := b.host.record (.executing b.memory.cursor i) }

theorem toNat_fetched {b : Board} {op : Opcode} (h : b.memory.opcode? = some op)
    (i : Instruction) : (b.fetched i).memory.cursor.toNat = b.memory.cursor.toNat + 2 :=
  Memory.toNat_add_of_le (d := 2) (Memory.opcode?_lt h)

theorem fetchAndExecute_eq {b : Board} {op : Opcode} (h : b.memory.opcode? = some op) :
    fetchAndExecute b = (do execute (Instruction.decode op); return Instruction.decode op)
      (b.fetched (Instruction.decode op)) := by
  rw [fetchAndExecute, bind_ok (cursor_ok b), bind_ok (fetch_ok h), bind_ok (record_ok _ _)]
  rfl

theorem fetchAndExecute_unfetched {b : Board} (h : b.memory.opcode? = none) :
    ∃ cursor, fetchAndExecute b = .error (.endOfMemory (max 4096 b.memory.cursor))
        { b with memory.cursor := cursor } ∧
      (cursor = b.memory.cursor ∨ b.memory.cursor.toNat < Memory.size) := by
  obtain ⟨cursor, hfetch, hc⟩ := fetch_error h
  exact ⟨cursor, (bind_ok (cursor_ok b)).trans (bind_error hfetch), hc⟩

variable {b : Board} {op : Opcode}

theorem fetchAndExecute_refused {e : Fault} (h : b.memory.opcode? = some op)
    (he : (Instruction.decode op).obstacle b.reply b.core = some e) :
    ∃ cursor, fetchAndExecute b = .error e
      { b with
        memory.cursor := cursor
        host := b.host.observe b.memory.cursor (Instruction.decode op) } := by
  obtain ⟨cursor, hexecute⟩ := execute_error (f := b.fetched (Instruction.decode op))
    (Instruction.inRange_decode op) (toNat_fetched h _) he
  exact ⟨cursor, (fetchAndExecute_eq h).trans (bind_error hexecute)⟩

theorem fetchAndExecute_performed (h : b.memory.opcode? = some op)
    (hnone : (Instruction.decode op).obstacle b.reply b.core = none) :
    ∃ b', fetchAndExecute b = .ok (Instruction.decode op) b' ∧
      b'.memory.bytes = b.memory.bytes ∧ b'.core = (Instruction.decode op).act b.core ∧
      b'.host = b.host.observe b.memory.cursor (Instruction.decode op) := by
  obtain ⟨b', hexecute, hbytes, hcore, hhost⟩ :=
    execute_ok (f := b.fetched (Instruction.decode op)) (Instruction.inRange_decode op) rfl
      (toNat_fetched h _) hnone
  exact ⟨b', (fetchAndExecute_eq h).trans (bind_ok hexecute), hbytes, hcore, hhost⟩

/-- What a failed fetch or instruction has done by then is to the cursor and to the host,
and the cursor has moved only if the instruction began inside memory. -/
theorem fetchAndExecute_error {e : Fault} {after : Board}
    (h : fetchAndExecute b = .error e after) :
    ∃ cursor host, after = { b with memory.cursor := cursor, host } ∧
      (cursor = b.memory.cursor ∨ b.memory.cursor.toNat < Memory.size) := by
  cases hop : b.memory.opcode? with
  | none =>
    obtain ⟨cursor, hexec, hc⟩ := fetchAndExecute_unfetched hop
    rw [hexec] at h
    cases h
    exact ⟨cursor, _, rfl, hc⟩
  | some op =>
    cases hobstacle : (Instruction.decode op).obstacle b.reply b.core with
    | some e' =>
      obtain ⟨cursor, hexec⟩ := fetchAndExecute_refused hop hobstacle
      rw [hexec] at h
      cases h
      exact ⟨cursor, _, rfl, .inr (Nat.lt_of_succ_lt (Memory.opcode?_lt hop))⟩
    | none =>
      obtain ⟨b', hexec, _⟩ := fetchAndExecute_performed hop hobstacle
      rw [hexec] at h
      cases h

end Board

end Chip8
