import Chip8.Proofs.Reading

/-! Programs.

A program is known by the words that it puts into memory. One that is written down as words
(`assemble`) has them there in their order, from where programs start on and at even addresses, and
at even addresses there is nothing but them and zeros (`word_assemble`, `mem_of_word`). What is
asked of a program is asked of these words, and of the machines that have loaded it last: of all
that have a history with it, or of those that have not tried a step since (`History.Fresh`). -/
namespace Chip8

/-! ### Words in memory -/

/-- The bytes of words, in the order of memory. -/
def assemble (words : List UInt16) : List UInt8 :=
  words.flatMap fun w => [(Opcode.ofWord w).first, (Opcode.ofWord w).second]

theorem assemble_cons (w : UInt16) (words : List UInt16) :
    assemble (w :: words) = (Opcode.ofWord w).first :: (Opcode.ofWord w).second :: assemble words :=
  rfl

theorem length_assemble (words : List UInt16) : (assemble words).length = 2 * words.length := by
  induction words with
  | nil => rfl
  | cons w rest ih =>
    rw [assemble_cons, List.length_cons, List.length_cons, ih, List.length_cons]
    omega

/-- The bytes of a word are at twice its place. -/
theorem getElem?_assemble (words : List UInt16) (k : Nat) :
    (assemble words)[2 * k]? = words[k]?.map (Opcode.first ∘ Opcode.ofWord) ∧
      (assemble words)[2 * k + 1]? = words[k]?.map (Opcode.second ∘ Opcode.ofWord) := by
  induction words generalizing k with
  | nil => exact ⟨rfl, rfl⟩
  | cons w rest ih =>
    rw [assemble_cons]
    cases k with
    | zero => exact ⟨rfl, rfl⟩
    | succ k => exact ih k

namespace Memory

/-- Memory with a program and nothing else. -/
def ofProgram (program : List UInt8) : Memory := (blank.load program).2

section Words
variable {program junk : List UInt8} {words : List UInt16} {a w : UInt16} {j k : Nat}

theorem bytes_below (h : j < 0x200) (hs : j < size) : (ofProgram program).bytes ⟨j, hs⟩ = 0 :=
  if_pos h

theorem bytes_from (hs : 0x200 + j < size) :
    (ofProgram program).bytes ⟨0x200 + j, hs⟩ = program[j]?.getD 0 := by
  have hfrom : ¬ 0x200 + j < origin.toNat := Nat.not_lt.mpr (Nat.le_add_right _ _)
  have hplace : 0x200 + j - origin.toNat = j := Nat.add_sub_cancel_left _ _
  rw [ofProgram, load]
  dsimp only
  rw [if_neg hfrom, hplace, List.getElem?_toArray]

/-- Below all programs there are zeros. -/
theorem word_below (heven : a.toNat % 2 = 0) (h : a.toNat < 0x200) :
    (ofProgram program).word a = .ok 0 := by
  have htwo : a.toNat + 2 ≤ size := by
    unfold size
    omega
  rw [word_eq_ok_iff, slice_two htwo, bytes_below h, bytes_below (by omega)]
  rfl

/-- From there on a word is two bytes of the program, as long as it has them. -/
theorem word_from (ha : a.toNat = 0x200 + 2 * k) (hroom : k < 1792) :
    (ofProgram program).word a =
      .ok (Opcode.word ⟨program[2 * k]?.getD 0, program[2 * k + 1]?.getD 0⟩) := by
  have htwo : 0x200 + 2 * k + 2 ≤ size := by
    unfold size
    omega
  have hsecond : (ofProgram program).bytes ⟨0x200 + 2 * k + 1, htwo⟩ = program[2 * k + 1]?.getD 0 :=
    bytes_from (j := 2 * k + 1) htwo
  simp only [word, ha]
  rw [dif_pos htwo, bytes_from, hsecond]

/-- What fits of the words stands in memory in their order, whatever comes behind it. -/
theorem word_assemble (hk : k < words.length) (ha : a.toNat = 0x200 + 2 * k) (hroom : k < 1792) :
    (ofProgram (assemble words ++ junk)).word a = .ok words[k] := by
  have hlength := length_assemble words
  obtain ⟨hfirst, hsecond⟩ := getElem?_assemble words k
  rw [List.getElem?_eq_getElem hk] at hfirst hsecond
  rw [word_from ha hroom, List.getElem?_append_left (by omega),
    List.getElem?_append_left (by omega), hfirst, hsecond]
  exact congrArg Except.ok (Opcode.word_ofWord _)

/-- At even addresses there is nothing but these words and zeros. -/
theorem mem_of_word (heven : a.toNat % 2 = 0) (h : (ofProgram (assemble words)).word a = .ok w) :
    w = 0 ∨ w ∈ words := by
  by_cases hlow : a.toNat < 0x200
  · rw [word_below heven hlow] at h
    cases h
    exact .inl rfl
  · have hroom : a.toNat ≤ 4094 := exists_word_iff.mp ⟨w, h⟩
    obtain ⟨k, ha⟩ : ∃ k, a.toNat = 0x200 + 2 * k := ⟨(a.toNat - 0x200) / 2, by omega⟩
    by_cases hk : k < words.length
    · have hword : (ofProgram (assemble words ++ [])).word a = .ok words[k] :=
        word_assemble hk ha (by omega)
      rw [List.append_nil, h] at hword
      cases hword
      exact .inr (List.getElem_mem hk)
    · obtain ⟨hfirst, hsecond⟩ := getElem?_assemble words k
      rw [List.getElem?_eq_none (Nat.le_of_not_lt hk)] at hfirst hsecond
      rw [word_from ha (by omega), hfirst, hsecond] at h
      cases h
      exact .inl rfl

/-- Behind words that fill memory everything is cut off. -/
theorem load_full (hfull : words.length = 1792) (junk : List UInt8) (m : Memory) :
    m.load (assemble words ++ junk) = (⟨3584, junk.length⟩, (m.load (assemble words)).2) := by
  have hlength : (assemble words).length = 3584 := by rw [length_assemble, hfull]
  have hcapacity : min (3584 + junk.length) capacity = 3584 :=
    Nat.min_eq_right (Nat.le_add_right _ _)
  have hsame (a : Fin size) :
      (assemble words ++ junk)[a.val - origin.toNat]? = (assemble words)[a.val - origin.toNat]? := by
    have hlt : a.val < 3584 + origin.toNat := a.isLt
    rw [List.getElem?_append_left (by omega)]
  simp only [load, List.length_append, hlength, List.getElem?_toArray, hcapacity, hsame,
    Nat.add_sub_cancel_left]

end Words

end Memory

/-! ### Machines with a program -/

/-- The machine has loaded this program last, and has tried no step since. -/
structure History.Fresh (h : History) (program : List UInt8) : Prop where
  program : h.account.program? = some program
  untried : h.account.results = []
  phase : h.machine.phase ≠ .closed

namespace Machine

variable {h : History} {program : List UInt8} {memory : Memory}

/-- What a machine that has tried no step since its last load has of it. -/
theorem kept_fresh : Kept fun a m => a.closed? = none → a.results = [] → ∀ program,
    a.program? = some program → ∃ memory, m.phase = .ready memory ∧
      memory.cursor = Memory.origin ∧ m.processor = {} ∧ m.steps = 0 where
  start _ _ _ _ _ _ _ _ _ _ := ⟨_, rfl, rfl, rfl, rfl⟩
  step a m _ _ htried := absurd htried (List.append_ne_nil_of_right_ne_nil _ (List.cons_ne_nil _ _))
  record _ _ _ _ h := h
  token _ _ _ h := h
  configure _ _ _ h := h
  close a m _ hopen := by
    rw [Account.close] at hopen
    cases hclosed : a.closed? <;> rw [hclosed] at hopen <;> cases hopen

/-- As long as a machine is ready it has the bytes of its program. -/
theorem bytes_of_program (hprogram : h.account.program? = some program)
    (hphase : h.machine.phase = .ready memory) :
    memory.bytes = (Memory.ofProgram program).bytes := by
  have hmemory : h.machine.phase.memory? = some memory := by
    rw [hphase]
    rfl
  have hbytes := bytes_of_history h hmemory
  rwa [hprogram] at hbytes

/-- A program that is about to begin. -/
theorem ready_of_fresh (hfresh : h.Fresh program) :
    h.machine.phase = .ready (Memory.ofProgram program) ∧ h.machine.processor = {} ∧
      h.machine.steps = 0 := by
  obtain ⟨memory, hmemory⟩ := memory?_of_open hfresh.phase
  obtain ⟨hopen, _⟩ := bytes_of_image? hmemory (image?_of_history h)
  obtain ⟨memory, hphase, hcursor, hprocessor, hsteps⟩ :=
    h.induction kept_fresh nofun hopen hfresh.untried program hfresh.program
  refine ⟨?_, hprocessor, hsteps⟩
  show _ = Phase.ready ⟨(Memory.ofProgram program).bytes, Memory.origin⟩
  rw [hphase, ← hcursor, ← bytes_of_program hfresh.program hphase]

end Machine

end Chip8
