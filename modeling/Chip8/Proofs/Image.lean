import Chip8.Proofs.History
import Chip8.Proofs.Rollback

/-! What is in memory.

Nothing but a load writes to memory, and every load writes all of it: behind the program it
clears what an earlier and longer one has left, and below it there are zeros that no program
reaches. So the bytes of an open machine can be told from the program that was loaded last
(`Account.image?`), and what a step fetches from that program and the cursor. -/
namespace Chip8

/-! ### Images -/

namespace Memory

/-- The bytes of a memory with a program: zeros up to where programs start, as much of the
program as there is room for, and zeros up to the end. -/
def image (program : List UInt8) : List UInt8 :=
  List.replicate origin.toNat 0 ++ program.take capacity ++
    List.replicate (capacity - program.length) 0

/-- To load a program into blank memory is to lay its image. -/
theorem ofFn_load_blank (program : List UInt8) :
    List.ofFn (blank.load program).2.bytes = image program := by
  have hsize : origin.toNat + capacity = size := by decide
  apply List.ext_getElem
  · simp only [image, List.length_ofFn, List.length_append, List.length_replicate,
      List.length_take]
    omega
  · intro a ha _
    rw [List.length_ofFn] at ha
    simp only [List.getElem_ofFn, load, blank, image, List.getElem_append, List.getElem_replicate,
      List.length_append, List.length_replicate, List.length_take, List.getElem_take,
      List.getElem?_toArray]
    -- The byte is below the program, in it, or behind it.
    by_cases hlow : a < origin.toNat
    · rw [if_pos hlow, dif_pos (by omega), dif_pos hlow]
    · rw [if_neg hlow]
      by_cases hin : a - origin.toNat < program.length
      · rw [dif_pos (by omega), dif_neg hlow, List.getElem?_eq_getElem hin, Option.getD_some]
      · rw [dif_neg (by omega), List.getElem?_eq_none (by omega), Option.getD_none]

/-- What a load leaves of an earlier one is what it leaves of blank memory. -/
theorem load_over {m : Memory} {before : List UInt8} (h : m.bytes = (blank.load before).2.bytes)
    (program : List UInt8) : m.load program = blank.load program := by
  simp only [load, Prod.mk.injEq, Memory.mk.injEq, true_and, and_true]
  funext a
  by_cases ha : a.val < origin.toNat
  · rw [if_pos ha, if_pos ha, h]
    exact if_pos ha
  · rw [if_neg ha, if_neg ha]

end Memory

/-- The bytes that a machine with this account has in memory, unless it is closed. -/
def Account.image? (a : Account) : Option (Fin Memory.size → UInt8) :=
  match a.closed? with
  | some _ => none
  | none => some (Memory.blank.load (a.program?.getD [])).2.bytes

namespace Machine

variable {m : Machine} {a : Account}

/-! ### The image of the last load -/

/-- The bytes of a machine's memory, as long as it has one. -/
def image? (m : Machine) : Option (Fin Memory.size → UInt8) := m.phase.memory?.map (·.bytes)

/-- A step writes no byte. -/
theorem image?_step (m : Machine) : (stateOf m.step).image? = m.image? := by
  cases hstep : m.step with
  | error e m' =>
    have hphase : m'.phase = m.phase := (step_failure hstep).phase
    rw [stateOf, image?, image?, hphase]
  | ok i m' =>
    obtain ⟨memory, b, hphase, hb, rfl⟩ := step_ok hstep
    have hbytes : b.memory.bytes = memory.bytes := (Board.outcome_of_step hb).success.bytes
    rw [stateOf, image?, image?, hphase]
    exact congrArg some hbytes

/-- What the account says of memory is said of a memory that is there. -/
theorem bytes_of_image? {memory : Memory} (hmemory : m.phase.memory? = some memory)
    (h : m.image? = a.image?) :
    a.closed? = none ∧ memory.bytes = (Memory.blank.load (a.program?.getD [])).2.bytes := by
  rw [image?, hmemory, Account.image?] at h
  cases hclosed : a.closed? with
  | some steps =>
    rw [hclosed] at h
    cases h
  | none =>
    rw [hclosed] at h
    exact ⟨rfl, Option.some_inj.mp h⟩

/-- Over an image, a load leaves the image of the new program alone. -/
theorem image?_start {memory : Memory} (hmemory : m.phase.memory? = some memory)
    (h : m.image? = a.image?) (program : List UInt8) :
    (m.start (memory.load program)).image? = (a.load program m.host.calls).image? := by
  obtain ⟨hopen, hbytes⟩ := bytes_of_image? hmemory h
  rw [Memory.load_over hbytes, Account.image?]
  simp only [Account.load, hopen]
  rfl

theorem kept_image : Kept fun a m => m.image? = a.image? where
  start _ _ _ program hmemory h := image?_start hmemory h program
  step _ m h := (image?_step m).trans h
  record _ _ _ _ h := h
  token _ _ _ h := h
  configure _ _ _ h := h
  close a m h := by
    have hclosed : (a.close m.steps).image? = none := by
      rw [Account.image?, Account.close]
      cases a.closed? <;> rfl
    rw [hclosed]
    unfold close
    split
    case h_1 hphase => rw [image?, hphase]; rfl
    case h_2 => rfl

theorem image?_of_history (h : History) : h.machine.image? = h.account.image? := by
  refine h.induction kept_image ?_
  -- Blank memory is what it is with an empty program.
  have hblank : (Memory.blank.load []).2.bytes = Memory.blank.bytes := by
    funext k
    exact ite_self 0
  exact congrArg some hblank.symm

theorem bytes_of_history (h : History) {memory : Memory}
    (hmemory : h.machine.phase.memory? = some memory) :
    memory.bytes = (Memory.blank.load (h.account.program?.getD [])).2.bytes :=
  (bytes_of_image? hmemory (image?_of_history h)).2

/-- Only a load changes what the account says of memory, until the machine is closed. -/
theorem image?_after (a : Account) (m : Machine) {op : Operation} (hloads : m.loads? op = none)
    (hopen : op ≠ .close) : (a.after m op).image? = a.image? := by
  cases op with
  | load program | loadFrom stream => simp only [Account.after, hloads]
  | step | run requests | configure settings | cancel | uncancel => rfl
  | close => contradiction

/-! ### What is fetched -/

/-- What a step fetches is what the opcode at the cursor means. -/
theorem opcode?_of_fetch {b f : Board} {i : Instruction} (h : b.fetch = .ok i f) :
    ∃ op, b.memory.opcode? = some op ∧ i = Instruction.decode op := by
  cases hop : b.memory.opcode? with
  | none =>
    obtain ⟨cursor, herror, _⟩ := Board.fetch_error hop
    cases h.symm.trans herror
  | some op =>
    have hfetch := Board.fetch_ok hop
    rw [h] at hfetch
    cases hfetch
    exact ⟨op, rfl, rfl⟩

end Machine

/-- **Memory is the image of the last load**, whatever a machine has gone through, until it is
closed: nothing but a load changes a byte of it. So with the same program loaded, as at any two
moments between two loads and be they in the middle of a run, what is fetched at the same cursor
is the same instruction. -/
theorem memory_image (h : History) :
    (h.machine.phase ≠ .closed → ∃ memory, h.machine.memory = .ok memory ∧
      List.ofFn memory.bytes = Memory.image (h.account.program?.getD [])) ∧
    (∀ op, h.machine.loads? op = none → op ≠ .close →
      (h.perform op).machine.image? = h.machine.image?) ∧
    ∀ h' : History, h'.account.program? = h.account.program? →
      ∀ memory memory' i i' f f',
        h.machine.phase = .ready memory → h'.machine.phase = .ready memory' →
        memory.cursor = memory'.cursor →
        (h.machine.board memory).fetch = .ok i f → (h'.machine.board memory').fetch = .ok i' f' →
        i = i' := by
  refine ⟨fun hopen => ?_, fun op hloads hop => ?_, ?_⟩
  · obtain ⟨memory, hmemory⟩ := Machine.memory?_of_open hopen
    refine ⟨memory, by simp only [Machine.memory, hmemory], ?_⟩
    rw [Machine.bytes_of_history h hmemory, Memory.ofFn_load_blank]
  · calc (h.perform op).machine.image?
      _ = (h.account.after h.machine op).image? := Machine.image?_of_history (h.perform op)
      _ = h.account.image? := Machine.image?_after _ _ hloads hop
      _ = h.machine.image? := (Machine.image?_of_history h).symm
  · intro h' hprogram memory memory' i i' f f' hphase hphase' hcursor hfetch hfetch'
    have hbytes := Machine.bytes_of_history h (by rw [hphase]; rfl)
    have hbytes' := Machine.bytes_of_history h' (by rw [hphase']; rfl)
    have hmemory : memory = memory' := by
      show Memory.mk memory.bytes memory.cursor = Memory.mk memory'.bytes memory'.cursor
      rw [hbytes, hbytes', hprogram, hcursor]
    obtain ⟨op, hop, rfl⟩ := Machine.opcode?_of_fetch hfetch
    obtain ⟨op', hop', rfl⟩ := Machine.opcode?_of_fetch hfetch'
    cases hop.symm.trans ((congrArg Memory.opcode? hmemory).trans hop')
    rfl

/-- A program that has made a step, and after it a shorter one that goes round in a loop. -/
def reloaded : History :=
  ((History.ofProgram [0x6A, 0x05, 0x00, 0xE0] {}).perform .step).perform (.load [0x12, 0x00])

/-- Nothing is left of the longer one, and a run of the loop is soon about to fetch the same
instruction again. -/
theorem reloaded_image :
    (∃ memory, reloaded.machine.memory = .ok memory ∧
      List.ofFn memory.bytes = Memory.image [0x12, 0x00]) ∧
    (reloaded.perform (.run [false])).machine.image? = reloaded.machine.image? ∧
    ∃ memory f, (reloaded.perform (.run [false])).machine.phase = .ready memory ∧
      ((reloaded.perform (.run [false])).machine.board memory).fetch = .ok (.jump 0x200) f := by
  obtain ⟨himage, hkept, hsame⟩ := memory_image reloaded
  obtain ⟨memory, hphase, hcursor, f, hfetch⟩ : ∃ memory, reloaded.machine.phase = .ready memory ∧
      memory.cursor = 0x200 ∧ ∃ f, (reloaded.machine.board memory).fetch = .ok (.jump 0x200) f :=
    ⟨_, rfl, rfl, _, rfl⟩
  obtain ⟨memory', hphase', hcursor', i', f', hfetch'⟩ :
      ∃ memory, (reloaded.perform (.run [false])).machine.phase = .ready memory ∧
        memory.cursor = 0x200 ∧
        ∃ i f, ((reloaded.perform (.run [false])).machine.board memory).fetch = .ok i f :=
    ⟨_, rfl, rfl, _, _, rfl⟩
  have hjump := hsame (reloaded.perform (.run [false])) rfl memory memory' _ i' f f' hphase hphase'
    (hcursor.trans hcursor'.symm) hfetch hfetch'
  refine ⟨himage nofun, hkept _ rfl nofun, memory', f', hphase', ?_⟩
  rw [hjump]
  exact hfetch'

end Chip8
