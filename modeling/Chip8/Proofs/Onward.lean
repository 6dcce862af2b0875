import Chip8.Proofs.Bracketing
import Chip8.Proofs.Programs
import Chip8.Proofs.Undisturbed

/-! Programs that only go on.

Without jumps, calls and returns there is only one way to go: to the next instruction, or with a
skip to the one behind it (`step_onward`). Words none of which skips either are executed one after
another as they are written down (`straight_line_executes`). With skips it depends on the registers
how a program gets to the end of memory, but it does get there, and can fail there in three ways and
no other (`branchless_falls_off`). The display is one to rely on. -/
namespace Chip8

namespace Instruction

/-- The instruction may lead to somewhere else than to what is behind it. -/
def branches : Instruction → Bool
  | jump _ | call _ | ret => true
  | _ => false

/-- The instruction may pass over the next one. -/
def skips : Instruction → Bool
  | skip .. => true
  | _ => false

variable {i : Instruction} {s : Core} {reply : Reply} {e : Fault}

theorem act_onward (h : i.branches = false) (hnone : i.obstacle reply s = none) :
    (i.act s).frames = s.frames ∧
      ((i.act s).cursor = s.cursor + 2 ∨
        i.skips = true ∧ (i.act s).cursor = s.cursor + 4 ∧ (i.act s).cursor < 4096) := by
  cases i with
  | jump target | call target | ret => cases h
  | skip c x right =>
    simp only [act]
    split
    next hmeets => exact ⟨rfl, .inr ⟨rfl, rfl, lt_of_free_skip hmeets hnone⟩⟩
    next => exact ⟨rfl, .inl rfl⟩
  | _ => exact ⟨rfl, .inl rfl⟩

/-- Only a skip can fail, for want of an instruction to go to. -/
theorem obstacle_onward (h : i.branches = false) (hreply : reply.failure = none)
    (he : i.obstacle reply s = some e) :
    i.skips = true ∧ 4096 ≤ s.cursor + 4 ∧ e = .badAddress (s.cursor + 4) := by
  cases i with
  | clearScreen =>
    rw [obstacle, hreply] at he
    cases he
  | call target | ret => cases h
  | skip c x right =>
    obtain ⟨_, hend, rfl⟩ := obstacle_skip_iff.mp he
    exact ⟨rfl, hend, rfl⟩
  | _ => cases he

end Instruction

/-- The word is no jump, call, skip or return. -/
def Straight (w : UInt16) : Prop := w.toNat / 0x1000 ∉ [1, 2, 3, 4, 5, 9] ∧ w ≠ 0x00EE

instance : DecidablePred Straight := fun _ => inferInstanceAs (Decidable (_ ∧ _))

theorem decode_straight {w : UInt16} (h : Straight w) :
    (Instruction.decode (.ofWord w)).branches = false ∧
      (Instruction.decode (.ofWord w)).skips = false := by
  obtain ⟨hfamily, hret⟩ := h
  rw [Instruction.decode_eq_ofWord, Opcode.word_ofWord, Instruction.ofWord]
  split
  case h_1 =>
    split
    · exact ⟨rfl, rfl⟩
    · split
      · next heq => exact absurd (UInt16.toNat_inj.mp heq) hret
      · exact ⟨rfl, rfl⟩
  case h_7 | h_8 | h_10 | h_11 => exact ⟨rfl, rfl⟩
  all_goals
    next heq =>
      rw [heq] at hfamily
      exact absurd (by decide) hfamily

namespace Machine

/-! ### One step -/

/-- A machine at an address of its program, with no call open and a display to rely on. -/
structure Along (program : List UInt8) (a : UInt16) (m : Machine) : Prop where
  phase : m.phase = .ready ⟨(Memory.ofProgram program).bytes, a⟩
  frames : m.frames = []
  reliable : m.host.Reliable

/-- What a step can come to that does not branch. -/
inductive Onward (program : List UInt8) (a : UInt16) (i : Instruction) :
    EStateM.Result Fault Machine Instruction → Prop
  | next {m' : Machine} {a' : UInt16} (ha : a'.toNat = a.toNat + 2) (h : Along program a' m') :
      Onward program a i (.ok i m')
  | skip {m' : Machine} {a' : UInt16} (hi : i.skips = true) (ha : a'.toNat = a.toNat + 4)
      (hroom : a'.toNat < 4096) (h : Along program a' m') : Onward program a i (.ok i m')
  /-- There is no instruction behind the one to skip. -/
  | past {m' : Machine} (hi : i.skips = true) (hend : 4096 ≤ a.toNat + 4)
      (h : Along program a m') : Onward program a i (.error (.badAddress (a.toNat + 4)) m')

variable {program junk : List UInt8} {words : List UInt16} {m m' n last : Machine} {a w : UInt16}
  {e : Fault} {k : Nat}

theorem Along.working (h : Along program a m) : Working m := ⟨⟨_, h.phase⟩, h.reliable⟩

theorem Along.cursor (h : Along program a m) : m.cursor = .ok a := cursor_of_ready h.phase

/-- A step that fails goes nowhere. -/
theorem Along.of_error (h : Along program a m) (hstep : m.step = .error e m') :
    Along program a m' := by
  have hfailure := step_failure hstep
  have hworking := working_step m h.working
  rw [hstep] at hworking
  refine ⟨hfailure.phase.trans h.phase, ?_, hworking.reliable⟩
  rw [Machine.frames, hfailure.processor]
  exact h.frames

theorem step_onward (h : Along program a m) (hw : (Memory.ofProgram program).word a = .ok w)
    (hi : (Instruction.decode (.ofWord w)).branches = false) :
    Onward program a (Instruction.decode (.ofWord w)) m.step := by
  have hop : Memory.opcode? ⟨(Memory.ofProgram program).bytes, a⟩ = some (Opcode.ofWord w) :=
    Memory.word_cursor.mp hw
  have hworking := working_step m h.working
  have houtcome := Board.step_outcome (m.board ⟨(Memory.ofProgram program).bytes, a⟩)
  generalize hb : (m.board _).step = r at houtcome
  cases houtcome with
  | unfetched hnone => cases hop.symm.trans hnone
  | refused hop' he =>
    cases hop.symm.trans hop'
    obtain ⟨hskips, hend, rfl⟩ := Instruction.obstacle_onward hi (h.reliable _) he
    have hstep := step_ready_error h.phase hb
    have hsame := h.of_error hstep
    rw [hstep]
    exact .past hskips hend hsame
  | @performed _ b hop' hnone hbytes hcore _ =>
    cases hop.symm.trans hop'
    have hstep := step_ready_ok h.phase hb
    obtain ⟨hframes, hcursor⟩ := Instruction.act_onward hi hnone
    rw [← hcore] at hframes hcursor
    have halong : Along program b.memory.cursor { m.withBoard b with steps := m.steps + 1 } := by
      rw [hstep] at hworking
      refine ⟨?_, ?_, hworking.reliable⟩
      · exact congrArg (fun bytes => Phase.ready ⟨bytes, b.memory.cursor⟩) hbytes
      · have hempty : m.frames.map (·.toNat) = [] := by rw [h.frames, List.map_nil]
        exact List.map_eq_nil_iff.mp (hframes.trans hempty)
    rw [hstep]
    rcases hcursor with hnext | ⟨hskips, hskip, hroom⟩
    · exact .next hnext halong
    · exact .skip hskips hskip hroom halong

/-- At the end of memory there is nothing to fetch. -/
theorem step_at_end (h : Along program 4096 m) :
    ∃ m', m.step = .error (.endOfMemory 4096) m' ∧ Along program 4096 m' := by
  have hnone : Memory.opcode? ⟨(Memory.ofProgram program).bytes, 4096⟩ = none :=
    Memory.opcode?_eq_none_iff.mpr (Nat.le_succ 4095)
  obtain ⟨b, hb⟩ := (Board.step_fails_iff (b := m.board _)).mpr (.inl ⟨hnone, rfl⟩)
  have hstep := step_ready_error h.phase hb
  exact ⟨_, hstep, h.of_error hstep⟩

/-- A program begins at its first byte. -/
theorem along_of_fresh {h : History} (hfresh : h.Fresh program)
    (hdisplay : h.machine.host.Reliable) : Along program 0x200 h.machine := by
  obtain ⟨hphase, hprocessor, _⟩ := ready_of_fresh hfresh
  refine ⟨hphase, ?_, hdisplay⟩
  rw [frames, hprocessor]

/-! ### Straight lines -/

/-- The machine has so many of these words behind it, whatever comes after the last of them. -/
def Past (words : List UInt16) (junk : List UInt8) (k : Nat) (m : Machine) : Prop :=
  ∃ a : UInt16, a.toNat = 0x200 + 2 * k ∧ Along (assemble words ++ junk) a m

/-- The next of them is executed, and nothing else. -/
theorem step_straight (h : Past words junk k m) (hwords : ∀ w ∈ words, Straight w)
    (hroom : words.length ≤ 1792) (hk : k < words.length) :
    ∃ m', m.step = .ok (Instruction.decode (.ofWord words[k])) m' ∧ Past words junk (k + 1) m' := by
  obtain ⟨a, ha, halong⟩ := h
  obtain ⟨hbranches, hskips⟩ := decode_straight (hwords _ (List.getElem_mem hk))
  have hword : (Memory.ofProgram (assemble words ++ junk)).word a = .ok words[k] :=
    Memory.word_assemble hk ha (Nat.lt_of_lt_of_le hk hroom)
  have honward := step_onward halong hword hbranches
  generalize m.step = r at honward
  cases honward with
  | @next m' a' ha' halong' =>
    refine ⟨m', rfl, a', ?_, halong'⟩
    rw [ha', ha]
    rfl
  | skip hi | past hi => cases hskips.symm.trans hi

theorem past_stepped (h : Past words junk 0 m) (hwords : ∀ w ∈ words, Straight w)
    (hroom : words.length ≤ 1792) (hk : k ≤ words.length) : Past words junk k (m.stepped k) := by
  induction k with
  | zero => exact h
  | succ k ih =>
    obtain ⟨m', hstep, hpast⟩ := step_straight (ih (Nat.le_of_succ_le hk)) hwords hroom hk
    rw [stepped, hstep]
    exact hpast

/-- Requests for the end of a run leave it where it is. -/
theorem past_standing {requests : Nat → Bool} (h : Past words junk 0 m)
    (hwords : ∀ w ∈ words, Straight w) (hroom : words.length ≤ 1792) (hk : k ≤ words.length)
    (hn : m.standing requests k = some n) : Past words junk k n := by
  have hasked {k : Nat} {n : Machine} (h : Past words junk k n) (request : Bool) :
      Past words junk k (n.asked request) := by
    cases request with
    | false => exact h
    | true =>
      obtain ⟨a, ha, halong⟩ := h
      exact ⟨a, ha, halong.phase, halong.frames, halong.reliable⟩
  induction k generalizing n with
  | zero =>
    cases hn
    exact hasked h _
  | succ k ih =>
    obtain ⟨n₀, i, n₁, hn₀, hstep, rfl⟩ := standing_succ.mp hn
    obtain ⟨n₁', hstep', hpast⟩ := step_straight (ih (Nat.le_of_succ_le hk) hn₀) hwords hroom hk
    cases hstep.symm.trans hstep'
    exact hasked hpast _

/-- A run that may make a step for each word does so, unless it is asked to end before. -/
theorem run_straight (h : Past words junk 0 m) (hwords : ∀ w ∈ words, Straight w)
    (hroom : words.length ≤ 1792) (requests : Nat → Bool) :
    ∃ ending last,
      (m.limited words.length).runFor requests (words.length + 1) = .ended (.ok ending) last ∧
        (ending = .limitReached ↔ last.host.cancelled = false) ∧
        (ending = .limitReached → last.steps = m.steps + words.length) := by
  obtain ⟨a, ha, halong⟩ := h
  have hlimited : Past words junk 0 (m.limited words.length) :=
    ⟨a, ha, halong.phase, halong.frames, halong.reliable⟩
  obtain ⟨k, hk, hfirst⟩ : ∃ k ≤ words.length, (m.limited words.length).HaltsFirst requests k :=
    haltsFirst_of_limit rfl
  obtain ⟨n, result, final, last, hn, hverdict, hlike, hended⟩ :=
    runFor_ended (m := m.limited words.length) halong.phase hfirst
  have hlast := runFor_of_ended hended (Nat.succ_le_succ hk)
  have htoken := Host.likeness_sameButLog.cancelled hlike.host
  obtain ⟨hsteps, hsettings⟩ := standing_counts hn
  have hpast := past_standing hlimited hwords hroom hk hn
  cases hverdict with
  | cancelled hcancelled =>
    refine ⟨_, last, hlast, iff_of_false nofun ?_, nofun⟩
    rw [← htoken, hcancelled]
    nofun
  | limitReached hcancelled hlimit =>
    rw [hsettings] at hlimit
    obtain rfl : words.length = k := Option.some_inj.mp hlimit
    refine ⟨_, last, hlast, iff_of_true rfl (htoken.symm.trans hcancelled), fun _ => ?_⟩
    exact hlike.steps.symm.trans hsteps
  | crashed _ hlimit hstep =>
    rw [hsettings] at hlimit
    have hlt : k < words.length := Nat.lt_of_le_of_ne hk fun heq => hlimit (congrArg some heq.symm)
    obtain ⟨n', hstep', _⟩ := step_straight hpast hwords hroom hlt
    cases hstep.symm.trans hstep'

/-- What a machine makes of these words, with something else behind them. -/
structure Executes (m : Machine) (words : List UInt16) (junk : List UInt8) : Prop where
  /-- As many steps execute them in their order. -/
  results : (List.range words.length).map (fun k => resultOf (m.stepped k).step) =
    words.map fun w => .ok (Instruction.decode (.ofWord w))
  between : ∀ k ≤ words.length, ∃ a, (m.stepped k).cursor = .ok a ∧ a.toNat = 0x200 + 2 * k ∧
    (m.stepped k).frames = []
  /-- A run with a limit of so many steps never crashes, whoever asks for its end and when. -/
  run : ∀ requests, ∃ ending last,
    (m.limited words.length).runFor requests (words.length + 1) = .ended (.ok ending) last ∧
      (ending = .limitReached ↔ last.host.cancelled = false) ∧
      (ending = .limitReached → last.steps = words.length)
  /-- It reaches its limit if nobody does. -/
  calm : m.host.Calm → ∃ last,
    m.runUpTo words.length = .ended (.ok .limitReached) last ∧ last.steps = words.length
  /-- Words that fill memory leave no room for what is behind them. -/
  full : words.length = 1792 →
    (∃ last, (m.stepped 1792).step = .error (.endOfMemory 4096) last) ∧
    ∀ memory : Memory, memory.load (assemble words ++ junk) =
      (⟨3584, junk.length⟩, (memory.load (assemble words)).2)

/-- **A straight line of words is executed as it is written down**, one word by each step, and
whatever stands behind it. -/
theorem straight_line_executes {h : History} (hfresh : h.Fresh (assemble words ++ junk))
    (hwords : ∀ w ∈ words, Straight w) (hroom : words.length ≤ 1792)
    (hdisplay : h.machine.host.Reliable) : h.machine.Executes words junk := by
  have halong := along_of_fresh hfresh hdisplay
  have hpast : Past words junk 0 h.machine := ⟨0x200, rfl, halong⟩
  obtain ⟨_, _, hzero⟩ := ready_of_fresh hfresh
  have hstepped {k : Nat} (hk : k ≤ words.length) := past_stepped hpast hwords hroom hk
  have hrun (requests : Nat → Bool) := run_straight hpast hwords hroom requests
  rw [hzero, Nat.zero_add] at hrun
  refine ⟨?_, fun k hk => ?_, hrun, fun hcalm => ?_, fun hfull => ⟨?_, Memory.load_full hfull junk⟩⟩
  · refine List.ext_getElem ?_ fun k hk hk' => ?_
    · rw [List.length_map, List.length_map, List.length_range]
    · rw [List.length_map] at hk'
      obtain ⟨m', hstep, _⟩ := step_straight (hstepped (Nat.le_of_lt hk')) hwords hroom hk'
      rw [List.getElem_map, List.getElem_map, List.getElem_range, hstep, resultOf]
  · obtain ⟨a, ha, hthere⟩ := hstepped hk
    exact ⟨a, hthere.cursor, ha, hthere.frames⟩
  · obtain ⟨_, last, hended, hfree, _⟩ := runUpTo_free ⟨halong.working, hcalm⟩ words.length
    obtain ⟨ending, last', hended', hreached, hsteps⟩ := hrun fun _ => false
    rw [runFor_unasked] at hended'
    cases hended.symm.trans hended'
    obtain rfl := hreached.mpr hfree.calm.token
    exact ⟨last, hended, hsteps rfl⟩
  · obtain ⟨a, ha, hthere⟩ := hstepped (Nat.le_of_eq hfull.symm)
    obtain rfl : a = 4096 := UInt16.toNat_inj.mp ha
    obtain ⟨last, hstep, _⟩ := step_at_end hthere
    exact ⟨last, hstep⟩

/-- A line with an instruction of each kind that may stand in one, and half a word behind it. -/
def sixWords : List UInt16 := [0x6005, 0x7003, 0x00E0, 0x0123, 0xA300, 0x8AB4]

theorem sixWords_executed :
    let m := (History.ofProgram (assemble sixWords ++ [0x12]) {}).machine
    (List.range 6).map (fun k => resultOf (m.stepped k).step) =
      [.ok (.load 0 5), .ok (.add 0 3), .ok .clearScreen, .ok (.system 0x123),
        .ok (.loadIndex 0x300), .ok (.unknown ⟨0x8A, 0xB4⟩)] ∧
    (∃ last, m.runUpTo 6 = .ended (.ok .limitReached) last ∧ last.steps = 6) ∧
    ∃ a, (m.stepped 6).cursor = .ok a ∧ a.toNat = 0x20C := by
  intro m
  have hwords : ∀ w ∈ sixWords, Straight w := by
    simp only [sixWords, List.forall_mem_cons]
    exact ⟨by decide, by decide, by decide, by decide, by decide, by decide, nofun⟩
  obtain ⟨hresults, hbetween, _, hcalm, _⟩ := straight_line_executes
    (h := .ofProgram (assemble sixWords ++ [0x12]) {}) ⟨rfl, rfl, nofun⟩ hwords (by decide)
    fun _ => rfl
  obtain ⟨a, hcursor, ha, _⟩ := hbetween 6 (by decide)
  exact ⟨hresults, hcalm ⟨rfl, fun _ => rfl⟩, a, hcursor, ha⟩

/-! ### To the end of memory -/

/-- No word of the program at an even address is a jump, a call or a return. -/
def Branchless (program : List UInt8) : Prop :=
  ∀ a w : UInt16, 0x200 ≤ a.toNat → a.toNat % 2 = 0 →
    (Memory.ofProgram program).word a = .ok w → (Instruction.decode (.ofWord w)).branches = false

/-- It is enough to look at the words that it was written down as. -/
theorem branchless_assemble
    (h : ∀ w ∈ words, (Instruction.decode (.ofWord w)).branches = false) :
    Branchless (assemble words) := by
  intro a w _ heven hw
  rcases Memory.mem_of_word heven hw with rfl | hmem
  · rfl
  · exact h w hmem

/-- How a program can fall off the end of memory: with which fault, and where it was. -/
inductive FallsOff : Fault → UInt16 → Prop
  | atEnd : FallsOff (.endOfMemory 4096) 4096
  /-- The last instruction is to be skipped. -/
  | ontoEnd : FallsOff (.badAddress 4096) 4092
  /-- The last instruction is a skip. -/
  | overEnd : FallsOff (.badAddress 4098) 4094

/-- An address to which so many steps lead that only go on. -/
structure Ahead (k : Nat) (a : UInt16) : Prop where
  even : a.toNat % 2 = 0
  low : 0x200 + 2 * k ≤ a.toNat
  high : a.toNat ≤ 4096

/-- What a step of a program without branches can come to after so many others: it goes on by one
instruction or two, or falls off. -/
inductive Goes (program : List UInt8) (k : Nat) (a : UInt16) :
    EStateM.Result Fault Machine Instruction → Prop
  | on {i : Instruction} {m' : Machine} {a' : UInt16}
      (ha : a'.toNat = a.toNat + 2 ∨ a'.toNat = a.toNat + 4) (h : Along program a' m')
      (hahead : Ahead (k + 1) a') : Goes program k a (.ok i m')
  | off {e : Fault} {m' : Machine} (h : Along program a m') (he : FallsOff e a) :
      Goes program k a (.error e m')

theorem step_branchless (hprogram : Branchless program) (h : Along program a m) (ha : Ahead k a) :
    Goes program k a m.step := by
  obtain ⟨heven, hlow, hhigh⟩ := ha
  by_cases hend : a = 4096
  · subst hend
    obtain ⟨m', hstep, hthere⟩ := step_at_end h
    rw [hstep]
    exact .off hthere .atEnd
  · have hroom : a.toNat ≤ 4094 := by
      have hne : a.toNat ≠ 4096 := fun heq => hend (UInt16.toNat_inj.mp heq)
      omega
    obtain ⟨w, hw⟩ := Memory.exists_word_iff.mpr hroom
    have honward := step_onward h hw (hprogram a w (by omega) heven hw)
    generalize m.step = r at honward
    cases honward with
    | next ha' hthere => exact .on (.inl ha') hthere ⟨by omega, by omega, by omega⟩
    | skip _ ha' _ hthere => exact .on (.inr ha') hthere ⟨by omega, by omega, by omega⟩
    | past _ hbeyond hthere =>
      obtain hlast | hlast : a.toNat = 4092 ∨ a.toNat = 4094 := by omega
      · obtain rfl : a = 4092 := UInt16.toNat_inj.mp hlast
        exact .off hthere .ontoEnd
      · obtain rfl : a = 4094 := UInt16.toNat_inj.mp hlast
        exact .off hthere .overEnd

theorem stride_branchless (hprogram : Branchless program) (h : Along program a m)
    (ha : Ahead 0 a) (hn : stride k m = .ok () n) : ∃ b, Along program b n ∧ Ahead k b := by
  induction k generalizing n with
  | zero =>
    cases hn
    exact ⟨a, h, ha⟩
  | succ k ih =>
    obtain ⟨n₀, i, hn₀, hstep⟩ := stride_last hn
    obtain ⟨b, hthere, hb⟩ := ih hn₀
    have hgoes := step_branchless hprogram hthere hb
    rw [hstep] at hgoes
    cases hgoes with
    | on _ hnext hb' => exact ⟨_, hnext, hb'⟩

/-- There is no room for so many steps. -/
theorem exists_fall (hprogram : Branchless program) (h : Along program a m) (ha : Ahead 0 a) :
    ∃ k ≤ 1792, ∃ n e last b, stride k m = .ok () n ∧ n.step = .error e last ∧
      Along program b last ∧ FallsOff e b := by
  cases hall : stride 1793 m with
  | ok u n =>
    obtain ⟨b, _, hb⟩ := stride_branchless hprogram h ha hall
    exact absurd (Nat.le_trans hb.low hb.high) (by decide)
  | error e last =>
    obtain ⟨k, hk, n, hn, hstep⟩ := exists_of_stride_error hall
    obtain ⟨b, hthere, hb⟩ := stride_branchless hprogram h ha hn
    have hgoes := step_branchless hprogram hthere hb
    rw [hstep] at hgoes
    cases hgoes with
    | off hlast hoff => exact ⟨k, Nat.le_of_lt_succ hk, n, e, last, b, hn, hstep, hlast, hoff⟩

/-- One turn of a run is a step, over one instruction or two. -/
inductive Moves (k : Nat) : Run → Run → Prop
  | step {n n' : Machine} {a a' : UInt16} (ha : n.cursor = .ok a) (ha' : n'.cursor = .ok a')
      (h : a'.toNat = a.toNat + 2 ∨ a'.toNat = a.toNat + 4) :
      Moves k (.going k n) (.going (k + 1) n')

/-- A run goes on and on, up to the step that fails. -/
structure Falls (r : Run) (k : Nat) (e : Fault) (last : Machine) : Prop where
  moves : ∀ j < k, Moves j (r.after j) (r.after (j + 1))
  ended : ∀ turns, k < turns → r.after turns = .ended (.error e) last

theorem falls_of_stride (hprogram : Branchless program) (h : Along program a m) (ha : Ahead 0 a)
    (hm : Free m) (hlimit : ∀ most, m.settings.limit = some most → k < most)
    (hn : stride k m = .ok () n) (hstep : n.step = .error e last) :
    Falls (.going 0 m) k e last := by
  have hbelow (most : Nat) (hmost : m.settings.limit = some most) : 0 + k < most := by
    rw [Nat.zero_add]
    exact hlimit most hmost
  refine ⟨fun j hj => ?_, fun turns hturns => after_of_crash hm hbelow hn hstep hturns⟩
  obtain ⟨n₀, i, n₁, hn₀, hnext⟩ := stride_before hn hj
  have hn₁ : stride (j + 1) m = .ok () n₁ := by
    rw [stride_add hn₀ 1, stride_succ_ok hnext]
    rfl
  have hgoing {l : Nat} {n' : Machine} (hl : l ≤ k) (hn' : stride l m = .ok () n') :
      (Run.going 0 m).after l = .going l n' := by
    have hafter : (Run.going 0 m).after l = .going (0 + l) n' := by
      refine after_of_stride hm.calm (fun most hmost => ?_) hn'
      exact Nat.le_trans (Nat.add_le_add_left hl 0) (Nat.le_of_lt (hbelow most hmost))
    rwa [Nat.zero_add] at hafter
  obtain ⟨b, hthere, hb⟩ := stride_branchless hprogram h ha hn₀
  have hgoes := step_branchless hprogram hthere hb
  rw [hnext] at hgoes
  rw [hgoing (Nat.le_of_lt hj) hn₀, hgoing hj hn₁]
  cases hgoes with
  | on hmoves hthere' _ => exact .step hthere.cursor hthere'.cursor hmoves

/-- **A program without branches falls off the end of memory**, and soon: a run without a limit
goes on by one instruction or two, up to a fault that says which of three ends it has come to. It
is the same run with any limit that the program has no room to reach. -/
theorem branchless_falls_off {h : History} (hfresh : h.Fresh program)
    (hprogram : Branchless program) (hdisplay : h.machine.host.Reliable)
    (hcalm : h.machine.host.Calm) :
    ∃ k ≤ 1792, ∃ (e : Fault) (a : UInt16) (last : Machine),
      FallsOff e a ∧ last.cursor = .ok a ∧ last.steps = k ∧
      ∀ settings : Settings, (∀ limit, settings.limit = some limit → 1792 < limit) →
        Falls (Run.start (h.machine.withSettings settings)) k e (last.withSettings settings) := by
  obtain ⟨hphase, _, hzero⟩ := ready_of_fresh hfresh
  obtain ⟨_, hframes, _⟩ := along_of_fresh hfresh hdisplay
  -- The machine of the run has a line more in its log, so the steps are those of this machine.
  have hbegun : Along program 0x200 (h.machine.record (.running 0x200)) :=
    ⟨hphase, hframes, hdisplay⟩
  have hahead : Ahead 0 0x200 := ⟨rfl, Nat.le_refl _, by decide⟩
  obtain ⟨k, hk, n, e, last, a, hn, hstep, hlast, hoff⟩ := exists_fall hprogram hbegun hahead
  refine ⟨k, hk, e, a, last, hoff, hlast.cursor, ?_, fun settings hlimit => ?_⟩
  · calc last.steps
      _ = n.steps := (step_failure hstep).steps
      _ = (h.machine.record (.running 0x200)).steps + k := steps_of_stride hn
      _ = h.machine.steps + k := rfl
      _ = k := by rw [hzero, Nat.zero_add]
  · have hstart : Run.start (h.machine.withSettings settings) =
        .going 0 ((h.machine.record (.running 0x200)).withSettings settings) :=
      Run.start_ready (m := h.machine.withSettings settings) hphase
    have hfails := n.step_withSettings settings
    rw [hstep] at hfails
    rw [hstart]
    exact falls_of_stride hprogram ⟨hphase, hframes, hdisplay⟩ hahead
      ⟨⟨⟨_, hphase⟩, hdisplay⟩, hcalm.token, hcalm.display⟩
      (fun most hmost => Nat.lt_of_le_of_lt hk (hlimit most hmost))
      (stride_withSettings hn settings) hfails

/-- Some skips, of which the first is taken and the last stands before nothing but zeros. -/
def fiveSkips : List UInt16 := [0x3000, 0x6001, 0x4000, 0x5010, 0x9010, 0x00E0, 0x3A07]

/-- A run of them fails, and a limit of one step more than there is room for changes nothing. -/
theorem fiveSkips_fall :
    let m := (History.ofProgram (assemble fiveSkips) {}).machine
    ∃ e a last, FallsOff e a ∧ last.cursor = .ok a ∧ last.steps ≤ 1792 ∧
      (Run.start m).after 1793 = .ended (.error e) last ∧
      (Run.start (m.limited 1793)).after 1793 = .ended (.error e) (last.limited 1793) := by
  intro m
  have hprogram : Branchless (assemble fiveSkips) := by
    refine branchless_assemble ?_
    simp only [fiveSkips, List.forall_mem_cons]
    exact ⟨rfl, rfl, rfl, rfl, rfl, rfl, rfl, nofun⟩
  obtain ⟨k, hk, e, a, last, hoff, hcursor, hsteps, hfalls⟩ := branchless_falls_off
    (h := .ofProgram (assemble fiveSkips) {}) ⟨rfl, rfl, nofun⟩ hprogram (fun _ => rfl)
    ⟨rfl, fun _ => rfl⟩
  refine ⟨e, a, last.withSettings {}, hoff, hcursor, hsteps.trans_le hk, ?_, ?_⟩
  · exact (hfalls {} nofun).ended 1793 (Nat.lt_succ_of_le hk)
  · refine (hfalls (Settings.withLimit {} 1793) ?_).ended 1793 (Nat.lt_succ_of_le hk)
    rintro limit ⟨⟩
    decide

end Machine

end Chip8
