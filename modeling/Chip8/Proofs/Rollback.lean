import Chip8.Proofs.Step

/-! Failed steps.

A step can fail after it has moved the cursor up to three times, and putting the cursor
back is an action that could fail itself. It never does, so `failed_step_invisible`: a
step that fails leaves memory, cursor, registers, stack and counts as they were, and the
fault it reports is that of the fetch or of the instruction. Only the display may know
better, for it may have been asked to clear itself. -/
namespace Chip8

/-- Between two hosts the display was left alone, or, for a reason, asked once and in
vain. -/
structure Host.Spared (reason : Prop) (h h' : Host) : Prop where
  display : h'.display = h.display
  clears : h'.clears = h.clears
  calls : (h'.calls = h.calls ∧ h'.cancelled = h.cancelled) ∨ (reason ∧ h'.calls = h.calls + 1)

namespace Board

/-- The fault of the fetch, or of the instruction that was fetched. -/
inductive Raises (b : Board) (e : Fault) : Prop
  | fetch {after : Board} (h : b.fetch = .error e after)
  | execute {i : Instruction} {f after : Board} (hf : b.fetch = .ok i f)
      (h : execute i { f with host := f.host.record (.executing b.memory.cursor i) } =
        .error e after)

/-- What a step that fails leaves of a board. -/
structure Failure (b : Board) (e : Fault) (b' : Board) : Prop where
  /-- Bytes and cursor. -/
  memory : b'.memory = b.memory
  /-- Registers, stack and count. -/
  processor : b'.processor = b.processor
  raised : b.Raises e
  /-- However the fetch or the instruction failed, the cursor can be put back. -/
  restored : ∀ e' after, b.fetchAndExecute = .error e' after →
    after.memory.cursor = b.memory.cursor ∨
      seek b.memory.cursor after = .ok () { after with memory := b.memory }
  host : Host.Spared (b.memory.Next .clearScreen) b.host b'.host

variable {b b' : Board} {e : Fault}

theorem raises_of_fetchAndExecute {after : Board} (h : b.fetchAndExecute = .error e after) :
    b.Raises e := by
  rw [fetchAndExecute, bind_ok (cursor_ok b)] at h
  cases hfetch : b.fetch with
  | error e' f =>
    rw [bind_error hfetch] at h
    cases h
    exact .fetch hfetch
  | ok i f =>
    rw [bind_ok hfetch, bind_ok (record_ok _ _)] at h
    cases hexecute : execute i { f with host := f.host.record (.executing b.memory.cursor i) } with
    | error e' f' =>
      rw [bind_error hexecute] at h
      cases h
      exact .execute hfetch hexecute
    | ok u f' =>
      rw [bind_ok hexecute] at h
      cases h

/-- What a refused instruction shows the host: an obstacle to a clearing of the screen is
the display itself. -/
theorem spared_observe {h : Host} {i : Instruction} {s : Core} {e : Fault} (pc : UInt16)
    (he : i.obstacle (h.display (h.calls + 1)) s = some e) :
    Host.Spared (i = .clearScreen) h (h.observe pc i) := by
  by_cases hi : i = .clearScreen
  · subst hi
    obtain ⟨cause, hreply, _⟩ := Option.map_eq_some_iff.mp he
    refine ⟨Host.display_clear _, ?_, .inr ⟨rfl, Host.calls_clear _⟩⟩
    refine (Host.clears_clear _).trans (if_neg ?_)
    show ¬ (h.display (h.calls + 1)).failure = none
    rw [hreply]
    exact Option.some_ne_none cause
  · obtain ⟨log, hlog⟩ := h.observe_of_ne pc hi
    rw [hlog]
    exact ⟨rfl, rfl, .inl ⟨rfl, rfl⟩⟩

/-- A step fails with the fault of its fetch or its instruction, and what is left of that
is the host. -/
theorem step_error_iff :
    b.step = .error e b' ↔
      ∃ after, b.fetchAndExecute = .error e after ∧ b' = { b with host := after.host } := by
  constructor
  · intro h
    cases hexec : b.fetchAndExecute with
    | ok i after =>
      simp only [step, hexec] at h
      cases h
    | error e' after =>
      obtain ⟨cursor, host, rfl, _⟩ := fetchAndExecute_error hexec
      rw [step_error hexec] at h
      cases h
      exact ⟨_, rfl, rfl⟩
  · rintro ⟨after, hexec, rfl⟩
    obtain ⟨cursor, host, rfl, _⟩ := fetchAndExecute_error hexec
    exact step_error hexec

theorem step_spared (h : b.step = .error e b') :
    Host.Spared (b.memory.Next .clearScreen) b.host b'.host := by
  have houtcome := step_outcome b
  rw [h] at houtcome
  cases houtcome with
  | unfetched => exact ⟨rfl, rfl, .inl ⟨rfl, rfl⟩⟩
  | refused hop he =>
    obtain ⟨hdisplay, hclears, hcalls⟩ := spared_observe b.memory.cursor he
    exact ⟨hdisplay, hclears, hcalls.imp_right fun ⟨hcls, hone⟩ =>
      ⟨Memory.next_iff.mpr ⟨_, hop, hcls⟩, hone⟩⟩

theorem step_failure (h : b.step = .error e b') : Failure b e b' := by
  obtain ⟨after, hexec, hb'⟩ := step_error_iff.mp h
  refine ⟨by rw [hb'], by rw [hb'], raises_of_fetchAndExecute hexec, ?_, step_spared h⟩
  intro e' after' hexec'
  by_cases hmoved : after'.memory.cursor = b.memory.cursor
  · exact .inl hmoved
  · exact .inr (seek_back hexec' hmoved)

end Board

namespace Machine

/-- What a step that fails leaves of a machine. -/
structure Failure (m m' : Machine) : Prop where
  /-- Where it is in its life, with bytes and cursor. -/
  phase : m'.phase = m.phase
  processor : m'.processor = m.processor
  settings : m'.settings = m.settings
  steps : m'.steps = m.steps
  host : Host.Spared (∃ memory, m.phase = .ready memory ∧ memory.Next .clearScreen) m.host m'.host

theorem step_failure {m m' : Machine} {e : Fault} (h : m.step = .error e m') : Failure m m' := by
  cases hphase : m.phase with
  | unloaded memory =>
    rw [step_unloaded hphase] at h
    cases h
    exact ⟨rfl, rfl, rfl, rfl, rfl, rfl, .inl ⟨rfl, rfl⟩⟩
  | closed =>
    rw [step_closed hphase] at h
    cases h
    exact ⟨rfl, rfl, rfl, rfl, rfl, rfl, .inl ⟨rfl, rfl⟩⟩
  | ready memory =>
    cases hb : (m.board memory).step with
    | ok i b =>
      rw [step_ready_ok hphase hb] at h
      cases h
    | error e' b =>
      rw [step_ready_error hphase hb] at h
      cases h
      obtain ⟨hmemory, hprocessor, _, _, hdisplay, hclears, hcalls⟩ := Board.step_failure hb
      refine ⟨?_, hprocessor, rfl, rfl, hdisplay, hclears, ?_⟩
      · show Phase.ready b.memory = _
        rw [hmemory, hphase]
        rfl
      · exact hcalls.imp_right fun ⟨hcls, hone⟩ => ⟨⟨memory, hphase, hcls⟩, hone⟩

/-- A machine after a failed step is the machine before it with another host. -/
theorem step_error_eq {m m' : Machine} {e : Fault} (h : m.step = .error e m') :
    m' = { m with host := m'.host } := by
  obtain ⟨hphase, hprocessor, hsettings, hsteps, _⟩ := step_failure h
  rw [← hphase, ← hprocessor, ← hsettings, ← hsteps]

end Machine

/-- **A failed step is invisible**, of a board whatever its state and of a machine
whatever its phase. -/
theorem failed_step_invisible :
    (∀ (b b' : Board) (e : Fault), b.step = .error e b' → Board.Failure b e b') ∧
      ∀ (m m' : Machine) (e : Fault), m.step = .error e m' → Machine.Failure m m' :=
  ⟨fun _ _ _ => Board.step_failure, fun _ _ _ => Machine.step_failure⟩

/-- A return to the end of memory, where a call in the last word comes from. -/
def Board.returnToEnd : Board where
  memory := ⟨fun a => if a.val = 0x300 then 0x00 else 0xEE, 0x300⟩
  processor := { stack := ⟨[4096]⟩ }
  host := {}

/-- The same in a machine that has made two steps. -/
def Machine.returnToEnd : Machine where
  phase := .ready Board.returnToEnd.memory
  processor := Board.returnToEnd.processor
  steps := 2

/-- The return fails after the cursor has passed it, and the cursor is back. -/
theorem returnToEnd_invisible :
    (∃ b', Board.returnToEnd.step = .error (.badAddress 4096) b' ∧ b'.memory.cursor = 0x300 ∧
      b'.processor.stack.frames = [4096]) ∧
    ∃ m', Machine.returnToEnd.step = .error (.badAddress 4096) m' ∧
      m'.phase = Machine.returnToEnd.phase ∧ m'.steps = 2 := by
  obtain ⟨b', hb⟩ : ∃ b', Board.returnToEnd.step = .error (.badAddress 4096) b' := ⟨_, rfl⟩
  obtain ⟨m', hm⟩ : ∃ m', Machine.returnToEnd.step = .error (.badAddress 4096) m' := ⟨_, rfl⟩
  have hfailure := failed_step_invisible.1 _ _ _ hb
  have hkept := failed_step_invisible.2 _ _ _ hm
  exact ⟨⟨b', hb, by rw [hfailure.memory]; rfl, by rw [hfailure.processor]; rfl⟩,
    m', hm, hkept.phase, hkept.steps⟩

end Chip8
