import Chip8.Proofs.Crash
import Chip8.Proofs.Interruption
import Chip8.Proofs.Lifecycle
import Chip8.Proofs.Trace

/-! Trying again.

A step that fails leaves the program where it was, so whoever goes on meets the same
instruction once more. What comes of that is said once, of any operation short of a load or a
close (`rebuffed`): the machine has not moved, whoever has tried the instruction gets its fault,
and the display was asked in vain if it is the display that fails.

Then it matters who is to blame. A fault of the program's own does not depend on the host, so it
is met again for ever, whatever tokens and limits later runs have (`stands_still`). A display
is asked anew each time and may think better of it (`waits`), and then it is as if it had done
so at first. -/
namespace Chip8

/-- The operation neither loads a program nor closes the machine. -/
def Operation.goesOn : Operation → Bool
  | .load _ | .loadFrom _ | .close => false
  | .step | .run _ | .configure _ | .cancel | .uncancel => true

/-- Between two hosts the display was asked so often, and has done nothing. -/
structure Host.AskedInVain (times : Nat) (h h' : Host) : Prop where
  display : h'.display = h.display
  clears : h'.clears = h.clears
  calls : h'.calls = h.calls + times

theorem Host.AskedInVain.trans {a b : Nat} {h h' h'' : Host} (hab : AskedInVain a h h')
    (hbc : AskedInVain b h' h'') : AskedInVain (a + b) h h'' := by
  refine ⟨hbc.display.trans hab.display, hbc.clears.trans hab.clears, ?_⟩
  rw [hbc.calls, hab.calls, Nat.add_assoc]

/-- What is in the way of an instruction and is not the display's fault is there before any
display. -/
theorem Instruction.obstacle_of_not_isDisplay {i : Instruction} {reply : Reply} {s : Core}
    {e : Fault} (h : i.obstacle reply s = some e) (he : e.isDisplay = false) (reply' : Reply) :
    i.obstacle reply' s = some e := by
  have hi := isDisplay_obstacle h
  rw [he] at hi
  cases i with
  | clearScreen => cases hi
  | _ => exact h

namespace Machine

variable {m n m' : Machine} {memory : Memory} {e : Fault} {op : Operation} {ops : List Operation}

/-- What the display will answer when it is asked next. -/
def reply (m : Machine) : Reply := m.host.display (m.host.calls + 1)

theorem Same.trans {l : Machine} (h : Same m n) (h' : Same n l) : Same m l :=
  ⟨h.phase.trans h'.phase, h.processor.trans h'.processor, h.steps.trans h'.steps⟩

/-- A machine that has come to the same fails with the same fault, unless that is the
display's and the display has changed its mind. -/
theorem stuck_of_same (hphase : m.phase = .ready memory) (h : Stuck e m) (hsame : Same m n)
    (hreply : e.isDisplay = false ∨ n.reply.failure = m.reply.failure) : Stuck e n := by
  have hphase' : n.phase = .ready memory := hsame.phase.symm.trans hphase
  have hcore : (n.board memory).core = (m.board memory).core :=
    congrArg (Core.of memory.cursor) hsame.processor.symm
  rw [Stuck, step_error_iff_board hphase', Board.step_fails_iff, hcore]
  refine (Board.step_fails_iff.mp ((step_error_iff_board hphase).mp h)).imp_right ?_
  rintro ⟨i, hi, he⟩
  refine ⟨i, hi, ?_⟩
  rcases hreply with hown | hreply
  · exact Instruction.obstacle_of_not_isDisplay he hown _
  · exact (i.obstacle_congr hreply _).trans he

/-! ### One attempt -/

/-- The operation has the next instruction tried. -/
def tries (m : Machine) : Operation → Bool
  | .step => true
  | .run (asked :: _) => !(asked || m.host.cancelled) && m.settings.limit != some 0
  | _ => false

/-- What is answered if the next instruction has a fault: the fault to whoever tries it, and
otherwise why it was not tried. -/
def rebuff (m : Machine) (e : Fault) : Operation → Answer
  | .step => .stepped (.error e)
  | .run [] => .ran none
  | .run (asked :: _) =>
    if asked || m.host.cancelled then .ran (some (.ok .cancelled))
    else if m.settings.limit = some 0 then .ran (some (.ok .limitReached))
    else .ran (some (.error e))
  | _ => .done

/-- The next instruction has this fault, and the operation has not changed that. -/
structure Rebuffed (m : Machine) (e : Fault) (op : Operation) : Prop where
  answer : m.answer op = m.rebuff e op
  same : Same m (m.perform op)
  settings : (∀ settings, op ≠ .configure settings) → (m.perform op).settings = m.settings
  host : Host.AskedInVain (m.tries op && e.isDisplay).toNat m.host (m.perform op).host

/-- A step that fails has asked the display if that is what failed. -/
theorem askedInVain_of_step_error (h : m.step = .error e m') :
    Host.AskedInVain e.isDisplay.toNat m.host m'.host := by
  have hspared := (step_failure h).host
  have hcalls := m.calls_step
  rw [h] at hcalls
  exact ⟨hspared.display, hspared.clears, hcalls⟩

theorem same_of_step_error (h : m.step = .error e m') : Same m m' := by
  obtain ⟨hphase, hprocessor, _, hsteps, _⟩ := step_failure h
  exact ⟨hphase.symm, hprocessor.symm, hsteps.symm⟩

theorem rebuffed_of_ended {requests : List Bool} {result : Except Fault Ending} {last : Machine}
    (hrun : (Run.start m).under requests = .ended result last)
    (hanswer : m.rebuff e (.run requests) = .ran (some result)) (hsame : Same m last)
    (hsettings : last.settings = m.settings)
    (hhost : Host.AskedInVain (m.tries (.run requests) && e.isDisplay).toNat m.host last.host) :
    Rebuffed m e (.run requests) := by
  have hlast : m.perform (.run requests) = last := by rw [perform, hrun, Run.machine]
  refine ⟨?_, ?_, fun _ => ?_, ?_⟩
  · rw [answer, hrun, hanswer, Run.result?]
  · rwa [hlast]
  · rwa [hlast]
  · rwa [hlast]

/-- A run is over with its first turn if it has nothing else to do than to fail. -/
theorem rebuffed_run (hphase : m.phase = .ready memory) (asked : Bool) (rest : List Bool)
    (h : m.tries (.run (asked :: rest)) = true → Stuck e m) :
    Rebuffed m e (.run (asked :: rest)) := by
  let w := (m.record (.running memory.cursor)).asked asked
  have hrun : (Run.start m).under (asked :: rest) = (Run.turn (.going 0 w)).under rest := by
    simp only [Run.start, hphase]
    rfl
  have htoken : w.host.cancelled = (asked || m.host.cancelled) := by cases asked <;> rfl
  have hsettings : w.settings = m.settings := by cases asked <;> rfl
  obtain ⟨hsame, hhost⟩ : Same m w ∧ Host.AskedInVain 0 m.host w.host := by
    cases asked <;> exact ⟨⟨rfl, rfl, rfl⟩, rfl, rfl, rfl⟩
  obtain ⟨hc, hturn⟩ | ⟨limit, hc, hlimit, hle, hturn⟩ | ⟨hc, hfree, hturn⟩ := Run.turn_cases 0 w
  · rw [hturn, under_ended] at hrun
    rw [htoken] at hc
    refine rebuffed_of_ended hrun ?_ ⟨hsame.phase, hsame.processor, hsame.steps⟩ hsettings ?_
    · simp only [rebuff, hc, if_true]
    · simp only [tries, hc]
      exact ⟨hhost.display, hhost.clears, hhost.calls⟩
  · obtain rfl : limit = 0 := Nat.le_zero.mp hle
    rw [hturn, under_ended] at hrun
    rw [htoken] at hc
    rw [hsettings] at hlimit
    refine rebuffed_of_ended hrun ?_ ⟨hsame.phase, hsame.processor, hsame.steps⟩ hsettings ?_
    · simp [rebuff, hc, hlimit]
    · simp only [tries, hc, hlimit]
      exact ⟨hhost.display, hhost.clears, hhost.calls⟩
  · rw [htoken] at hc
    have hlimit : m.settings.limit ≠ some 0 := fun hzero =>
      absurd (hfree 0 (hsettings ▸ hzero)) (Nat.lt_irrefl 0)
    have htries : m.tries (.run (asked :: rest)) = true := by simp [tries, hc, hlimit]
    obtain ⟨w', hstep⟩ : Stuck e w := by
      refine stuck_of_same hphase (h htries) hsame (.inr ?_)
      rw [reply, hhost.display, hhost.calls]
      rfl
    rw [hturn, Run.advance, hstep, under_ended] at hrun
    refine rebuffed_of_ended hrun ?_ (hsame.trans (same_of_step_error hstep))
      ((step_failure hstep).settings.trans hsettings) ?_
    · simp [rebuff, hc, hlimit]
    · rw [htries, Bool.true_and]
      have hasked := hhost.trans (askedInVain_of_step_error hstep)
      rwa [Nat.zero_add] at hasked

/-- **Whoever goes on meets the same fault**, and nothing comes of it. -/
theorem rebuffed (hphase : m.phase = .ready memory) (hop : op.goesOn = true)
    (h : m.tries op = true → Stuck e m) : Rebuffed m e op := by
  cases op with
  | load _ | loadFrom _ | close => cases hop
  | step =>
    obtain ⟨m', hstep⟩ := h rfl
    refine ⟨?_, ?_, fun _ => ?_, ?_⟩
    · rw [answer, hstep]
      rfl
    · rw [perform, hstep]
      exact same_of_step_error hstep
    · rw [perform, hstep]
      exact (step_failure hstep).settings
    · rw [perform, hstep]
      exact askedInVain_of_step_error hstep
  | run requests =>
    cases requests with
    | nil =>
      have hrun : (Run.start m).under [] = .going 0 (m.record (.running memory.cursor)) := by
        simp only [Run.start, hphase, Run.under]
      refine ⟨?_, ?_, fun _ => ?_, ?_⟩
      · rw [answer, hrun]
        rfl
      · rw [perform, hrun]
        exact ⟨rfl, rfl, rfl⟩
      · rw [perform, hrun]
        rfl
      · rw [perform, hrun]
        exact ⟨rfl, rfl, rfl⟩
    | cons asked rest => exact rebuffed_run hphase asked rest h
  | configure settings => exact ⟨rfl, ⟨rfl, rfl, rfl⟩, (absurd rfl <| · settings), rfl, rfl, rfl⟩
  | cancel | uncancel => exact ⟨rfl, ⟨rfl, rfl, rfl⟩, fun _ => rfl, rfl, rfl, rfl⟩

/-! ### Faults of the program -/

/-- A program that has crashed by its own fault stands where it crashed. -/
theorem stands_still (hphase : m.phase = .ready memory) (h : Stuck e m)
    (he : e.isDisplay = false) (hops : ∀ op ∈ ops, op.goesOn = true) :
    Same m (ops.foldl perform m) ∧ Host.AskedInVain 0 m.host (ops.foldl perform m).host ∧
      Stuck e (ops.foldl perform m) := by
  induction ops generalizing m with
  | nil => exact ⟨⟨rfl, rfl, rfl⟩, ⟨rfl, rfl, rfl⟩, h⟩
  | cons op rest ih =>
    obtain ⟨_, hsame, _, hhost⟩ := rebuffed hphase (hops op List.mem_cons_self) fun _ => h
    rw [he, Bool.and_false] at hhost
    have hstuck := stuck_of_same hphase h hsame (.inl he)
    obtain ⟨hsame', hhost', hstuck'⟩ := ih (hsame.phase.symm.trans hphase) hstuck
      fun op' hop' => hops op' (List.mem_cons_of_mem op hop')
    exact ⟨hsame.trans hsame', hhost.trans hhost', hstuck'⟩

/-! ### Faults of the display -/

/-- How many of the operations have the next instruction tried. -/
def attempts (m : Machine) : List Operation → Nat
  | [] => 0
  | op :: rest => (m.tries op).toNat + (m.perform op).attempts rest

/-- What fails with the display is an instruction to clear the screen. -/
theorem next_of_stuck {cause : DeviceError} (hphase : m.phase = .ready memory)
    (h : Stuck (.display cause) m) : memory.Next .clearScreen := by
  obtain ⟨_, hfault⟩ | ⟨i, hi, he⟩ :=
    Board.step_fails_iff.mp ((step_error_iff_board hphase).mp h)
  · cases hfault
  · have hclear := Instruction.isDisplay_obstacle he
    rwa [beq_iff_eq.mp hclear.symm] at hi

/-- It fails if the display does. -/
theorem stuck_of_next {cause : DeviceError} (hphase : m.phase = .ready memory)
    (hnext : memory.Next .clearScreen) (hreply : m.reply.failure = some cause) :
    Stuck (.display cause) m := by
  rw [Stuck, step_error_iff_board hphase, Board.step_fails_iff]
  exact .inr ⟨.clearScreen, hnext, Option.map_eq_some_iff.mpr ⟨cause, hreply, rfl⟩⟩

/-- An attempt that the display does not grant is as if it had not been made. -/
theorem waits_once (hphase : m.phase = .ready memory) (hnext : memory.Next .clearScreen)
    (hop : op.goesOn = true) (hfails : m.tries op = true → m.reply.failure ≠ none) :
    Same m (m.perform op) ∧
      Host.AskedInVain (m.tries op).toNat m.host (m.perform op).host := by
  cases htries : m.tries op with
  | false =>
    obtain ⟨_, hsame, _, hhost⟩ := rebuffed (e := .closed) hphase hop fun h => by simp [htries] at h
    rw [htries] at hhost
    exact ⟨hsame, hhost⟩
  | true =>
    obtain ⟨cause, hreply⟩ := Option.ne_none_iff_exists'.mp (hfails htries)
    obtain ⟨_, hsame, _, hhost⟩ := rebuffed hphase hop fun _ => stuck_of_next hphase hnext hreply
    rw [htries] at hhost
    exact ⟨hsame, hhost⟩

/-- As long as the display fails, the program waits for it. -/
theorem waits (hphase : m.phase = .ready memory) (hnext : memory.Next .clearScreen)
    (hops : ∀ op ∈ ops, op.goesOn = true)
    (hfails : ∀ k < m.attempts ops, (m.host.display (m.host.calls + 1 + k)).failure ≠ none) :
    Same m (ops.foldl perform m) ∧
      Host.AskedInVain (m.attempts ops) m.host (ops.foldl perform m).host := by
  induction ops generalizing m with
  | nil => exact ⟨⟨rfl, rfl, rfl⟩, ⟨rfl, rfl, rfl⟩⟩
  | cons op rest ih =>
    have hfirst : m.tries op = true → m.reply.failure ≠ none := by
      intro htries
      refine hfails 0 ?_
      rw [attempts, htries]
      exact Nat.lt_add_right _ Nat.one_pos
    obtain ⟨hsame, hhost⟩ := waits_once hphase hnext (hops op List.mem_cons_self) hfirst
    obtain ⟨hsame', hhost'⟩ := ih (hsame.phase.symm.trans hphase)
      (fun op' hop' => hops op' (List.mem_cons_of_mem op hop')) fun k hk => by
        -- The display has given one answer of those that are left, or none.
        have hlater := hfails ((m.tries op).toNat + k) (Nat.add_lt_add_left hk _)
        rwa [hhost.display, hhost.calls, Nat.add_right_comm _ _ 1, Nat.add_assoc (m.host.calls + 1)]
    exact ⟨hsame.trans hsame', hhost.trans hhost'⟩

/-- A display that grants the request has the screen cleared, and nothing else is done. -/
theorem step_of_granted (hphase : m.phase = .ready memory) (hnext : memory.Next .clearScreen)
    (hreply : m.reply.failure = none) :
    ∃ n, m.step = .ok .clearScreen n ∧
      n.phase = .ready { memory with cursor := memory.cursor + 2 } ∧
      n.processor = m.processor ∧ n.steps = m.steps + 1 ∧
      n.host.clears = m.host.clears + 1 ∧ n.host.calls = m.host.calls + 1 := by
  cases hstep : m.step with
  | error e n =>
    have hstuck := (step_error_iff_board hphase).mp ⟨n, hstep⟩
    obtain ⟨hnone, _⟩ | ⟨i, hi, he⟩ := Board.step_fails_iff.mp hstuck
    · obtain ⟨op, hop, _⟩ := Memory.next_iff.mp hnext
      cases hop.symm.trans hnone
    · cases Memory.next_unique hi hnext
      obtain ⟨cause, hcause, _⟩ := Option.map_eq_some_iff.mp he
      cases hreply.symm.trans hcause
  | ok i n =>
    obtain ⟨_, b, hphase', hb, rfl⟩ := step_ok hstep
    cases hphase.symm.trans hphase'
    have hsuccess := (Board.outcome_of_step hb).success
    obtain rfl := Memory.next_unique hsuccess.word hnext
    have hcursor : (memory.cursor + 2).toNat = memory.cursor.toNat + 2 :=
      Memory.toNat_add_of_le (d := 2) (Nat.add_le_of_le_sub (by decide) hsuccess.room)
    have hcore : b.core = Core.of (memory.cursor + 2) m.processor :=
      hsuccess.effect.trans (Core.ext hcursor.symm rfl rfl rfl rfl)
    obtain ⟨hmoved, hprocessor⟩ := Core.of_inj hcore
    obtain ⟨_, hcalls, hclears⟩ := hsuccess.cleared rfl
    refine ⟨_, rfl, ?_, hprocessor, rfl, hclears, hcalls⟩
    show Phase.ready (Memory.mk b.memory.bytes b.memory.cursor) = _
    rw [hmoved, hsuccess.bytes]
    rfl

/-- The machine before a display, with the settings and the token that another one has. -/
def inPlaceOf (m n : Machine) (display : Display) : Machine :=
  { m with settings := n.settings, host := { m.host with display, cancelled := n.host.cancelled } }

/-- A machine that has waited for its display is like the one that has not, before a display
that is from the first as this one is from now on. -/
theorem alike_inPlaceOf {display : Display} (hsame : Same m n)
    (hdisplay : ∀ k, display (m.host.calls + 1 + k) = n.host.display (n.host.calls + 1 + k)) :
    Like Host.Alike (m.inPlaceOf n display) n :=
  ⟨hsame.phase, hsame.processor, rfl, hsame.steps, hdisplay, rfl⟩

/-! ### What stays and what passes -/

/-- What has become of a machine with a crashed program while its host went on. -/
structure Crashed (m : Machine) (e : Fault) (n : Machine) : Prop where
  same : Same m n
  /-- The display was left alone. -/
  host : Host.AskedInVain 0 m.host n.host
  /-- It will not be otherwise. -/
  further : ∀ op, op.goesOn = true → Rebuffed n e op

/-- What has become of a machine whose display has failed so often. -/
structure Waiting (m : Machine) (times : Nat) (n : Machine) : Prop where
  same : Same m n
  host : Host.AskedInVain times m.host n.host
  /-- If the display fails once more, that is all. -/
  refused : ∀ cause, n.reply.failure = some cause →
    ∀ op, op.goesOn = true → Rebuffed n (.display cause) op
  /-- If it does not, a step is as if it had not failed the first time. -/
  granted : n.reply.failure = none →
    ∃ n', n.step = .ok .clearScreen n' ∧ n'.host.calls = n.host.calls + 1 ∧
      ∀ display : Display, (display (m.host.calls + 1)).failure = none →
        ∃ m', (m.withDisplay display).step = .ok .clearScreen m' ∧ Same m' n' ∧
          m'.host.clears = n'.host.clears
  /-- And so is everything else that the host may go on with, if the display in that case
  had been from the first as it is from now on. -/
  onward : ∀ display : Display,
    (∀ k, display (m.host.calls + 1 + k) = n.host.display (n.host.calls + 1 + k)) →
      ∀ later, (m.inPlaceOf n display).answers later = n.answers later ∧
        Like Host.Alike (later.foldl perform (m.inPlaceOf n display)) (later.foldl perform n)

theorem waiting_of_same {times : Nat} (hphase : m.phase = .ready memory)
    (hnext : memory.Next .clearScreen) (hsame : Same m n)
    (hhost : Host.AskedInVain times m.host n.host) : Waiting m times n := by
  have hphase' : n.phase = .ready memory := hsame.phase.symm.trans hphase
  refine ⟨hsame, hhost, ?_, ?_, ?_⟩
  · intro cause hcause op hop
    exact rebuffed hphase' hop fun _ => stuck_of_next hphase' hnext hcause
  · intro hreply
    obtain ⟨n', hstep, hmemory, hprocessor, hsteps, hclears, hcalls⟩ :=
      step_of_granted hphase' hnext hreply
    refine ⟨n', hstep, hcalls, fun display hdisplay => ?_⟩
    obtain ⟨m', hfirst, hmemory', hprocessor', hsteps', hclears', _⟩ :=
      step_of_granted (m := m.withDisplay display) hphase hnext hdisplay
    refine ⟨m', hfirst, ⟨hmemory'.trans hmemory.symm, ?_, ?_⟩, ?_⟩
    · rw [hprocessor, hprocessor']
      exact hsame.processor
    · rw [hsteps, hsteps']
      exact congrArg (· + 1) hsame.steps
    · rw [hclears, hclears', hhost.clears]
      rfl
  · intro display hdisplay later
    have hlike := alike_inPlaceOf hsame hdisplay
    exact ⟨answers_eq Host.likeness_alike hlike later,
      performAll_alike Host.likeness_alike hlike later⟩

/-- **Crashes stay, and failures of the display pass.** A machine that is ready and fails by a
fault of its program's own will answer every step, and every run that gets to make one, with
that fault until another program is loaded, and nothing about it will change. If it is the
display that fails, each attempt asks it once and changes nothing as long as it does not do what
it is asked, and when it does, it is as if it had done so the first time. -/
theorem fault_stays_or_passes (hphase : m.phase = .ready memory) :
    (∀ e m', m.step = .error e m' → e.isDisplay = false →
      ∀ ops : List Operation, (∀ op ∈ ops, op.goesOn = true) →
        Crashed m e (ops.foldl perform m)) ∧
    ∀ cause m', m.step = .error (.display cause) m' →
      ∀ ops : List Operation, (∀ op ∈ ops, op.goesOn = true) →
        (∀ k < m.attempts ops, (m.host.display (m.host.calls + 1 + k)).failure ≠ none) →
          Waiting m (m.attempts ops) (ops.foldl perform m) := by
  constructor
  · intro e m' hstep he ops hops
    obtain ⟨hsame, hhost, hstuck⟩ := stands_still hphase ⟨m', hstep⟩ he hops
    refine ⟨hsame, hhost, fun op hop => ?_⟩
    exact rebuffed (hsame.phase.symm.trans hphase) hop fun _ => hstuck
  · intro cause m' hstep ops hops hfails
    have hnext := next_of_stuck hphase ⟨m', hstep⟩
    obtain ⟨hsame, hhost⟩ := waits hphase hnext hops hfails
    exact waiting_of_same hphase hnext hsame hhost

/-- A program that has jumped to the last byte of memory. -/
def atLastByte : Machine := (ofProgram [0x1F, 0xFF] {}).perform .step

/-- A program that clears the screen, before a display that fails the first two times. -/
def clearsAtLast : Machine :=
  ofProgram [0x00, 0xE0]
    { display := fun n => { failure := if n ≤ 2 then some .noSuchDevice else none } }

/-- The one crashes in a run as it has in a step, whatever was tried in between; the other has
its screen cleared with the third attempt, as if it were the first. -/
theorem atLastByte_stays :
    ([.step, .configure { limit := some 3 }, .cancel, .run [false], .uncancel].foldl perform
      atLastByte).answer (.run [false]) = .ran (some (.error (.endOfMemory 4096))) ∧
    ∃ n m, ([.step, .run [false, false]].foldl perform clearsAtLast).step = .ok .clearScreen n ∧
      (clearsAtLast.withDisplay Display.steady).step = .ok .clearScreen m ∧ Same m n ∧
      n.host.calls = 3 := by
  constructor
  · obtain ⟨memory, hphase⟩ : ∃ memory, atLastByte.phase = .ready memory := ⟨_, rfl⟩
    obtain ⟨m', hstep⟩ : ∃ m', atLastByte.step = .error (.endOfMemory 4096) m' := ⟨_, rfl⟩
    have hcrashed := (fault_stays_or_passes hphase).1 _ m' hstep rfl
      [.step, .configure { limit := some 3 }, .cancel, .run [false], .uncancel]
      (by simp [Operation.goesOn])
    exact (hcrashed.further (.run [false]) rfl).answer
  · obtain ⟨memory, hphase⟩ : ∃ memory, clearsAtLast.phase = .ready memory := ⟨_, rfl⟩
    obtain ⟨m', hstep⟩ : ∃ m', clearsAtLast.step = .error (.display .noSuchDevice) m' := ⟨_, rfl⟩
    have hattempts : clearsAtLast.attempts [.step, .run [false, false]] = 2 := rfl
    have hfails : ∀ k < 2,
        (clearsAtLast.host.display (clearsAtLast.host.calls + 1 + k)).failure ≠ none := by decide
    have hwaiting := (fault_stays_or_passes hphase).2 _ m' hstep [.step, .run [false, false]]
      (by simp [Operation.goesOn]) (hattempts ▸ hfails)
    obtain ⟨n, hn, hcalls, hgranted⟩ := hwaiting.granted rfl
    obtain ⟨m, hm, hsame, _⟩ := hgranted Display.steady rfl
    exact ⟨n, m, hn, hm, hsame, hcalls.trans (congrArg (· + 1) hwaiting.host.calls)⟩

end Machine

end Chip8
