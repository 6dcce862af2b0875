import Chip8.Proofs.History
import Chip8.Proofs.Rollback

/-! The life of a machine.

A machine is without a program until one loads, ready from then on and closed from the first
close on; where it is can be read off its account (`Account.stage`). Without a program it
refuses to step and to run, closed it refuses whatever needs a memory, and to refuse is to do
nothing at all. Its end is told once: by the first close, or when it is dropped, with the steps
that it has made by then. `lifecycle` says all of that of every history. -/
namespace Chip8

/-! ### Stages -/

/-- Where a machine is in its life. -/
inductive Stage where
  | unloaded
  | ready
  | closed
  deriving DecidableEq, Repr

def Phase.stage : Phase → Stage
  | .unloaded _ => .unloaded
  | .ready _ => .ready
  | .closed => .closed

/-- What the account says: the first close ends everything, and before it the first load makes
the machine ready. -/
def Account.stage (a : Account) : Stage :=
  match a.closed?, a.program? with
  | some _, _ => .closed
  | none, none => .unloaded
  | none, some _ => .ready

def Machine.stage (m : Machine) : Stage := m.phase.stage

/-! ### Lines -/

namespace Log

/-- The lines that tell of a machine's end. -/
def closings (log : Log) : List Event := log.events.toList.filter Event.isClosing

/-- What becomes of events that are written to the log. -/
def admitted (log : Log) (events : List Event) : List Event :=
  events.filter fun event => log.admits event.level

theorem toList_record (log : Log) (event : Event) :
    (log.record event).events.toList = log.events.toList ++ log.admitted [event] := by
  unfold record admitted
  cases h : log.admits event.level <;> simp [h]

theorem closings_record (log : Log) (event : Event) :
    (log.record event).closings = log.closings ++ (log.admitted [event]).filter Event.isClosing := by
  rw [closings, toList_record, List.filter_append, closings]

theorem admitted_congr {log log' : Log} (h : log.threshold = log'.threshold)
    (events : List Event) : log.admitted events = log'.admitted events := by
  simp only [admitted, admits, h]

end Log

/-- A host that has told of as many ends as another one and of one more, if there was one. -/
structure Host.Told (h₀ : Host) (closed? : Option Nat) (h : Host) : Prop where
  threshold : h.log.threshold = h₀.log.threshold
  closings : h.log.closings =
    h₀.log.closings ++ h₀.log.admitted (closed?.toList.map .machineClosed)

namespace Host

variable {h₀ h : Host} {closed? : Option Nat}

theorem told_record (hh : Told h₀ closed? h) {event : Event} (hevent : event.isClosing = false) :
    Told h₀ closed? (h.record event) := by
  refine ⟨(Log.threshold_record _ _).trans hh.threshold, ?_⟩
  have hnone : (h.log.admitted [event]).filter Event.isClosing = [] := by
    simp [Log.admitted, hevent]
  show (h.log.record event).closings = _
  rw [Log.closings_record, hnone, List.append_nil, hh.closings]

theorem told_closing (hh : Told h₀ none h) (steps : Nat) :
    Told h₀ (some steps) (h.record (.machineClosed steps)) := by
  refine ⟨(Log.threshold_record _ _).trans hh.threshold, ?_⟩
  have hone : (h.log.admitted [.machineClosed steps]).filter Event.isClosing =
      h.log.admitted [.machineClosed steps] :=
    List.filter_eq_self.mpr fun event hevent => by
      rw [List.mem_singleton.mp (List.mem_filter.mp hevent).1]
      rfl
  show (h.log.record (.machineClosed steps)).closings = _
  rw [Log.closings_record, hone, hh.closings, Log.admitted_congr hh.threshold]
  simp [Log.admitted]

theorem told_recordAll (hh : Told h₀ closed? h) {events : List Event}
    (hevents : ∀ event ∈ events, event.isClosing = false) :
    Told h₀ closed? (h.recordAll events) := by
  induction events generalizing h with
  | nil => exact hh
  | cons event rest ih =>
    refine ih (told_record hh (hevents event List.mem_cons_self)) ?_
    exact fun e he => hevents e (List.mem_cons_of_mem event he)

theorem kept_told : Host.Kept (Told h₀ closed?) where
  record _ _ hevent hh := told_record hh hevent
  clear h hh := by
    rw [clear_eq]
    exact ⟨hh.threshold, hh.closings⟩

end Host

theorem LoadSummary.isClosing_events (s : LoadSummary) :
    ∀ event ∈ s.events, event.isClosing = false := by
  intro event hevent
  simp only [events, List.mem_append, List.mem_singleton] at hevent
  rcases hevent with htruncated | rfl
  · split at htruncated
    · rw [List.mem_singleton.mp htruncated]
      rfl
    · cases htruncated
  · rfl

theorem Account.stage_closed_iff {a : Account} : a.stage = .closed ↔ a.closed? ≠ none := by
  unfold stage
  cases a.closed? <;> cases a.program? <;> simp

namespace Machine

/-! ### Where a machine is -/

variable {m : Machine} {h₀ : Host} {a : Account}

theorem stage_closed_iff : m.stage = .closed ↔ m.phase = .closed := by
  unfold stage Phase.stage
  cases m.phase <;> simp

theorem stage_unloaded_iff : m.stage = .unloaded ↔ ∃ memory, m.phase = .unloaded memory := by
  unfold stage Phase.stage
  cases m.phase <;> simp

theorem close_of_closed (h : m.phase = .closed) : m.close = m := by
  simp only [close, h]

theorem close_of_open (h : m.phase ≠ .closed) :
    m.close = { m.record (.machineClosed m.steps) with phase := .closed } := by
  unfold close
  split
  · contradiction
  · rfl

/-- A step moves a machine no further in its life. -/
theorem stage_step (m : Machine) : (stateOf m.step).stage = m.stage := by
  cases hstep : m.step with
  | error e m' => rw [stateOf, stage, stage, (step_failure hstep).phase]
  | ok i m' =>
    obtain ⟨memory, b, hphase, _, rfl⟩ := step_ok hstep
    rw [stateOf, stage, stage, hphase]
    rfl

/-- The account of a machine tells where it is, and its host has told of its end. -/
structure Lives (h₀ : Host) (a : Account) (m : Machine) : Prop where
  stage : m.stage = a.stage
  told : Host.Told h₀ a.closed? m.host

theorem Lives.open_iff (h : Lives h₀ a m) : m.phase ≠ .closed ↔ a.closed? = none := by
  rw [ne_eq, ← stage_closed_iff, h.stage, Account.stage_closed_iff, Decidable.not_not]

theorem lives_start (h : Lives h₀ a m) {memory : Memory} (hmemory : m.phase.memory? = some memory)
    (program : List UInt8) :
    Lives h₀ (a.load program m.host.calls) (m.start (memory.load program)) := by
  have hopen : a.closed? = none := by
    rw [← h.open_iff]
    intro hclosed
    rw [hclosed] at hmemory
    cases hmemory
  refine ⟨?_, Host.told_recordAll h.told (LoadSummary.isClosing_events _)⟩
  simp only [Account.stage, Account.load, hopen]
  rfl

theorem lives_close (h : Lives h₀ a m) : Lives h₀ (a.close m.steps) m.close := by
  by_cases hopen : m.phase = .closed
  · obtain ⟨n, hn⟩ : ∃ n, a.closed? = some n :=
      Option.ne_none_iff_exists'.mp fun hnone => h.open_iff.mpr hnone hopen
    have hsame : a.close m.steps = a := by
      rw [Account.close, hn]
      exact congrArg (Account.mk _ _ _) hn.symm
    rw [close_of_closed hopen, hsame]
    exact h
  · have hnone := h.open_iff.mp hopen
    have htold := h.told
    rw [hnone] at htold
    rw [close_of_open hopen, Account.close, hnone]
    exact ⟨rfl, Host.told_closing htold m.steps⟩

theorem kept_lives : Kept (Lives h₀) where
  start _ _ _ program hmemory h := lives_start h hmemory program
  step _ m h := ⟨(stage_step m).trans h.stage, Host.kept_told.machine h.told⟩
  record _ _ _ hevent h := ⟨h.stage, Host.told_record h.told hevent⟩
  token _ _ _ h := ⟨h.stage, h.told.threshold, h.told.closings⟩
  configure _ _ _ h := ⟨h.stage, h.told⟩
  close _ _ h := lives_close h

theorem lives_of_history (h : History) : Lives h.host h.account h.machine := by
  refine h.induction kept_lives ⟨rfl, rfl, ?_⟩
  exact (List.append_nil _).symm

/-- No operation takes a program away. -/
theorem kept_begun : Kept fun _ m => m.stage ≠ .unloaded where
  start _ _ _ _ _ _ := nofun
  step _ m h := by rwa [stage_step]
  record _ _ _ _ h := h
  token _ _ _ h := h
  configure _ _ _ h := h
  close _ m h := by
    by_cases hphase : m.phase = .closed
    · rwa [close_of_closed hphase]
    · rw [close_of_open hphase]
      nofun

theorem readable_close (m : Machine) :
    m.close.processor = m.processor ∧ m.close.steps = m.steps := by
  unfold close
  split <;> exact ⟨rfl, rfl⟩

/-! ### What it refuses -/

/-- To step and to run are refused, and nothing comes of asking. -/
structure Refuses (m : Machine) (e : Fault) : Prop where
  step : m.step = .error e m
  run : ∀ requests, (Run.start m).under requests = .ended (.error e) m

/-- Nothing that takes a memory is to be had, and a stream is left as it is. -/
structure Sealed (m : Machine) : Prop extends Refuses m .closed where
  load : ∀ program, m.load program = .error .closed m
  loadFrom : ∀ stream, loadFrom (m, stream) = .error .closed (m, stream)
  memory : m.memory = .error .closed
  cursor : m.cursor = .error .closed

theorem under_ended (result : Except Fault Ending) (m : Machine) (requests : List Bool) :
    (Run.ended result m).under requests = .ended result m := by
  cases requests <;> rfl

theorem refuses_unloaded {memory : Memory} (h : m.phase = .unloaded memory) :
    Refuses m .noProgram := by
  refine ⟨step_unloaded h, fun requests => ?_⟩
  simp only [Run.start, h, under_ended]

theorem sealed_closed (h : m.phase = .closed) : Sealed m := by
  have hnone : m.memory = .error .closed := by simp only [Machine.memory, h, Phase.memory?]
  refine ⟨⟨step_closed h, fun requests => ?_⟩, fun program => ?_, fun stream => ?_, hnone, ?_⟩
  · simp only [Run.start, h, under_ended]
  · simp only [Machine.load, hnone]
  · simp only [Machine.loadFrom, hnone]
  · rw [Machine.cursor, hnone]
    rfl

/-- The same machine with other settings and another token. -/
def SameButToken (m m' : Machine) : Prop :=
  ∃ settings cancelled, m' = { m with settings, host := { m.host with cancelled } }

/-- Of a closed machine the settings and the token are all that can still change. -/
theorem perform_closed (h : m.phase = .closed) (op : Operation) : SameButToken m (m.perform op) := by
  have hsealed := sealed_closed h
  cases op with
  | load program => exact ⟨_, _, by rw [perform, hsealed.load]; rfl⟩
  | loadFrom stream => exact ⟨_, _, by rw [perform, hsealed.loadFrom]; rfl⟩
  | step => exact ⟨_, _, by rw [perform, hsealed.step]; rfl⟩
  | run requests => exact ⟨_, _, by rw [perform, hsealed.run]; rfl⟩
  | configure settings => exact ⟨settings, m.host.cancelled, rfl⟩
  | cancel => exact ⟨m.settings, true, rfl⟩
  | uncancel => exact ⟨m.settings, false, rfl⟩
  | close => exact ⟨_, _, by rw [perform, close_of_closed h]⟩

theorem frozen_closed (h : m.phase = .closed) (ops : List Operation) :
    SameButToken m (ops.foldl perform m) := by
  induction ops generalizing m with
  | nil => exact ⟨m.settings, m.host.cancelled, rfl⟩
  | cons op rest ih =>
    obtain ⟨settings, cancelled, hnext⟩ := perform_closed h op
    obtain ⟨settings', cancelled', hlast⟩ := ih (m := m.perform op) (by rw [hnext]; exact h)
    refine ⟨settings', cancelled', ?_⟩
    rw [List.foldl_cons, hlast, hnext]

end Machine

/-! ### Lives -/

/-- The life of a machine, as far as its history goes. -/
structure Lifecycle (h : History) : Prop where
  /-- The machine is without a program until one has been loaded, and closed as soon as it has
  been closed once. -/
  stage : h.machine.stage = h.account.stage
  /-- There is no way back to being without a program. -/
  onward : ∀ op, (h.perform op).machine.stage = .unloaded → h.machine.stage = .unloaded
  unloaded : h.machine.stage = .unloaded → h.machine.Refuses .noProgram
  closed : h.machine.stage = .closed →
    h.machine.Sealed ∧
      ∀ ops : List Operation, h.machine.SameButToken (ops.foldl Machine.perform h.machine)
  configure : ∀ settings, h.machine.perform (.configure settings) = { h.machine with settings }
  /-- Registers, stack and counts can still be read. -/
  readable : h.machine.close.processor = h.machine.processor ∧
    h.machine.close.steps = h.machine.steps
  /-- The end is told by the first close. -/
  told : h.machine.host.log.closings =
    h.host.log.closings ++ h.host.log.admitted (h.account.closed?.toList.map .machineClosed)
  /-- When the machine is dropped its end is told if it was not, and so once in all. -/
  dropped : h.machine.drop.log.closings =
    h.host.log.closings ++
      h.host.log.admitted [.machineClosed (h.account.closed?.getD h.machine.steps)]
  line : ∀ steps, (Event.machineClosed steps).level = .debug ∧
    (Event.machineClosed steps).message = "machine closed after " ++ toString steps ++ " steps"

/-- **The life of a machine**, whatever its host does: it goes from stage to stage as its account
has it and never back, refuses what the stage does not allow without doing anything, keeps what
it has come to when it is closed, and has its end told exactly once, be it closed often or never
before it is dropped. -/
theorem lifecycle (h : History) : Lifecycle h := by
  have hlives := Machine.lives_of_history h
  refine
    { stage := hlives.stage
      onward := fun op hunloaded => ?_
      unloaded := fun hunloaded => ?_
      closed := fun hclosed => ?_
      configure := fun settings => rfl
      readable := h.machine.readable_close
      told := hlives.told.closings
      dropped := ?_
      line := fun steps => ⟨rfl, rfl⟩ }
  · exact Decidable.not_imp_not.mp (Machine.kept_begun.perform (a := h.account) · op) hunloaded
  · obtain ⟨memory, hphase⟩ := Machine.stage_unloaded_iff.mp hunloaded
    exact Machine.refuses_unloaded hphase
  · have hphase := Machine.stage_closed_iff.mp hclosed
    exact ⟨Machine.sealed_closed hphase, Machine.frozen_closed hphase⟩
  · have hdropped := (Machine.lives_close hlives).told.closings
    rw [Account.close] at hdropped
    show h.machine.close.host.log.closings = _
    rw [hdropped]
    cases h.account.closed? <;> rfl

/-- A machine that could not read a program, then had one, made a step and was closed twice. -/
def closedTwice : History :=
  ((((((History.unloaded { log := { threshold := some .debug } }).perform
    (.loadFrom [.failure .noSuchDevice])).perform (.load [0x12, 0x00])).perform .step).perform
    .close).perform .step).perform .close

/-- Its end is told once, with the one step that it has made, and not again when it is dropped. -/
theorem closedTwice_told :
    closedTwice.machine.stage = .closed ∧ closedTwice.account.results.length = 2 ∧
      closedTwice.machine.host.log.closings = [.machineClosed 1] ∧
      closedTwice.machine.drop.log.closings = [.machineClosed 1] ∧
      closedTwice.machine.step = .error .closed closedTwice.machine := by
  have hlife := lifecycle closedTwice
  have hclosed : closedTwice.account.closed? = some 1 := by decide +kernel
  have hstage : closedTwice.machine.stage = .closed := by decide +kernel
  have htold := hlife.told
  have hdropped := hlife.dropped
  rw [hclosed] at htold hdropped
  exact ⟨hstage, by decide +kernel, htold, hdropped, (hlife.closed hstage).1.step⟩

end Chip8
