import Chip8.Proofs.Lifecycle
import Chip8.Proofs.Stopping
import Chip8.Proofs.Trace

/-! What a run writes to the log.

The log of a run can be written down without the run, from the machines that its steps lead to: a
line when it begins, of each step what stands at the cursor if that is an instruction, and a line
when it ends, unless it fails (`Machine.transcript`). It is in words here, so that the levels and
the texts of the events are held against it (`read_runReport`).

A step reports what stands at its cursor whatever becomes of it, and warns once for each unknown
opcode that is counted (`report_step`). From there it is an induction over the steps of the run
(`log_going`) and its last turn (`log_ended`). A threshold takes lines away and does nothing else
(`lines_recordAll`). -/
namespace Chip8

/-- A line of the log as it is read. -/
abbrev Line := Level × String

def Event.read (e : Event) : Line := (e.level, e.message)

/-- A warning: among the events of a run, an unknown opcode. -/
def Event.isWarning (e : Event) : Bool := e.level == .warn

def Log.lines (log : Log) : List Line := log.events.toList.map Event.read

namespace Log

theorem toList_recordAll (log : Log) (events : List Event) :
    (log.recordAll events).events.toList = log.events.toList ++ log.admitted events := by
  induction events generalizing log with
  | nil => exact (List.append_nil _).symm
  | cons event rest ih =>
    show ((log.record event).recordAll rest).events.toList = _
    rw [ih, toList_record, admitted_congr (log.threshold_record event), List.append_assoc]
    simp only [admitted, ← List.filter_append, List.singleton_append]

theorem admits_of_trace {log : Log} (h : log.threshold = some .trace) (level : Level) :
    log.admits level = true := by
  simp only [admits, h]
  cases level <;> rfl

theorem recordAll_append (log : Log) (a b : List Event) :
    log.recordAll (a ++ b) = (log.recordAll a).recordAll b :=
  List.foldl_append

/-- What is left of events when they are written to the log. -/
theorem lines_recordAll (log : Log) (events : List Event) :
    (log.recordAll events).lines =
      log.lines ++ (events.map Event.read).filter (log.admits ·.1) := by
  rw [lines, toList_recordAll, List.map_append, lines, admitted, List.filter_map]
  rfl

end Log

/-! ### The transcript -/

namespace Transcript

/-- An address in three digits or more. -/
def address (a : Nat) : String := "0x" ++ Hex.text .lower 3 a

def opening (pc : Nat) : Line := (.info, "running from " ++ address pc)

/-- The lines of an instruction whose word is `w`, and which stands at `pc`. -/
def ofWord (pc w : Nat) : List Line :=
  (.trace, address pc ++ ": " ++ (Instruction.ofWord w).text) ::
    match Instruction.ofWord w with
    | .system target => [(.info, "SYS " ++ address target.toNat)]
    | .unknown _ =>
      [(.warn, "unrecognised opcode 0x" ++ Hex.text .upper 4 w ++ " at " ++ address pc)]
    | _ => []

/-- The lines of a step; there is none if there is no whole instruction at the cursor. -/
def ofStep (m : Memory) : List Line :=
  match m.opcode? with
  | none => []
  | some op => ofWord m.cursor.toNat op.word.toNat

/-- The last line of a run that has made so many steps. -/
def ending (limit : Option Nat) (steps : Nat) : Except Fault Ending → List Line
  | .ok .cancelled => [(.debug, "cancelled after " ++ toString steps ++ " steps")]
  | .ok .limitReached =>
    limit.toList.map fun most => (.debug, "step limit of " ++ toString most ++ " reached")
  | .error _ => []

/-- How many steps were begun, if so many were made. -/
def begun (steps : Nat) : Except Fault Ending → Nat
  | .ok _ => steps
  | .error _ => steps + 1

end Transcript

namespace Machine

/-- The lines of the machine's next step. -/
def written (m : Machine) : List Line :=
  match m.phase with
  | .ready memory => Transcript.ofStep memory
  | _ => []

/-- The lines of its first so many steps. -/
def writtenBy (m : Machine) (requests : Nat → Bool) (steps : Nat) : List Line :=
  (List.range steps).flatMap fun j => ((m.standing requests j).map written).getD []

/-- The log of a run that makes so many steps and has this result. -/
def transcript (m : Machine) (memory : Memory) (requests : Nat → Bool) (steps : Nat)
    (result : Except Fault Ending) : List Line :=
  Transcript.opening memory.cursor.toNat ::
    m.writtenBy requests (Transcript.begun steps result) ++
    Transcript.ending m.settings.limit steps result

end Machine

/-! ### One step -/

namespace Instruction

/-- What is reported of an instruction at `pc` that is executed. -/
def report (pc : UInt16) (i : Instruction) : List Event :=
  .executing pc i ::
    match i with
    | .system target => [.systemCall target]
    | .unknown op => [.unknownOpcode op pc]
    | _ => []

/-- An unknown instruction keeps its opcode. -/
theorem eq_of_decode_unknown {op op' : Opcode} (h : decode op = .unknown op') : op' = op := by
  unfold decode at h
  split at h
  case h_1 =>
    split at h
    · cases h
    · split at h <;> cases h
  case h_11 =>
    cases h
    rfl
  all_goals cases h

/-- The events of an instruction are read as its lines. -/
theorem read_report (pc : UInt16) (op : Opcode) :
    ((decode op).report pc).map Event.read = Transcript.ofWord pc.toNat op.word.toNat := by
  rw [Transcript.ofWord, ← decode_eq_ofWord]
  cases hi : decode op with
  | unknown op' =>
    obtain rfl := eq_of_decode_unknown hi
    rfl
  | _ => rfl

theorem countP_report (pc : UInt16) (i : Instruction) :
    (i.report pc).countP Event.isWarning = i.isUnknown.toNat := by
  cases i <;> rfl

/-- Nothing is in the way of an unknown instruction. -/
theorem isUnknown_of_obstacle {i : Instruction} {reply : Reply} {s : Core} {e : Fault}
    (h : i.obstacle reply s = some e) : i.isUnknown = false := by
  cases i with
  | unknown op => cases h
  | _ => rfl

end Instruction

theorem Host.log_observe (h : Host) (pc : UInt16) (i : Instruction) :
    (h.observe pc i).log = h.log.recordAll (i.report pc) := by
  cases i with
  | clearScreen =>
    show (h.record _).clear.2.log = _
    rw [clear_eq]
    rfl
  | _ => rfl

namespace Memory

/-- What is reported of a step that begins with this memory. -/
def report (m : Memory) : List Event :=
  match m.opcode? with
  | none => []
  | some op => (Instruction.decode op).report m.cursor

theorem report_of_none {m : Memory} (h : m.opcode? = none) : m.report = [] := by
  simp only [report, h]

theorem report_of_some {m : Memory} {op : Opcode} (h : m.opcode? = some op) :
    m.report = (Instruction.decode op).report m.cursor := by
  simp only [report, h]

/-- The events of a step are read as its lines. -/
theorem read_report (m : Memory) : m.report.map Event.read = Transcript.ofStep m := by
  unfold report Transcript.ofStep
  cases m.opcode? with
  | none => rfl
  | some op => exact Instruction.read_report m.cursor op

end Memory

namespace Board

/-- Whatever becomes of a step, it writes what stands at the cursor. -/
theorem log_step (b : Board) :
    (stateOf b.step).host.log = b.host.log.recordAll b.memory.report := by
  have houtcome := b.step_outcome
  generalize b.step = r at houtcome
  cases houtcome with
  | unfetched hop =>
    rw [Memory.report_of_none hop]
    rfl
  | refused hop =>
    rw [Memory.report_of_some hop]
    exact Host.log_observe _ _ _
  | performed hop _ _ _ hhost =>
    rw [Memory.report_of_some hop, stateOf, hhost]
    exact Host.log_observe _ _ _

/-- Unknown opcodes are counted as often as they are reported. -/
theorem unknown_step (b : Board) :
    (stateOf b.step).processor.unknown =
      b.processor.unknown + b.memory.report.countP Event.isWarning := by
  have houtcome := b.step_outcome
  generalize b.step = r at houtcome
  cases houtcome with
  | unfetched hop =>
    rw [Memory.report_of_none hop]
    rfl
  | refused hop he =>
    rw [Memory.report_of_some hop, Instruction.countP_report, Instruction.isUnknown_of_obstacle he]
    rfl
  | performed hop _ _ hcore =>
    rw [Memory.report_of_some hop, Instruction.countP_report]
    exact (congrArg Core.unknown hcore).trans (Instruction.act_unknown _)

end Board

namespace Machine

variable {m n w last : Machine} {memory : Memory} {requests : Nat → Bool} {k turns : Nat}
  {result : Except Fault Ending}

/-- What is reported of the machine's next step. -/
def report (m : Machine) : List Event :=
  match m.phase with
  | .ready memory => memory.report
  | _ => []

theorem read_report (m : Machine) : m.report.map Event.read = m.written := by
  unfold report written
  cases m.phase with
  | ready memory => exact memory.read_report
  | _ => rfl

theorem report_congr (h : m.phase = n.phase) : m.report = n.report := by
  simp only [report, h]

/-- What a step reports is what it writes, and its warnings are counted. -/
theorem report_step (m : Machine) :
    (stateOf m.step).host.log = m.host.log.recordAll m.report ∧
      (stateOf m.step).processor.unknown =
        m.processor.unknown + m.report.countP Event.isWarning := by
  cases hphase : m.phase with
  | unloaded memory =>
    rw [step_unloaded hphase, report, hphase]
    exact ⟨rfl, rfl⟩
  | closed =>
    rw [step_closed hphase, report, hphase]
    exact ⟨rfl, rfl⟩
  | ready memory =>
    obtain ⟨_, steps, hstate⟩ := step_board hphase
    rw [hstate, report, hphase]
    exact ⟨(m.board memory).log_step, (m.board memory).unknown_step⟩

/-! ### The steps of a run -/

/-- What is reported of the first so many steps. -/
def reports (m : Machine) (requests : Nat → Bool) (steps : Nat) : List Event :=
  (List.range steps).flatMap fun j => ((m.standing requests j).map report).getD []

theorem read_reports (m : Machine) (requests : Nat → Bool) (steps : Nat) :
    (m.reports requests steps).map Event.read = m.writtenBy requests steps := by
  rw [reports, List.map_flatMap, writtenBy]
  congr 1
  funext j
  cases m.standing requests j with
  | none => rfl
  | some n => exact n.read_report

theorem reports_succ (hn : m.standing requests k = some n) :
    m.reports requests (k + 1) = m.reports requests k ++ n.report := by
  rw [reports, List.range_succ, List.flatMap_append, List.flatMap_singleton, hn, reports]
  rfl

/-- The warnings of the first steps have been counted. -/
theorem unknown_standing (hn : m.standing requests k = some n) :
    n.processor.unknown =
      m.processor.unknown + (m.reports requests k).countP Event.isWarning := by
  induction k generalizing n with
  | zero =>
    cases hn
    rw [asked_eq]
    rfl
  | succ k ih =>
    obtain ⟨n₀, i, n₁, hn₀, hstep, rfl⟩ := standing_succ.mp hn
    have hunknown := n₀.report_step.2
    rw [hstep] at hunknown
    rw [asked_eq, reports_succ hn₀, List.countP_append, ← Nat.add_assoc, ← ih hn₀]
    exact hunknown

/-! ### The log of a run -/

/-- What is reported of the end of a run. -/
def endReport (limit : Option Nat) (steps : Nat) : Except Fault Ending → List Event
  | .ok .cancelled => [.cancelled steps]
  | .ok .limitReached => limit.toList.map .limitReached
  | .error _ => []

/-- A step of a run writes what it reports, should the run go on after it or not. -/
theorem log_advance (k : Nat) (w : Machine) :
    (Run.advance k w).machine.host.log = w.host.log.recordAll w.report := by
  rw [← w.report_step.1, Run.advance]
  cases w.step <;> rfl

theorem log_turn_going {k' : Nat} {w' : Machine} (h : Run.turn (.going k w) = .going k' w') :
    w'.host.log = w.host.log.recordAll w.report := by
  obtain ⟨_, hturn⟩ | ⟨_, _, _, _, hturn⟩ | ⟨_, _, hturn⟩ := Run.turn_cases k w
  · cases hturn.symm.trans h
  · cases hturn.symm.trans h
  · have hlog := log_advance k w
    rwa [← hturn, h] at hlog

/-- A turn that ends the run writes why, or what the step reports that fails. -/
theorem log_turn_ended (h : Run.turn (.going k w) = .ended result last) :
    last.host.log = w.host.log.recordAll
      (match result with
        | .ok _ => endReport w.settings.limit k result
        | .error _ => w.report) := by
  obtain ⟨_, hturn⟩ | ⟨_, _, hlimit, _, hturn⟩ | ⟨_, _, hturn⟩ := Run.turn_cases k w
  · cases hturn.symm.trans h
    rfl
  · cases hturn.symm.trans h
    rw [hlimit]
    rfl
  · have hlog := log_advance k w
    rw [← hturn, h] at hlog
    cases result with
    | error e => exact hlog
    | ok ending =>
      rw [hturn, Run.advance] at h
      split at h <;> cases h

theorem log_asked (m : Machine) (request : Bool) : (m.asked request).host.log = m.host.log := by
  cases request <;> rfl

/-- As long as a run goes on its log is the line of its beginning and the lines of its steps. -/
theorem log_going (hphase : m.phase = .ready memory) (h : ∀ j < k, ¬ m.Halts requests j)
    (hgoing : m.runFor requests k = .going k w) :
    w.host.log = m.host.log.recordAll (.running memory.cursor :: m.reports requests k) := by
  induction k generalizing w with
  | zero =>
    simp only [runFor, List.range_zero, List.map_nil, Run.under, Run.start, hphase] at hgoing
    cases hgoing
    rfl
  | succ k ih =>
    have hbefore : ∀ j < k, ¬ m.Halts requests j := fun j hj => h j (Nat.lt_succ_of_lt hj)
    obtain ⟨n, hn⟩ := standing_of_not_halts hbefore
    obtain ⟨w₀, hgoing₀, hlike⟩ := runFor_going hphase hbefore hn
    rw [runFor_turn hgoing₀] at hgoing
    rw [log_turn_going hgoing, log_asked, ← report_congr hlike.phase, ih hbefore hgoing₀,
      reports_succ hn, ← Log.recordAll_append, List.cons_append]

/-- All that is reported of a run that makes so many steps and has this result. -/
def runReport (m : Machine) (memory : Memory) (requests : Nat → Bool) (steps : Nat)
    (result : Except Fault Ending) : List Event :=
  .running memory.cursor :: m.reports requests (Transcript.begun steps result) ++
    endReport m.settings.limit steps result

theorem log_ended (hphase : m.phase = .ready memory) (h : m.HaltsFirst requests k)
    (hended : m.runFor requests (k + 1) = .ended result last) :
    last.host.log = m.host.log.recordAll (m.runReport memory requests k result) := by
  obtain ⟨⟨n, hn, _⟩, hbefore⟩ := h
  obtain ⟨w, hgoing, hlike⟩ := runFor_going hphase hbefore hn
  have hsettings : (w.asked (requests k)).settings = m.settings :=
    hlike.settings.symm.trans (standing_counts hn).2
  rw [runFor_turn hgoing] at hended
  rw [log_turn_ended hended, log_asked, log_going hphase hbefore hgoing, hsettings,
    ← report_congr hlike.phase, ← Log.recordAll_append, runReport]
  cases result with
  | ok ending => rfl
  | error e =>
    rw [Transcript.begun, reports_succ hn, endReport, List.append_nil, List.cons_append]

/-- The warnings of a run have been counted. -/
theorem unknown_ended {final : Machine} (hn : m.standing requests k = some n)
    (hverdict : n.Verdict k result final) :
    final.processor.unknown = m.processor.unknown +
      (m.reports requests (Transcript.begun k result)).countP Event.isWarning := by
  cases hverdict with
  | cancelled | limitReached => exact unknown_standing hn
  | crashed _ _ hstep =>
    -- The step that failed has not warned.
    have hunknown := n.report_step.2
    rw [hstep] at hunknown
    rw [Transcript.begun, reports_succ hn, List.countP_append, ← Nat.add_assoc,
      ← unknown_standing hn]
    exact hunknown

theorem read_endReport (limit : Option Nat) (steps : Nat) (result : Except Fault Ending) :
    (endReport limit steps result).map Event.read = Transcript.ending limit steps result := by
  cases result with
  | error e => rfl
  | ok ending =>
    cases ending with
    | cancelled => rfl
    | limitReached => cases limit <;> rfl

/-- **The events of a run are read as its transcript.** -/
theorem read_runReport (m : Machine) (memory : Memory) (requests : Nat → Bool) (steps : Nat)
    (result : Except Fault Ending) :
    (m.runReport memory requests steps result).map Event.read =
      m.transcript memory requests steps result := by
  rw [runReport, List.map_append, List.map_cons, read_reports, read_endReport]
  rfl

/-- A run warns of nothing but the opcodes that its steps do not know. -/
theorem countP_transcript (m : Machine) (memory : Memory) (requests : Nat → Bool) (steps : Nat)
    (result : Except Fault Ending) :
    (m.transcript memory requests steps result).countP (·.1 == .warn) =
      (m.reports requests (Transcript.begun steps result)).countP Event.isWarning := by
  have hend : (endReport m.settings.limit steps result).countP Event.isWarning = 0 := by
    cases result with
    | error e => rfl
    | ok ending =>
      cases ending with
      | cancelled => rfl
      | limitReached => cases m.settings.limit <;> rfl
  rw [← read_runReport, List.countP_map]
  show (m.runReport memory requests steps result).countP Event.isWarning = _
  rw [runReport, List.countP_append, hend, Nat.add_zero]
  exact List.countP_cons_of_neg Bool.false_ne_true

/-! ### Other logs -/

/-- What a step and a request keep is kept wherever steps lead. -/
theorem standing_related {S : Machine → Machine → Prop}
    (hstep : ∀ {a b : Machine}, S a b → Agree S a.step b.step)
    (hasked : ∀ {a b : Machine} (request : Bool), S a b → S (a.asked request) (b.asked request))
    (h : S m n) (k : Nat) : Option.Rel S (m.standing requests k) (n.standing requests k) := by
  induction k with
  | zero => exact .some (hasked _ h)
  | succ k ih =>
    rw [standing, standing]
    generalize m.standing requests k = o at ih ⊢
    generalize n.standing requests k = o' at ih ⊢
    cases ih with
    | none => exact .none
    | @some a b hlike =>
      have hagree := hstep hlike
      rw [Option.bind_some, Option.bind_some, next?, next?]
      generalize a.step = r at hagree ⊢
      generalize b.step = r' at hagree ⊢
      cases hagree with
      | ok i hlike' => exact .some (hasked _ hlike')
      | error e hlike' => exact .none

/-- What is reported does not depend on more than where the steps lead. -/
theorem reports_related {S : Machine → Machine → Prop}
    (hphase : ∀ {a b : Machine}, S a b → a.phase = b.phase)
    (h : ∀ k, Option.Rel S (m.standing requests k) (n.standing requests k)) (steps : Nat) :
    m.reports requests steps = n.reports requests steps := by
  rw [reports, reports]
  congr 1
  funext j
  have hrel := h j
  generalize m.standing requests j = o at hrel ⊢
  generalize n.standing requests j = o' at hrel ⊢
  cases hrel with
  | none => rfl
  | some hlike => exact report_congr (hphase hlike)

/-- The machine before another log. -/
def withLog (m : Machine) (log : Log) : Machine := { m with host := { m.host with log } }

theorem like_withLog (m : Machine) (log : Log) : Like Host.SameButLog m (m.withLog log) :=
  ⟨rfl, rfl, rfl, rfl, rfl⟩

/-- What is written does not depend on what it is written to. -/
theorem writtenBy_withLog (m : Machine) (log : Log) (requests : Nat → Bool) (steps : Nat) :
    (m.withLog log).writtenBy requests steps = m.writtenBy requests steps := by
  have hstanding (k : Nat) : Option.Rel (Like Host.SameButLog) (m.standing requests k)
      ((m.withLog log).standing requests k) :=
    standing_related (step_alike Host.likeness_sameButLog)
      (fun request h => asked_alike Host.likeness_sameButLog h request) (m.like_withLog log) k
  rw [← read_reports, ← read_reports, reports_related (·.phase) hstanding]

/-- A run that is over has stopped at the first reason, and has told its log of all that it did
until then. -/
theorem ended_log (hphase : m.phase = .ready memory)
    (hended : m.runFor requests turns = .ended result last) :
    ∃ k, m.HaltsFirst requests k ∧ last.steps = m.steps + k ∧
      last.processor.unknown = m.processor.unknown +
        (m.transcript memory requests k result).countP (·.1 == .warn) ∧
      last.host.log.lines = m.host.log.lines ++
        (m.transcript memory requests k result).filter (m.host.log.admits ·.1) := by
  obtain ⟨k, hfirst⟩ := haltsFirst_of_ended hphase hended
  obtain ⟨n, result', final, last', hn, hverdict, hlike, hended'⟩ := runFor_ended hphase hfirst
  obtain ⟨rfl, rfl⟩ := runFor_unique hended hended'
  refine ⟨k, hfirst, ?_, ?_, ?_⟩
  · rw [← hlike.steps, hverdict.steps_eq, (standing_counts hn).1]
  · rw [← hlike.processor, unknown_ended hn hverdict, countP_transcript]
  · rw [log_ended hphase hfirst hended', Log.lines_recordAll, read_runReport]

/-- **The log is a record of the run.** It grows by the transcript of the steps that the run has
made, with as many warnings as unknown opcodes were counted; another threshold admits another part
of the same transcript, and neither the result nor anything else but the log depends on it. -/
theorem run_logged (hphase : m.phase = .ready memory)
    (hended : m.runFor requests turns = .ended result last) :
    ∃ k, m.HaltsFirst requests k ∧ last.steps = m.steps + k ∧
      last.processor.unknown = m.processor.unknown +
        (m.transcript memory requests k result).countP (·.1 == .warn) ∧
      ∀ log : Log, ∃ last', (m.withLog log).runFor requests turns = .ended result last' ∧
        Like Host.SameButLog last last' ∧
        last'.host.log.lines = log.lines ++
          (m.transcript memory requests k result).filter (log.admits ·.1) ∧
        (log.threshold = some .trace →
          last'.host.log.lines = log.lines ++ m.transcript memory requests k result) := by
  obtain ⟨k, hfirst, hsteps, hunknown, _⟩ := ended_log hphase hended
  refine ⟨k, hfirst, hsteps, hunknown, fun log => ?_⟩
  have hrun := Run.under_alike Host.likeness_sameButLog
    (Run.start_alike Host.likeness_sameButLog (m.like_withLog log))
    ((List.range turns).map requests)
  rw [← runFor, ← runFor, hended] at hrun
  generalize hended' : (m.withLog log).runFor requests turns = r at hrun
  cases hrun with
  | @ended _ _ last' hlike =>
    obtain ⟨k', _, hsteps', _, hlines⟩ := ended_log (m := m.withLog log) hphase hended'
    have hk : k' = k := by
      rw [← hlike.steps, hsteps] at hsteps'
      exact (Nat.add_left_cancel hsteps').symm
    rw [hk, transcript, writtenBy_withLog] at hlines
    refine ⟨last', rfl, hlike, hlines, fun htrace => hlines.trans ?_⟩
    have hall (line : Line) : log.admits line.1 = true := Log.admits_of_trace htrace line.1
    exact congrArg (log.lines ++ ·) (List.filter_eq_self.mpr fun line _ => hall line)

/-- A program that calls the host, has an opcode that is unknown and clears the screen in vain. -/
def reporting : Machine :=
  ofProgram [0x01, 0x23, 0xF0, 0x0A, 0x00, 0xE0]
    { display := fun _ => { failure := some .noSuchDevice } }

/-- The instruction that fails has its line, and nothing is said of the end. -/
theorem reporting_logged :
    ∃ last, reporting.runFor (fun _ => false) 3 = .ended (.error (.display .noSuchDevice)) last ∧
      last.processor.unknown = 1 ∧
      ∀ log : Log, log.threshold = some .trace → ∃ last',
        (reporting.withLog log).runFor (fun _ => false) 3 =
          .ended (.error (.display .noSuchDevice)) last' ∧
        last'.host.log.lines = log.lines ++
          [(.info, "running from 0x200"), (.trace, "0x200: SYS 0x123"), (.info, "SYS 0x123"),
            (.trace, "0x202: ??? 0xF00A"), (.warn, "unrecognised opcode 0xF00A at 0x202"),
            (.trace, "0x204: CLS")] := by
  obtain ⟨last, hended, hsteps⟩ : ∃ last,
      reporting.runFor (fun _ => false) 3 = .ended (.error (.display .noSuchDevice)) last ∧
        last.steps = 2 := ⟨_, rfl, rfl⟩
  obtain ⟨k, _, hk, hunknown, hlogs⟩ := run_logged rfl hended
  obtain rfl : k = 2 := by
    rw [hsteps] at hk
    exact (hk.trans (Nat.zero_add k)).symm
  refine ⟨last, hended, hunknown.trans (by decide +kernel), fun log htrace => ?_⟩
  obtain ⟨last', hended', _, _, hlines⟩ := hlogs log
  refine ⟨last', hended', (hlines htrace).trans (congrArg (log.lines ++ ·) ?_)⟩
  decide +kernel

end Machine

end Chip8
