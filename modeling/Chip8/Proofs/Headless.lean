import Chip8.Proofs.Sessions

/-! Headless sessions.

A headless session reports what its machine has done and nothing else. What there is to report is
in words here (`sessionLines`), and it is what a machine reports that somebody else loads from the
same stream and runs (`library_reports`). Status and error are those of the outcome; of the lines
the level admits some, and that is all that the level and the pace have to do with it
(`headless_reports`). -/
namespace Chip8

/-- No run closes its machine. -/
theorem Event.isClosing_of_isOfRun {event : Event} (h : event.isOfRun = true) :
    event.isClosing = false := by
  cases event <;> first | rfl | cases h

namespace CommandLine

/-! ### Lines -/

section Lines
variable (content : List UInt8) (limit : Option Nat) (k : Nat) (result : Except Fault Ending)

def loadLines : List Line :=
  (if 3584 < content.length then
    [(.warn, "program is " ++ toString content.length ++ " bytes but only " ++ toString 3584 ++
      " fit above " ++ Transcript.address 0x200 ++ "; truncated " ++
      toString (content.length - 3584) ++ " bytes")]
  else []) ++
    [(.trace, "loaded " ++ toString (min content.length 3584) ++ " program bytes")]

/-- All the lines of a session whose run makes so many steps and has this result. -/
def sessionLines : List Line :=
  loadLines content ++ (.info, "loaded " ++ toString (min content.length 3584) ++ " bytes") ::
    ((subject content).withSettings { limit }).transcript (Memory.blank.load content).2
      (fun _ => false) k result ++
    (.debug, "machine closed after " ++ toString k ++ " steps") ::
      match result with
      | .ok _ => [(.info, "step limit reached")]
      | .error _ => []

/-- A program is loaded and, if it does not fit, warned of. -/
theorem read_loading (summary : LoadSummary) :
    summary.events.map Event.read =
      (if 0 < summary.discarded then
        [(.warn, "program is " ++ toString (summary.loaded + summary.discarded) ++
          " bytes but only " ++ toString 3584 ++ " fit above " ++ Transcript.address 0x200 ++
          "; truncated " ++ toString summary.discarded ++ " bytes")]
      else []) ++ [(.trace, "loaded " ++ toString summary.loaded ++ " program bytes")] := by
  have hcapacity : Memory.capacity = 3584 := by decide
  have horigin : Event.addressText Memory.origin = Transcript.address 0x200 := by decide
  rw [LoadSummary.events, LoadSummary.truncated, ← hcapacity, ← horigin]
  by_cases h : 0 < summary.discarded
  · rw [if_pos h, if_pos (decide_eq_true h)]
    rfl
  · rw [if_neg h, if_neg (by rw [decide_eq_true_eq]; exact h)]
    rfl

theorem read_loadEvents : (loadEvents content).map Event.read = loadLines content := by
  rw [loadEvents, read_loading]
  have hloaded : (Memory.blank.load content).1.loaded = min content.length 3584 := rfl
  have hdiscarded : (Memory.blank.load content).1.discarded = content.length - 3584 := by
    show content.length - min content.length 3584 = _
    omega
  have hsum : min content.length 3584 + (content.length - 3584) = content.length := by omega
  rw [hloaded, hdiscarded, hsum, loadLines]
  simp only [Nat.sub_pos_iff_lt]

/-- **The events of a session are read as its lines.** -/
theorem read_sessionEvents :
    (sessionEvents content limit k result).map Event.read =
      sessionLines content limit k result := by
  rw [sessionEvents, List.map_append, List.map_append, List.map_cons, read_loadEvents, runEvents,
    Machine.read_runReport]
  cases result <;> rfl

/-- The machine is closed once, by the session. -/
theorem closings_sessionEvents :
    (sessionEvents content limit k result).filter Event.isClosing = [.machineClosed k] := by
  have hload : (loadEvents content).filter Event.isClosing = [] :=
    List.filter_eq_nil_iff.mpr fun event hevent =>
      Bool.eq_false_iff.mp (LoadSummary.isClosing_events _ event hevent)
  have hrun : (runEvents content limit k result).filter Event.isClosing = [] :=
    List.filter_eq_nil_iff.mpr fun event hevent =>
      Bool.eq_false_iff.mp
        (Event.isClosing_of_isOfRun (Machine.isOfRun_runReport _ _ _ _ _ event hevent))
  rw [sessionEvents, List.filter_append, List.filter_append, hload,
    List.filter_cons_of_neg Bool.false_ne_true, hrun]
  cases result <;> rfl

/-- That the limit is reached is said last, and of no run that has failed. -/
theorem finished_mem_iff :
    Event.finished ∈ sessionEvents content limit k result ↔ ∃ ending, result = .ok ending := by
  have hload : Event.finished ∉ loadEvents content := by
    rw [loadEvents, LoadSummary.events]
    split <;> simp
  have hrun : Event.finished ∉ runEvents content limit k result := fun h =>
    Bool.false_ne_true (Machine.isOfRun_runReport _ _ _ _ _ _ h)
  cases result <;> simp [sessionEvents, endEvents, hload, hrun]

end Lines

/-! ### The library -/

/-- Somebody who loads from such a stream and runs the machine with this limit finds the same
steps, the same result and the same events in the log, whatever the log is like and whatever the
pace. -/
def LibraryReports (content : List UInt8) (limit : Option Nat) (k : Nat)
    (result : Except Fault Ending) : Prop :=
  ∀ (log : Log) (pause : Option Nat), ∃ m left turns last,
    Machine.loadFrom ((Machine.unloaded { log }).withSettings { limit, pause },
      ByteStream.ofBytes 4096 content) = .ok (Memory.blank.load content).1 (m, left) ∧
    m.host.log = log.recordAll (loadEvents content) ∧
    (Run.start m).after turns = .ended result last ∧ last.steps = k ∧
    last.host.log = m.host.log.recordAll (runEvents content limit k result)

theorem library_reports {content : List UInt8} {limit : Option Nat} {k : Nat}
    {result : Except Fault Ending} (h : Machine.Outcome (subject content) limit k result) :
    LibraryReports content limit k result := by
  intro log pause
  obtain ⟨left, hread⟩ := ByteStream.readAll_ofBytes 4096 (by decide) content
  have hbegins := begins_load content { limit, pause } log
  obtain ⟨turns, last, hended⟩ := hbegins.ended_iff.mpr ⟨k, h⟩
  obtain ⟨k', houtcome, _, hsteps, hlog⟩ := hbegins.ended hended
  obtain ⟨rfl, _⟩ := h.unique houtcome
  exact ⟨_, left, turns, last, Machine.loadFrom_ok rfl hread, rfl, hended, hsteps, hlog⟩

/-! ### The report -/

section Session
variable {o : Options} {content : List UInt8} {k : Nat} {result : Except Fault Ending}
  {report : Report}

/-- All that there is to a headless session whose run has made so many steps and has this
result. -/
structure Tells (o : Options) (content : List UInt8) (k : Nat) (result : Except Fault Ending)
    (report : Report) : Prop where
  outcome : Machine.Outcome (subject content) o.limit k result
  whole : report = reportOf o.level (sessionEvents content o.limit k result) result
  /-- All is well exactly if there is a limit and all the steps up to it succeed. -/
  success : (report.status = 0 ∧ report.error = "") ↔
    ∃ most n, o.limit = some most ∧ Machine.stride most (subject content) = .ok () n
  /-- Every other session fails with the first step that does. -/
  failure : ¬ (report.status = 0 ∧ report.error = "") →
    ∃ n e n', Machine.stride k (subject content) = .ok () n ∧ n.step = .error e n' ∧
      report.status = 1 ∧ report.error = "Error: " ++ e.detail ++ "\n"
  library : LibraryReports content o.limit k result
  words : (sessionEvents content o.limit k result).map Event.read =
    sessionLines content o.limit k result
  closing : (sessionEvents content o.limit k result).filter Event.isClosing = [.machineClosed k]
  /-- It says in the end that the limit is reached exactly if all is well. -/
  finished : Event.finished ∈ sessionEvents content o.limit k result ↔ report.status = 0
  /-- Nothing is left out at the level of tracing. -/
  trace : o.level = some .trace →
    report.output = (sessionEvents content o.limit k result).map Event.line

theorem success_iff (level : Option Level) (events : List Event)
    (h : Machine.Outcome (subject content) o.limit k result) :
    ((reportOf level events result).status = 0 ∧ (reportOf level events result).error = "") ↔
      ∃ most n, o.limit = some most ∧ Machine.stride most (subject content) = .ok () n := by
  rw [← h.finished_iff]
  cases h with
  | finished => exact iff_of_true ⟨rfl, rfl⟩ rfl
  | crashed => exact iff_of_false (fun h => nomatch h.1) nofun

theorem tells_of_outcome (h : Machine.Outcome (subject content) o.limit k result)
    (hwhole : report = reportOf o.level (sessionEvents content o.limit k result) result) :
    Tells o content k result report := by
  subst hwhole
  refine
    { outcome := h
      whole := rfl
      success := success_iff _ _ h
      failure := fun hfails => ?_
      library := library_reports h
      words := read_sessionEvents content o.limit k result
      closing := closings_sessionEvents content o.limit k result
      finished := (finished_mem_iff content o.limit k result).trans ?_
      trace := fun htrace => ?_ }
  · cases h with
    | finished => exact absurd ⟨rfl, rfl⟩ hfails
    | crashed _ hn hstep => exact ⟨_, _, _, hn, hstep, rfl, rfl⟩
  · cases h with
    | finished => exact iff_of_true ⟨_, rfl⟩ rfl
    | crashed => exact iff_of_false nofun nofun
  · have hall (event : Event) : Log.admits { threshold := o.level } event.level = true :=
      Log.admits_of_trace htrace event.level
    exact congrArg (List.map Event.line) (List.filter_eq_self.mpr fun event _ => hall event)

variable {T : Type} {env : Surroundings T} {args : List String} {looks : Looks} {t : T}

/-- A headless session is over when its run is. -/
theorem session?_regular (hargs : env.parse args = .ok o) (hheadless : o.headless = true)
    (hfile : env.files o.program = .regular content) (turns : Nat) :
    env.session? turns looks args t =
      (report? ((launch (machine o Display.steady)
        (ByteStream.ofBytes 4096 content)).after turns)).map fun report =>
          { report, terminal := t } :=
  session?_headless hargs (by rw [hfile, ProgramFile.stream]) hheadless turns looks t

/-- What a headless session reports is the report of its outcome. -/
theorem outcome_of_session {turns : Nat} {departure : Departure T} (hargs : env.parse args = .ok o)
    (hheadless : o.headless = true) (hfile : env.files o.program = .regular content)
    (hended : env.session? turns looks args t = some departure) :
    ∃ k result, Machine.Outcome (subject content) o.limit k result ∧
      departure =
        { report := reportOf o.level (sessionEvents content o.limit k result) result
          terminal := t } := by
  rw [session?_regular hargs hheadless hfile] at hended
  obtain ⟨report, hreport, rfl⟩ := Option.map_eq_some_iff.mp hended
  obtain ⟨k, result, houtcome, hwhole⟩ := outcome_of_ended o content hreport
  exact ⟨k, result, houtcome, by rw [hwhole]⟩

/-- **A headless session reports exactly what its machine did**, and does nothing to the terminal.
It ends if the run has an outcome, which is a matter of the content and the limit alone, and then
status, error and lines are as the outcome has it. Whatever else the arguments say, and wherever
the session takes place, makes no difference to status and error. -/
theorem headless_reports (hargs : env.parse args = .ok o) (hheadless : o.headless = true)
    (hfile : env.files o.program = .regular content) (looks : Looks) (t : T) :
    ((∃ turns departure, env.session? turns looks args t = some departure) ↔
      ∃ k result, Machine.Outcome (subject content) o.limit k result) ∧
    ∀ turns departure, env.session? turns looks args t = some departure →
      (∃ k result, Tells o content k result departure.report) ∧
      departure.terminal = t ∧ departure.brokeDown = false ∧
      ∀ (T' : Type) (env' : Surroundings T') args' o' turns' looks' t' departure',
        env'.parse args' = .ok o' → o'.headless = true → o'.limit = o.limit →
        env'.files o'.program = .regular content →
        env'.session? turns' looks' args' t' = some departure' →
        departure'.report.status = departure.report.status ∧
          departure'.report.error = departure.report.error := by
  refine ⟨⟨?_, ?_⟩, fun turns departure hended => ?_⟩
  · rintro ⟨turns, departure, hended⟩
    obtain ⟨k, result, houtcome, _⟩ := outcome_of_session hargs hheadless hfile hended
    exact ⟨k, result, houtcome⟩
  · intro houtcome
    obtain ⟨turns, report, hreport⟩ := (exists_ended_iff o content).mpr houtcome
    exact ⟨turns, _, by rw [session?_regular hargs hheadless hfile, hreport]; rfl⟩
  · obtain ⟨k, result, houtcome, rfl⟩ := outcome_of_session hargs hheadless hfile hended
    refine ⟨⟨k, result, tells_of_outcome houtcome rfl⟩, rfl, rfl, ?_⟩
    intro T' env' args' o' turns' looks' t' departure' hargs' hheadless' hlimit hfile' hended'
    obtain ⟨k', result', houtcome', rfl⟩ := outcome_of_session hargs' hheadless' hfile' hended'
    rw [hlimit] at houtcome'
    obtain ⟨rfl, rfl⟩ := houtcome'.unique houtcome
    exact ⟨rfl, rfl⟩

/-- A program that calls the host, has an opcode that is unknown and jumps to the last byte of
memory. -/
def callsHost : List UInt8 := [0x01, 0x23, 0xF0, 0x0A, 0x1F, 0xFF]

/-- A command line that has it run, with the log at the level of debugging. -/
def callsHostLine : List String := ["--log-level=debug", "host.ch8"]

/-- What is asked for by that. -/
def callsHostOptions : Options := { program := "host.ch8", level := some .debug }

/-- It crashes in the end, and at the level of debugging nothing is said of single steps. -/
theorem callsHost_reports :
    ∃ turns departure,
      (around 80 24 callsHostLine callsHostOptions (.regular callsHost)).session? turns
        (fun _ => []) (headlessOption :: callsHostLine) {} = some departure ∧
      departure.report.status = 1 ∧ departure.report.error = "Error: OutOfBounds(4096)\n" ∧
      departure.report.output =
        ["INFO  [chip8vm] loaded 6 bytes", "INFO  [chip8vm::machine] running from 0x200",
          "INFO  [chip8vm::interpreter] SYS 0x123",
          "WARN  [chip8vm::interpreter] unrecognised opcode 0xF00A at 0x202",
          "DEBUG [chip8vm::machine] machine closed after 3 steps"] := by
  have hargs : (around 80 24 callsHostLine callsHostOptions (.regular callsHost)).parse
      (headlessOption :: callsHostLine) = .ok { callsHostOptions with headless := true } := by
    decide
  have houtcome : Machine.Outcome (subject callsHost) none 3 (.error (.endOfMemory 4096)) :=
    .crashed nofun rfl rfl
  obtain ⟨hends, htells⟩ := headless_reports hargs rfl rfl (fun _ => []) {}
  obtain ⟨turns, departure, hended⟩ := hends.mpr ⟨_, _, houtcome⟩
  obtain ⟨⟨k, result, htold⟩, _⟩ := htells turns departure hended
  obtain ⟨rfl, rfl⟩ := htold.outcome.unique houtcome
  refine ⟨turns, departure, hended, ?_⟩
  rw [htold.whole]
  exact ⟨rfl, by decide +kernel, by decide +kernel⟩

end Session

end CommandLine

end Chip8
