import Chip8.Proofs.Delivery
import Chip8.Proofs.Launching
import Chip8.Proofs.Lifecycle
import Chip8.Proofs.Undisturbed

/-! Sessions that nobody disturbs.

What such a session leaves can be written down from the content of its file, the limit and the
outcome of the run: all that is reported between loading and the end, in order (`sessionEvents`),
and the result. The threshold of the log takes lines away, and the report is made of that
(`outcome_of_ended`). How many turns it takes and at what pace is nowhere in it. -/
namespace Chip8

theorem ByteStream.readAll_ofBytes (chunk : Nat) (hchunk : 0 < chunk) (data : List UInt8) :
    ∃ left, (ofBytes chunk data).readAll = (.ok data, left) := by
  have h := delivers_ofBytes hchunk data .silent
  rw [List.append_nil, List.append_nil] at h
  exact h.readAll_eq

/-! ### What a run reports of itself -/

/-- The event is one that steps and runs report. -/
def Event.isOfRun : Event → Bool
  | executing .. | systemCall _ | unknownOpcode .. => true
  | running _ | cancelled _ | limitReached _ => true
  | _ => false

theorem Instruction.isOfRun_report (pc : UInt16) (i : Instruction) :
    ∀ event ∈ i.report pc, event.isOfRun = true := by
  cases i <;> simp [report, Event.isOfRun]

namespace Machine

theorem isOfRun_report (m : Machine) : ∀ event ∈ m.report, event.isOfRun = true := by
  unfold report
  split
  · unfold Memory.report
    split
    · nofun
    · exact Instruction.isOfRun_report _ _
  · nofun

theorem isOfRun_runReport (m : Machine) (memory : Memory) (requests : Nat → Bool) (k : Nat)
    (result : Except Fault Ending) :
    ∀ event ∈ m.runReport memory requests k result, event.isOfRun = true := by
  intro event hevent
  rw [runReport, List.mem_append, List.mem_cons] at hevent
  rcases hevent with (rfl | hstep) | hend
  · rfl
  · obtain ⟨j, _, hj⟩ := List.mem_flatMap.mp hstep
    cases hn : m.standing requests j with
    | none =>
      rw [hn] at hj
      cases hj
    | some n =>
      rw [hn] at hj
      exact n.isOfRun_report event hj
  · cases result with
    | error e => cases hend
    | ok ending =>
      cases ending with
      | cancelled =>
        rw [List.mem_singleton.mp hend]
        rfl
      | limitReached =>
        obtain ⟨most, _, rfl⟩ := List.mem_map.mp hend
        rfl

end Machine

namespace CommandLine

/-! ### What there is to report -/

section Events
variable (content : List UInt8) (limit : Option Nat) (k : Nat) (result : Except Fault Ending)

/-- The machine that a session is about: a new one with the content for its program. -/
def subject : Machine := .ofProgram content {}

def loadEvents : List Event := (Memory.blank.load content).1.events

def runEvents : List Event :=
  ((subject content).withSettings { limit }).runReport (Memory.blank.load content).2
    (fun _ => false) k result

/-- What comes after the run. The machine is closed in any case. -/
def endEvents : List Event :=
  .machineClosed k ::
    match result with
    | .ok _ => [.finished]
    | .error _ => []

/-- All that a session reports whose run makes so many steps and has this result. -/
def sessionEvents : List Event :=
  loadEvents content ++ .fileLoaded (min content.length 3584) ::
    runEvents content limit k result ++ endEvents k result

end Events

/-! ### The run -/

theorem limit_settings (o : Options) : o.settings.limit = o.limit := by
  unfold Options.settings
  cases o.limit <;> rfl

/-- A machine that begins with the content and that nobody will disturb. -/
structure Begins (content : List UInt8) (limit : Option Nat) (m : Machine) : Prop where
  same : Machine.Matches m (subject content)
  limit : m.settings.limit = limit
  calm : m.host.Calm

section Begins
variable {content : List UInt8} {limit : Option Nat} {m last : Machine} {turns : Nat}
  {result : Except Fault Ending}

/-- One that has just been loaded does. -/
theorem begins_load (content : List UInt8) (settings : Settings) (log : Log) :
    Begins content settings.limit
      (((Machine.unloaded { log }).withSettings settings).start (Memory.blank.load content)) :=
  ⟨⟨⟨rfl, rfl, rfl⟩, fun _ => rfl, fun _ => rfl⟩, rfl, rfl, fun _ => rfl⟩

theorem Begins.record (h : Begins content limit m) (event : Event) :
    Begins content limit (m.record event) :=
  ⟨⟨⟨h.same.phase, h.same.processor, h.same.steps⟩, h.same.host⟩, h.limit, h.calm.token,
    h.calm.display⟩

theorem Begins.phase (h : Begins content limit m) :
    m.phase = .ready (Memory.blank.load content).2 := h.same.phase

theorem Begins.free (h : Begins content limit m) : Machine.Free m :=
  ⟨⟨⟨_, h.phase⟩, h.same.host.1⟩, h.calm⟩

theorem Begins.ended (h : Begins content limit m)
    (hended : (Run.start m).after turns = .ended result last) :
    ∃ k, Machine.Outcome (subject content) limit k result ∧ last.phase ≠ .closed ∧ last.steps = k ∧
      last.host.log = m.host.log.recordAll (runEvents content limit k result) := by
  obtain ⟨k, houtcome, hphase, hsteps, hlog⟩ := Machine.undisturbed_of_ended h.free h.phase hended
  have hsubject : Machine.Matches m ((subject content).withSettings { limit }) :=
    ⟨⟨h.same.phase, h.same.processor, h.same.steps⟩, h.same.host⟩
  rw [h.limit] at houtcome
  rw [Machine.runReport_congr hsubject h.limit] at hlog
  refine ⟨k, houtcome.congr h.same, hphase, ?_, hlog⟩
  rw [hsteps, h.same.steps]
  exact Nat.zero_add k

theorem Begins.ended_iff (h : Begins content limit m) :
    (∃ turns last, (Run.start m).after turns = .ended result last) ↔
      ∃ k, Machine.Outcome (subject content) limit k result := by
  rw [Machine.ended_iff_outcome h.free h.phase, h.limit]
  exact exists_congr fun k => ⟨.congr h.same, .congr h.same.symm⟩

end Begins

/-! ### The report -/

/-- The report of a session with this threshold that has reported these events and ends with this
result. -/
def reportOf (level : Option Level) (events : List Event) (result : Except Fault Ending) :
    Report where
  status :=
    match result with
    | .ok _ => 0
    | .error _ => 1
  output := (Log.admitted { threshold := level } events).map Event.line
  error :=
    match result with
    | .ok _ => ""
    | .error e => "Error: " ++ e.detail ++ "\n"

section Report
variable {level : Option Level} {events : List Event} {m : Machine} {k : Nat}
  {result : Except Fault Ending}

theorem lines_of_log (h : m.host.log = Log.recordAll { threshold := level } events) :
    lines m = (Log.admitted { threshold := level } events).map Event.line := by
  rw [lines, h, Log.toList_recordAll]
  rfl

/-- The machine is closed, and that is reported as well. -/
theorem conclude_eq (hopen : m.phase ≠ .closed) (hsteps : m.steps = k)
    (hresult : result ≠ .ok .cancelled)
    (hlog : m.host.log = Log.recordAll { threshold := level } events) :
    conclude result m = reportOf level (events ++ endEvents k result) result := by
  have hclosed : m.close.host.log =
      Log.recordAll { threshold := level } (events ++ [.machineClosed k]) := by
    rw [Machine.close_of_open hopen, Log.recordAll_append, ← hlog, ← hsteps]
    rfl
  match result with
  | .error e =>
    rw [conclude, finish, Report.failure, lines_of_log hclosed]
    rfl
  | .ok .limitReached =>
    have hfinished : (m.close.record .finished).host.log =
        Log.recordAll { threshold := level } (events ++ endEvents k (.ok .limitReached)) := by
      show m.close.host.log.record .finished = _
      rw [hclosed, Log.recordAll_append, Log.recordAll_append]
      rfl
    rw [conclude, finish, lines_of_log hfinished]
    rfl
  | .ok .cancelled => exact absurd rfl hresult

end Report

/-! ### Sessions -/

/-- What a session begins its run with. -/
def launched (o : Options) (content : List UInt8) : Machine :=
  ((machine o Display.steady).start (Memory.blank.load content)).record
    (.fileLoaded (min content.length 3584))

section Session
variable (o : Options) (content : List UInt8) {turns : Nat} {report : Report}

theorem begins_launched : Begins content o.limit (launched o content) := by
  rw [← limit_settings]
  exact (begins_load content o.settings _).record _

theorem log_launched : (launched o content).host.log =
    Log.recordAll { threshold := o.level }
      (loadEvents content ++ [.fileLoaded (min content.length 3584)]) := by
  rw [Log.recordAll_append]
  rfl

theorem launch_regular :
    launch (machine o Display.steady) (ByteStream.ofBytes 4096 content) =
      Run.start (launched o content) := by
  obtain ⟨left, hread⟩ := ByteStream.readAll_ofBytes 4096 (by decide) content
  rw [launch_ok rfl hread]
  rfl

/-- **A session that is over has come to what its content and its limit have in store**, and
reports that. -/
theorem outcome_of_ended
    (hended : report? ((launch (machine o Display.steady)
      (ByteStream.ofBytes 4096 content)).after turns) = some report) :
    ∃ k result, Machine.Outcome (subject content) o.limit k result ∧
      report = reportOf o.level (sessionEvents content o.limit k result) result := by
  rw [launch_regular] at hended
  cases hrun : (Run.start (launched o content)).after turns with
  | going steps m =>
    rw [hrun] at hended
    cases hended
  | ended result last =>
    rw [hrun] at hended
    obtain ⟨k, houtcome, hopen, hsteps, hlog⟩ := (begins_launched o content).ended hrun
    have hresult : result ≠ .ok .cancelled := by
      rintro rfl
      cases houtcome
    rw [log_launched, ← Log.recordAll_append] at hlog
    refine ⟨k, result, houtcome, ?_⟩
    rw [← Option.some.inj hended, conclude_eq hopen hsteps hresult hlog, sessionEvents]
    simp only [List.append_assoc, List.cons_append, List.nil_append]

theorem exists_ended_iff :
    (∃ turns report, report? ((launch (machine o Display.steady)
      (ByteStream.ofBytes 4096 content)).after turns) = some report) ↔
      ∃ k result, Machine.Outcome (subject content) o.limit k result := by
  constructor
  · rintro ⟨turns, report, hended⟩
    obtain ⟨k, result, houtcome, _⟩ := outcome_of_ended o content hended
    exact ⟨k, result, houtcome⟩
  · rintro ⟨k, result, houtcome⟩
    obtain ⟨turns, last, hended⟩ := (begins_launched o content).ended_iff.mpr ⟨k, houtcome⟩
    rw [launch_regular]
    exact ⟨turns, _, by rw [hended]; rfl⟩

end Session

end CommandLine

end Chip8
