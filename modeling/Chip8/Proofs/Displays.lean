import Chip8.Proofs.InMemory
import Chip8.Proofs.Launching
import Chip8.Proofs.Likeness

/-! Programs do not see the display.

Displays that always clear and never cancel are all the same to a machine, however often they were
asked (`Host.likeness_sameButDisplay`). The display on a terminal that works is one of these, so a
session that shows it goes through the same turns as one without, as long as nobody types, although
the one draws, watches for keys and puts the terminal back and the other does not; and they end
alike, be it at the limit, with a crash or for a directory that cannot be read
(`display_unobserved`). -/
namespace Chip8

/-! ### Machines -/

/-- The display always does what it is asked, and never asks for the end of a run. -/
structure Display.Quiet (d : Display) : Prop where
  obeys : ∀ n, (d n).failure = none
  patient : ∀ n, (d n).cancels = false

/-- Hosts that agree in all but their quiet displays and what these have been asked. -/
structure Host.SameButDisplay (h h' : Host) : Prop where
  cancelled : h.cancelled = h'.cancelled
  log : h.log = h'.log
  left : h.display.Quiet
  right : h'.display.Quiet

theorem Host.likeness_sameButDisplay : Likeness SameButDisplay where
  failure hh := (hh.left.obeys _).trans (hh.right.obeys _).symm
  cancelled hh := hh.cancelled
  record event hh := ⟨hh.cancelled, congrArg (·.record event) hh.log, hh.left, hh.right⟩
  clear {h h'} hh := by
    rw [clear_eq, clear_eq]
    refine ⟨?_, hh.log, hh.left, hh.right⟩
    show (h.cancelled || _) = (h'.cancelled || _)
    rw [hh.cancelled, hh.left.patient, hh.right.patient]
  token _ hh := ⟨rfl, hh.log, hh.left, hh.right⟩

namespace CommandLine

/-! ### Two sessions -/

/-- All that a session tells: its report, and whether anything has broken down. -/
def Departure.told {T : Type} (d : Departure T) : Report × Bool := (d.report, d.brokeDown)

variable {T : Type} {env : Surroundings T} {width height : Nat} {args : List String} {o : Options}
  {stream : ByteStream} {looks : Looks}

/-- A run that is over does not come to anything else later. -/
theorem report?_after_le {r : Run} {turns later : Nat} {report : Report} (hle : turns ≤ later)
    (h : report? (r.after turns) = some report) : report? (r.after later) = some report := by
  obtain ⟨more, rfl⟩ := Nat.exists_eq_add_of_le hle
  cases hrun : r.after turns with
  | going steps m =>
    rw [hrun] at h
    cases h
  | ended result m => rw [Run.after_add, hrun, Run.after_ended, ← hrun, h]

theorem report?_unique {r : Run} {turns turns' : Nat} {report report' : Report}
    (h : report? (r.after turns) = some report) (h' : report? (r.after turns') = some report') :
    report = report' := by
  have hlate := report?_after_le (Nat.le_max_left turns turns') h
  have hlate' := report?_after_le (Nat.le_max_right turns turns') h'
  exact Option.some.inj (hlate.symm.trans hlate')

/-- A headless session tells what its run reports. -/
theorem told_headless (hargs : env.parse args = .ok o)
    (hfile : (env.files o.program).stream = .ok stream) (hheadless : o.headless = true)
    (turns : Nat) (looks : Looks) (t : T) :
    (env.session? turns looks args t).map Departure.told =
      (report? ((launch (machine o Display.steady) stream).after turns)).map (·, false) := by
  rw [session?_headless hargs hfile hheadless, Option.map_map]
  rfl

/-- So does a session with a display, if nobody types. -/
theorem told_displayed (hworks : env.tty.Works width height) (hroom : env.tty.HasRoom width height)
    (hargs : env.parse args = .ok o) (hfile : (env.files o.program).stream = .ok stream)
    (hheadless : o.headless = false) (hlooks : Idle looks) (turns : Nat) (t : T) :
    (env.session? turns looks args t).map Departure.told =
      (report? ((launch (machine o Display.steady) stream).after turns)).map (·, false) := by
  obtain ⟨_, _, _, d, _, _, _, _, _, hsession⟩ :=
    session?_displayed hworks hroom hargs hfile hheadless t
  rw [hsession, sitting_eq hworks hroom]
  -- From here on it matters only what the sitting has come to, not how.
  generalize hs : Sitting.after looks turns { run := launch (machine o Display.steady) stream } = s
  obtain ⟨hwatcher, hrun⟩ : s.watcher.Idle ∧
      s.run = (launch (machine o Display.steady) stream).after turns := by
    rw [← hs]
    exact Sitting.idle_after hlooks Watcher.idle_watching turns
  rw [← hrun]
  cases hend : s.run with
  | going steps m => simp only [departure?, hend, report?, Option.map_none]
  | ended result m =>
    obtain ⟨t', _, hdeparture⟩ := departure?_ended hworks hroom looks hend d
    have hcalm := (Sitting.idle_watch hlooks hwatcher).2
    rw [hdeparture]
    simp only [Option.map_some, Departure.told, hcalm, if_false, report?, conclude, decide_false]

section Alike
variable {args' : List String} (hworks : env.tty.Works width height)
  (hroom : env.tty.HasRoom width height) (hargs : env.parse args = .ok o)
  (hheadless : o.headless = false) (hfile : (env.files o.program).stream = .ok stream)
  (hlooks : Idle looks) (hargs' : env.parse args' = .ok { o with headless := true })
include hworks hroom hargs hheadless hfile hlooks hargs'

/-- Without its display, a session tells the same after as many turns. -/
theorem told_alike (turns : Nat) (looks' : Looks) (t t' : T) :
    (env.session? turns looks args t).map Departure.told =
      (env.session? turns looks' args' t').map Departure.told := by
  rw [told_displayed hworks hroom hargs hfile hheadless hlooks, told_headless hargs' hfile rfl]
  rfl

/-- When both are over they have told the same, however many turns that took. -/
theorem told_unique {turns turns' : Nat} {looks' : Looks} {t t' : T}
    {departure departure' : Departure T}
    (h : env.session? turns looks args t = some departure)
    (h' : env.session? turns' looks' args' t' = some departure') :
    departure.told = departure'.told := by
  have htold := told_displayed hworks hroom hargs hfile hheadless hlooks turns t
  have htold' := told_headless hargs' hfile rfl turns' looks' t'
  rw [h] at htold
  rw [h'] at htold'
  obtain ⟨report, hreport, htold⟩ := Option.map_eq_some_iff.mp htold.symm
  obtain ⟨report', hreport', htold'⟩ := Option.map_eq_some_iff.mp htold'.symm
  have hsame : report = report' := report?_unique hreport hreport'
  rw [← htold, ← htold', hsame]

end Alike

/-! ### Both -/

/-- **The choice of display cannot be observed by a program.** Machines that differ in nothing but
quiet displays answer every sequence of operations alike, and stay alike, log and all. And on a
terminal that works and has room for the display, every session that shows it where nobody types
tells, after every number of turns, what the session tells that does not: nothing yet as long as
the run goes on, and then the same report, which is all it ever tells. -/
theorem display_unobserved :
    (∀ m n : Machine, Machine.Like Host.SameButDisplay m n → ∀ ops : List Operation,
      m.answers ops = n.answers ops ∧
        Machine.Like Host.SameButDisplay (ops.foldl Machine.perform m)
          (ops.foldl Machine.perform n)) ∧
    ∀ (T : Type) (env : Surroundings T) (width height : Nat) (args : List String) (o : Options)
      (stream : ByteStream) (looks : Looks) (t : T),
      env.tty.Works width height → env.tty.HasRoom width height → env.parse.TakesHeadless →
      env.parse args = .ok o → o.headless = false → (env.files o.program).stream = .ok stream →
      Idle looks →
      (∃ t₁ d, env.tty.enableRaw t = .ok () t₁ ∧
        TerminalDisplay.new env.tty Canvas.display t₁ = .ok d ∧ (d.display env.tty).Quiet) ∧
      (∃ o', env.parse (headlessOption :: args) = .ok o') ∧
      ∀ before after o', args = before ++ after →
        env.parse (before ++ headlessOption :: after) = .ok o' →
        ∀ looks' t',
          (∀ turns,
            (env.session? turns looks args t).map Departure.told =
              (env.session? turns looks' (before ++ headlessOption :: after) t').map
                Departure.told) ∧
          ∀ turns turns' departure departure',
            env.session? turns looks args t = some departure →
            env.session? turns' looks' (before ++ headlessOption :: after) t' = some departure' →
            departure.told = departure'.told := by
  refine ⟨fun m n h ops => ?_, ?_⟩
  · exact ⟨Machine.answers_eq Host.likeness_sameButDisplay h ops,
      Machine.performAll_alike Host.likeness_sameButDisplay h ops⟩
  · intro T env width height args o stream looks t hworks hroom hparse hargs hheadless hfile hlooks
    refine ⟨?_, hparse.first hargs hheadless, ?_⟩
    · obtain ⟨t₁, hraw⟩ := hworks.enableRaw t
      obtain ⟨_, _, t', _, _, _, hnew⟩ := TerminalDisplay.new_ok hworks hroom t₁
      refine ⟨t₁, _, hraw, hnew, ?_⟩
      rw [TerminalDisplay.display_eq_steady hworks hroom]
      exact ⟨fun _ => rfl, fun _ => rfl⟩
    · intro before after o' hsplit hargs' looks' t'
      subst hsplit
      have ho' := hparse.added hargs hheadless hargs'
      subst ho'
      refine ⟨fun turns => ?_, fun turns turns' departure departure' h h' => ?_⟩
      · exact told_alike hworks hroom hargs hheadless hfile hlooks hargs' turns looks' t t'
      · exact told_unique hworks hroom hargs hheadless hfile hlooks hargs' h h'

/-- A program that clears the screen. -/
def clearsOnce : List UInt8 := [0x00, 0xE0]

/-- What is asked for by `--max-steps=1 once.ch8`. -/
def onceOptions : Options := { program := "once.ch8", limit := some 1 }

/-- The smallest terminal, and that command line. -/
def onceAround : Surroundings (Screen 66 34) :=
  around 66 34 ["--max-steps=1", "once.ch8"] onceOptions (.regular clearsOnce)

/-- What is told of one step that clears the screen. -/
def onceTold : Report × Bool :=
  ({ status := 0
     output := ["INFO  [chip8vm] loaded 2 bytes", "INFO  [chip8vm::machine] running from 0x200",
       "INFO  [chip8vm] step limit reached"] },
    false)

/-- With a display that has been asked before, and at a terminal, where it is drawn on. -/
theorem clearsOnce_unobserved :
    (∀ ops, (Machine.ofProgram clearsOnce {}).answers ops =
      (Machine.ofProgram clearsOnce { calls := 7, clears := 7 }).answers ops) ∧
    ∃ departure, onceAround.session? 2 (fun _ => [.nothing]) ["--max-steps=1", "once.ch8"] {} =
      some departure ∧ departure.told = onceTold := by
  obtain ⟨hmachines, hsessions⟩ := display_unobserved
  constructor
  · have hlike : Machine.Like Host.SameButDisplay (.ofProgram clearsOnce {})
        (.ofProgram clearsOnce { calls := 7, clears := 7 }) :=
      ⟨rfl, rfl, rfl, rfl, rfl, rfl, ⟨fun _ => rfl, fun _ => rfl⟩, ⟨fun _ => rfl, fun _ => rfl⟩⟩
    exact fun ops => (hmachines _ _ hlike ops).1
  · have hplain : headlessOption ∉ ["--max-steps=1", "once.ch8"] := by decide
    have hargs : onceAround.parse ["--max-steps=1", "once.ch8"] = .ok onceOptions :=
      understands_plain hplain rfl
    have hargs' : onceAround.parse (["--max-steps=1"] ++ headlessOption :: ["once.ch8"]) =
      .ok { onceOptions with headless := true } := rfl
    have hstream : (ProgramFile.regular clearsOnce).stream = .ok [.bytes clearsOnce] := by
      simp [clearsOnce, ProgramFile.stream, ByteStream.ofBytes, pieces]
    have hidle : Idle fun _ => [.nothing] := by
      intro _ look hlook
      rw [List.mem_singleton.mp hlook]
      rfl
    have hroom : onceAround.tty.HasRoom 66 34 :=
      Screen.hasRoom_tty (by decide) (by decide) (by decide)
    obtain ⟨_, _, halike⟩ := hsessions _ onceAround 66 34 _ _ _ _ {} Screen.works_tty hroom
      (takesHeadless_understands _ _) hargs rfl hstream hidle
    have htold := (halike ["--max-steps=1"] ["once.ch8"] _ rfl hargs' (fun _ => []) {}).1 2
    rw [told_headless hargs' hstream rfl] at htold
    have hreport : (report? ((launch (machine { onceOptions with headless := true } Display.steady)
        [.bytes clearsOnce]).after 2)).map (·, false) = some onceTold := by decide +kernel
    exact Option.map_eq_some_iff.mp (htold.trans hreport)

end CommandLine

end Chip8
