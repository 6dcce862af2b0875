import Chip8.CommandLine.Sitting
import Chip8.Proofs.Reachable

/-! The watcher and its run.

To the run the watcher is a source of requests (`run_after`). It asks for the end as soon as it
comes upon a key for that, unless it cannot look any more (`asked_iff`), and with the next turn the
run is over, whichever turn that is (`run_of_quit`). Where nobody types, the run goes on as if there
were no watcher (`idle_after`). -/
namespace Chip8

/-! ### Keys -/

/-- The keys that end a session. -/
theorem KeyCode.quits_iff {code : KeyCode} {control : Bool} :
    code.quits control = true ↔
      code = .escape ∨ code = .character 'q' ∨ code = .character 'c' ∧ control = true := by
  cases code <;> simp [quits]

namespace Watcher

/-- Among these looks there is a key that ends the session, and the watcher gets to see it. -/
inductive Quit : List Look → Prop
  | escape (control : Bool) (later : List Look) : Quit (.key .escape control :: later)
  | q (control : Bool) (later : List Look) : Quit (.key (.character 'q') control :: later)
  | controlC (later : List Look) : Quit (.key (.character 'c') true :: later)
  | later {look : Look} {later : List Look} (hfailed : look ≠ .failed)
      (hpanicked : look ≠ .panicked) (h : Quit later) : Quit (look :: later)

theorem Quit.of_quits {code : KeyCode} {control : Bool} (h : code.quits control = true)
    (later : List Look) : Quit (.key code control :: later) := by
  rcases KeyCode.quits_iff.mp h with hcode | hcode | ⟨hcode, hcontrol⟩
  · rw [hcode]
    exact .escape control later
  · rw [hcode]
    exact .q control later
  · rw [hcode, hcontrol]
    exact .controlC later

theorem quit_cons_iff {look : Look} {later : List Look} :
    Quit (look :: later) ↔
      watching.see look = asked ∨ watching.see look = watching ∧ Quit later := by
  constructor
  · intro h
    cases h with
    | escape | q | controlC => exact .inl rfl
    | later hfailed hpanicked h =>
      cases look with
      | key code control =>
        cases hquits : code.quits control with
        | true => exact .inl (if_pos hquits)
        | false => exact .inr ⟨if_neg (Bool.eq_false_iff.mp hquits), h⟩
      | failed => exact absurd rfl hfailed
      | panicked => exact absurd rfl hpanicked
      | _ => exact .inr ⟨rfl, h⟩
  · intro h
    rcases h with hasked | ⟨hwatching, h⟩
    · cases look with
      | key code control =>
        cases hquits : code.quits control with
        | true => exact .of_quits hquits later
        | false =>
          rw [see, if_neg (Bool.eq_false_iff.mp hquits)] at hasked
          cases hasked
      | _ => cases hasked
    · cases look with
      | failed | panicked => cases hwatching
      | _ => exact .later nofun nofun h

/-- Only a watcher that still watches sees anything. -/
theorem seeAll_of_ne {w : Watcher} (h : w ≠ watching) (looks : List Look) : w.seeAll looks = w := by
  induction looks with
  | nil => rfl
  | cons look rest ih =>
    cases w with
    | watching => exact absurd rfl h
    | asked | gone | panicked => exact ih

/-- **The watcher asks for the end exactly if it gets to see a key for that.** -/
theorem asked_iff (looks : List Look) : watching.seeAll looks = asked ↔ Quit looks := by
  induction looks with
  | nil => exact iff_of_false nofun nofun
  | cons look later ih =>
    rw [quit_cons_iff]
    show (watching.see look).seeAll later = asked ↔ _
    cases watching.see look with
    | watching => simp [ih]
    | asked | gone | panicked => simp [seeAll_of_ne]

end Watcher

/-! ### Turns -/

namespace CommandLine.Sitting
variable (looks : Looks)

/-- Before which turns the watcher has the run asked to end. -/
def requests : Nat → Sitting → List Bool
  | 0, _ => []
  | turns + 1, s => decide ((s.watch looks).watcher = .asked) :: requests turns (s.turn looks)

theorem run_turn {s : Sitting} {steps : Nat} {m : Machine} (h : s.run = .going steps m) :
    (s.turn looks).run =
      Run.turn
        (.going steps (if decide ((s.watch looks).watcher = .asked) then m.cancel else m)) := by
  simp only [turn, watch, h, decide_eq_true_eq]

theorem turns_turn (s : Sitting) : (s.turn looks).turns = s.turns + 1 := by
  unfold turn watch
  cases s.run <;> rfl

theorem after_ended {s : Sitting} {result : Except Fault Ending} {m : Machine}
    (h : s.run = .ended result m) (turns : Nat) : s.after looks turns = s := by
  cases turns with
  | zero => rfl
  | succ turns => simp only [after, h]

theorem after_going {s : Sitting} {steps : Nat} {m : Machine} (h : s.run = .going steps m)
    (turns : Nat) : s.after looks (turns + 1) = (s.turn looks).after looks turns := by
  simp only [after, h]

/-- A sitting follows its run under the requests of the watcher. -/
theorem run_after (turns : Nat) (s : Sitting) :
    (s.after looks turns).run = s.run.under (s.requests looks turns) := by
  induction turns generalizing s with
  | zero => cases h : s.run <;> simp only [after, requests, Run.under, h]
  | succ turns ih =>
    cases h : s.run with
    | ended result m =>
      rw [after_ended looks h, h]
      rfl
    | going steps m =>
      rw [after_going looks h, ih, run_turn looks h]
      rfl

/-- One more turn of a run that is not over. -/
theorem after_succ (turns : Nat) {s : Sitting} {steps : Nat} {m : Machine}
    (h : (s.after looks turns).run = .going steps m) :
    s.after looks (turns + 1) = (s.after looks turns).turn looks ∧
      (s.after looks turns).turns = s.turns + turns := by
  induction turns generalizing s with
  | zero =>
    have hrun : s.run = .going steps m := h
    exact ⟨after_going looks hrun 0, rfl⟩
  | succ turns ih =>
    cases hrun : s.run with
    | ended result last =>
      rw [after_ended looks hrun, hrun] at h
      cases h
    | going before n =>
      rw [after_going looks hrun] at h
      obtain ⟨hnext, hturns⟩ := ih h
      rw [turns_turn] at hturns
      rw [after_going looks hrun, after_going looks hrun]
      exact ⟨hnext, by omega⟩

/-- **A key that ends the session ends the run before its next turn**, whichever that is. -/
theorem run_of_quit {s : Sitting} {steps : Nat} {m : Machine} (h : s.run = .going steps m)
    (hwatching : s.watcher = .watching) (hquit : Watcher.Quit (looks s.turns)) :
    (s.turn looks).run = .ended (.ok .cancelled) (m.cancel.record (.cancelled steps)) := by
  have hasked : (s.watch looks).watcher = .asked := by
    simp only [watch, h, hwatching]
    exact (Watcher.asked_iff _).mpr hquit
  rw [run_turn looks h, hasked]
  exact Run.turn_of_cancelled rfl

end CommandLine.Sitting

/-! ### A terminal where nobody types -/

/-- It is no key, and nothing has broken down over it. -/
def Look.isIdle : Look → Bool
  | key .. | panicked => false
  | _ => true

/-- The watcher has seen nothing to end a session for, and nothing that it could not bear. -/
def Watcher.Idle (w : Watcher) : Prop := w ≠ asked ∧ w ≠ panicked

theorem Watcher.idle_watching : Idle watching := ⟨nofun, nofun⟩

theorem Watcher.idle_see {w : Watcher} (hw : w.Idle) {look : Look} (hlook : look.isIdle = true) :
    (w.see look).Idle := by
  cases w with
  | watching =>
    cases look with
    | key code control => cases hlook
    | panicked => cases hlook
    | _ => exact ⟨nofun, nofun⟩
  | asked => exact absurd rfl hw.1
  | panicked => exact absurd rfl hw.2
  | gone => cases look <;> exact ⟨nofun, nofun⟩

theorem Watcher.idle_seeAll {w : Watcher} (hw : w.Idle) {looks : List Look}
    (hlooks : ∀ look ∈ looks, look.isIdle = true) : (w.seeAll looks).Idle := by
  induction looks generalizing w with
  | nil => exact hw
  | cons look rest ih =>
    exact ih (idle_see hw (hlooks look List.mem_cons_self)) fun later hlater =>
      hlooks later (List.mem_cons_of_mem look hlater)

namespace CommandLine

/-- Nobody types anything. -/
def Idle (looks : Looks) : Prop := ∀ turn, ∀ look ∈ looks turn, look.isIdle = true

namespace Sitting
variable {looks : Looks} (hlooks : Idle looks)
include hlooks

theorem idle_watch {s : Sitting} (hs : s.watcher.Idle) : (s.watch looks).watcher.Idle := by
  have hseen := Watcher.idle_seeAll hs (hlooks s.turns)
  unfold watch
  split
  · exact hseen
  · exact hseen

/-- The sitting follows its run, turn by turn. -/
theorem idle_after {s : Sitting} (hs : s.watcher.Idle) (turns : Nat) :
    (s.after looks turns).watcher.Idle ∧ (s.after looks turns).run = s.run.after turns := by
  induction turns generalizing s with
  | zero => cases hrun : s.run <;> exact ⟨hs, hrun⟩
  | succ turns ih =>
    cases hrun : s.run with
    | ended result m =>
      rw [after_ended looks hrun, hrun]
      exact ⟨hs, (Run.after_ended _ _ _).symm⟩
    | going steps m =>
      have hwatch := idle_watch hlooks hs
      obtain ⟨hafter, hafterRun⟩ := ih (s := s.turn looks) hwatch
      have hturn : (s.turn looks).run = Run.turn (.going steps m) := by
        rw [run_turn looks hrun, decide_eq_false hwatch.1]
        rfl
      rw [after_going looks hrun]
      exact ⟨hafter, hafterRun.trans (congrArg (Run.after turns) hturn)⟩

end Sitting

end CommandLine

end Chip8
