import Chip8.Proofs.Reachable

/-! Machines that cannot be told apart.

A machine reads two things off its host: how the display answers, and whether the run is
to end. A relation between hosts that agree in both, and that nothing a machine does to
its host leads out of, is a `Host.Likeness`. (A single step does not look at the token, and
`Host.StepLikeness` and `step_twin` do without it.) Two machines that differ in nothing but such
hosts are alike for ever: a step, a run and every other operation answer the same on both
and leave them alike (`step_alike`, `under_alike`, `answers_eq`). So the log, for one, is
only ever written (`Host.likeness_sameButLog`), and of the display only the answers that
are still to come count (`Host.likeness_alike`). -/
namespace Chip8

/-! ### Hosts -/

/-- A relation between hosts that no step can tell apart, now or later. -/
structure Host.StepLikeness (R : Host → Host → Prop) : Prop where
  failure : ∀ {h h'}, R h h' →
    (h.display (h.calls + 1)).failure = (h'.display (h'.calls + 1)).failure
  record : ∀ {h h'} (event : Event), R h h' → R (h.record event) (h'.record event)
  clear : ∀ {h h'}, R h h' → R h.clear.2 h'.clear.2

/-- A relation between hosts that no machine can tell apart, now or later. -/
structure Host.Likeness (R : Host → Host → Prop) : Prop extends Host.StepLikeness R where
  cancelled : ∀ {h h'}, R h h' → h.cancelled = h'.cancelled
  token : ∀ {h h'} (cancelled : Bool), R h h' → R { h with cancelled } { h' with cancelled }

namespace Host

variable {R : Host → Host → Prop} {h h' : Host}

theorem Likeness.recordAll (hR : Likeness R) (hh : R h h') (events : List Event) :
    R (h.recordAll events) (h'.recordAll events) := by
  induction events generalizing h h' with
  | nil => exact hh
  | cons event rest ih => exact ih (hR.record event hh)

theorem StepLikeness.observe (hR : StepLikeness R) (hh : R h h') (pc : UInt16) (i : Instruction) :
    R (h.observe pc i) (h'.observe pc i) := by
  have hexecuting := hR.record (.executing pc i) hh
  cases i with
  | clearScreen => exact hR.clear hexecuting
  | system target => exact hR.record _ hexecuting
  | unknown op => exact hR.record _ hexecuting
  | _ => exact hexecuting

/-- Two hosts that have seen and done the same, whatever they wrote down of it. -/
def SameButLog (h h' : Host) : Prop := h' = { h with log := h'.log }

theorem sameButLog_record (h : Host) (event : Event) : SameButLog h (h.record event) := rfl

theorem likeness_sameButLog : Likeness SameButLog where
  failure hh := by rw [hh]
  cancelled hh := by rw [hh]
  record event hh := by
    rw [hh]
    rfl
  clear hh := by
    rw [hh, clear_eq, clear_eq]
    rfl
  token cancelled hh := by
    rw [hh]
    rfl

/-- Two hosts whose displays will give the same answers from now on, however often they
were asked before. -/
structure Alike (h h' : Host) : Prop where
  display : ∀ n, h.display (h.calls + 1 + n) = h'.display (h'.calls + 1 + n)
  cancelled : h.cancelled = h'.cancelled

theorem likeness_alike : Likeness Alike where
  failure hh := congrArg Reply.failure (hh.display 0)
  cancelled hh := hh.cancelled
  record _ hh := ⟨hh.display, hh.cancelled⟩
  clear {h h'} hh := by
    rw [clear_eq, clear_eq]
    refine ⟨fun n => ?_, ?_⟩
    · have hnext := hh.display (n + 1)
      rwa [Nat.add_comm n 1, ← Nat.add_assoc, ← Nat.add_assoc] at hnext
    · have hcancels : (h.display (h.calls + 1)).cancels = (h'.display (h'.calls + 1)).cancels :=
        congrArg Reply.cancels (hh.display 0)
      show (h.cancelled || _) = (h'.cancelled || _)
      rw [hh.cancelled, hcancels]
  token _ hh := ⟨hh.display, rfl⟩

end Host

/-! ### Steps -/

/-- The same answer of two actions, with states that are related. -/
inductive Agree {ε σ α : Type} (S : σ → σ → Prop) :
    EStateM.Result ε σ α → EStateM.Result ε σ α → Prop
  | ok (a : α) {s s' : σ} (h : S s s') : Agree S (.ok a s) (.ok a s')
  | error (e : ε) {s s' : σ} (h : S s s') : Agree S (.error e s) (.error e s')

section Agree
variable {ε σ α : Type} {S : σ → σ → Prop} {r r' : EStateM.Result ε σ α}

theorem Agree.result (h : Agree S r r') : resultOf r = resultOf r' := by
  cases h <;> rfl

theorem Agree.state (h : Agree S r r') : S (stateOf r) (stateOf r') := by
  cases h <;> assumption

end Agree

namespace Instruction

/-- Whether the display fails is all that an instruction can find in its way there. -/
theorem obstacle_congr {reply reply' : Reply} (h : reply.failure = reply'.failure) (s : Core)
    (i : Instruction) : i.obstacle reply s = i.obstacle reply' s := by
  cases i with
  | clearScreen => exact congrArg (Option.map Fault.display) h
  | _ => rfl

end Instruction

variable {R : Host → Host → Prop}

namespace Board

/-- What steps make of two boards that have the same instruction at their cursors and the same in
its way. -/
inductive Outcomes (b c : Board) :
    EStateM.Result Fault Board Instruction → EStateM.Result Fault Board Instruction → Prop
  | unfetched (e : Fault) : Outcomes b c (.error e b) (.error e c)
  | refused (i : Instruction) (e : Fault) :
      Outcomes b c (.error e { b with host := b.host.observe b.memory.cursor i })
        (.error e { c with host := c.host.observe c.memory.cursor i })
  | performed (i : Instruction) {b' c' : Board}
      (hbytes : b'.memory.bytes = b.memory.bytes) (hbytes' : c'.memory.bytes = c.memory.bytes)
      (hcore : b'.core = i.act b.core) (hcore' : c'.core = i.act c.core)
      (hhost : b'.host = b.host.observe b.memory.cursor i)
      (hhost' : c'.host = c.host.observe c.memory.cursor i) : Outcomes b c (.ok i b') (.ok i c')

/-- Whatever else there is to two boards, their steps answer the same if what is at the cursor and
what is in its way is the same. -/
theorem step_outcomes {b c : Board} (hcursor : b.memory.cursor = c.memory.cursor)
    (hopcode : b.memory.opcode? = c.memory.opcode?)
    (hobstacle : ∀ i : Instruction, i.obstacle b.reply b.core = i.obstacle c.reply c.core) :
    Outcomes b c b.step c.step := by
  have hb := step_outcome b
  have hc := step_outcome c
  generalize b.step = r at hb ⊢
  generalize c.step = r' at hc ⊢
  cases hb with
  | unfetched hop =>
    rw [hopcode] at hop
    cases hc with
    | unfetched =>
      rw [hcursor]
      exact .unfetched _
    | refused hop' | performed hop' => cases hop.symm.trans hop'
  | refused hop he =>
    rw [hopcode] at hop
    rw [hobstacle] at he
    cases hc with
    | unfetched hop' => cases hop.symm.trans hop'
    | refused hop' he' =>
      cases hop.symm.trans hop'
      cases he.symm.trans he'
      exact .refused _ _
    | performed hop' hnone =>
      cases hop.symm.trans hop'
      cases he.symm.trans hnone
  | performed hop hnone hbytes hcore hhost =>
    rw [hopcode] at hop
    rw [hobstacle] at hnone
    cases hc with
    | unfetched hop' => cases hop.symm.trans hop'
    | refused hop' he' =>
      cases hop.symm.trans hop'
      cases hnone.symm.trans he'
    | performed hop' _ hbytes' hcore' hhost' =>
      cases hop.symm.trans hop'
      exact .performed _ hbytes hbytes' hcore hcore' hhost hhost'

/-- Boards that differ in nothing but their hosts. -/
structure Like (R : Host → Host → Prop) (b c : Board) : Prop where
  memory : b.memory = c.memory
  processor : b.processor = c.processor
  host : R b.host c.host

theorem step_alike (hR : Host.StepLikeness R) {b c : Board} (h : Like R b c) :
    Agree (Like R) b.step c.step := by
  obtain ⟨memory, processor, host⟩ := b
  obtain ⟨_, _, host'⟩ := c
  obtain ⟨rfl, rfl, hhost⟩ := h
  have hseen (i : Instruction) := hR.observe hhost memory.cursor i
  have houtcomes := step_outcomes (b := ⟨memory, processor, host⟩) (c := ⟨memory, processor, host'⟩)
    rfl rfl fun i => i.obstacle_congr (hR.failure hhost) _
  generalize step ⟨memory, processor, host⟩ = r at houtcomes ⊢
  generalize step ⟨memory, processor, host'⟩ = r' at houtcomes ⊢
  cases houtcomes with
  | unfetched e => exact .error e ⟨rfl, rfl, hhost⟩
  | refused i e => exact .error e ⟨rfl, rfl, hseen i⟩
  | @performed i b c hbytes hbytes' hcore hcore' hhosts hhosts' =>
    obtain ⟨hcursor, hprocessor⟩ := Core.of_inj (hcore.trans hcore'.symm)
    refine .ok i ⟨?_, hprocessor, ?_⟩
    · show Memory.mk b.memory.bytes b.memory.cursor = Memory.mk c.memory.bytes c.memory.cursor
      rw [hbytes, hbytes', hcursor]
    · rw [hhosts, hhosts']
      exact hseen i

end Board

namespace Machine

/-- Machines that differ in nothing but their hosts. -/
structure Like (R : Host → Host → Prop) (m n : Machine) : Prop where
  phase : m.phase = n.phase
  processor : m.processor = n.processor
  settings : m.settings = n.settings
  steps : m.steps = n.steps
  host : R m.host n.host

/-- Machines that have come to the same, by whatever settings and before whatever host. -/
structure Same (m n : Machine) : Prop where
  /-- Where they are in their lives, with bytes and cursor. -/
  phase : m.phase = n.phase
  processor : m.processor = n.processor
  steps : m.steps = n.steps

/-- The same of hosts that are related. -/
structure Twin (R : Host → Host → Prop) (m n : Machine) : Prop extends Same m n where
  host : R m.host n.host

variable {m n : Machine}

theorem Twin.board (h : Twin R m n) (memory : Memory) :
    Board.Like R (m.board memory) (n.board memory) :=
  ⟨rfl, h.processor, h.host⟩

theorem Like.twin (h : Like R m n) : Twin R m n := ⟨⟨h.phase, h.processor, h.steps⟩, h.host⟩

/-- A step does not ask for the settings. -/
theorem step_twin (hR : Host.StepLikeness R) (h : Twin R m n) :
    Agree (Twin R) m.step n.step := by
  cases hm : m.phase with
  | unloaded memory =>
    rw [step_unloaded hm, step_unloaded (h.phase.symm.trans hm)]
    exact .error _ h
  | closed =>
    rw [step_closed hm, step_closed (h.phase.symm.trans hm)]
    exact .error _ h
  | ready memory =>
    have hn := h.phase.symm.trans hm
    have hboard := Board.step_alike hR (h.board memory)
    generalize hb : (m.board memory).step = r at hboard
    generalize hc : (n.board memory).step = r' at hboard
    cases hboard with
    | ok i hlike =>
      rw [step_ready_ok hm hb, step_ready_ok hn hc]
      exact .ok _ ⟨⟨congrArg Phase.ready hlike.memory, hlike.processor,
        congrArg (· + 1) h.steps⟩, hlike.host⟩
    | error e hlike =>
      rw [step_ready_error hm hb, step_ready_error hn hc]
      exact .error _ ⟨⟨congrArg Phase.ready hlike.memory, hlike.processor, h.steps⟩, hlike.host⟩

/-- Nor does it change them. -/
theorem settings_step (m : Machine) : (stateOf m.step).settings = m.settings := by
  unfold step
  split
  · rfl
  · rfl
  · split <;> rfl

theorem step_alike (hR : Host.Likeness R) (h : Like R m n) : Agree (Like R) m.step n.step := by
  have hagree := step_twin hR.toStepLikeness h.twin
  have hsettings : (stateOf m.step).settings = (stateOf n.step).settings := by
    rw [settings_step, settings_step, h.settings]
  generalize m.step = r at hagree hsettings ⊢
  generalize n.step = r' at hagree hsettings ⊢
  cases hagree with
  | ok i htwin => exact .ok i ⟨htwin.phase, htwin.processor, hsettings, htwin.steps, htwin.host⟩
  | error e htwin =>
    exact .error e ⟨htwin.phase, htwin.processor, hsettings, htwin.steps, htwin.host⟩

theorem record_alike (hR : Host.Likeness R) (h : Like R m n) (event : Event) :
    Like R (m.record event) (n.record event) :=
  ⟨h.phase, h.processor, h.settings, h.steps, hR.record event h.host⟩

/-- A line of the log makes no difference. -/
theorem like_record (m : Machine) (event : Event) : Like Host.SameButLog m (m.record event) :=
  ⟨rfl, rfl, rfl, rfl, Host.sameButLog_record _ _⟩

theorem like_trans_record (h : Like Host.SameButLog m n) (event : Event) :
    Like Host.SameButLog m (n.record event) := by
  refine ⟨h.phase, h.processor, h.settings, h.steps, ?_⟩
  show n.host.record event = { m.host with log := (n.host.record event).log }
  rw [h.host]
  rfl

theorem cancel_alike (hR : Host.Likeness R) (h : Like R m n) : Like R m.cancel n.cancel :=
  ⟨h.phase, h.processor, h.settings, h.steps, hR.token true h.host⟩

theorem start_alike (hR : Host.Likeness R) (h : Like R m n) (loading : LoadSummary × Memory) :
    Like R (m.start loading) (n.start loading) :=
  ⟨rfl, rfl, h.settings, rfl, hR.recordAll h.host _⟩

end Machine

/-! ### Runs -/

namespace Run

/-- Runs that are as far as each other, of machines that differ in their hosts. -/
inductive Like (R : Host → Host → Prop) : Run → Run → Prop
  | going (steps : Nat) {m n : Machine} (h : Machine.Like R m n) :
      Like R (going steps m) (going steps n)
  | ended (result : Except Fault Ending) {m n : Machine} (h : Machine.Like R m n) :
      Like R (ended result m) (ended result n)

variable {r r' : Run} {m n : Machine}

theorem Like.result (h : Like R r r') : r.result? = r'.result? := by
  cases h <;> rfl

theorem Like.machine (h : Like R r r') : Machine.Like R r.machine r'.machine := by
  cases h <;> assumption

theorem advance_alike (hR : Host.Likeness R) (steps : Nat) (h : Machine.Like R m n) :
    Like R (advance steps m) (advance steps n) := by
  have hstep := Machine.step_alike hR h
  unfold advance
  generalize m.step = r at hstep ⊢
  generalize n.step = r' at hstep ⊢
  cases hstep with
  | ok i hlike => exact .going _ hlike
  | error e hlike => exact .ended _ hlike

theorem turn_alike (hR : Host.Likeness R) (h : Like R r r') : Like R r.turn r'.turn := by
  cases h with
  | ended result h => exact .ended result h
  | @going steps m n h =>
    simp only [turn, ← hR.cancelled h.host, ← h.settings]
    split
    · exact .ended _ (Machine.record_alike hR h _)
    · split
      · exact advance_alike hR steps h
      · split
        · exact .ended _ (Machine.record_alike hR h _)
        · exact advance_alike hR steps h

theorem under_alike (hR : Host.Likeness R) (h : Like R r r') (requests : List Bool) :
    Like R (r.under requests) (r'.under requests) := by
  induction requests generalizing r r' with
  | nil => exact h
  | cons asked rest ih =>
    cases h with
    | ended result h => exact .ended result h
    | going steps h =>
      apply ih
      apply turn_alike hR
      cases asked with
      | false => exact .going steps h
      | true => exact .going steps (Machine.cancel_alike hR h)

theorem start_alike (hR : Host.Likeness R) (h : Machine.Like R m n) :
    Like R (start m) (start n) := by
  simp only [start, ← h.phase]
  split
  · exact .ended _ h
  · exact .ended _ h
  · exact .going 0 (Machine.record_alike hR h _)

end Run

/-! ### Operations -/

namespace Machine

variable {m n : Machine}

theorem load_alike (hR : Host.Likeness R) (h : Like R m n) (program : List UInt8) :
    Agree (Like R) (m.load program) (n.load program) := by
  simp only [load, memory, ← h.phase]
  cases m.phase.memory? with
  | none => exact .error _ h
  | some memory => exact .ok _ (start_alike hR h _)

theorem loadFrom_alike (hR : Host.Likeness R) (h : Like R m n) (stream : ByteStream) :
    Agree (fun s s' => Like R s.1 s'.1 ∧ s.2 = s'.2)
      (loadFrom (m, stream)) (loadFrom (n, stream)) := by
  simp only [loadFrom, memory, ← h.phase]
  cases m.phase.memory? with
  | none => exact .error _ ⟨h, rfl⟩
  | some memory =>
    dsimp only
    split
    · exact .ok _ ⟨start_alike hR h _, rfl⟩
    · exact .error _ ⟨h, rfl⟩

theorem close_alike (hR : Host.Likeness R) (h : Like R m n) : Like R m.close n.close := by
  simp only [close, ← h.phase, ← h.steps]
  split
  · exact h
  · exact { record_alike hR h _ with phase := rfl }

/-- An operation answers the same on machines that are alike, and they stay so. -/
theorem perform_alike (hR : Host.Likeness R) (h : Like R m n) (op : Operation) :
    m.answer op = n.answer op ∧ Like R (m.perform op) (n.perform op) := by
  cases op with
  | load program =>
    have hload := load_alike hR h program
    exact ⟨congrArg Answer.loaded hload.result, hload.state⟩
  | loadFrom stream =>
    have hload := loadFrom_alike hR h stream
    exact ⟨congrArg Answer.loaded hload.result, hload.state.1⟩
  | step =>
    have hstep := step_alike hR h
    exact ⟨congrArg Answer.stepped hstep.result, hstep.state⟩
  | run requests =>
    have hrun := Run.under_alike hR (Run.start_alike hR h) requests
    exact ⟨congrArg Answer.ran hrun.result, hrun.machine⟩
  | configure settings => exact ⟨rfl, { h with settings := rfl }⟩
  | cancel => exact ⟨rfl, cancel_alike hR h⟩
  | uncancel => exact ⟨rfl, { h with host := hR.token false h.host }⟩
  | close => exact ⟨rfl, close_alike hR h⟩

/-- **No sequence of operations tells machines apart that differ in nothing but alike
hosts.** -/
theorem answers_eq (hR : Host.Likeness R) (h : Like R m n) (ops : List Operation) :
    m.answers ops = n.answers ops := by
  induction ops generalizing m n with
  | nil => rfl
  | cons op rest ih =>
    obtain ⟨hanswer, hnext⟩ := perform_alike hR h op
    rw [answers, answers, hanswer, ih hnext]

theorem performAll_alike (hR : Host.Likeness R) (h : Like R m n) (ops : List Operation) :
    Like R (ops.foldl perform m) (ops.foldl perform n) := by
  induction ops generalizing m n with
  | nil => exact h
  | cons op rest ih => exact ih (perform_alike hR h op).2

end Machine

end Chip8
