import Chip8.Proofs.Image
import Chip8.Proofs.Likeness

/-! Loading again.

To load a program clears memory from where programs start on, and below there is nothing to
clear (`load_of_reachable`), so a machine that loads a program is the machine that begins with
it, whatever it has run before and however that ended (`reload_eq_new`): only the settings and
the host are still the old ones, and no later operation can tell, unless the display does. -/
namespace Chip8

namespace Machine

variable {m : Machine}

/-- Whatever a machine has loaded before, it starts with the next program as on blank
memory. -/
theorem load_of_reachable (h : Reachable m) {memory : Memory}
    (hmemory : m.phase.memory? = some memory) (program : List UInt8) :
    memory.load program = Memory.blank.load program := by
  obtain ⟨history, rfl⟩ := History.reachable_iff.mp h
  exact Memory.load_over (bytes_of_history history hmemory) program

/-- A new machine with a program and settings of its own. -/
def fresh (program : List UInt8) (settings : Settings) (host : Host) : Machine :=
  (ofProgram program host).withSettings settings

/-- New machines differ in their hosts only. -/
theorem fresh_alike {R : Host → Host → Prop} (hR : Host.Likeness R) {h h' : Host} (hh : R h h')
    (program : List UInt8) (settings : Settings) :
    Like R (fresh program settings h) (fresh program settings h') :=
  ⟨rfl, rfl, rfl, rfl, hR.recordAll hh _⟩

/-- **To load a program is to start afresh with it**, directly or from a stream that
delivers it. Of a machine that has loaded nothing, run or crashed, only the settings and
the host are left; and on any other host whose display will answer alike, a new machine
answers all later operations as this one does, and stays like it. -/
theorem reload_eq_new (h : Reachable m) (hopen : m.phase ≠ .closed) (program : List UInt8) :
    ∃ loaded summary,
      m.load program = .ok summary loaded ∧
      (∀ stream left, stream.readAll = (.ok program, left) →
        loadFrom (m, stream) = .ok summary (loaded, left)) ∧
      Host.SameButLog m.host loaded.host ∧
      (∀ host, loaded = { fresh program m.settings host with host := loaded.host }) ∧
      ∀ host, m.host.Alike host → ∀ ops,
        loaded.answers ops = (fresh program m.settings host).answers ops ∧
        Like Host.Alike (ops.foldl perform loaded)
          (ops.foldl perform (fresh program m.settings host)) := by
  obtain ⟨memory, hmemory⟩ := memory?_of_open hopen
  have hload := load_of_reachable h hmemory program
  have hstart : m.start (memory.load program) = fresh program m.settings m.host := by
    rw [hload]
    rfl
  refine ⟨fresh program m.settings m.host, (memory.load program).1, ?_, ?_, rfl,
    fun _ => rfl, ?_⟩
  · rw [load_ok hmemory, hstart]
  · intro stream left hread
    rw [loadFrom_ok hmemory hread, hstart]
  · intro host halike ops
    have hlike := fresh_alike Host.likeness_alike halike program m.settings
    exact ⟨answers_eq Host.likeness_alike hlike ops,
      performAll_alike Host.likeness_alike hlike ops⟩

/-- A program that has set a register, jumped to the last byte of memory and crashed there. -/
def crashedAtEnd : Machine :=
  (ofProgram [0x6A, 0x05, 0x1F, 0xFF] {}).perform (.run [false, false, false])

/-- With another program it is as new. -/
theorem crashedAtEnd_reloads :
    crashedAtEnd.steps = 2 ∧ crashedAtEnd.cursor = .ok 0xFFF ∧
    ∃ loaded summary, crashedAtEnd.load [0x00, 0xE0] = .ok summary loaded ∧
      loaded.steps = 0 ∧ loaded.cursor = .ok 0x200 ∧ loaded.processor = {} ∧
      ∀ ops, loaded.answers ops = (ofProgram [0x00, 0xE0] {}).answers ops := by
  have hreach : Reachable crashedAtEnd := .perform _ (.ofProgram _ {})
  have hopen : crashedAtEnd.phase ≠ .closed := nofun
  obtain ⟨loaded, summary, hload, _, _, hfresh, hanswers⟩ :=
    reload_eq_new hreach hopen [0x00, 0xE0]
  refine ⟨by decide +kernel, rfl, loaded, summary, hload, ?_, ?_, ?_, ?_⟩
  · rw [hfresh {}]
    rfl
  · rw [hfresh {}]
    rfl
  · rw [hfresh {}]
    rfl
  · exact fun ops => (hanswers {} ⟨fun _ => rfl, rfl⟩ ops).1

end Machine

end Chip8
