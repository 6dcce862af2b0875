import Chip8.Proofs.Geometry
import Chip8.Screen.TerminalDisplay

/-! A display on a terminal that works.

Whatever else a terminal does, it works if no request to it fails and every widget is drawn that
has room on it (`Tty.Works`). The machine's display has room on all but the smallest
(`Tty.HasRoom`). There its first frame is drawn (`new_ok`), and so is the next one whenever it is
cleared (`after_succ`). To a machine it is the display that never fails (`display_eq_steady`). -/
namespace Chip8

namespace Tty
variable {T : Type} {tty : Tty T} {width height : Nat}

/-- What can be drawn on, of a terminal of this size. -/
def view (tty : Tty T) (width height : Nat) : Rect := tty.rect 0 0 width height

/-- No request to a terminal of this size fails, and a widget that lies on what can be drawn on is
drawn. -/
structure Works (tty : Tty T) (width height : Nat) : Prop where
  enableRaw : ∀ t, ∃ t', tty.enableRaw t = .ok () t'
  disableRaw : ∀ t, ∃ t', tty.disableRaw t = .ok () t'
  begin : ∀ t, ∃ t', tty.begin t = .ok () t'
  clear : ∀ t, ∃ t', tty.clear t = .ok () t'
  draw : ∀ (w : Widget) t, w.area.x + w.area.width ≤ (tty.view width height).width →
    w.area.y + w.area.height ≤ (tty.view width height).height → ∃ t', tty.draw w t = .ok () t'

/-- The terminal has room for the machine's display, and not too many cells to be drawn on. -/
structure HasRoom (tty : Tty T) (width height : Nat) : Prop where
  rects : Rect.KeepsSmall tty.rect
  wide : 66 ≤ width
  high : 34 ≤ height
  few : width * height ≤ 65535

/-- All of it can be drawn on. -/
theorem HasRoom.view (h : tty.HasRoom width height) :
    tty.view width height = ⟨0, 0, width, height⟩ := h.rects _ _ _ _ h.few

end Tty

namespace TerminalDisplay
variable {T : Type} {tty : Tty T} {width height : Nat}

/-- The machine's display after a number of clears. -/
def framed (clears : Nat) : Widget where
  title := Canvas.title clears
  xBounds := (0.0, (64 - 1 : UInt64).toFloat)
  yBounds := (-1.0 * (32 - 1 : UInt64).toFloat, 0.0)
  area := Canvas.area

theorem widget_display (hrect : Rect.KeepsSmall tty.rect) (t : T) (clears : Nat) :
    widget tty ⟨t, Canvas.display, clears⟩ = .ok (framed clears) := by
  have hx : Canvas.display.xBounds = .ok (framed clears).xBounds := rfl
  have hy : Canvas.display.yBounds = .ok (framed clears).yBounds := rfl
  simp only [widget, hx, hy, Canvas.frameBy_display hrect]
  rfl

section Working
variable (hworks : tty.Works width height) (hroom : tty.HasRoom width height)
include hworks hroom

theorem draw_framed (t : T) (clears : Nat) : ∃ t', tty.draw (framed clears) t = .ok () t' := by
  refine hworks.draw _ t ?_ ?_
  · rw [hroom.view]
    exact hroom.wide
  · rw [hroom.view]
    exact hroom.high

theorem render_ok (t : T) (clears : Nat) :
    ∃ t', tty.draw (framed clears) t = .ok () t' ∧
      render tty ⟨t, Canvas.display, clears⟩ = .ok () ⟨t', Canvas.display, clears⟩ := by
  obtain ⟨t', hdraw⟩ := draw_framed hworks hroom t clears
  exact ⟨t', hdraw, by simp only [render, widget_display hroom.rects, hdraw]⟩

theorem clear_ok (t : T) (clears : Nat) :
    ∃ t', tty.draw (framed (clears + 1)) t = .ok () t' ∧
      clear tty ⟨t, Canvas.display, clears⟩ = .ok () ⟨t', Canvas.display, clears + 1⟩ :=
  render_ok hworks hroom t (clears + 1)

/-- The first frame is drawn on a terminal that has just been cleared. -/
theorem new_ok (t : T) :
    ∃ t₁ t₂ t₃, tty.begin t = .ok () t₁ ∧ tty.clear t₁ = .ok () t₂ ∧
      tty.draw (framed 0) t₂ = .ok () t₃ ∧
      new tty Canvas.display t = .ok ⟨t₃, Canvas.display, 0⟩ := by
  obtain ⟨t₁, hbegin⟩ := hworks.begin t
  obtain ⟨t₂, hclear⟩ := hworks.clear t₁
  obtain ⟨t₃, hdraw, hrender⟩ := render_ok hworks hroom t₂ 0
  exact ⟨t₁, t₂, t₃, hbegin, hclear, hdraw, by simp only [new, hbegin, hclear, hrender]⟩

/-- The display counts its clears and stays what it is. -/
theorem after_eq (t : T) (clears : Nat) :
    ∃ t', after tty ⟨t, Canvas.display, 0⟩ clears = ⟨t', Canvas.display, clears⟩ := by
  induction clears with
  | zero => exact ⟨t, rfl⟩
  | succ clears ih =>
    obtain ⟨t', hafter⟩ := ih
    obtain ⟨t'', _, hclear⟩ := clear_ok hworks hroom t' clears
    exact ⟨t'', by simp only [after, hafter, hclear]⟩

/-- One more clear succeeds, however many there were. -/
theorem clear_after (t : T) (clears : Nat) :
    ∃ t', tty.draw (framed (clears + 1)) (after tty ⟨t, Canvas.display, 0⟩ clears).terminal =
        .ok () t' ∧
      clear tty (after tty ⟨t, Canvas.display, 0⟩ clears) =
        .ok () ⟨t', Canvas.display, clears + 1⟩ := by
  obtain ⟨t', hafter⟩ := after_eq hworks hroom t clears
  rw [hafter]
  exact clear_ok hworks hroom t' clears

/-- **One more clear draws the next frame** over whatever the last one has left. -/
theorem after_succ (t : T) (clears : Nat) :
    tty.draw (framed (clears + 1)) (after tty ⟨t, Canvas.display, 0⟩ clears).terminal =
      .ok () (after tty ⟨t, Canvas.display, 0⟩ (clears + 1)).terminal := by
  obtain ⟨t', hdraw, hclear⟩ := clear_after hworks hroom t clears
  simp only [after, hclear, hdraw]

theorem trouble?_eq_none (t : T) (n : Nat) : trouble? tty ⟨t, Canvas.display, 0⟩ n = none := by
  cases n with
  | zero => rfl
  | succ clears =>
    obtain ⟨t', _, hclear⟩ := clear_after hworks hroom t clears
    simp only [trouble?, hclear]

/-- **To a machine, it is the display that never fails.** -/
theorem display_eq_steady (t : T) :
    display tty ⟨t, Canvas.display, 0⟩ = Display.steady := by
  funext n
  simp only [display, trouble?_eq_none hworks hroom t n]
  rfl

end Working

end TerminalDisplay

end Chip8
