import Chip8.Proofs.Redraw
import Chip8.Screen

/-! The terminal in memory.

It works (`works_tty`) and obeys the laws of drawing (`lawful_tty`), so there is a terminal of which
everything holds that follows from them. -/
namespace Chip8

namespace Screen
variable {width height : Nat}

/-- What can be observed of it. -/
def sight : Sight (Screen width height) Bool where
  cell s row column := (s.cells[row]?.bind fun cells => cells[column]?).getD {}
  row := row
  cursorShown := cursorVisible
  modes := raw
  saved := saved
  drawn := drawn
  hidden := hidden

theorem cell_eq (s : Screen width height) {row column : Nat} (hr : row < height)
    (hc : column < width) : sight.cell s row column = s.cells[row][column] := by
  simp [sight, hr, hc]

theorem cell_redraw (after : Picture) (s : Screen width height) {row column : Nat}
    (hr : row < height) (hc : column < width) :
    sight.cell (s.redraw after) row column =
      if s.drawn row column = after row column then sight.cell s row column
      else after row column := by
  rw [cell_eq _ hr hc, cell_eq _ hr hc]
  simp [redraw]

theorem painted_paint : Widget.Painted paint where
  symbol {w} _ row column := by
    unfold paint
    split
    case isTrue => rfl
    case isFalse hout => exact (if_neg hout).symm
  style {w w'} _ _ harea row column := by
    simp only [paint, harea]
    split <;> rfl
  outside {w} _ {row column} hout := by
    refine if_neg fun hin => ?_
    rcases hout with hout | hout
    · exact Nat.not_lt_of_le hout hin.1
    · exact Nat.not_lt_of_le hout hin.2

theorem works_tty : (tty width height).Works width height where
  enableRaw _ := ⟨_, rfl⟩
  disableRaw _ := ⟨_, rfl⟩
  begin _ := ⟨_, rfl⟩
  clear _ := ⟨_, rfl⟩
  draw w s hwidth hheight := by
    have hfits : fits width height w.area = true := by
      rw [fits, Bool.and_eq_true, decide_eq_true_eq, decide_eq_true_eq]
      exact ⟨hwidth, hheight⟩
    exact ⟨s.redraw (paint w), if_pos hfits⟩

/-- The rows of all but very large terminals can be drawn on. -/
theorem hasRoom_tty (hwidth : 66 ≤ width) (hheight : 34 ≤ height)
    (hcells : width * height ≤ 65535) : (tty width height).HasRoom width height :=
  ⟨Rect.fit_of_le, hwidth, hheight, hcells⟩

theorem draws_redraw (w : Widget) (s : Screen width height) :
    sight.Draws paint ⟨0, 0, width, height⟩ w s (s.redraw (paint w)) where
  modes := rfl
  saved := rfl
  cell _ _ hr hc := cell_redraw _ _ hr hc
  row := rfl
  drawn := rfl
  hidden := rfl

theorem breaks_lineBreak (s : Screen width height) : sight.Breaks width height s s.lineBreak := by
  unfold lineBreak
  split
  case isTrue hroom =>
    exact ⟨⟨rfl, rfl⟩, rfl, fun _ => ⟨rfl, fun _ _ _ _ => rfl⟩,
      fun hbottom => absurd hroom (Nat.not_lt_of_le (Nat.le_of_eq hbottom.symm))⟩
  case isFalse hbottom =>
    refine ⟨⟨rfl, rfl⟩, rfl, fun hroom => absurd hroom hbottom, fun _ => ⟨rfl, ?_⟩⟩
    intro row column hr hc
    rw [cell_eq _ hr hc]
    simp only [Vector.getElem_ofFn]
    split
    case isTrue hnext => exact (cell_eq _ hnext hc).symm
    case isFalse => exact Vector.getElem_replicate hc

/-- **The terminal in memory obeys the laws.** -/
theorem lawful_tty (hcells : width * height ≤ 65535) :
    sight.Lawful (tty width height) paint width height where
  enableRaw := by
    intro s s' hraw hsaved
    cases hraw
    show s.saved.or (some s.raw) = some s.raw
    rw [show s.saved = none from hsaved, Option.none_or]
  disableRaw := by
    intro s s' hcooked
    cases hcooked
    refine ⟨fun modes hsaved => ?_, rfl, rfl, rfl⟩
    show s.saved.getD s.raw = modes
    rw [show s.saved = some modes from hsaved, Option.getD_some]
  begin := by
    intro s s' hbegin
    cases hbegin
    exact ⟨rfl, rfl⟩
  clear := by
    intro s s' hclear
    cases hclear
    refine ⟨⟨rfl, rfl⟩, fun row column hr hc => ?_, rfl⟩
    rw [cell_eq _ hr hc]
    simp [blankRow]
  draw := by
    intro w s s' hdraw
    have hview : (tty width height).view width height = ⟨0, 0, width, height⟩ :=
      Rect.fit_of_le _ _ _ _ hcells
    rw [hview]
    simp only [tty] at hdraw
    split at hdraw
    case isTrue =>
      cases hdraw
      exact draws_redraw w s
    case isFalse => cases hdraw
  finish _ := ⟨⟨rfl, rfl⟩, rfl, rfl, rfl⟩
  lineBreak := breaks_lineBreak

end Screen

end Chip8
