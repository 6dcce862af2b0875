import Chip8.Proofs.Drawing
import Chip8.Proofs.Frame

/-! What drawing does to a terminal.

What can be seen of a terminal, and what is kept of it besides, is a `Sight`; what requests do to
that is taken from the documentation of terminals and of the library that draws (`Lawful`,
`Widget.Painted`). A terminal that shows one frame shows the next when no more is written than the
cells in which the two differ (`Framed.next`), and so it cannot be told from one that was cleared
and had the last frame drawn on it afresh (`depicts_afresh`). What cannot be seen is where drawing
leaves the cursor, and that decides how far line breaks move everything up (`cell_lineBreaks`). The
first frame ends in its bottom row. Every later one differs from it in the title alone and ends in
the top row. -/
namespace Chip8

/-! ### The laws -/

/-- What can be observed of a terminal, and of the library that draws on it. -/
structure Sight (T M : Type) where
  cell : T → (row column : Nat) → Cell
  /-- The row of the cursor. -/
  row : T → Nat
  cursorShown : T → Bool
  /-- How keys are read, and whether they are shown. -/
  modes : T → M
  /-- The modes to come back to when keys are not to be read one by one any more. -/
  saved : T → Option M
  /-- What the library takes to be on the terminal. -/
  drawn : T → Picture
  /-- The library has hidden the cursor. -/
  hidden : T → Bool

namespace Sight
variable {T M : Type}

/-- Keys are read as before. -/
structure SameModes (sight : Sight T M) (t t' : T) : Prop where
  modes : sight.modes t' = sight.modes t
  saved : sight.saved t' = sight.saved t

/-- A widget has been drawn: the cells in which it differs from what was drawn before have been
written in order, and the cursor is hidden and in the row of the last one. -/
structure Draws (sight : Sight T M) (paint : Widget → Picture) (view : Rect) (w : Widget)
    (t t' : T) : Prop extends SameModes sight t t' where
  cell : ∀ row column, row < view.height → column < view.width →
    sight.cell t' row column =
      if sight.drawn t row column = paint w row column then sight.cell t row column
      else paint w row column
  row : sight.row t' =
    ((List.range view.height).filter
      (Picture.differs view.width (sight.drawn t) (paint w))).getLast?.getD (sight.row t)
  drawn : sight.drawn t' = paint w
  hidden : sight.hidden t' = true

/-- The cursor has gone to the next row. In the bottom row it stays, and everything else moves
up. -/
structure Breaks (sight : Sight T M) (width height : Nat) (t t' : T) : Prop
    extends SameModes sight t t' where
  cursorShown : sight.cursorShown t' = sight.cursorShown t
  room : sight.row t + 1 < height → sight.row t' = sight.row t + 1 ∧
    ∀ row column, row < height → column < width → sight.cell t' row column = sight.cell t row column
  bottom : sight.row t + 1 = height → sight.row t' = sight.row t ∧
    ∀ row column, row < height → column < width →
      sight.cell t' row column = if row + 1 < height then sight.cell t (row + 1) column else {}

/-- What the requests do to a terminal of this size. -/
structure Lawful (sight : Sight T M) (tty : Tty T) (paint : Widget → Picture) (width height : Nat) :
    Prop where
  /-- The modes are saved unless others are. -/
  enableRaw : ∀ {t t'}, tty.enableRaw t = .ok () t' → sight.saved t = none →
    sight.saved t' = some (sight.modes t)
  /-- The modes that were saved come back. There is nothing of that to be seen. -/
  disableRaw : ∀ {t t'}, tty.disableRaw t = .ok () t' →
    (∀ modes, sight.saved t = some modes → sight.modes t' = modes) ∧
      sight.cell t' = sight.cell t ∧ sight.row t' = sight.row t ∧
      sight.cursorShown t' = sight.cursorShown t
  begin : ∀ {t t'}, tty.begin t = .ok () t' → SameModes sight t t'
  clear : ∀ {t t'}, tty.clear t = .ok () t' → SameModes sight t t' ∧
    (∀ row column, row < height → column < width → sight.cell t' row column = {}) ∧
    sight.drawn t' = Picture.empty
  draw : ∀ {w t t'}, tty.draw w t = .ok () t' →
    Draws sight paint (tty.view width height) w t t'
  /-- The cursor is shown again if the library has hidden it. -/
  finish : ∀ t, SameModes sight t (tty.finish t) ∧
    sight.cell (tty.finish t) = sight.cell t ∧ sight.row (tty.finish t) = sight.row t ∧
    sight.cursorShown (tty.finish t) = (sight.cursorShown t || sight.hidden t)
  lineBreak : ∀ t, Breaks sight width height t (tty.lineBreak t)

end Sight

namespace Widget

/-- A widget at the top left that has room for its border, with a title that takes one cell for
each of its characters. -/
structure Simple (w : Widget) : Prop where
  left : w.area.x = 0
  top : w.area.y = 0
  wide : 2 ≤ w.area.width
  high : 2 ≤ w.area.height
  plain : ∀ c ∈ w.title.toList, ' ' ≤ c ∧ c ≤ '~'

/-- What simple widgets look like. -/
structure Painted (paint : Widget → Picture) : Prop where
  symbol : ∀ {w : Widget}, w.Simple → ∀ row column,
    (paint w row column).symbol =
      Picture.border w.area.width w.area.height w.title.toList row column
  /-- The styles are a matter of the area alone. -/
  style : ∀ {w w' : Widget}, w.Simple → w'.Simple → w.area = w'.area → ∀ row column,
    (paint w row column).style = (paint w' row column).style
  /-- Around the border there is nothing. -/
  outside : ∀ {w : Widget}, w.Simple → ∀ {row column},
    w.area.height ≤ row ∨ w.area.width ≤ column → paint w row column = {}

end Widget

/-! ### Drawing -/

theorem getLast?_filter_range {p : Nat → Bool} {last n : Nat} (hlt : last < n) (hp : p last = true)
    (hlater : ∀ later, last < later → later < n → p later = false) :
    ((List.range n).filter p).getLast? = some last := by
  induction n with
  | zero => cases hlt
  | succ n ih =>
    rw [List.range_succ, List.filter_append]
    by_cases hn : last = n
    · rw [← hn, List.filter_cons_of_pos hp, List.filter_nil, List.getLast?_concat]
    · have hbelow : last < n := by omega
      have hout : p n = false := hlater n hbelow (Nat.lt_succ_self n)
      rw [List.filter_cons_of_neg (by rw [hout]; decide), List.filter_nil, List.append_nil]
      exact ih hbelow fun later hl hlt => hlater later hl (Nat.lt_succ_of_lt hlt)

namespace Sight
variable {T M : Type} {sight : Sight T M} {tty : Tty T} {paint : Widget → Picture}
  {width height : Nat} {w : Widget} {t t' : T}

theorem SameModes.trans {t'' : T} (h : SameModes sight t t') (h' : SameModes sight t' t'') :
    SameModes sight t t'' :=
  ⟨h'.modes.trans h.modes, h'.saved.trans h.saved⟩

/-- Every cell is as in a picture. -/
def Depicts (sight : Sight T M) (width height : Nat) (p : Picture) (t : T) : Prop :=
  ∀ row column, row < height → column < width → sight.cell t row column = p row column

section Draws
variable (h : Draws sight paint ⟨0, 0, width, height⟩ w t t')
include h

/-- The cells that are not written are right already. -/
theorem Draws.depicts (ht : sight.Depicts width height (sight.drawn t) t) :
    sight.Depicts width height (paint w) t' := by
  intro row column hr hc
  rw [h.cell row column hr hc]
  split
  case isTrue hsame => rw [ht row column hr hc, hsame]
  case isFalse => rfl

/-- The cursor stays in the last row that had to be touched. -/
theorem Draws.row_eq {row : Nat} (hrow : row < height)
    (hdiffers : Picture.differs width (sight.drawn t) (paint w) row = true)
    (hlater : ∀ later, row < later → later < height →
      Picture.differs width (sight.drawn t) (paint w) later = false) : sight.row t' = row := by
  rw [h.row, getLast?_filter_range hrow hdiffers hlater, Option.getD_some]

/-- If only the top row had to be touched the cursor is there, or where it was. -/
theorem Draws.row_top
    (hlater : ∀ later, 0 < later → later < height →
      Picture.differs width (sight.drawn t) (paint w) later = false) :
    sight.row t' = 0 ∨ sight.row t' = sight.row t := by
  rw [h.row]
  cases hlast :
      ((List.range height).filter (Picture.differs width (sight.drawn t) (paint w))).getLast? with
  | none => exact .inr rfl
  | some row =>
    have hmem := List.mem_filter.mp (List.mem_of_getLast? hlast)
    refine .inl (Nat.eq_zero_of_not_pos fun hpos => ?_)
    have hsame := hlater row hpos (List.mem_range.mp hmem.1)
    rw [hsame] at hmem
    cases hmem.2

end Draws

section Lawful
variable (hlaws : Lawful sight tty paint width height)
include hlaws

/-- On a terminal that has room everything can be drawn on. -/
theorem Lawful.draws (hroom : tty.HasRoom width height) (hdraw : tty.draw w t = .ok () t') :
    Draws sight paint ⟨0, 0, width, height⟩ w t t' := by
  rw [← hroom.view]
  exact hlaws.draw hdraw

/-- On a terminal that has been cleared the widget is all that is to be seen. -/
theorem Lawful.depicts_afresh (hroom : tty.HasRoom width height) {t'' : T}
    (hclear : tty.clear t = .ok () t') (hdraw : tty.draw w t' = .ok () t'') :
    sight.Depicts width height (paint w) t'' := by
  obtain ⟨_, hblank, hdrawn⟩ := hlaws.clear hclear
  refine (hlaws.draws hroom hdraw).depicts fun row column hr hc => ?_
  rw [hblank row column hr hc, hdrawn]
  rfl

/-! ### Line breaks -/

theorem Lawful.lineBreaks_kept (n : Nat) (t : T) :
    SameModes sight t (tty.lineBreaks n t) ∧
      sight.cursorShown (tty.lineBreaks n t) = sight.cursorShown t := by
  induction n generalizing t with
  | zero => exact ⟨⟨rfl, rfl⟩, rfl⟩
  | succ n ih =>
    have hbreak := hlaws.lineBreak t
    obtain ⟨hmodes, hshown⟩ := ih (tty.lineBreak t)
    exact ⟨hbreak.toSameModes.trans hmodes, hshown.trans hbreak.cursorShown⟩

/-- How far so many line breaks move everything up: by as many rows as the cursor would get
below the bottom row. -/
def scrolled (height row n : Nat) : Nat := row + n + 1 - height

/-- Line breaks move everything up, and rows that come in at the bottom are blank. -/
theorem Lawful.cell_lineBreaks (n : Nat) (ht : sight.row t < height) {row column : Nat}
    (hr : row < height) (hc : column < width) :
    sight.cell (tty.lineBreaks n t) row column =
      if row + scrolled height (sight.row t) n < height then
        sight.cell t (row + scrolled height (sight.row t) n) column
      else {} := by
  induction n generalizing t row with
  | zero =>
    have hstill : scrolled height (sight.row t) 0 = 0 := Nat.sub_eq_zero_of_le ht
    rw [hstill, Nat.add_zero, if_pos hr]
    rfl
  | succ n ih =>
    have hbreak := hlaws.lineBreak t
    rw [Tty.lineBreaks]
    by_cases hroom : sight.row t + 1 < height
    · -- The cursor goes down, and nothing moves yet.
      obtain ⟨hrow, hcells⟩ := hbreak.room hroom
      have hscrolled :
          scrolled height (sight.row t + 1) n = scrolled height (sight.row t) (n + 1) := by
        simp only [scrolled]
        omega
      rw [ih (by rw [hrow]; exact hroom) hr, hrow, hscrolled]
      split
      case isTrue hin => exact hcells _ _ hin hc
      case isFalse => rfl
    · -- Everything moves up at once, and the other breaks find the cursor where it was.
      obtain ⟨hrow, hcells⟩ := hbreak.bottom (by omega)
      have hscrolled :
          scrolled height (sight.row t) (n + 1) = scrolled height (sight.row t) n + 1 := by
        simp only [scrolled]
        omega
      rw [ih (by rw [hrow]; exact ht) hr, hrow, hscrolled, ← Nat.add_assoc]
      split
      case isTrue hin => exact hcells _ _ hin hc
      case isFalse hout => exact (if_neg (by omega)).symm

end Lawful

end Sight

/-! ### Frames -/

namespace TerminalDisplay

theorem simple_framed (clears : Nat) : (framed clears).Simple :=
  ⟨rfl, rfl, (by decide : 2 ≤ 66), (by decide : 2 ≤ 34), Canvas.plain_title clears⟩

end TerminalDisplay

namespace Widget.Painted
open TerminalDisplay
variable {paint : Widget → Picture} (hpaint : Painted paint)
include hpaint

theorem symbol_framed (clears row column : Nat) :
    (paint (framed clears) row column).symbol = Canvas.symbol clears row column :=
  hpaint.symbol (simple_framed clears) row column

theorem below_framed (clears : Nat) {row : Nat} (h : 34 ≤ row) (column : Nat) :
    paint (framed clears) row column = {} :=
  hpaint.outside (simple_framed clears) (.inl h)

/-- One frame is drawn over another in the top row. -/
theorem differs_framed (width clears clears' : Nat) {row : Nat} (h : 0 < row) :
    Picture.differs width (paint (framed clears)) (paint (framed clears')) row = false := by
  have hsame (column : Nat) :
      paint (framed clears) row column = paint (framed clears') row column := by
    refine Cell.ext ?_ ?_
    · rw [hpaint.symbol_framed, hpaint.symbol_framed]
      exact Canvas.symbol_untitled clears clears' (Nat.ne_of_gt h) column
    · exact hpaint.style (simple_framed clears) (simple_framed clears') rfl row column
  simp [Picture.differs, hsame]

theorem differs_of_symbol {width row : Nat} {before : Picture} {clears : Nat} (column : Nat)
    (hcolumn : column < width)
    (h : (before row column).symbol ≠ Canvas.symbol clears row column) :
    Picture.differs width before (paint (framed clears)) row = true := by
  rw [Picture.differs, List.any_eq_true]
  refine ⟨column, List.mem_range.mpr hcolumn, bne_iff_ne.mpr fun hsame => h ?_⟩
  rw [hsame, hpaint.symbol_framed]

/-- The first clear changes the digit in the title. -/
theorem differs_first {width : Nat} (h : 66 ≤ width) :
    Picture.differs width (paint (framed 0)) (paint (framed 1)) 0 = true := by
  refine hpaint.differs_of_symbol 14 (by omega) ?_
  rw [hpaint.symbol_framed]
  decide

/-- The first frame begins at nothing, and its bottom row is drawn as well. -/
theorem differs_empty {width : Nat} (h : 66 ≤ width) :
    Picture.differs width Picture.empty (paint (framed 0)) 33 = true :=
  hpaint.differs_of_symbol 0 (by omega) (by decide)

theorem differs_below (width clears : Nat) {row : Nat} (h : 33 < row) :
    Picture.differs width Picture.empty (paint (framed clears)) row = false := by
  simp [Picture.differs, Picture.empty, hpaint.below_framed clears h]

end Widget.Painted

namespace Sight
open TerminalDisplay
variable {T M : Type} {sight : Sight T M} {tty : Tty T} {paint : Widget → Picture}
  {width height clears : Nat} {t t' : T}

/-- The terminal shows the frame after so many clears, and its cursor is hidden where the drawing
of it has ended. -/
structure Framed (sight : Sight T M) (paint : Widget → Picture) (width height clears : Nat)
    (t : T) : Prop where
  depicts : sight.Depicts width height (paint (framed clears)) t
  row : sight.row t = if clears = 0 then 33 else 0
  drawn : sight.drawn t = paint (framed clears)
  hidden : sight.hidden t = true

section Lawful
variable (hlaws : Lawful sight tty paint width height) (hpaint : Widget.Painted paint)
  (hroom : tty.HasRoom width height)
include hlaws hpaint hroom

theorem framed_first {t'' : T} (hclear : tty.clear t = .ok () t')
    (hdraw : tty.draw (framed 0) t' = .ok () t'') : sight.Framed paint width height 0 t'' := by
  have hdraws := hlaws.draws hroom hdraw
  have hdrawn := (hlaws.clear hclear).2.2
  refine ⟨hlaws.depicts_afresh hroom hclear hdraw, ?_, hdraws.drawn, hdraws.hidden⟩
  refine hdraws.row_eq hroom.high ?_ fun later hlater _ => ?_
  · rw [hdrawn]
    exact hpaint.differs_empty hroom.wide
  · rw [hdrawn]
    exact hpaint.differs_below width 0 hlater

/-- One more clear, drawn over the frame before it. -/
theorem Framed.next (h : sight.Framed paint width height clears t)
    (hdraw : tty.draw (framed (clears + 1)) t = .ok () t') :
    sight.Framed paint width height (clears + 1) t' := by
  have hdraws := hlaws.draws hroom hdraw
  have hlater (later : Nat) (hl : 0 < later) (_ : later < height) :
      Picture.differs width (sight.drawn t) (paint (framed (clears + 1))) later = false := by
    rw [h.drawn]
    exact hpaint.differs_framed width clears (clears + 1) hl
  have hdepicts : sight.Depicts width height (sight.drawn t) t := by
    rw [h.drawn]
    exact h.depicts
  refine ⟨hdraws.depicts hdepicts, ?_, hdraws.drawn, hdraws.hidden⟩
  rw [if_neg (Nat.succ_ne_zero clears)]
  -- The first clear must bring the cursor up from the bottom row. After that it does not matter
  -- whether the title changes: the cursor is in the top row, or stays there.
  by_cases hfirst : clears = 0
  · subst hfirst
    refine hdraws.row_eq (Nat.lt_of_lt_of_le (by decide) hroom.high) ?_ hlater
    rw [h.drawn]
    exact hpaint.differs_first hroom.wide
  · rcases hdraws.row_top hlater with htop | hstill
    · exact htop
    · rw [hstill, h.row, if_neg hfirst]

/-- **However often the display is cleared, its terminal shows the frame for that**, and its modes
are as they were. -/
theorem framed_after (hworks : tty.Works width height)
    (h : sight.Framed paint width height 0 t) (clears : Nat) :
    sight.Framed paint width height clears (after tty ⟨t, Canvas.display, 0⟩ clears).terminal ∧
      SameModes sight t (after tty ⟨t, Canvas.display, 0⟩ clears).terminal := by
  induction clears with
  | zero => exact ⟨h, rfl, rfl⟩
  | succ clears ih =>
    obtain ⟨hframed, hmodes⟩ := ih
    have hdraw := after_succ hworks hroom t clears
    exact ⟨hframed.next hlaws hpaint hroom hdraw,
      hmodes.trans (hlaws.draws hroom hdraw).toSameModes⟩

end Lawful

/-- How far four line breaks move up what is on the terminal: those under the first frame need
four rows below it, and those under a later one do not get out of it. -/
def closing (height clears : Nat) : Nat := if clears = 0 then 38 - height else 0

theorem Framed.scrolled_four (hheight : 34 ≤ height)
    (h : sight.Framed paint width height clears t) :
    scrolled height (sight.row t) 4 = closing height clears := by
  rw [scrolled, closing, h.row]
  split <;> omega

end Sight

end Chip8
