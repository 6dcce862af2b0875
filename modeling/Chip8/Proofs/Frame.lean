import Chip8.Proofs.Geometry
import Mathlib.Tactic.SplitIfs

/-! What the frame looks like.

Its characters can be written down row by row (`Canvas.frameRow`, `symbol_eq_frameRow`), and but for
the title all frames are the same. -/
namespace Chip8

namespace Canvas

/-- A row of the frame after a number of clears; below the frame there is nothing. -/
def frameRow (clears row : Nat) : List Char :=
  if row = 0 then '┌' :: ((title clears).toList ++ List.replicate 64 '─').take 64 ++ ['┐']
  else if row < 33 then '│' :: List.replicate 64 ' ' ++ ['│']
  else if row = 33 then '└' :: List.replicate 64 '─' ++ ['┘']
  else []

theorem frameRow_bottom (clears : Nat) :
    frameRow clears 33 = '└' :: List.replicate 64 '─' ++ ['┘'] := rfl

theorem frameRow_middle (clears : Nat) {row : Nat} (hpos : row ≠ 0) (hrow : row < 33) :
    frameRow clears row = '│' :: List.replicate 64 ' ' ++ ['│'] := by
  rw [frameRow, if_neg hpos, if_pos hrow]

theorem frameRow_below (clears : Nat) {row : Nat} (hrow : 34 ≤ row) : frameRow clears row = [] := by
  rw [frameRow, if_neg (by omega), if_neg (by omega), if_neg (by omega)]

theorem length_frameRow_le (clears row : Nat) : (frameRow clears row).length ≤ 66 := by
  unfold frameRow
  split_ifs <;> simp

/-- A row of the frame, from its left end to its right. -/
theorem getElem?_bordered {inner : List Char} (hlength : inner.length = 64) (left right : Char)
    {column : Nat} (hcolumn : column < 66) :
    (left :: inner ++ [right])[column]?.getD ' ' =
      if column = 0 then left
      else if column + 1 = 66 then right else inner[column - 1]?.getD ' ' := by
  cases column with
  | zero => rfl
  | succ column =>
    rw [List.cons_append, List.getElem?_cons_succ, if_neg (Nat.succ_ne_zero column)]
    by_cases hright : column = 64
    · rw [if_pos (by omega), List.getElem?_append_right (by omega), hlength, hright]
      rfl
    · rw [if_neg (by omega), List.getElem?_append_left (by omega)]
      rfl

/-- Where the title ends the edge goes on, and a title that is too long is cut. -/
theorem getElem?_edge (title : List Char) {column : Nat} (h : column < 64) :
    ((title ++ List.replicate 64 '─').take 64)[column]?.getD ' ' = title[column]?.getD '─' := by
  rw [List.getElem?_take_of_lt h]
  by_cases hin : column < title.length
  · rw [List.getElem?_append_left hin, List.getElem?_eq_getElem hin]
    rfl
  · have hout : title.length ≤ column := Nat.le_of_not_lt hin
    rw [List.getElem?_append_right hout, List.getElem?_eq_none hout,
      List.getElem?_replicate_of_lt (by omega)]
    rfl

theorem getElem?_plain (c : Char) {column : Nat} (h : column < 64) :
    (List.replicate 64 c)[column]?.getD ' ' = c := by
  rw [List.getElem?_replicate_of_lt h]
  rfl

/-- The characters of the frame after a number of clears. -/
def symbol (clears row column : Nat) : Char :=
  Picture.border area.width area.height (title clears).toList row column

theorem symbol_inside (clears : Nat) {row column : Nat} (hrow : row < 34) (hcolumn : column < 66) :
    symbol clears row column =
      if row = 0 then
        if column = 0 then '┌'
        else if column + 1 = 66 then '┐' else (title clears).toList[column - 1]?.getD '─'
      else if row + 1 = 34 then
        if column = 0 then '└' else if column + 1 = 66 then '┘' else '─'
      else if column = 0 ∨ column + 1 = 66 then '│' else ' ' := if_pos ⟨hrow, hcolumn⟩

theorem symbol_outside (clears : Nat) {row column : Nat} (h : 34 ≤ row ∨ 66 ≤ column) :
    symbol clears row column = ' ' := by
  refine if_neg fun hin => ?_
  rcases h with h | h
  · exact absurd hin.1 (Nat.not_lt_of_le h)
  · exact absurd hin.2 (Nat.not_lt_of_le h)

section Inside
variable (clears : Nat) {row column : Nat} (hcolumn : column < 66)
include hcolumn

theorem symbol_top : symbol clears 0 column = (frameRow clears 0)[column]?.getD ' ' := by
  rw [symbol_inside clears (by decide) hcolumn, frameRow, if_pos rfl, if_pos rfl,
    getElem?_bordered (by simp) _ _ hcolumn]
  split_ifs
  · rfl
  · rfl
  · exact (getElem?_edge _ (by omega)).symm

theorem symbol_bottom : symbol clears 33 column = (frameRow clears 33)[column]?.getD ' ' := by
  rw [symbol_inside clears (by decide) hcolumn, frameRow_bottom,
    getElem?_bordered List.length_replicate _ _ hcolumn, if_neg (by decide), if_pos rfl]
  split_ifs
  · rfl
  · rfl
  · exact (getElem?_plain _ (by omega)).symm

theorem symbol_middle (hpos : row ≠ 0) (hrow : row < 33) :
    symbol clears row column = (frameRow clears row)[column]?.getD ' ' := by
  rw [symbol_inside clears (by omega) hcolumn, if_neg hpos, if_neg (by omega),
    frameRow_middle clears hpos hrow, getElem?_bordered List.length_replicate _ _ hcolumn]
  by_cases hleft : column = 0
  · rw [if_pos (.inl hleft), if_pos hleft]
  · by_cases hright : column + 1 = 66
    · rw [if_pos (.inr hright), if_neg hleft, if_pos hright]
    · rw [if_neg (not_or.mpr ⟨hleft, hright⟩), if_neg hleft, if_neg hright]
      exact (getElem?_plain _ (by omega)).symm

end Inside

/-- **The characters are those of the frame**, row by row, and blank to the right of it and
below. -/
theorem symbol_eq_frameRow (clears row column : Nat) :
    symbol clears row column = (frameRow clears row)[column]?.getD ' ' := by
  by_cases hcolumn : column < 66
  · by_cases htop : row = 0
    · rw [htop, symbol_top clears hcolumn]
    · rcases Nat.lt_trichotomy row 33 with hrow | hrow | hrow
      · exact symbol_middle clears hcolumn htop hrow
      · rw [hrow, symbol_bottom clears hcolumn]
      · rw [symbol_outside clears (.inl hrow), frameRow_below clears hrow]
        rfl
  · have hright : 66 ≤ column := Nat.le_of_not_lt hcolumn
    rw [symbol_outside clears (.inr hright),
      List.getElem?_eq_none (Nat.le_trans (length_frameRow_le clears row) hright)]
    rfl

/-- Frames differ in their titles only. -/
theorem symbol_untitled (clears clears' : Nat) {row : Nat} (h : row ≠ 0) (column : Nat) :
    symbol clears row column = symbol clears' row column := by
  rw [symbol_eq_frameRow, symbol_eq_frameRow, frameRow, frameRow, if_neg h, if_neg h]

/-- The title grows by a digit, and the edge behind it is shorter by one. -/
example : (frameRow 9 0).drop 14 = "9)".toList ++ List.replicate 49 '─' ++ ['┐'] ∧
    (frameRow 10 0).drop 14 = "10)".toList ++ List.replicate 48 '─' ++ ['┐'] := by decide

/-- Every character of a title takes one cell. -/
theorem plain_title (clears : Nat) : ∀ c ∈ (title clears).toList, ' ' ≤ c ∧ c ≤ '~' := by
  intro c hc
  rw [title, Nat.toString_eq_ofList_toDigits, String.toList_append, String.toList_append,
    List.mem_append, List.mem_append] at hc
  rcases hc with (hc | hc) | hc
  · have hall : ∀ c ∈ "CHIP-8 (cls x".toList, ' ' ≤ c ∧ c ≤ '~' := by simp
    exact hall c hc
  · rw [String.toList_ofList] at hc
    have hdigit : c.isDigit := Nat.isDigit_of_mem_toDigits (b := 10) (by decide) (by decide) hc
    obtain ⟨hzero, hnine⟩ := Char.isDigit_iff_toNat.mp hdigit
    exact ⟨Nat.le_trans (by decide) hzero, Nat.le_trans hnine (by decide)⟩
  · rw [List.mem_singleton.mp hc]
    decide

end Canvas

end Chip8
