/-! Lists cut into pieces of one length.

Only the last piece may be shorter, none is empty (`mem_pieces`), and together they are
the list (`flatten_pieces`). -/
namespace Chip8

/-- A list in pieces of `size` elements. -/
def pieces (size : Nat) (xs : List α) : List (List α) :=
  if _ : size = 0 ∨ xs = [] then []
  else xs.take size :: pieces size (xs.drop size)
termination_by xs.length
decreasing_by
  rename_i h
  have : xs ≠ [] := fun hx => h (.inr hx)
  have := List.length_pos_iff.mpr this
  simp only [List.length_drop]
  omega

theorem flatten_pieces {size : Nat} (h : 0 < size) (xs : List α) : (pieces size xs).flatten = xs := by
  fun_induction pieces size xs with
  | case1 xs hx =>
    rcases hx with hs | rfl
    · omega
    · rfl
  | case2 xs hx ih => rw [List.flatten_cons, ih, List.take_append_drop]

theorem mem_pieces {size : Nat} {xs p : List α} (h : p ∈ pieces size xs) :
    p ≠ [] ∧ p.length ≤ size := by
  fun_induction pieces size xs with
  | case1 xs hx => cases h
  | case2 xs hx ih =>
    rcases List.mem_cons.mp h with rfl | hp
    · refine ⟨fun hnil => hx ?_, List.length_take_le _ _⟩
      exact List.take_eq_nil_iff.mp hnil
    · exact ih hp

end Chip8
