import Chip8.Screen.Picture

/-! The size of a frame.

Only the low sixteen bits of a size count, and they count before the border is added
(`bordered_ok`, `bordered_error`). So a canvas that is a little too wide for a screen has no
frame, and one that is wider still may have a narrow one. But where canvas and border together
have as few cells as a rectangle may have, both sizes are small, and the frame is what it should
be (`frame_exact`).

How rectangles are made is left open (`rect`). All that is asked of it is that it keeps a size that
has few enough cells. -/
namespace Chip8

namespace Rect

/-- Rectangles with few enough cells are made as they are asked for. -/
def KeepsSmall (rect : (x y width height : Nat) → Rect) : Prop :=
  ∀ x y width height, width * height ≤ maxArea → rect x y width height = ⟨x, y, width, height⟩

end Rect

namespace Canvas

/-! ### Coordinates -/

theorem predecessor_error_iff {n : UInt64} {e : Overflow} :
    predecessor n = .error e ↔ n = 0 ∧ e = .subtract := by
  unfold predecessor
  split
  case isTrue h => simp [h, eq_comm]
  case isFalse h => simp [h]

variable (c : Canvas) {e : Overflow}

theorem xBounds_error_iff : c.xBounds = .error e ↔ c.width = 0 ∧ e = .subtract := by
  rw [← predecessor_error_iff, xBounds]
  cases predecessor c.width <;> simp [bind, Except.bind, pure, Except.pure]

theorem yBounds_error_iff : c.yBounds = .error e ↔ c.height = 0 ∧ e = .subtract := by
  rw [← predecessor_error_iff, yBounds]
  cases predecessor c.height <;> simp [bind, Except.bind, pure, Except.pure]

/-! ### Borders -/

/-- The number of cells that a size comes to. -/
def narrowed (n : UInt64) : Nat := n.toNat % 65536

theorem bordered_ok {n : UInt64} (h : narrowed n < 65534) :
    ∃ cells, bordered n = .ok cells ∧ cells.toNat = narrowed n + 2 := by
  have hroom : n.toUInt16.toNat + 2 < 65536 := Nat.add_lt_add_right h 2
  refine ⟨_, if_pos hroom, ?_⟩
  rw [UInt16.toNat_add]
  exact Nat.mod_eq_of_lt hroom

theorem bordered_error {n : UInt64} (h : 65534 ≤ narrowed n) : bordered n = .error .add :=
  if_neg (Nat.not_lt_of_le (Nat.add_le_add_right h 2))

/-! ### Frames -/

variable {rect : (x y width height : Nat) → Rect}

theorem frameBy_ok (hwidth : narrowed c.width < 65534) (hheight : narrowed c.height < 65534) :
    c.frameBy rect = .ok (rect 0 0 (narrowed c.width + 2) (narrowed c.height + 2)) := by
  obtain ⟨width, hw, hwidth⟩ := bordered_ok hwidth
  obtain ⟨height, hh, hheight⟩ := bordered_ok hheight
  simp only [frameBy, hw, hh, ← hwidth, ← hheight]
  rfl

/-- A size with too large a rest has no frame, whatever the other one is. -/
theorem frameBy_error (h : 65534 ≤ narrowed c.width ∨ 65534 ≤ narrowed c.height) :
    c.frameBy rect = .error .add := by
  by_cases hwidth : 65534 ≤ narrowed c.width
  · simp only [frameBy, bordered_error hwidth]
    rfl
  · have hheight : 65534 ≤ narrowed c.height := h.resolve_left hwidth
    obtain ⟨width, hw, _⟩ := bordered_ok (Nat.lt_of_not_le hwidth)
    simp only [frameBy, hw, bordered_error hheight]
    rfl

theorem frameBy_error_iff :
    c.frameBy rect = .error e ↔
      (65534 ≤ narrowed c.width ∨ 65534 ≤ narrowed c.height) ∧ e = .add := by
  by_cases h : 65534 ≤ narrowed c.width ∨ 65534 ≤ narrowed c.height
  · rw [frameBy_error c h]
    simp [h, eq_comm]
  · obtain ⟨hwidth, hheight⟩ := not_or.mp h
    rw [frameBy_ok c (Nat.lt_of_not_le hwidth) (Nat.lt_of_not_le hheight)]
    simp [h]

/-- The frame of the machine's display has its border around the whole canvas. -/
theorem frameBy_display (hrect : Rect.KeepsSmall rect) : display.frameBy rect = .ok area := by
  rw [frameBy_ok display (by decide) (by decide), hrect _ _ _ _ (by decide)]
  rfl

/-- Where a product is as small as that, no factor loses anything. -/
theorem narrowed_of_product {n m : UInt64} (h : (n.toNat + 2) * (m.toNat + 2) ≤ 65535) :
    narrowed n = n.toNat ∧ narrowed n < 65534 := by
  have hleast : (n.toNat + 2) * 2 ≤ (n.toNat + 2) * (m.toNat + 2) :=
    Nat.mul_le_mul_left _ (Nat.le_add_left 2 _)
  have hsmall : n.toNat < 65534 := by omega
  have hsame : narrowed n = n.toNat := Nat.mod_eq_of_lt (Nat.lt_trans hsmall (by decide))
  exact ⟨hsame, hsame ▸ hsmall⟩

/-- What can be said of the coordinates and the frame of a canvas. -/
structure Measured (rect : (x y width height : Nat) → Rect) (c : Canvas) : Prop where
  /-- Only without dots there is no coordinate. -/
  xBounds : ∀ e, c.xBounds = .error e ↔ c.width = 0 ∧ e = .subtract
  yBounds : ∀ e, c.yBounds = .error e ↔ c.height = 0 ∧ e = .subtract
  overflows : ∀ e, c.frameBy rect = .error e ↔
    (65534 ≤ c.width.toNat % 65536 ∨ 65534 ≤ c.height.toNat % 65536) ∧ e = .add
  /-- With few enough cells the frame is a border around what is left of the sizes. -/
  wrapped : c.width.toNat % 65536 < 65534 → c.height.toNat % 65536 < 65534 →
    (c.width.toNat % 65536 + 2) * (c.height.toNat % 65536 + 2) ≤ 65535 →
    c.frameBy rect = .ok ⟨0, 0, c.width.toNat % 65536 + 2, c.height.toNat % 65536 + 2⟩
  /-- If canvas and border have few enough, nothing is lost. -/
  whole : (c.width.toNat + 2) * (c.height.toNat + 2) ≤ 65535 →
    c.width.toUInt16.toNat = c.width.toNat ∧ c.height.toUInt16.toNat = c.height.toNat ∧
      c.frameBy rect = .ok ⟨0, 0, c.width.toNat + 2, c.height.toNat + 2⟩

/-- **When coordinates and frames overflow, and when a frame is exact.** -/
theorem frame_exact (hrect : Rect.KeepsSmall rect) (c : Canvas) : Measured rect c := by
  have hwrapped (hwidth : narrowed c.width < 65534) (hheight : narrowed c.height < 65534)
      (hcells : (narrowed c.width + 2) * (narrowed c.height + 2) ≤ 65535) :
      c.frameBy rect = .ok ⟨0, 0, narrowed c.width + 2, narrowed c.height + 2⟩ := by
    rw [frameBy_ok c hwidth hheight, hrect _ _ _ _ hcells]
  refine
    { xBounds := fun _ => xBounds_error_iff c
      yBounds := fun _ => yBounds_error_iff c
      overflows := fun _ => frameBy_error_iff c
      wrapped := hwrapped
      whole := fun hcells => ?_ }
  obtain ⟨hwidth, hwidth'⟩ := narrowed_of_product hcells
  obtain ⟨hheight, hheight'⟩ := narrowed_of_product (Nat.mul_comm _ _ ▸ hcells)
  refine ⟨hwidth, hheight, ?_⟩
  have hframe := hwrapped hwidth' hheight' (by rwa [hwidth, hheight])
  rwa [hwidth, hheight] at hframe

/-- The display's frame is exact, a canvas of 65534 dots across has none, and one of 65536 has a
border around nothing. -/
theorem display_framed :
    frame ⟨64, 32⟩ = .ok ⟨0, 0, 66, 34⟩ ∧ frame ⟨65534, 32⟩ = .error .add ∧
      frame ⟨65536, 32⟩ = .ok ⟨0, 0, 2, 34⟩ :=
  have hfit : Rect.KeepsSmall Rect.fit := Rect.fit_of_le
  ⟨((frame_exact hfit _).whole (by decide)).2.2,
    ((frame_exact hfit _).overflows _).mpr ⟨.inl (by decide), rfl⟩,
    (frame_exact hfit _).wrapped (by decide) (by decide) (by decide)⟩

end Canvas

end Chip8
