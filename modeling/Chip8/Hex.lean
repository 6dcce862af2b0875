/-! Hexadecimal text.

A number is written with as many digits as it needs, and with leading zeros up to
the number of digits asked for (`text`). Digits that are enough for a number read
back as that number (`value_digits`), whichever letters are used. -/
namespace Chip8.Hex

/-- The letters that stand for ten to fifteen. -/
inductive Letters where
  | lower
  | upper
  deriving DecidableEq, Repr

def Letters.first : Letters → Char
  | .lower => 'a'
  | .upper => 'A'

/-- The digit of a value below sixteen. -/
def digit (letters : Letters) (n : Nat) : Char :=
  if n < 10 then Char.ofNat ('0'.toNat + n) else Char.ofNat (letters.first.toNat + (n - 10))

/-- The last `count` digits of a number, most significant first. -/
def digits (letters : Letters) : (count n : Nat) → List Char
  | 0, _ => []
  | count + 1, n => digits letters count (n / 16) ++ [digit letters (n % 16)]

/-- How many digits a number needs; zero needs one. -/
def width (n : Nat) : Nat := n.log2 / 4 + 1

/-- A number in at least `least` digits. -/
def text (letters : Letters) (least n : Nat) : String :=
  String.ofList (digits letters (max least (width n)) n)

/-! ### Reading digits back -/

/-- The value of a digit with letters of either case. -/
def digitValue (c : Char) : Nat :=
  if c.toNat < 'A'.toNat then c.toNat - '0'.toNat
  else if c.toNat < 'a'.toNat then c.toNat - 'A'.toNat + 10
  else c.toNat - 'a'.toNat + 10

def value (cs : List Char) : Nat := cs.foldl (fun n c => 16 * n + digitValue c) 0

theorem value_concat (cs : List Char) (c : Char) : value (cs ++ [c]) = 16 * value cs + digitValue c := by
  simp [value, List.foldl_append]

theorem digitValue_digit (letters : Letters) {n : Nat} (h : n < 16) :
    digitValue (digit letters n) = n := by
  have all : ∀ k : Fin 16, digitValue (digit letters k) = k := by cases letters <;> decide
  exact all ⟨n, h⟩

/-- Zero in any number of digits reads back as zero. -/
theorem value_digits_zero (letters : Letters) (count : Nat) :
    value (digits letters count 0) = 0 := by
  induction count with
  | zero => rfl
  | succ count ih =>
    rw [digits, value_concat, digitValue_digit letters (Nat.mod_lt 0 (by decide)), Nat.zero_div, ih]

/-- A number of more than one digit has one more than its quotient by sixteen. -/
theorem width_of_le {n : Nat} (h : 16 ≤ n) : width n = width (n / 16) + 1 := by
  have hlog : n.log2 = (n / 16).log2 + 4 := by
    rw [Nat.log2_def, if_pos (by omega), Nat.log2_def, if_pos (by omega), Nat.log2_def,
      if_pos (by omega), Nat.log2_def, if_pos (by omega)]
    simp only [Nat.div_div_eq_div_mul]
  simp only [width, hlog]
  omega

theorem value_digits (letters : Letters) (count n : Nat) (h : width n ≤ count) :
    value (digits letters count n) = n := by
  induction count generalizing n with
  | zero => simp [width] at h
  | succ count ih =>
    have hrest : value (digits letters count (n / 16)) = n / 16 := by
      by_cases hn : n < 16
      · rw [Nat.div_eq_of_lt hn]
        exact value_digits_zero letters count
      · exact ih _ (by have := width_of_le (Nat.le_of_not_lt hn); omega)
    rw [digits, value_concat, hrest, digitValue_digit letters (Nat.mod_lt n (by decide))]
    omega

end Chip8.Hex
