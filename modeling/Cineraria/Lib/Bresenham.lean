import Mathlib.Tactic.Linarith
import Mathlib.Tactic.Ring

/-!
# The error term of a digital line

A line that is `short` high and `long` wide is drawn in `long` turns, one column each. An error term says in
which of them the line rises by one. No multiplication or division is needed, and the line that comes out is
never further than half a row from the true one (`risen_nearest`).
-/

namespace Cineraria.Bresenham

/-- The error term after one turn: the line rises if the term is positive. -/
def next (long short d : Int) : Int := if d > 0 then d + (2 * short - 2 * long) else d + 2 * short

/-- The error term before turn number `k`. -/
def error (long short : Int) : Nat → Int
  | 0 => 2 * short - long
  | k + 1 => next long short (error long short k)

/-- The rows that the line has risen in the first `k` turns. -/
def risen (long short : Int) : Nat → Int
  | 0 => 0
  | k + 1 => risen long short k + if error long short k > 0 then 1 else 0

section
variable {long short : Int}

/-- The error term is how far the true line is ahead of the drawn one, half a row from the next column. -/
theorem error_eq (long short : Int) (k : Nat) :
    error long short k = 2 * short * (k + 1) - long - 2 * long * risen long short k := by
  induction k with
  | zero =>
      rw [error, risen]
      push_cast
      ring
  | succ k ih =>
      rw [error, next, risen]
      push_cast
      split
      · rw [ih]
        ring
      · rw [ih]
        ring

/-- The error term is bounded as long as the line is wider than it is high. -/
theorem error_bounds (flat : short ≤ long) (rising : 0 ≤ short) (k : Nat) :
    2 * short - 2 * long ≤ error long short k ∧ error long short k ≤ 2 * short := by
  induction k with
  | zero =>
      rw [error]
      omega
  | succ k ih =>
      rw [error, next]
      split
      · omega
      · omega

/-- After each turn the drawn line is within half a row of the true one. -/
theorem risen_nearest (flat : short ≤ long) (rising : 0 ≤ short) (k : Nat) :
    |2 * (long * risen long short k - short * k)| ≤ long := by
  have bounds := error_bounds flat rising k
  rw [error_eq] at bounds
  rw [abs_le]
  constructor
  · linarith
  · linarith

/-- The line ends where it should. -/
theorem risen_end (flat : short ≤ long) (rising : 0 ≤ short) : risen long short long.toNat = short := by
  have wide : (long.toNat : Int) = long := Int.toNat_of_nonneg (Int.le_trans rising flat)
  have nearest := risen_nearest flat rising long.toNat
  rw [wide, abs_le] at nearest
  obtain ⟨above, below⟩ := nearest
  rcases Int.lt_or_eq_of_le (Int.le_trans rising flat) with positive | zero
  · apply Int.le_antisymm
    · by_contra higher
      have further : long * (short + 1) ≤ long * risen long short long.toNat :=
        Int.mul_le_mul_of_nonneg_left (Int.lt_of_not_ge higher) (Int.le_of_lt positive)
      linarith
    · by_contra lower
      have nearer : long * (risen long short long.toNat + 1) ≤ long * short :=
        Int.mul_le_mul_of_nonneg_left (Int.lt_of_not_ge lower) (Int.le_of_lt positive)
      linarith
  · obtain rfl := zero
    rw [Int.toNat_zero, risen]
    omega

/-- A turn rises by no row or by one. -/
theorem risen_succ (long short : Int) (k : Nat) :
    risen long short (k + 1) = risen long short k ∨ risen long short (k + 1) = risen long short k + 1 := by
  rw [risen]
  split
  · exact .inr rfl
  · left
    exact Int.add_zero _

theorem risen_nonneg (long short : Int) (k : Nat) : 0 ≤ risen long short k := by
  induction k with
  | zero => exact Int.le_refl 0
  | succ k ih =>
      rcases risen_succ long short k with same | rises
      · rw [same]
        exact ih
      · rw [rises]
        omega

/-- A level line does not rise. -/
theorem risen_level (long : Int) (wide : 0 ≤ long) (k : Nat) : risen long 0 k = 0 := by
  induction k with
  | zero => rfl
  | succ k ih =>
      have below := (error_bounds wide (Int.le_refl 0) k).2
      rw [risen, ih, if_neg (by omega)]
      rfl

end

end Cineraria.Bresenham
