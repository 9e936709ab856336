import Mathlib.Data.List.Nodup
import Cineraria.Draw.Line

/-!
# Drawing a box

`nd_lib/nd_egl.c`: `nd_GsEglBox` draws a horizontal line through each corner and a vertical one between the two
rows at each. The vertical lines leave out the corners. They do so only for a first corner that is above the
second one by two rows or more: `nd_GsEglLine` draws a line in either direction, so that one from `y1 + 1` to
`y2 - 1` is never empty (`box_meets_iff`).
-/

namespace Cineraria.Draw

open Bresenham

/-- `nd_GsEglBox` -/
def ndGsEglBox (x1 y1 x2 y2 : Int) : List Point :=
  ndGsEglLine x1 y1 x2 y1 ++ ndGsEglLine x1 y2 x2 y2 ++ ndGsEglLine x2 (y1 + 1) x2 (y2 - 1) ++
    ndGsEglLine x1 (y1 + 1) x1 (y2 - 1)

/-- Between two coordinates in either order. -/
def Between (a b c : Int) : Prop := min a b ≤ c ∧ c ≤ max a b

instance (a b c : Int) : Decidable (Between a b c) := inferInstanceAs (Decidable (_ ∧ _))

/-- A point of the closed rectangle between two corners. -/
def InRectangle (x1 y1 x2 y2 : Int) (r : Point) : Prop := Between x1 x2 r.x ∧ Between y1 y2 r.y

/-- A point of its edge. -/
def OnPerimeter (x1 y1 x2 y2 : Int) (r : Point) : Prop :=
  InRectangle x1 y1 x2 y2 r ∧ (r.x = x1 ∨ r.x = x2 ∨ r.y = y1 ∨ r.y = y2)

instance (x1 y1 x2 y2 : Int) (r : Point) : Decidable (OnPerimeter x1 y1 x2 y2 r) :=
  inferInstanceAs (Decidable ((_ ∧ _) ∧ _))

/-- What a box must be: each point of the perimeter is drawn once, and no other. -/
def BoxMeets (x1 y1 x2 y2 : Int) : Prop :=
  ∀ r, (ndGsEglBox x1 y1 x2 y2).count r = if OnPerimeter x1 y1 x2 y2 r then 1 else 0

/-! ## Level and upright lines -/

/-- The points of a digital line that does not rise are drawn once. -/
theorem nodup_digital_level {long i : Int} {plot : Int → Int → Point} (wide : 0 ≤ long)
    (injective : ∀ a a' b, plot a b = plot a' b → a = a') (a b : Int) : (digital long 0 i plot a b).Nodup := by
  apply List.Nodup.map _ List.nodup_range
  intro j k same
  dsimp only at same
  rw [risen_level long wide, risen_level long wide] at same
  have column := injective _ _ _ same
  omega

theorem mem_digital_level {long i : Int} {plot : Int → Int → Point} (wide : 0 ≤ long) (a b : Int) (r : Point) :
    r ∈ digital long 0 i plot a b ↔ ∃ c, a ≤ c ∧ c ≤ a + long ∧ plot c b = r := by
  have level (k : Nat) : plot (a + k) (b + i * risen long 0 k) = plot (a + k) b := by
    rw [risen_level long wide, Int.mul_zero, Int.add_zero]
  simp only [digital, List.mem_map, List.mem_range, level]
  constructor
  · rintro ⟨k, within, rfl⟩
    exact ⟨a + k, by omega, by omega, rfl⟩
  · rintro ⟨c, after, before, rfl⟩
    have column : a + ((c - a).toNat : Int) = c := by omega
    refine ⟨(c - a).toNat, by omega, ?_⟩
    rw [column]

/-- A column from its upper to its lower end. -/
theorem count_drawLine_column {a b : Point} (upright : a.x = b.x) (down : a.y ≤ b.y) (r : Point) :
    (drawLine a.x a.y b.x b.y).count r = if r.x = a.x ∧ a.y ≤ r.y ∧ r.y ≤ b.y then 1 else 0 := by
  have level : (b.x - a.x).natAbs = 0 := by omega
  have injective : ∀ y y' x : Int, (⟨x, y⟩ : Point) = ⟨x, y'⟩ → y = y' := by
    intro y y' x same
    rw [Point.mk.injEq] at same
    exact same.2
  rw [drawLine_high (by omega) down, level, Int.natCast_zero]
  rw [(nodup_digital_level (Int.natCast_nonneg _) injective a.y a.x).count]
  apply if_congr _ rfl rfl
  rw [mem_digital_level (Int.natCast_nonneg _)]
  constructor
  · rintro ⟨c, after, before, rfl⟩
    dsimp only
    omega
  · rintro ⟨column, after, before⟩
    refine ⟨r.y, after, by omega, ?_⟩
    rw [← column]

/-- A row from its left to its right end. -/
theorem count_drawLine_row {a b : Point} (level : a.y = b.y) (right : a.x ≤ b.x) (r : Point) :
    (drawLine a.x a.y b.x b.y).count r = if a.x ≤ r.x ∧ r.x ≤ b.x ∧ r.y = a.y then 1 else 0 := by
  rcases Int.lt_or_eq_of_le right with wide | same
  · have flat : (b.y - a.y).natAbs = 0 := by omega
    have injective : ∀ x x' y : Int, (⟨x, y⟩ : Point) = ⟨x', y⟩ → x = x' := by
      intro x x' y same
      rw [Point.mk.injEq] at same
      exact same.1
    rw [drawLine_wide (by omega) right, flat, Int.natCast_zero]
    rw [(nodup_digital_level (Int.natCast_nonneg _) injective a.x a.y).count]
    apply if_congr _ rfl rfl
    rw [mem_digital_level (Int.natCast_nonneg _)]
    constructor
    · rintro ⟨c, after, before, rfl⟩
      dsimp only
      omega
    · rintro ⟨after, before, row⟩
      refine ⟨r.x, after, by omega, ?_⟩
      rw [← row]
  · rw [count_drawLine_column same (Int.le_of_eq level)]
    apply if_congr _ rfl rfl
    omega

/-- A line along a row, in either direction. -/
theorem count_row (x1 x2 y : Int) (r : Point) :
    (ndGsEglLine x1 y x2 y).count r = if Between x1 x2 r.x ∧ r.y = y then 1 else 0 := by
  unfold ndGsEglLine Between
  by_cases backward : x2 - x1 + y - y ≤ 0
  · rw [if_pos backward]
    rw [count_drawLine_row (a := ⟨x2, y⟩) (b := ⟨x1, y⟩) rfl (by dsimp only; omega)]
    apply if_congr _ rfl rfl
    dsimp only
    omega
  · rw [if_neg backward]
    rw [count_drawLine_row (a := ⟨x1, y⟩) (b := ⟨x2, y⟩) rfl (by dsimp only; omega)]
    apply if_congr _ rfl rfl
    dsimp only
    omega

/-- A line along a column, in either direction. -/
theorem count_column (x y1 y2 : Int) (r : Point) :
    (ndGsEglLine x y1 x y2).count r = if r.x = x ∧ Between y1 y2 r.y then 1 else 0 := by
  unfold ndGsEglLine Between
  by_cases backward : x - x + y2 - y1 ≤ 0
  · rw [if_pos backward]
    rw [count_drawLine_column (a := ⟨x, y2⟩) (b := ⟨x, y1⟩) rfl (by dsimp only; omega)]
    apply if_congr _ rfl rfl
    dsimp only
    omega
  · rw [if_neg backward]
    rw [count_drawLine_column (a := ⟨x, y1⟩) (b := ⟨x, y2⟩) rfl (by dsimp only; omega)]
    apply if_congr _ rfl rfl
    dsimp only
    omega

/-! ## The box -/

/-- A box is as it should be if and only if it is wider than one column and its first corner is above the second
one by two rows or more. -/
theorem box_meets_iff (x1 y1 x2 y2 : Int) : BoxMeets x1 y1 x2 y2 ↔ x1 ≠ x2 ∧ y1 + 2 ≤ y2 := by
  unfold BoxMeets ndGsEglBox
  simp only [List.count_append, count_row, count_column]
  constructor
  · intro meets
    have high : y1 + 2 ≤ y2 := by
      by_contra low
      have below := meets ⟨x2, y1 + 1⟩
      clear meets
      split_ifs at below
      all_goals simp only [Between, OnPerimeter, InRectangle, true_and, and_true, true_or, or_true] at *
      all_goals omega
    refine ⟨?_, high⟩
    rintro rfl
    have twice := meets ⟨x1, y1 + 1⟩
    clear meets
    split_ifs at twice
    all_goals simp only [Between, OnPerimeter, InRectangle, true_and, and_true, true_or, or_true] at *
    all_goals omega
  · rintro ⟨wide, high⟩ r
    split_ifs
    all_goals simp only [Between, OnPerimeter, InRectangle] at *
    all_goals omega

/-- A box that is one row high: every corner is drawn twice or more. -/
theorem box_flat : (ndGsEglBox 0 0 2 0).count ⟨2, 0⟩ = 3 ∧ ¬ BoxMeets 0 0 2 0 := by
  have drawn : (ndGsEglBox 0 0 2 0).count ⟨2, 0⟩ = 3 := by decide
  refine ⟨drawn, ?_⟩
  intro meets
  have once := meets ⟨2, 0⟩
  rw [drawn] at once
  exact absurd once (by decide)

end Cineraria.Draw
