import Mathlib.Tactic.IntervalCases
import Mathlib.Tactic.NormNum
import Cineraria.Draw.Line
import Cineraria.Lib.ClosedCurve

/-!
# Drawing a circle

`nd_lib/nd_egl.c`: `nd_GsEglCircle` goes through one octant of the circle, one column a turn, and plots each point
of it with its seven reflections. The decision variable is the sum of the errors of the two points that the next
column may have, and its sign says which of them is nearer.

The coordinates are so small that no sum of them overflows.
-/

namespace Cineraria.Draw

open Curves

/-- The variables of the loop. -/
structure Circle where
  x : Int
  y : Int
  d : Int
  deriving DecidableEq, Repr

namespace Circle

/-- The variables before the first turn. -/
def start (r : Int) : Circle where
  x := 0
  y := r
  d := 3 - 2 * r

/-- What one turn does to them. -/
def next (c : Circle) : Circle :=
  if c.d < 0 then { x := c.x + 1, y := c.y, d := c.d + 4 * c.x + 6 }
  else { x := c.x + 1, y := c.y - 1, d := c.d + 4 * (c.x - c.y) + 10 }

/-- The points that a turn plots. -/
def eight (c : Circle) (xc yc : Int) : List Point :=
  [⟨xc + c.x, yc + c.y⟩, ⟨xc - c.x, yc + c.y⟩, ⟨xc + c.x, yc - c.y⟩, ⟨xc - c.x, yc - c.y⟩,
    ⟨xc + c.y, yc + c.x⟩, ⟨xc - c.y, yc + c.x⟩, ⟨xc + c.y, yc - c.x⟩, ⟨xc - c.y, yc - c.x⟩]

/-- The points on the diagonals. -/
def four (c : Circle) (xc yc : Int) : List Point :=
  [⟨xc + c.x, yc + c.y⟩, ⟨xc - c.x, yc + c.y⟩, ⟨xc + c.x, yc - c.y⟩, ⟨xc - c.x, yc - c.y⟩]

theorem next_x (c : Circle) : c.next.x = c.x + 1 := by
  unfold next
  split
  · rfl
  · rfl

theorem next_y (c : Circle) : c.next.y = c.y - if c.d < 0 then 0 else 1 := by
  unfold next
  split
  · rw [Int.sub_zero]
  · rfl

/-- The loop, and the points after it. -/
def loop (xc yc : Int) (c : Circle) : List Point :=
  if c.x < c.y then c.eight xc yc ++ loop xc yc c.next
  else if c.x = c.y then c.four xc yc
  else []
termination_by (c.y - c.x).toNat
decreasing_by
  rw [next_x, next_y]
  split
  · omega
  · omega

/-- The variables at the `k`-th test of the loop. -/
def atTest (r : Int) (k : Nat) : Circle := next^[k] (start r)

/-- What is plotted after a test. -/
def plotted (c : Circle) (xc yc : Int) : List Point :=
  if c.x < c.y then c.eight xc yc else if c.x = c.y then c.four xc yc else []

end Circle

/-- `nd_GsEglCircle` -/
def ndGsEglCircle (xc yc r : Int) : List Point := (Circle.start r).loop xc yc

/-- The same distances from the centre, also exchanged. -/
def Reflected (u v u' v' : Int) : Prop :=
  u'.natAbs = u.natAbs ∧ v'.natAbs = v.natAbs ∨ u'.natAbs = v.natAbs ∧ v'.natAbs = u.natAbs

/-- What a circle must be. -/
structure CircleMeets (xc yc r : Int) : Prop where
  terminates : ∃ n, (∀ k < n, (Circle.atTest r k).x < (Circle.atTest r k).y) ∧
    ¬ (Circle.atTest r n).x < (Circle.atTest r n).y ∧
    ndGsEglCircle xc yc r = (List.range (n + 1)).flatMap fun k => (Circle.atTest r k).plotted xc yc
  decision : ∀ k, (Circle.atTest r k).d =
    2 * ((Circle.atTest r k).x + 1) ^ 2 + (Circle.atTest r k).y ^ 2 + ((Circle.atTest r k).y - 1) ^ 2 - 2 * r ^ 2
  accurate : ∀ u v, ⟨xc + u, yc + v⟩ ∈ ndGsEglCircle xc yc r → |u ^ 2 + v ^ 2 - r ^ 2| ≤ r - 1
  symmetric : ∀ u v u' v', Reflected u v u' v' →
    ⟨xc + u, yc + v⟩ ∈ ndGsEglCircle xc yc r → ⟨xc + u', yc + v'⟩ ∈ ndGsEglCircle xc yc r
  curve : ∃ n c, ClosedCurve Neighbour n c ∧ ∀ p, p ∈ ndGsEglCircle xc yc r ↔ ∃ i, c i = p

namespace Circle

/-! ## The turns of the loop -/

theorem loop_eq {xc yc : Int} (n : Nat) (c : Circle) (turns : ∀ k < n, (next^[k] c).x < (next^[k] c).y)
    (ends : ¬ (next^[n] c).x < (next^[n] c).y) :
    loop xc yc c = (List.range (n + 1)).flatMap fun k => (next^[k] c).plotted xc yc := by
  induction n generalizing c with
  | zero =>
      rw [Function.iterate_zero_apply] at ends
      rw [loop, if_neg ends, List.range_one, List.flatMap_singleton, Function.iterate_zero_apply, plotted, if_neg ends]
  | succ n ih =>
      have first : c.x < c.y := turns 0 (Nat.succ_pos n)
      have rest := ih c.next (fun k within => turns (k + 1) (Nat.succ_lt_succ within)) ends
      have tests : List.range (n + 1 + 1) = 0 :: (List.range (n + 1)).map Nat.succ := List.range_succ_eq_map
      rw [loop, if_pos first, rest, tests, List.flatMap_cons, List.flatMap_map]
      rw [Function.iterate_zero_apply, plotted, if_pos first]
      rfl

section
variable {r : Int}

theorem atTest_succ (r : Int) (k : Nat) : atTest r (k + 1) = (atTest r k).next :=
  Function.iterate_succ_apply' next k (start r)

theorem atTest_x (r : Int) (k : Nat) : (atTest r k).x = k := by
  induction k with
  | zero => rfl
  | succ k ih =>
      rw [atTest_succ, next_x, ih]
      push_cast
      rfl

/-- The row goes down by one at most. -/
theorem atTest_y_succ (r : Int) (k : Nat) :
    (atTest r (k + 1)).y ≤ (atTest r k).y ∧ (atTest r k).y ≤ (atTest r (k + 1)).y + 1 := by
  rw [atTest_succ, next_y]
  split
  · omega
  · omega

theorem atTest_y_le (r : Int) (k : Nat) : (atTest r k).y ≤ r := by
  induction k with
  | zero => exact Int.le_refl r
  | succ k ih => exact (atTest_y_succ r k).1.trans ih

theorem atTest_y_antitone (r : Int) {j k : Nat} (before : j ≤ k) : (atTest r k).y ≤ (atTest r j).y := by
  induction k, before using Nat.le_induction with
  | base => exact Int.le_refl _
  | succ k _ ih => exact (atTest_y_succ r k).1.trans ih

/-- The decision variable is the sum of the errors of the two points to choose from. -/
theorem atTest_d (r : Int) (k : Nat) :
    (atTest r k).d =
      2 * ((atTest r k).x + 1) ^ 2 + (atTest r k).y ^ 2 + ((atTest r k).y - 1) ^ 2 - 2 * r ^ 2 := by
  induction k with
  | zero =>
      simp only [atTest, Function.iterate_zero_apply, start]
      ring
  | succ k ih =>
      rw [atTest_succ]
      unfold next
      split
      · dsimp only
        rw [ih]
        ring
      · dsimp only
        rw [ih]
        ring

/-- The point of a turn is the nearer one. The row never exceeds the radius, so that half of the distance between
the two is less than it. -/
theorem atTest_accurate (r : Int) (positive : 1 ≤ r) (k : Nat) (within : (k : Int) ≤ (atTest r k).y) :
    |(k : Int) ^ 2 + (atTest r k).y ^ 2 - r ^ 2| ≤ r - 1 := by
  induction k with
  | zero =>
      simp only [atTest, Function.iterate_zero_apply, start]
      norm_num
      omega
  | succ k ih =>
      push_cast at within ⊢
      have row := atTest_y_succ r k
      have low := atTest_y_le r k
      have near := abs_le.mp (ih (by omega))
      have choice := atTest_d r k
      rw [atTest_x] at choice
      rw [atTest_succ, next_y] at within ⊢
      generalize (atTest r k).y = y at *
      rw [abs_le]
      split at within
      · next ahead =>
          rw [if_pos ahead, Int.sub_zero] at *
          constructor
          · nlinarith
          · nlinarith
      · next behind =>
          rw [if_neg behind] at *
          constructor
          · nlinarith
          · nlinarith

/-- The test that ends the loop. -/
theorem exists_last (positive : 1 ≤ r) :
    ∃ n : Nat, 0 < n ∧ (∀ k < n, (k : Int) < (atTest r k).y) ∧ (atTest r n).y ≤ n := by
  have fails : ∃ k : Nat, (atTest r k).y ≤ k := by
    refine ⟨r.toNat, ?_⟩
    have low := atTest_y_le r r.toNat
    omega
  refine ⟨Nat.find fails, ?_, ?_, Nat.find_spec fails⟩
  · rw [Nat.find_pos]
    simp only [atTest, Function.iterate_zero_apply, start]
    omega
  · intro k before
    exact Int.not_le.mp (Nat.find_min fails before)

/-- The points that are drawn, from the centre. -/
def OnCircle (r u v : Int) : Prop :=
  ∃ k : Nat, (k : Int) ≤ (atTest r k).y ∧ Reflected k (atTest r k).y u v

theorem mem_four {xc yc u v : Int} (c : Circle) :
    ⟨xc + u, yc + v⟩ ∈ c.four xc yc ↔ u.natAbs = c.x.natAbs ∧ v.natAbs = c.y.natAbs := by
  simp only [four, List.mem_cons, List.not_mem_nil, Point.mk.injEq, or_false, Int.sub_eq_add_neg, Int.add_right_inj,
    Int.natAbs_eq_natAbs_iff]
  constructor
  · rintro (⟨column, row⟩ | ⟨column, row⟩ | ⟨column, row⟩ | ⟨column, row⟩)
    all_goals simp only [column, row, true_or, or_true, and_self]
  · rintro ⟨column | column, row | row⟩
    all_goals simp only [column, row, true_or, or_true, and_self]

/-- The other four points of a turn are the ones of the exchanged octant. -/
theorem mem_eight {xc yc u v : Int} (c : Circle) :
    ⟨xc + u, yc + v⟩ ∈ c.eight xc yc ↔ Reflected c.x c.y u v := by
  have halves : c.eight xc yc = c.four xc yc ++ four ⟨c.y, c.x, c.d⟩ xc yc := rfl
  rw [halves, List.mem_append, mem_four, mem_four, Reflected]

theorem mem_plotted {xc yc u v : Int} (c : Circle) :
    ⟨xc + u, yc + v⟩ ∈ c.plotted xc yc ↔ c.x ≤ c.y ∧ Reflected c.x c.y u v := by
  unfold plotted
  split
  · next inside => rw [mem_eight, and_iff_right (Int.le_of_lt inside)]
  · split
    · next same => rw [mem_four, Reflected, same, or_self, and_iff_right (Int.le_refl _)]
    · simp only [List.not_mem_nil, false_iff]
      omega

theorem circle_eq {n : Nat} (xc yc : Int) (turns : ∀ k < n, (k : Int) < (atTest r k).y) (ends : (atTest r n).y ≤ n) :
    ndGsEglCircle xc yc r = (List.range (n + 1)).flatMap fun k => (atTest r k).plotted xc yc := by
  apply loop_eq
  · intro k before
    change (atTest r k).x < (atTest r k).y
    rw [atTest_x]
    exact turns k before
  · change ¬ (atTest r n).x < (atTest r n).y
    rw [atTest_x]
    exact Int.not_lt.mpr ends

theorem mem_circle (xc yc : Int) (positive : 1 ≤ r) (u v : Int) :
    ⟨xc + u, yc + v⟩ ∈ ndGsEglCircle xc yc r ↔ OnCircle r u v := by
  obtain ⟨n, _, turns, ends⟩ := exists_last positive
  rw [circle_eq xc yc turns ends, List.mem_flatMap]
  constructor
  · rintro ⟨k, _, plotted⟩
    have here := (mem_plotted _).mp plotted
    rw [atTest_x] at here
    exact ⟨k, here⟩
  · rintro ⟨k, within, reflected⟩
    have before : k ≤ n := by
      by_contra after
      have low := atTest_y_antitone r (Nat.le_of_not_le after)
      omega
    refine ⟨k, List.mem_range.mpr (Nat.lt_succ_of_le before), (mem_plotted _).mpr ?_⟩
    rw [atTest_x]
    exact ⟨within, reflected⟩

theorem Reflected.trans {a b u v u' v' : Int} (first : Reflected a b u v) (second : Reflected u v u' v') :
    Reflected a b u' v' := by
  unfold Reflected at *
  rcases second with ⟨across, up⟩ | ⟨across, up⟩
  · rw [across, up]
    exact first
  · rw [across, up]
    exact first.symm.imp And.symm And.symm

theorem onCircle_reflected {u v u' v' : Int} (reflected : Reflected u v u' v') (drawn : OnCircle r u v) :
    OnCircle r u' v' := by
  obtain ⟨k, within, same⟩ := drawn
  exact ⟨k, within, Reflected.trans same reflected⟩

theorem onCircle_accurate (positive : 1 ≤ r) {u v : Int} (drawn : OnCircle r u v) :
    |u ^ 2 + v ^ 2 - r ^ 2| ≤ r - 1 := by
  obtain ⟨k, within, same⟩ := drawn
  have accurate := atTest_accurate r positive k within
  rw [← Int.natAbs_sq u, ← Int.natAbs_sq v]
  rcases same with ⟨across, up⟩ | ⟨across, up⟩
  · rw [across, up, Int.natAbs_sq, Int.natAbs_sq]
    exact accurate
  · rw [across, up, Int.natAbs_sq, Int.natAbs_sq, add_comm]
    exact accurate

/-! ## The curve -/

/-- The octants meet in the last column that is drawn: `l` steps lead from the top of the circle to its right end. -/
structure Octants (r : Int) (l : Nat) : Prop where
  positive : 1 ≤ r
  some : 0 < l
  inside : ∀ k : Nat, (k : Int) ≤ (atTest r k).y ↔ 2 * k ≤ l
  meets : (atTest r (l / 2)).y + (l / 2 : Nat) = l

theorem exists_octants (positive : 1 ≤ r) : ∃ l, Octants r l := by
  obtain ⟨n, some, turns, ends⟩ := exists_last positive
  have before := turns (n - 1) (by omega)
  have row := atTest_y_succ r (n - 1)
  rw [Nat.sub_add_cancel some] at row
  have drawn (k : Nat) : (k : Int) ≤ (atTest r k).y ↔ k < n ∨ k = n ∧ (atTest r n).y = n := by
    rcases Nat.lt_trichotomy k n with less | rfl | more
    · have inside := turns k less
      omega
    · omega
    · have low := atTest_y_antitone r (Nat.le_of_lt more)
      omega
  by_cases diagonal : (atTest r n).y = n
  · have half : 2 * n / 2 = n := by omega
    refine ⟨2 * n, positive, by omega, ?_, ?_⟩
    · intro k
      rw [drawn]
      omega
    · rw [half]
      omega
  · have half : (2 * n - 1) / 2 = n - 1 := by omega
    refine ⟨2 * n - 1, positive, by omega, ?_, ?_⟩
    · intro k
      rw [drawn]
      omega
    · rw [half]
      omega

/-- The points from the top of the circle to its right end. -/
def quarter (r : Int) (l j : Nat) : Point :=
  if 2 * j ≤ l then ⟨j, (atTest r j).y⟩ else ⟨(atTest r (l - j)).y, (l - j : Nat)⟩

/-- A quarter of a turn. -/
def turn (p : Point) : Point := ⟨p.y, -p.x⟩

/-- A step to the right, down, or both. -/
def Onward (p q : Point) : Prop :=
  (q.x = p.x + 1 ∨ q.x = p.x) ∧ (q.y = p.y ∨ q.y = p.y - 1) ∧ p.x - p.y < q.x - q.y

section
variable {l : Nat} (octants : Octants r l)
include octants

theorem quarter_succ {j : Nat} (before : j < l) : Onward (quarter r l j) (quarter r l (j + 1)) := by
  have meets := octants.meets
  have some := octants.some
  unfold quarter Onward
  by_cases upper : 2 * (j + 1) ≤ l
  · have row := atTest_y_succ r j
    have start : 2 * j ≤ l := by omega
    rw [if_pos start, if_pos upper]
    dsimp only
    omega
  · have row := atTest_y_succ r (l - (j + 1))
    have back : l - (j + 1) + 1 = l - j := by omega
    rw [back] at row
    rw [if_neg upper]
    split
    · -- The octants meet.
      have half : l / 2 = j := by omega
      rw [half] at meets
      rcases Nat.even_or_odd' l with ⟨m, even | odd⟩
      · have same : l - j = j := by omega
        rw [same] at row
        dsimp only
        omega
      · have same : l - (j + 1) = j := by omega
        rw [same]
        dsimp only
        omega
    · dsimp only
      omega

theorem quarter_increasing {i j : Nat} (less : i < j) (before : j ≤ l) :
    (quarter r l i).x - (quarter r l i).y < (quarter r l j).x - (quarter r l j).y := by
  induction j, less using Nat.le_induction with
  | base => exact (quarter_succ octants before).2.2
  | succ j _ ih => exact (ih (Nat.le_of_succ_le before)).trans (quarter_succ octants before).2.2

theorem quarter_injective {i j : Nat} (hi : i < l) (hj : j < l) (same : quarter r l i = quarter r l j) : i = j := by
  rcases Nat.lt_trichotomy i j with less | equal | more
  · have apart := quarter_increasing octants less (Nat.le_of_lt hj)
    rw [same] at apart
    exact absurd apart (Int.lt_irrefl _)
  · exact equal
  · have apart := quarter_increasing octants more (Nat.le_of_lt hi)
    rw [same] at apart
    exact absurd apart (Int.lt_irrefl _)

/-- A quarter lies between its two axes, and without its last point on one of them only. -/
theorem quarter_inside {j : Nat} (before : j < l) : 0 ≤ (quarter r l j).x ∧ 0 < (quarter r l j).y := by
  have positive := octants.positive
  unfold quarter
  split
  · next upper =>
      have high := (octants.inside j).mpr upper
      have top : (atTest r 0).y = r := rfl
      dsimp only
      refine ⟨Int.natCast_nonneg j, ?_⟩
      rcases Nat.eq_zero_or_pos j with rfl | later
      · omega
      · omega
  · have high := (octants.inside (l - j)).mpr (by omega)
    dsimp only
    omega

theorem quarter_onCircle {j : Nat} (before : j ≤ l) : OnCircle r (quarter r l j).x (quarter r l j).y := by
  unfold quarter
  split
  · next upper => exact ⟨j, (octants.inside j).mpr upper, Or.inl ⟨rfl, rfl⟩⟩
  · exact ⟨l - j, (octants.inside (l - j)).mpr (by omega), Or.inr ⟨rfl, rfl⟩⟩

theorem exists_quarter {u v : Int} (right : 0 ≤ u) (up : 0 < v) (drawn : OnCircle r u v) :
    ∃ j < l, quarter r l j = ⟨u, v⟩ := by
  obtain ⟨k, within, same⟩ := drawn
  have upper := (octants.inside k).mp within
  have some := octants.some
  rcases same with ⟨across, high⟩ | ⟨across, high⟩
  · refine ⟨k, by omega, ?_⟩
    rw [quarter, if_pos upper, Point.mk.injEq]
    omega
  · by_cases diagonal : 2 * k = l
    · have meets := octants.meets
      have half : l / 2 = k := by omega
      rw [half] at meets
      refine ⟨k, by omega, ?_⟩
      rw [quarter, if_pos upper, Point.mk.injEq]
      omega
    · have back : l - (l - k) = k := by omega
      refine ⟨l - k, by omega, ?_⟩
      rw [quarter, if_neg (by omega), back, Point.mk.injEq]
      omega

end

/-! ## Four quarters -/

theorem turn_quadrant {p q : Point} (right : 0 ≤ p.x) (up : 0 < p.y) (right' : 0 ≤ q.x) (up' : 0 < q.y) {a b : Nat}
    (ha : a < 4) (hb : b < 4) (same : turn^[a] p = turn^[b] q) : a = b ∧ p = q := by
  obtain ⟨x, y⟩ := p
  obtain ⟨x', y'⟩ := q
  dsimp only at *
  interval_cases a
  all_goals interval_cases b
  all_goals simp only [Function.iterate_succ_apply, Function.iterate_zero_apply, turn, Point.mk.injEq, true_and] at *
  all_goals omega

theorem not_onCircle_centre (positive : 1 ≤ r) : ¬ OnCircle r 0 0 := by
  rintro ⟨k, within, same⟩
  have top : (atTest r 0).y = r := rfl
  unfold Reflected at same
  have first : k = 0 := by omega
  subst first
  omega

/-- Each point that is drawn is on one of the quarters. -/
theorem exists_turned {u v : Int} {l : Nat} (octants : Octants r l) (drawn : OnCircle r u v) :
    ∃ a, ∃ j < l, turn^[a] (quarter r l j) = ⟨u, v⟩ := by
  have reach {u' v' : Int} (reflected : Reflected u v u' v') (right : 0 ≤ u') (up : 0 < v') :
      ∃ j < l, quarter r l j = ⟨u', v'⟩ := exists_quarter octants right up (onCircle_reflected reflected drawn)
  by_cases centre : u = 0 ∧ v = 0
  · obtain ⟨rfl, rfl⟩ := centre
    exact absurd drawn (not_onCircle_centre octants.positive)
  rcases (by omega : 0 ≤ u ∧ 0 < v ∨ 0 < u ∧ v ≤ 0 ∨ u ≤ 0 ∧ v < 0 ∨ u < 0 ∧ 0 ≤ v) with
    ⟨right, up⟩ | ⟨right, down⟩ | ⟨left, down⟩ | ⟨left, up⟩
  · obtain ⟨j, before, here⟩ := reach (Or.inl ⟨rfl, rfl⟩) right up
    exact ⟨0, j, before, here⟩
  · obtain ⟨j, before, here⟩ := reach (Or.inr ⟨Int.natAbs_neg v, rfl⟩) (Int.neg_nonneg_of_nonpos down) right
    refine ⟨1, j, before, ?_⟩
    rw [Function.iterate_one, here, turn, Int.neg_neg]
  · obtain ⟨j, before, here⟩ :=
      reach (Or.inl ⟨Int.natAbs_neg u, Int.natAbs_neg v⟩) (Int.neg_nonneg_of_nonpos left) (Int.neg_pos_of_neg down)
    refine ⟨2, j, before, ?_⟩
    rw [Function.iterate_succ_apply, Function.iterate_one, here, turn, turn, Int.neg_neg, Int.neg_neg]
  · obtain ⟨j, before, here⟩ := reach (Or.inr ⟨rfl, Int.natAbs_neg u⟩) up (Int.neg_pos_of_neg left)
    refine ⟨3, j, before, ?_⟩
    rw [Function.iterate_succ_apply, Function.iterate_succ_apply, Function.iterate_one, here, turn, turn, turn,
      Int.neg_neg, Int.neg_neg]

theorem neighbour_turn {p q : Point} (near : Neighbour p q) : Neighbour (turn p) (turn q) := by
  unfold Neighbour turn at *
  dsimp only
  omega

theorem turn_cycles (p : Point) : turn^[4] p = p := by
  simp only [Function.iterate_succ_apply, Function.iterate_zero_apply, turn, Int.neg_neg]

theorem onCircle_turn {p : Point} (drawn : OnCircle r p.x p.y) (a : Nat) :
    OnCircle r (turn^[a] p).x (turn^[a] p).y := by
  induction a with
  | zero => exact drawn
  | succ a ih =>
      rw [Function.iterate_succ_apply']
      exact onCircle_reflected (Or.inr ⟨rfl, Int.natAbs_neg _⟩) ih

/-- The four quarters, one after the other, make a closed curve. -/
theorem closedCurve_quarters {l : Nat} (octants : Octants r l) :
    ClosedCurve Neighbour (4 * l) (turned turn l (quarter r l)) := by
  refine closedCurve_turned octants.some (Nat.succ_pos 3) turn_cycles ?_ ?_ ?_ ?_
  · exact neighbour_turn
  · have top : (atTest r 0).y = r := rfl
    have some := octants.some
    rw [quarter, if_neg (by omega), quarter, if_pos (Nat.zero_le _), turn, Nat.sub_self]
    rfl
  · intro j before
    have onward := quarter_succ octants before
    unfold Onward at onward
    unfold Neighbour
    omega
  · intro a ha b hb i hi j hj same
    have here := quarter_inside octants hi
    have there := quarter_inside octants hj
    obtain ⟨turns, place⟩ := turn_quadrant here.1 here.2 there.1 there.2 ha hb same
    exact ⟨turns, quarter_injective octants hi hj place⟩

theorem mem_quarters {l : Nat} (octants : Octants r l) (p : Point) :
    (∃ i, turned turn l (quarter r l) i = p) ↔ OnCircle r p.x p.y := by
  rw [mem_turned octants.some]
  constructor
  · rintro ⟨a, j, before, rfl⟩
    exact onCircle_turn (quarter_onCircle octants (Nat.le_of_lt before)) a
  · intro drawn
    exact exists_turned octants drawn

end

/-- A point from the centre. -/
def place (xc yc : Int) (p : Point) : Point := ⟨xc + p.x, yc + p.y⟩

theorem place_injective (xc yc : Int) : Function.Injective (place xc yc) := by
  intro p q same
  cases p
  cases q
  simp only [place, Point.mk.injEq] at *
  omega

theorem neighbour_place {xc yc : Int} {p q : Point} (near : Neighbour p q) :
    Neighbour (place xc yc p) (place xc yc q) := by
  unfold Neighbour place at *
  dsimp only
  omega

theorem exists_place (xc yc : Int) (p : Point) : ∃ q, place xc yc q = p := by
  refine ⟨⟨p.x - xc, p.y - yc⟩, ?_⟩
  cases p
  simp only [place, Point.mk.injEq]
  omega

end Circle

open Draw.Circle in
/-- A circle of any radius is as it should be. -/
theorem circle_meets {r : Int} (xc yc : Int) (positive : 1 ≤ r) : CircleMeets xc yc r where
  terminates := by
    obtain ⟨n, _, turns, ends⟩ := exists_last positive
    refine ⟨n, ?_, ?_, circle_eq xc yc turns ends⟩
    · intro k before
      rw [atTest_x]
      exact turns k before
    · rw [atTest_x]
      exact Int.not_lt.mpr ends
  decision := atTest_d r
  accurate u v drawn := onCircle_accurate positive ((mem_circle xc yc positive u v).mp drawn)
  symmetric u v u' v' reflected drawn := by
    rw [mem_circle xc yc positive] at *
    exact onCircle_reflected reflected drawn
  curve := by
    obtain ⟨l, octants⟩ := exists_octants positive
    refine ⟨4 * l, _, (closedCurve_quarters octants).map (place_injective xc yc) neighbour_place, ?_⟩
    intro p
    obtain ⟨q, rfl⟩ := exists_place xc yc p
    rw [place, mem_circle xc yc positive, ← mem_quarters octants]
    apply exists_congr
    intro i
    exact (place_injective xc yc).eq_iff.symm

theorem circle_small : CircleMeets 10 20 3 := circle_meets 10 20 (by decide)

end Cineraria.Draw
