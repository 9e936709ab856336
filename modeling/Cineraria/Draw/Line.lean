import Mathlib.Data.List.Chain
import Mathlib.Tactic.SplitIfs
import Cineraria.Lib.Bresenham

/-!
# Drawing a line

`nd_lib/nd_egl.c`: the points that `nd_GsEglLine` hands to `nd_GsEglPset`, in order. The coordinates are so
small that no sum of them overflows.

The end points are exchanged by the sign of the sum of the differences. When the sum is zero and the points are
not the same the test is of no use: from one of them to the other only a single point is drawn
(`line_meets_iff`).
-/

namespace Cineraria.Draw

open Bresenham

structure Point where
  x : Int
  y : Int
  deriving DecidableEq, Repr

/-- One of the two loops: the coordinate that it counts goes on from `a`, the other one is `b`. `plot` makes a
point of the two. -/
def lineLoop (c1 c2 i : Int) (plot : Int → Int → Point) : Nat → Int → Int → Int → List Point
  | 0, _, _, _ => []
  | turns + 1, d, a, b =>
      if d > 0 then plot a (b + i) :: lineLoop c1 c2 i plot turns (d + c1) (a + 1) (b + i)
      else plot a b :: lineLoop c1 c2 i plot turns (d + c2) (a + 1) b

/-- The part of `nd_GsEglLine` after the exchange. A loop from `x1 + 1` to `x2` has `x2 - x1` turns, or none. -/
def drawLine (x1 y1 x2 y2 : Int) : List Point :=
  let dx := if x2 - x1 < 0 then -(x2 - x1) else x2 - x1
  let dy := if y2 - y1 < 0 then -(y2 - y1) else y2 - y1
  ⟨x1, y1⟩ ::
    if dx > dy then
      let c2 := 2 * dy
      let d := c2 - dx
      let c1 := d - dx
      let i := if y1 < y2 then 1 else -1
      lineLoop c1 c2 i (fun x y => ⟨x, y⟩) (x2 - x1).toNat d (x1 + 1) y1
    else
      let c2 := 2 * dx
      let d := c2 - dy
      let c1 := d - dy
      let i := if x1 < x2 then 1 else -1
      lineLoop c1 c2 i (fun y x => ⟨x, y⟩) (y2 - y1).toNat d (y1 + 1) x1

/-- `nd_GsEglLine` -/
def ndGsEglLine (x1 y1 x2 y2 : Int) : List Point :=
  if x2 - x1 + y2 - y1 ≤ 0 then drawLine x2 y2 x1 y1 else drawLine x1 y1 x2 y2

/-- The points from one to another. -/
def line (p q : Point) : List Point := ndGsEglLine p.x p.y q.x q.y

/-- Two points side by side or corner to corner. -/
def Neighbour (p q : Point) : Prop := max (q.x - p.x).natAbs (q.y - p.y).natAbs = 1

/-- What is drawn from `p` to `q`. -/
structure Drawn (p q : Point) (points : List Point) : Prop where
  count : points.length = max (q.x - p.x).natAbs (q.y - p.y).natAbs + 1
  first : points.head? = some p
  last : points.getLast? = some q
  neighbours : points.IsChain Neighbour

/-- What a line must be. -/
structure LineMeets (p q : Point) : Prop where
  count : (line p q).length = max (q.x - p.x).natAbs (q.y - p.y).natAbs + 1
  ends : (line p q).head? = some p ∧ (line p q).getLast? = some q ∨
    (line p q).head? = some q ∧ (line p q).getLast? = some p
  neighbours : (line p q).IsChain Neighbour
  symmetric : ∀ r, r ∈ line p q ↔ r ∈ line q p

/-! ## The loop draws a digital line -/

/-- The digital line from a point, counted along one coordinate and rising by `i` in the other one. -/
def digital (long short i : Int) (plot : Int → Int → Point) (a b : Int) : List Point :=
  (List.range (long.toNat + 1)).map fun (k : Nat) => plot (a + k) (b + i * risen long short k)

theorem lineLoop_eq (long short i : Int) (plot : Int → Int → Point) (a b : Int) (turns k : Nat) :
    lineLoop (2 * short - long - long) (2 * short) i plot turns (error long short k) (a + k + 1)
        (b + i * risen long short k) =
      (List.range' (k + 1) turns).map fun (k : Nat) => plot (a + k) (b + i * risen long short k) := by
  induction turns generalizing k with
  | zero => rfl
  | succ turns ih =>
      have ih := ih (k + 1)
      rw [error, next, risen] at ih
      rw [lineLoop, List.range'_succ, List.map_cons, risen]
      push_cast at ih ⊢
      split_ifs at ih ⊢ with rises
      · have row : b + i * (risen long short k + 1) = b + i * risen long short k + i := by ring
        have term : error long short k + (2 * short - 2 * long) =
            error long short k + (2 * short - long - long) := by ring
        rw [row, term, ← add_assoc a] at ih
        rw [ih, row, ← add_assoc a]
      · rw [add_zero, ← add_assoc a] at ih
        rw [ih, add_zero, ← add_assoc a]

/-- The loop and the point before it. -/
theorem cons_lineLoop (long short i : Int) (plot : Int → Int → Point) (a b : Int) :
    plot a b :: lineLoop (2 * short - long - long) (2 * short) i plot long.toNat (2 * short - long) (a + 1) b =
      digital long short i plot a b := by
  have loop := lineLoop_eq long short i plot a b long.toNat 0
  rw [risen, Int.mul_zero, Int.add_zero, error] at loop
  rw [digital, List.range_eq_range', List.range'_succ, List.map_cons, risen, Int.mul_zero, Int.add_zero]
  simp only [Int.natCast_zero, Int.add_zero] at loop ⊢
  rw [loop]

section
variable {long short i a b : Int} {plot : Int → Int → Point} {p q : Point}

/-- A digital line goes from one end to the other in small steps. -/
theorem digital_drawn (flat : short ≤ long) (rising : 0 ≤ short) (unit : i = 1 ∨ i = -1)
    (near : ∀ a b c, (c - b).natAbs ≤ 1 → Neighbour (plot a b) (plot (a + 1) c))
    (first : plot a b = p) (last : plot (a + long) (b + i * short) = q)
    (far : max (q.x - p.x).natAbs (q.y - p.y).natAbs = long.toNat) :
    Drawn p q (digital long short i plot a b) where
  count := by rw [digital, List.length_map, List.length_range, far]
  first := by
    rw [digital, List.head?_map, List.head?_range, if_neg (Nat.succ_ne_zero _), Option.map_some, risen,
      Int.mul_zero, Int.add_zero]
    simp only [Int.natCast_zero, Int.add_zero]
    rw [first]
  last := by
    have wide : (long.toNat : Int) = long := Int.toNat_of_nonneg (Int.le_trans rising flat)
    rw [digital, List.getLast?_map, List.getLast?_range, if_neg (Nat.succ_ne_zero _), Option.map_some,
      Nat.add_sub_cancel, risen_end flat rising, wide, last]
  neighbours := by
    rw [List.isChain_iff_getElem]
    intro k within
    simp only [digital, List.getElem_map, List.getElem_range]
    push_cast
    rw [← add_assoc]
    apply near
    rcases risen_succ long short k with same | rises
    · rw [same]
      omega
    · have row : b + i * (risen long short k + 1) - (b + i * risen long short k) = i := by ring
      rw [rises, row]
      omega

end

/-! ## The line after the exchange -/

/-- The source's absolute value of a difference. -/
theorem difference_eq (a b : Int) : (if b - a < 0 then -(b - a) else b - a) = ((b - a).natAbs : Int) := by
  split_ifs
  all_goals omega

/-- The source's direction from `a` leads to `b`. -/
theorem add_direction_mul (a b : Int) : a + (if a < b then 1 else -1) * ((b - a).natAbs : Int) = b := by
  split_ifs
  all_goals omega

theorem direction_unit (a b : Int) :
    (if a < b then (1 : Int) else -1) = 1 ∨ (if a < b then (1 : Int) else -1) = -1 := by
  split_ifs
  · exact .inl rfl
  · exact .inr rfl

section
variable {p q : Point}

/-- A line that is wider than it is high is counted by `x`. -/
theorem drawLine_wide (wide : (q.y - p.y).natAbs < (q.x - p.x).natAbs) (right : p.x ≤ q.x) :
    drawLine p.x p.y q.x q.y =
      digital (q.x - p.x).natAbs (q.y - p.y).natAbs (if p.y < q.y then 1 else -1) (fun x y => ⟨x, y⟩) p.x p.y := by
  have length : ((q.x - p.x).natAbs : Int) = q.x - p.x := by omega
  rw [← cons_lineLoop, length]
  unfold drawLine
  simp only [difference_eq]
  rw [if_pos (by omega), length]

/-- Any other line is counted by `y`. -/
theorem drawLine_high (high : (q.x - p.x).natAbs ≤ (q.y - p.y).natAbs) (up : p.y ≤ q.y) :
    drawLine p.x p.y q.x q.y =
      digital (q.y - p.y).natAbs (q.x - p.x).natAbs (if p.x < q.x then 1 else -1) (fun y x => ⟨x, y⟩) p.y p.x := by
  have length : ((q.y - p.y).natAbs : Int) = q.y - p.y := by omega
  rw [← cons_lineLoop, length]
  unfold drawLine
  simp only [difference_eq]
  rw [if_neg (by omega), length]

/-- Between two points of which the sum of the differences is positive, the line is as it should be. -/
theorem drawLine_drawn (forward : 0 < q.x - p.x + q.y - p.y ∨ p = q) : Drawn p q (drawLine p.x p.y q.x q.y) := by
  have sum : 0 < q.x - p.x + q.y - p.y ∨ q.x - p.x = 0 ∧ q.y - p.y = 0 := by
    rcases forward with slanted | rfl
    · exact .inl slanted
    · exact .inr ⟨Int.sub_self _, Int.sub_self _⟩
  by_cases wide : (q.y - p.y).natAbs < (q.x - p.x).natAbs
  · rw [drawLine_wide wide (by omega)]
    refine digital_drawn (by omega) (Int.natCast_nonneg _) (direction_unit p.y q.y) ?_ rfl ?_ (by omega)
    · intro a b c near
      unfold Neighbour
      dsimp only
      omega
    · rw [add_direction_mul]
      have column : p.x + ((q.x - p.x).natAbs : Int) = q.x := by omega
      rw [column]
  · rw [drawLine_high (by omega) (by omega)]
    refine digital_drawn (by omega) (Int.natCast_nonneg _) (direction_unit p.x q.x) ?_ rfl ?_ (by omega)
    · intro a b c near
      unfold Neighbour
      dsimp only
      omega
    · rw [add_direction_mul]
      have row : p.y + ((q.y - p.y).natAbs : Int) = q.y := by omega
      rw [row]

end

/-! ## The exchange of the end points -/

/-- Downwards, only the first point is drawn. -/
theorem drawLine_down {p q : Point} (level : q.x - p.x + q.y - p.y = 0) (down : q.y ≤ p.y) :
    drawLine p.x p.y q.x q.y = [p] := by
  have none : (q.y - p.y).toNat = 0 := by omega
  have square : ¬ ((q.x - p.x).natAbs : Int) > (q.y - p.y).natAbs := by omega
  unfold drawLine
  simp only [difference_eq]
  rw [if_neg square, none, lineLoop]

/-- From one point to the other and back, the same is drawn if the sum of the differences is not zero. -/
theorem line_comm {p q : Point} (slanted : q.x - p.x + q.y - p.y ≠ 0) : line p q = line q p := by
  unfold line ndGsEglLine
  by_cases forward : q.x - p.x + q.y - p.y ≤ 0
  · rw [if_pos forward, if_neg (by omega)]
  · rw [if_neg forward, if_pos (by omega)]

/-- When the sum is zero, one of the two ways draws a single point. -/
theorem line_single {p q : Point} (level : q.x - p.x + q.y - p.y = 0) : line p q = [q] ∨ line q p = [p] := by
  unfold line ndGsEglLine
  rw [if_pos (Int.le_of_eq level), if_pos (show p.x - q.x + p.y - q.y ≤ 0 by omega)]
  rcases Int.le_total p.y q.y with up | down
  · left
    exact drawLine_down (by omega) up
  · right
    exact drawLine_down level down

/-- Otherwise a line is drawn from one of the points to the other. -/
theorem line_drawn {p q : Point} (condition : q.x - p.x + (q.y - p.y) ≠ 0 ∨ p = q) :
    Drawn p q (line p q) ∨ Drawn q p (line p q) := by
  unfold line ndGsEglLine
  by_cases backward : q.x - p.x + q.y - p.y ≤ 0
  · right
    rw [if_pos backward]
    apply drawLine_drawn
    rcases condition with slanted | same
    · left
      omega
    · exact .inr same.symm
  · left
    rw [if_neg backward]
    apply drawLine_drawn
    left
    omega

/-- A line is as it should be if and only if the sum of the differences is not zero or the two points are the
same. -/
theorem line_meets_iff (p q : Point) : LineMeets p q ↔ q.x - p.x + (q.y - p.y) ≠ 0 ∨ p = q := by
  constructor
  · intro meets
    by_contra neither
    rw [not_or, not_not] at neither
    obtain ⟨level, distinct⟩ := neither
    have both : p ∈ line p q ∧ q ∈ line p q := by
      rcases meets.ends with ⟨first, last⟩ | ⟨first, last⟩
      · exact ⟨List.mem_of_head? first, List.mem_of_getLast? last⟩
      · exact ⟨List.mem_of_getLast? last, List.mem_of_head? first⟩
    rcases line_single (p := p) (q := q) (by omega) with single | single
    · rw [single] at both
      exact distinct (List.mem_singleton.mp both.1)
    · rw [meets.symmetric p, meets.symmetric q, single] at both
      exact distinct (List.mem_singleton.mp both.2).symm
  · intro condition
    have symmetric : ∀ r, r ∈ line p q ↔ r ∈ line q p := by
      intro r
      rcases condition with slanted | same
      · rw [line_comm (by omega)]
      · rw [same]
    rcases line_drawn condition with drawn | drawn
    · exact ⟨drawn.count, .inl ⟨drawn.first, drawn.last⟩, drawn.neighbours, symmetric⟩
    · refine ⟨?_, .inr ⟨drawn.first, drawn.last⟩, drawn.neighbours, symmetric⟩
      rw [drawn.count]
      omega

/-- From the origin to the point left of it and one row further, only that point is drawn; the way back draws
both. -/
theorem line_antidiagonal :
    line ⟨0, 0⟩ ⟨-1, 1⟩ = [⟨-1, 1⟩] ∧ line ⟨-1, 1⟩ ⟨0, 0⟩ = [⟨0, 0⟩, ⟨-1, 1⟩] ∧ ¬ LineMeets ⟨0, 0⟩ ⟨-1, 1⟩ := by
  have single : line ⟨0, 0⟩ ⟨-1, 1⟩ = [⟨-1, 1⟩] := by decide
  refine ⟨single, by decide, ?_⟩
  intro meets
  have count := meets.count
  rw [single] at count
  exact absurd count (by decide)

/-! ## How far a point is off -/

/-- The end points after the exchange. -/
def exchanged (p q : Point) : Point × Point := if q.x - p.x + q.y - p.y ≤ 0 then (q, p) else (p, q)

/-- A point `k` steps along one coordinate and some steps across, both towards the end, and never further than
half a step from the segment. -/
structure HalfStep (a b c d : Int) (k : Nat) (along across : Int) : Prop where
  along : along = a + (b - a).sign * k
  across : ∃ m : Nat, across = c + (d - c).sign * m ∧
    (2 * m * (b - a).natAbs - 2 * k * (d - c).natAbs : Int).natAbs ≤ (b - a).natAbs

/-- The `k`-th point of the line from `a` to `b`, on the side of the longer difference. -/
def NearSegment (a b : Point) (k : Nat) (r : Point) : Prop :=
  if (b.y - a.y).natAbs < (b.x - a.x).natAbs then HalfStep a.x b.x a.y b.y k r.x r.y
  else HalfStep a.y b.y a.x b.x k r.y r.x

theorem digital_halfStep {a b c d : Int} {plot : Int → Int → Point} {k : Nat} {r : Point} (forward : a ≤ b)
    (flat : (d - c).natAbs ≤ (b - a).natAbs)
    (drawn : (digital (b - a).natAbs (d - c).natAbs (if c < d then 1 else -1) plot a c)[k]? = some r) :
    ∃ along across, r = plot along across ∧ HalfStep a b c d k along across := by
  rw [digital, List.getElem?_map, Option.map_eq_some_iff] at drawn
  obtain ⟨j, listed, rfl⟩ := drawn
  obtain ⟨within, rfl⟩ := List.getElem?_eq_some_iff.mp listed
  rw [List.length_range] at within
  rw [List.getElem_range]
  refine ⟨_, _, rfl, ?_, (risen (b - a).natAbs (d - c).natAbs k).toNat, ?_, ?_⟩
  · rcases Int.lt_or_eq_of_le forward with less | rfl
    · rw [Int.sign_eq_one_of_pos (Int.sub_pos_of_lt less), Int.one_mul]
    · have none : k = 0 := by omega
      rw [none]
      simp only [Int.natCast_zero, Int.mul_zero]
  · rw [Int.toNat_of_nonneg (risen_nonneg _ _ k)]
    rcases Int.lt_trichotomy c d with up | rfl | down
    · rw [if_pos up, Int.sign_eq_one_of_pos (Int.sub_pos_of_lt up)]
    · have level : ((c - c).natAbs : Int) = 0 := by omega
      rw [level, risen_level _ (Int.natCast_nonneg _), Int.mul_zero, Int.mul_zero]
    · rw [if_neg (Int.not_lt.mpr (Int.le_of_lt down)), Int.sign_eq_neg_one_of_neg (Int.sub_neg_of_lt down)]
  · have nearest := risen_nearest (Int.ofNat_le.mpr flat) (Int.natCast_nonneg _) k
    rw [Int.toNat_of_nonneg (risen_nonneg _ _ k)]
    have same : 2 * risen (b - a).natAbs (d - c).natAbs k * (b - a).natAbs - 2 * k * (d - c).natAbs =
        2 * ((b - a).natAbs * risen (b - a).natAbs (d - c).natAbs k - (d - c).natAbs * k) := by ring
    rw [same]
    rw [Int.abs_eq_natAbs] at nearest
    exact Int.ofNat_le.mp nearest

/-- Every point that is drawn is within half a step of the segment. -/
theorem line_near {p q : Point} {k : Nat} {r : Point} (drawn : (line p q)[k]? = some r) :
    NearSegment (exchanged p q).1 (exchanged p q).2 k r := by
  have same : line p q = drawLine (exchanged p q).1.x (exchanged p q).1.y (exchanged p q).2.x (exchanged p q).2.y := by
    unfold line ndGsEglLine exchanged
    split
    · rfl
    · rfl
  have forward : 0 ≤ (exchanged p q).2.x - (exchanged p q).1.x + (exchanged p q).2.y - (exchanged p q).1.y := by
    unfold exchanged
    split
    · dsimp only
      omega
    · dsimp only
      omega
  rw [same] at drawn
  generalize (exchanged p q).1 = a at *
  generalize (exchanged p q).2 = b at *
  unfold NearSegment
  split
  · next wide =>
      rw [drawLine_wide (by omega) (by omega)] at drawn
      obtain ⟨x, y, rfl, near⟩ := digital_halfStep (by omega) (by omega) drawn
      exact near
  · next high =>
      by_cases up : a.y ≤ b.y
      · rw [drawLine_high (by omega) up] at drawn
        obtain ⟨y, x, rfl, near⟩ := digital_halfStep up (by omega) drawn
        exact near
      · -- Only the start is drawn.
        rw [drawLine_down (by omega) (by omega)] at drawn
        obtain ⟨within, rfl⟩ := List.getElem?_eq_some_iff.mp drawn
        have first : k = 0 := Nat.lt_one_iff.mp within
        subst first
        have start : ([a] : List Point)[0] = a := rfl
        refine ⟨?_, 0, ?_, ?_⟩
        · simp
        · simp
        · simp

theorem line_near_steep : NearSegment ⟨0, 0⟩ ⟨-2, 5⟩ 3 ⟨-1, 3⟩ := by
  have drawn : (line ⟨0, 0⟩ ⟨-2, 5⟩)[3]? = some ⟨-1, 3⟩ := by decide
  exact line_near drawn

end Cineraria.Draw
