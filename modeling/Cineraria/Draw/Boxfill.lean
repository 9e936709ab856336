import Mathlib.Data.List.ProdSigma
import Cineraria.Draw.Box
import Cineraria.Draw.Surface

/-!
# Filling a box

`nd_lib/nd_egl.c`: `nd_GsEglBoxfill` puts the corners in order, clips the box at the window and then goes through
it row by row with a pointer. What it leaves is what `nd_GsEglPset` leaves when it is called for each point of the
box, in any order (`boxfill_meets`).
-/

namespace Cineraria.Draw

open Surface

/-- The inner loop: `n` halfwords from `p` on. -/
def fillRow : Nat → Int → Surface → Surface
  | 0, _, s => s
  | n + 1, p, s => fillRow n (p + 1) { s with vram := Function.update s.vram p (s.fillShade (s.vram p)) }

/-- The outer loop: `n` rows from `y` on. -/
def fillRows (x1 x2 : Int) : Nat → Int → Surface → Surface
  | 0, _, s => s
  | n + 1, y, s => fillRows x1 x2 n (y + 1) (fillRow (x2 - x1 + 1).toNat (pixelAt x1 y) s)

/-- The part of `nd_GsEglBoxfill` after the corners are in order. -/
def fillClipped (s : Surface) (x1 y1 x2 y2 : Int) : Surface :=
  let x1 := if x1 < 0 then 0 else x1
  let y1 := if y1 < 0 then 0 else y1
  let x2 := if x2 > windowXmax then windowXmax else x2
  let y2 := if y2 > windowYmax then windowYmax else y2
  if x1 ≤ x2 ∧ y1 ≤ y2 then fillRows x1 x2 (y2 - y1 + 1).toNat y1 s else s

/-- `nd_GsEglBoxfill` -/
def ndGsEglBoxfill (s : Surface) (x1 y1 x2 y2 : Int) : Surface :=
  if s.drawBuffer = 0 then s
  else if s.pastel = 0 then s
  else
    let (x1, x2) := if x1 > x2 then (x2, x1) else (x1, x2)
    let (y1, y2) := if y1 > y2 then (y2, y1) else (y1, y2)
    fillClipped s x1 y1 x2 y2

/-- Drawing points one by one. -/
def psetAll (s : Surface) (points : List Point) : Surface := points.foldl (fun s r => ndGsEglPset s r.x r.y) s

/-! ## The rows -/

/-- The next `n` numbers from `a` on. -/
def upward (a : Int) (n : Nat) : List Int := (List.range n).map fun (k : Nat) => a + k

theorem upward_succ (a : Int) (n : Nat) : upward a (n + 1) = a :: upward (a + 1) n := by
  rw [upward, List.range_succ_eq_map, List.map_cons, List.map_map, upward, Int.natCast_zero, Int.add_zero]
  congr 1
  apply List.map_congr_left
  intro k _
  simp only [Function.comp_apply]
  omega

theorem mem_upward {a b : Int} {n : Nat} : b ∈ upward a n ↔ a ≤ b ∧ b < a + n := by
  simp only [upward, List.mem_map, List.mem_range]
  constructor
  · rintro ⟨k, within, rfl⟩
    omega
  · rintro ⟨after, before⟩
    exact ⟨(b - a).toNat, by omega, by omega⟩

theorem nodup_upward (a : Int) (n : Nat) : (upward a n).Nodup := by
  apply List.Nodup.map _ List.nodup_range
  intro j k same
  dsimp only at same
  omega

/-- The halfwords of a rectangle, row by row. -/
def boxCells (xs ys : List Int) : List Int := (ys ×ˢ xs).map fun q => pixelAt q.2 q.1

theorem fillRow_eq (n : Nat) (p : Int) (s : Surface) : fillRow n p s = s.strokes (upward p n) := by
  induction n generalizing p s with
  | zero => rfl
  | succ n ih =>
      rw [fillRow, fillShade_eq, ih, upward_succ]
      rfl

theorem fillRows_eq (x1 x2 : Int) (n : Nat) (y : Int) (s : Surface) :
    fillRows x1 x2 n y s = s.strokes (boxCells (upward x1 (x2 - x1 + 1).toNat) (upward y n)) := by
  induction n generalizing y s with
  | zero => rfl
  | succ n ih =>
      have row : upward (pixelAt x1 y) (x2 - x1 + 1).toNat =
          (upward x1 (x2 - x1 + 1).toNat).map fun x => pixelAt x y := by
        rw [upward, upward, List.map_map]
        apply List.map_congr_left
        intro k _
        simp only [Function.comp_apply, pixelAt]
        omega
      rw [fillRows, ih, fillRow_eq, ← strokes_append, row, upward_succ y n]
      congr 1
      rw [boxCells, boxCells, List.product_cons, List.map_append, List.map_map]
      rfl

theorem mem_boxCells {xs ys : List Int} {i : Int} :
    i ∈ boxCells xs ys ↔ ∃ x y, x ∈ xs ∧ y ∈ ys ∧ pixelAt x y = i := by
  simp only [boxCells, List.mem_map, Prod.exists, List.mem_product]
  constructor
  · rintro ⟨y, x, ⟨row, column⟩, same⟩
    exact ⟨x, y, column, row, same⟩
  · rintro ⟨x, y, column, row, same⟩
    exact ⟨y, x, ⟨row, column⟩, same⟩

/-- The halfwords of a rectangle inside the window are all different. -/
theorem nodup_boxCells {xs ys : List Int} (columns : xs.Nodup) (rows : ys.Nodup)
    (inside : ∀ x ∈ xs, ∀ y ∈ ys, InWindow x y) : (boxCells xs ys).Nodup := by
  apply List.Nodup.map_on _ (rows.product columns)
  rintro ⟨y, x⟩ listed ⟨y', x'⟩ listed' same
  rw [List.mem_product] at listed listed'
  obtain ⟨rfl, rfl⟩ := pixelAt_injective (inside x listed.2 y listed.1) (inside x' listed'.2 y' listed'.1) same
  rfl

/-! ## The box -/

/-- The halfwords that a box fills. -/
structure Fills (x1 y1 x2 y2 : Int) (cells : List Int) : Prop where
  once : cells.Nodup
  mem : ∀ i, i ∈ cells ↔ ∃ x y, (InWindow x y ∧ InRectangle x1 y1 x2 y2 ⟨x, y⟩) ∧ pixelAt x y = i

theorem exists_fill_strokes (s : Surface) {x1 y1 x2 y2 : Int} (wide : x1 ≤ x2) (high : y1 ≤ y2) :
    ∃ cells, Fills x1 y1 x2 y2 cells ∧ fillClipped s x1 y1 x2 y2 = s.strokes cells := by
  have lower (a : Int) : (if a < 0 then 0 else a) = max a 0 := by
    split
    · rw [Int.max_eq_right (by omega)]
    · rw [Int.max_eq_left (by omega)]
  have upper (a b : Int) : (if a > b then b else a) = min a b := by
    split
    · rw [Int.min_eq_right (by omega)]
    · rw [Int.min_eq_left (by omega)]
  unfold fillClipped
  simp only [lower, upper]
  split
  · rw [fillRows_eq]
    refine ⟨_, ⟨?_, ?_⟩, rfl⟩
    · apply nodup_boxCells (nodup_upward _ _) (nodup_upward _ _)
      intro x column y row
      rw [mem_upward] at column row
      unfold InWindow
      omega
    · intro i
      rw [mem_boxCells]
      apply exists_congr
      intro x
      apply exists_congr
      intro y
      rw [← and_assoc]
      apply and_congr_left
      intro _
      unfold InWindow InRectangle Between
      rw [mem_upward, mem_upward]
      dsimp only
      omega
  · refine ⟨[], ⟨List.nodup_nil, ?_⟩, rfl⟩
    intro i
    simp only [List.not_mem_nil, false_iff]
    rintro ⟨x, y, ⟨inside, within⟩, _⟩
    unfold InWindow InRectangle Between at *
    dsimp only at within
    omega

theorem exists_boxfill_strokes {s : Surface} (drawing : s.Drawing) (x1 y1 x2 y2 : Int) :
    ∃ cells, Fills x1 y1 x2 y2 cells ∧ ndGsEglBoxfill s x1 y1 x2 y2 = s.strokes cells := by
  have ordered (a b : Int) : (if a > b then (b, a) else (a, b)) = (min a b, max a b) := by
    split
    · rw [Int.min_eq_right (by omega), Int.max_eq_left (by omega)]
    · rw [Int.min_eq_left (by omega), Int.max_eq_right (by omega)]
  rw [ndGsEglBoxfill, if_neg drawing.1, if_neg drawing.2, ordered, ordered]
  have wide : min x1 x2 ≤ max x1 x2 := by omega
  have high : min y1 y2 ≤ max y1 y2 := by omega
  obtain ⟨cells, fills, same⟩ := exists_fill_strokes s wide high
  refine ⟨cells, ⟨fills.once, ?_⟩, same⟩
  intro i
  rw [fills.mem]
  unfold InRectangle Between
  rw [Int.min_eq_left wide, Int.max_eq_right wide, Int.min_eq_left high, Int.max_eq_right high]

theorem psetAll_eq {s : Surface} (drawing : s.Drawing) (points : List Point) :
    psetAll s points =
      s.strokes ((points.filter fun r => InWindow r.x r.y).map fun r => pixelAt r.x r.y) := by
  induction points generalizing s with
  | nil => rfl
  | cons r points ih =>
      have first : psetAll s (r :: points) = psetAll (ndGsEglPset s r.x r.y) points := rfl
      rw [first, pset_of_drawing drawing]
      split
      · next inside =>
          have still : (s.stroke (pixelAt r.x r.y)).Drawing := drawing
          rw [ih still]
          rw [List.filter_cons, if_pos (decide_eq_true inside)]
          rfl
      · next outside =>
          rw [ih drawing, List.filter_cons_of_neg]
          simpa using outside

theorem psetAll_of_not_drawing {s : Surface} (idle : ¬ s.Drawing) (points : List Point) : psetAll s points = s := by
  induction points with
  | nil => rfl
  | cons r points ih =>
      have first : psetAll s (r :: points) = psetAll (ndGsEglPset s r.x r.y) points := rfl
      rw [first, pset_of_not_drawing idle]
      exact ih

theorem boxfill_of_not_drawing {s : Surface} (idle : ¬ s.Drawing) (x1 y1 x2 y2 : Int) :
    ndGsEglBoxfill s x1 y1 x2 y2 = s := by
  unfold ndGsEglBoxfill
  split
  · rfl
  · next buffer =>
      split
      · rfl
      · next shown => exact absurd ⟨buffer, shown⟩ idle

/-- The halfword of a pixel of the window. -/
def WindowCell (i : Int) : Prop := ∃ x y, InWindow x y ∧ pixelAt x y = i

/-- What filling a box must do. -/
structure BoxfillMeets (s : Surface) (x1 y1 x2 y2 : Int) : Prop where
  refines : ∀ points : List Point, points.Nodup → (∀ r, r ∈ points ↔ InRectangle x1 y1 x2 y2 r) →
    ndGsEglBoxfill s x1 y1 x2 y2 = psetAll s points
  inside : ∀ i, ¬ WindowCell i → (ndGsEglBoxfill s x1 y1 x2 y2).vram i = s.vram i

/-- Filling a box is drawing its points, in any order. -/
theorem boxfill_meets (s : Surface) (x1 y1 x2 y2 : Int) : BoxfillMeets s x1 y1 x2 y2 := by
  by_cases drawing : s.Drawing
  · obtain ⟨cells, fills, filled⟩ := exists_boxfill_strokes drawing x1 y1 x2 y2
    constructor
    · intro points once listed
      rw [filled, psetAll_eq drawing, strokes_eq, strokes_eq]
      congr 1
      apply InPlace.rewrite_perm
      · rw [List.map_id]
        exact fills.once
      · rw [List.map_id]
        apply List.Nodup.map_on _ (once.filter _)
        intro r listed r' listed' same
        rw [List.mem_filter, decide_eq_true_iff] at listed listed'
        obtain ⟨column, row⟩ := pixelAt_injective listed.2 listed'.2 same
        cases r
        cases r'
        exact Point.mk.injEq .. ▸ ⟨column, row⟩
      · intro i
        rw [fills.mem]
        simp only [List.mem_map, List.mem_filter, decide_eq_true_iff, listed]
        constructor
        · rintro ⟨x, y, ⟨inside, within⟩, same⟩
          exact ⟨⟨x, y⟩, ⟨within, inside⟩, same⟩
        · rintro ⟨r, ⟨within, inside⟩, same⟩
          exact ⟨r.x, r.y, ⟨inside, within⟩, same⟩
    · intro i outside
      rw [filled, strokes_eq]
      apply InPlace.rewrite_other
      rw [List.map_id]
      intro listed
      obtain ⟨x, y, ⟨inside, _⟩, same⟩ := (fills.mem i).mp listed
      exact outside ⟨x, y, inside, same⟩
  · constructor
    · intro points _ _
      rw [boxfill_of_not_drawing drawing, psetAll_of_not_drawing drawing]
    · intro i _
      rw [boxfill_of_not_drawing drawing]

/-- Half red over blue. -/
def halfRed : Surface := ⟨1, 0x7c00, 128, fun _ => 0x001f⟩

theorem boxfill_meets_halfRed :
    ndGsEglBoxfill halfRed 1 1 0 0 = psetAll halfRed [⟨1, 0⟩, ⟨0, 0⟩, ⟨1, 1⟩, ⟨0, 1⟩] ∧
      (ndGsEglBoxfill halfRed 1 1 0 0).vram 0 = 0x3c0f ∧ (ndGsEglBoxfill halfRed 1 1 0 0).vram 2 = 0x001f := by
  refine ⟨(boxfill_meets halfRed 1 1 0 0).refines _ (by decide) fun r => ?_, by decide, by decide⟩
  obtain ⟨x, y⟩ := r
  simp only [List.mem_cons, List.not_mem_nil, or_false, Point.mk.injEq, InRectangle, Between]
  omega

end Cineraria.Draw
