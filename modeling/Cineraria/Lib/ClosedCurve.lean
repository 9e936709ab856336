import Mathlib.Logic.Function.Iterate
import Mathlib.Tactic.Common

/-!
# Closed curves

A closed curve is a periodic sequence of which each element and the next one are neighbours, and in which no
element comes twice before it begins again. A curve that looks the same after a part of a full turn is known by
that part of it (`closedCurve_turned`).
-/

namespace Cineraria.Curves

variable {α : Type}

/-- The sequence `c` goes round in `n` steps. -/
structure ClosedCurve (Near : α → α → Prop) (n : Nat) (c : Nat → α) : Prop where
  positive : 0 < n
  steps : ∀ i, Near (c i) (c (i + 1))
  closes : ∀ i, c (i + n) = c i
  simple : ∀ i < n, ∀ j < n, c i = c j → i = j

/-- The part `q` of `n` elements, and then the same again after each turn. -/
def turned (turn : α → α) (n : Nat) (q : Nat → α) (i : Nat) : α := turn^[i / n] (q (i % n))

theorem turned_add_mul (turn : α → α) {n : Nat} (positive : 0 < n) (q : Nat → α) (a i : Nat) :
    turned turn n q (i + a * n) = turn^[a] (turned turn n q i) := by
  rw [turned, turned, Nat.add_mul_div_right i a positive, Nat.add_mul_mod_self_right, Nat.add_comm,
    Function.iterate_add_apply]

section
variable {turn : α → α} {n m : Nat} {q : Nat → α} {Near : α → α → Prop}

theorem near_iterate (turns : ∀ {a b}, Near a b → Near (turn a) (turn b)) (k : Nat) {a b : α} (near : Near a b) :
    Near (turn^[k] a) (turn^[k] b) := by
  induction k with
  | zero => exact near
  | succ k ih =>
      rw [Function.iterate_succ_apply', Function.iterate_succ_apply']
      exact turns ih

/-- The next element, also where one part meets the next. -/
theorem turned_succ (positive : 0 < n) (meets : q n = turn (q 0)) (i : Nat) :
    turned turn n q (i + 1) = turn^[i / n] (q (i % n + 1)) := by
  have split := Nat.div_add_mod' i n
  have within := Nat.mod_lt i positive
  rcases Nat.lt_or_eq_of_le (Nat.succ_le_of_lt within) with inside | last
  · have next : i + 1 = i % n + 1 + i / n * n := by omega
    have first : turned turn n q (i % n + 1) = q (i % n + 1) := by
      rw [turned, Nat.div_eq_of_lt inside, Nat.mod_eq_of_lt inside, Function.iterate_zero_apply]
    calc turned turn n q (i + 1) = turned turn n q (i % n + 1 + i / n * n) := by rw [← next]
      _ = turn^[i / n] (q (i % n + 1)) := by rw [turned_add_mul turn positive, first]
  · have last : i % n + 1 = n := last
    have next : i + 1 = 0 + (i / n + 1) * n := by
      rw [Nat.succ_mul]
      omega
    rw [next, turned_add_mul turn positive, turned, Nat.zero_div, Nat.zero_mod, Function.iterate_zero_apply,
      Function.iterate_succ_apply, ← meets, last]

/-- A part whose turned copies are all different and meet end to end makes a closed curve. -/
theorem closedCurve_turned (positive : 0 < n) (whole : 0 < m) (cycles : ∀ a, turn^[m] a = a)
    (turns : ∀ {a b}, Near a b → Near (turn a) (turn b)) (meets : q n = turn (q 0))
    (steps : ∀ j < n, Near (q j) (q (j + 1)))
    (apart : ∀ a < m, ∀ b < m, ∀ i < n, ∀ j < n, turn^[a] (q i) = turn^[b] (q j) → a = b ∧ i = j) :
    ClosedCurve Near (m * n) (turned turn n q) where
  positive := Nat.mul_pos whole positive
  steps i := by
    rw [turned_succ positive meets, turned]
    exact near_iterate turns _ (steps _ (Nat.mod_lt i positive))
  closes i := by
    rw [turned_add_mul turn positive]
    exact cycles _
  simple i hi j hj same := by
    have turnI : i / n < m := (Nat.div_lt_iff_lt_mul positive).mpr hi
    have turnJ : j / n < m := (Nat.div_lt_iff_lt_mul positive).mpr hj
    obtain ⟨quotients, remainders⟩ :=
      apart _ turnI _ turnJ _ (Nat.mod_lt i positive) _ (Nat.mod_lt j positive) same
    rw [← Nat.div_add_mod i n, ← Nat.div_add_mod j n, quotients, remainders]

/-- The elements of the curve are those of the part, turned. -/
theorem mem_turned (positive : 0 < n) {p : α} :
    (∃ i, turned turn n q i = p) ↔ ∃ a, ∃ j < n, turn^[a] (q j) = p := by
  constructor
  · rintro ⟨i, rfl⟩
    exact ⟨i / n, i % n, Nat.mod_lt i positive, rfl⟩
  · rintro ⟨a, j, within, rfl⟩
    refine ⟨j + a * n, ?_⟩
    rw [turned_add_mul turn positive, turned, Nat.div_eq_of_lt within, Nat.mod_eq_of_lt within,
      Function.iterate_zero_apply]

/-- A closed curve in another place. -/
theorem ClosedCurve.map {β : Type} {Near' : β → β → Prop} {c : Nat → α} {place : α → β} (curve : ClosedCurve Near n c)
    (injective : Function.Injective place) (places : ∀ {a b}, Near a b → Near' (place a) (place b)) :
    ClosedCurve Near' n (fun i => place (c i)) where
  positive := curve.positive
  steps i := places (curve.steps i)
  closes i := congrArg place (curve.closes i)
  simple i hi j hj same := curve.simple i hi j hj (injective same)

end

end Cineraria.Curves
