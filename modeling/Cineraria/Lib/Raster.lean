import Mathlib.Data.Nat.Count
import Mathlib.Data.Nat.Periodic
import Mathlib.Tactic.Common

/-!
# Rasters

A counter that steps through `n` values over and over takes each of them once in every window
of `n` clocks. A raster is such a counter whose value is the number of a row and that of a
column; what is chosen by the row and the column is counted as a product.
-/

namespace Cineraria.Raster

/-- A counter steps by one and wraps at `n`. -/
def Steps (n : Nat) (x : Nat → Nat) : Prop := ∀ u, x (u + 1) = (x u + 1) % n

section
variable {n : Nat} {x : Nat → Nat}

theorem Steps.add (steps : Steps n x) {a : Nat} (start : x a < n) (u : Nat) :
    x (a + u) = (x a + u) % n := by
  induction u with
  | zero => rw [Nat.add_zero, Nat.add_zero, Nat.mod_eq_of_lt start]
  | succ u ih => rw [← Nat.add_assoc, steps, ih, Nat.mod_add_mod, Nat.add_assoc]

theorem Steps.lt (steps : Steps n x) (start : x 0 < n) (u : Nat) : x u < n := by
  have later := steps.add start u
  rw [Nat.zero_add] at later
  rw [later]
  exact Nat.mod_lt _ (Nat.zero_lt_of_lt start)

/-- The counter is at its value again after `n` clocks, and not before. -/
theorem Steps.again_iff (steps : Steps n x) (start : x 0 < n) {a b : Nat} (order : a ≤ b) :
    x b = x a ↔ n ∣ b - a := by
  have inside := steps.lt start a
  have later := steps.add inside (b - a)
  rw [Nat.add_sub_cancel' order] at later
  rw [later]
  constructor
  · intro same
    have gap := Nat.sub_mod_eq_zero_of_mod_eq (same.trans (Nat.mod_eq_of_lt inside).symm)
    rw [Nat.add_sub_cancel_left] at gap
    exact Nat.dvd_of_mod_eq_zero gap
  · rintro ⟨k, gap⟩
    rw [gap, Nat.add_mul_mod_self_left, Nat.mod_eq_of_lt inside]

/-- A window of `n` clocks sees every value once. -/
theorem Steps.card_window (steps : Steps n x) (start : x 0 < n) (P : Nat → Prop) [DecidablePred P]
    (a : Nat) : ((Finset.Ico a (a + n)).filter fun u => P (x u)).card = Nat.count P n := by
  have value : ∀ u, x u = (x 0 + u) % n := fun u => by
    have later := steps.add start u
    rwa [Nat.zero_add] at later
  have periodic : Function.Periodic (fun k => P (k % n)) n := fun k => by
    simp only [Nat.add_mod_right]
  calc ((Finset.Ico a (a + n)).filter fun u => P (x u)).card
      = ((Finset.Ico (x 0 + a) (x 0 + a + n)).filter fun k => P (k % n)).card := by
        apply Finset.card_nbij' (fun u => x 0 + u) (fun k => k - x 0)
        · intro u member
          simp only [Finset.coe_filter, Finset.mem_Ico, Set.mem_ofPred_eq] at member ⊢
          exact ⟨by omega, value u ▸ member.2⟩
        · intro k member
          simp only [Finset.coe_filter, Finset.mem_Ico, Set.mem_ofPred_eq] at member ⊢
          refine ⟨by omega, ?_⟩
          rw [value, Nat.add_sub_cancel' (by omega)]
          exact member.2
        · intro u _
          exact Nat.add_sub_cancel_left _ _
        · intro k member
          simp only [Finset.coe_filter, Finset.mem_Ico, Set.mem_ofPred_eq] at member
          exact Nat.add_sub_cancel' (by omega)
    _ = Nat.count (fun k => P (k % n)) n := Nat.filter_Ico_card_eq_of_periodic _ _ _ periodic
    _ = Nat.count P n := by
        rw [Nat.count_eq_card_filter_range, Nat.count_eq_card_filter_range]
        congr 1
        apply Finset.filter_congr
        intro k inside
        rw [Nat.mod_eq_of_lt (Finset.mem_range.mp inside)]

end

/-! ## Rows and columns -/

theorem count_interval (a b : Nat) {n : Nat} (fits : b ≤ n) :
    Nat.count (fun k => a ≤ k ∧ k < b) n = b - a := by
  rw [Nat.count_eq_card_filter_range, ← Nat.card_Ico]
  congr 1
  ext k
  simp only [Finset.mem_filter, Finset.mem_range, Finset.mem_Ico]
  omega

section
variable {R C : Nat → Prop} [DecidablePred R] [DecidablePred C]

/-- One row is counted in full, or not at all. -/
theorem count_row (columns row : Nat) :
    Nat.count (fun k => R ((columns * row + k) / columns) ∧ C ((columns * row + k) % columns)) columns =
      if R row then Nat.count C columns else 0 := by
  rw [Nat.count_eq_card_filter_range, Nat.count_eq_card_filter_range]
  have place : ∀ k ∈ Finset.range columns, (columns * row + k) / columns = row ∧
      (columns * row + k) % columns = k := by
    intro k inside
    have below := Finset.mem_range.mp inside
    rw [Nat.mul_add_div (by omega), Nat.div_eq_of_lt below, Nat.mul_add_mod,
      Nat.mod_eq_of_lt below]
    exact ⟨rfl, rfl⟩
  split
  · next chosen =>
      congr 1
      apply Finset.filter_congr
      intro k inside
      rw [(place k inside).1, (place k inside).2]
      exact and_iff_right chosen
  · next other =>
      rw [Finset.card_eq_zero, Finset.filter_eq_empty_iff]
      intro k inside
      rw [(place k inside).1]
      exact fun both => other both.1

theorem count_raster (columns rows : Nat) :
    Nat.count (fun k => R (k / columns) ∧ C (k % columns)) (columns * rows) =
      Nat.count R rows * Nat.count C columns := by
  induction rows with
  | zero => simp
  | succ rows ih =>
      rw [Nat.mul_succ, Nat.count_add, ih, count_row, Nat.count_succ]
      split
      · rw [Nat.add_mul, Nat.one_mul]
      · rw [Nat.add_zero, Nat.add_zero]

end

end Cineraria.Raster
