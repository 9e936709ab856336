import Mathlib.Tactic.Common

/-!
# Shift registers

A register that takes in one bit an edge at its low end. After as many edges as it is wide
nothing of its old content is left: it holds the bits shifted in, the first one on top.
-/

namespace Cineraria.ShiftRegister

variable {n : Nat}

/-- The word whose bit `i` is `f i`. -/
def ofBits (f : Nat → Bool) : (n : Nat) → BitVec n
  | 0 => 0#0
  | n + 1 => (ofBits f n).cons (f n)

theorem getLsbD_ofBits (f : Nat → Bool) {i : Nat} (within : i < n) :
    (ofBits f n).getLsbD i = f i := by
  induction n with
  | zero => omega
  | succ n ih =>
      rw [ofBits, BitVec.getLsbD_cons]
      split
      · next top => rw [top]
      · exact ih (by omega)

theorem ofBits_congr {f g : Nat → Bool} (agree : ∀ i < n, f i = g i) : ofBits f n = ofBits g n := by
  apply BitVec.eq_of_getLsbD_eq
  intro i hi
  rw [getLsbD_ofBits f hi, getLsbD_ofBits g hi, agree i hi]

/-- One bit shifted in at the low end. -/
def shiftIn (r : BitVec n) (b : Bool) : BitVec n := (r.concat b).setWidth n

/-- The register after the first `k` bits of `f`. -/
def shifts (r : BitVec n) (f : Nat → Bool) : Nat → BitVec n
  | 0 => r
  | k + 1 => shiftIn (shifts r f k) (f k)

theorem getLsbD_shifts (r : BitVec n) (f : Nat → Bool) (k : Nat) {i : Nat} (within : i < n) :
    (shifts r f k).getLsbD i = if i < k then f (k - 1 - i) else r.getLsbD (i - k) := by
  induction k generalizing i with
  | zero => simp [shifts]
  | succ k ih =>
      rw [shifts, shiftIn, BitVec.getLsbD_setWidth, BitVec.getLsbD_concat]
      cases i with
      | zero => simp [within]
      | succ i =>
          rw [if_neg (by omega), Nat.add_sub_cancel, ih (by omega)]
          simp only [within, decide_true, Bool.true_and, Nat.add_lt_add_iff_right,
            Nat.add_sub_add_right]
          rw [show k - 1 - i = k + 1 - 1 - (i + 1) by omega]

/-- A full turn: the first bit shifted in is the top bit. -/
theorem shifts_width (r : BitVec n) (f : Nat → Bool) :
    shifts r f n = ofBits (fun i => f (n - 1 - i)) n := by
  apply BitVec.eq_of_getLsbD_eq
  intro i hi
  rw [getLsbD_shifts r f n hi, if_pos hi, getLsbD_ofBits _ hi]

end Cineraria.ShiftRegister
