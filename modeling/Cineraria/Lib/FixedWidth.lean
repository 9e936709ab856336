import Mathlib.Tactic.Ring
import Mathlib.Tactic.Linarith

/-!
# Fixed-width signed arithmetic

When a sum or a difference of bit vectors is the sum or difference of the integers
they stand for, and how the signed value of a vector splits into its upper part (a
signed quotient, rounded down) and its lower part (an unsigned remainder).
-/

namespace Cineraria.FixedWidth

variable {w : Nat}

/-- A sum inside the signed range does not wrap. -/
theorem toInt_add_of_range {x y : BitVec w} (lower : -(2 ^ w : Nat) ≤ (x.toInt + y.toInt) * 2)
    (upper : (x.toInt + y.toInt) * 2 < (2 ^ w : Nat)) : (x + y).toInt = x.toInt + y.toInt := by
  rw [BitVec.toInt_add, Int.bmod_eq_of_le_mul_two lower upper]

/-- A counter that is not zero can be decremented. -/
theorem toNat_sub_one {x : BitVec w} (counting : x ≠ 0) : (x - 1).toNat + 1 = x.toNat := by
  have positive : 0 < x.toNat := by
    rcases Nat.eq_zero_or_pos x.toNat with zero | positive
    · exact absurd (BitVec.eq_of_toNat_eq (by simpa using zero)) counting
    · exact positive
  have width : 1 < 2 ^ w := by
    have := x.isLt
    omega
  have one : (1 : BitVec w).toNat = 1 := Nat.mod_eq_of_lt width
  rw [BitVec.toNat_sub_of_le, one]
  · omega
  · rw [BitVec.le_def, one]
    exact positive

/-- A difference inside the signed range does not wrap. -/
theorem toInt_sub_of_range {x y : BitVec w} (lower : -(2 ^ w : Nat) ≤ (x.toInt - y.toInt) * 2)
    (upper : (x.toInt - y.toInt) * 2 < (2 ^ w : Nat)) : (x - y).toInt = x.toInt - y.toInt := by
  rw [BitVec.toInt_sub, Int.bmod_eq_of_le_mul_two lower upper]

/-- A vector extended by zeros is non-negative. -/
theorem toInt_setWidth_of_lt {v : Nat} (x : BitVec w) (h : w < v) :
    (x.setWidth v).toInt = x.toNat := by
  have bound : 2 * x.toNat < 2 ^ v := by
    have hx := x.isLt
    have hp : 2 ^ (w + 1) ≤ 2 ^ v := Nat.pow_le_pow_right (by decide) h
    rw [Nat.pow_succ] at hp
    omega
  have same : (x.setWidth v).toNat = x.toNat := by
    rw [BitVec.toNat_setWidth]
    exact Nat.mod_eq_of_lt (by omega)
  rw [BitVec.toInt_eq_toNat_of_lt (by rw [same]; exact bound), same]

/-- A product inside the signed range does not wrap. -/
theorem toInt_mul_of_range {x y : BitVec w} (lower : -(2 ^ w : Nat) ≤ x.toInt * y.toInt * 2)
    (upper : x.toInt * y.toInt * 2 < (2 ^ w : Nat)) : (x * y).toInt = x.toInt * y.toInt := by
  rw [BitVec.toInt_mul, Int.bmod_eq_of_le_mul_two lower upper]

/-- Dropping upper bits keeps a value that fits the lower ones. -/
theorem toInt_setWidth_of_range {v : Nat} {x : BitVec w} (h : v ≤ w)
    (lower : -(2 ^ v : Nat) ≤ x.toInt * 2) (upper : x.toInt * 2 < (2 ^ v : Nat)) :
    (x.setWidth v).toInt = x.toInt := by
  rw [← BitVec.signExtend_eq_setWidth_of_le x h,
    BitVec.toInt_signExtend_eq_toInt_bmod_of_le x h, Int.bmod_eq_of_le_mul_two lower upper]

/-- The value of two vectors put together. -/
theorem toNat_append_add {v : Nat} (x : BitVec v) (y : BitVec w) :
    (x ++ y).toNat = x.toNat * 2 ^ w + y.toNat := by
  rw [BitVec.toNat_append, ← Nat.shiftLeft_add_eq_or_of_lt y.isLt, Nat.shiftLeft_eq]

/-- The value of two bytes put together in a wider word. -/
theorem toNat_shift_or (wide : 16 ≤ w) (x y : BitVec 8) :
    ((x.setWidth w <<< 8) ||| y.setWidth w).toNat = 256 * x.toNat + y.toNat := by
  have hx := x.isLt
  have hy := y.isLt
  have size : 2 ^ 16 ≤ 2 ^ w := Nat.pow_le_pow_right (by decide) wide
  rw [BitVec.toNat_or, BitVec.toNat_shiftLeft, BitVec.toNat_setWidth, BitVec.toNat_setWidth,
    Nat.mod_eq_of_lt (by omega : x.toNat < 2 ^ w), Nat.mod_eq_of_lt (by omega : y.toNat < 2 ^ w), Nat.shiftLeft_eq,
    Nat.mod_eq_of_lt (by omega), ← Nat.shiftLeft_eq, ← Nat.shiftLeft_add_eq_or_of_lt hy, Nat.shiftLeft_eq,
    Nat.mul_comm]

/-- The sign is decided by the upper part alone. -/
private theorem two_mul_lt_iff (m k q r : Nat) (hr : r < 2 ^ m) (hk : 0 < k) :
    2 * (2 ^ m * q + r) < 2 ^ (m + k) ↔ 2 * q < 2 ^ k := by
  obtain ⟨j, rfl⟩ : ∃ j, k = j + 1 := ⟨k - 1, by omega⟩
  have split : 2 ^ (m + (j + 1)) = 2 * (2 ^ m * 2 ^ j) := by ring
  have half : 2 ^ (j + 1) = 2 * 2 ^ j := by ring
  rw [split, half]
  constructor
  · intro h
    by_contra contrary
    have := Nat.mul_le_mul_left (2 ^ m) (show 2 ^ j ≤ q by omega)
    omega
  · intro h
    have := Nat.mul_le_mul_left (2 ^ m) (show q + 1 ≤ 2 ^ j by omega)
    rw [Nat.mul_succ] at this
    omega

/-- The signed value splits at bit `m`: the upper `k` bits are the quotient by `2 ^ m`,
rounded down, the lower `m` bits the remainder. -/
theorem toInt_split {m k : Nat} (hk : 0 < k) (x : BitVec (m + k)) :
    x.toInt = 2 ^ m * (x.extractLsb' m k).toInt + (x.setWidth m).toNat := by
  have hq : (x.extractLsb' m k).toNat = x.toNat / 2 ^ m := by
    rw [BitVec.extractLsb'_toNat, Nat.shiftRight_eq_div_pow]
    apply Nat.mod_eq_of_lt
    apply Nat.div_lt_of_lt_mul
    rw [← Nat.pow_add]
    exact x.isLt
  have hr : (x.setWidth m).toNat = x.toNat % 2 ^ m := BitVec.toNat_setWidth ..
  have whole : 2 ^ m * (x.toNat / 2 ^ m) + x.toNat % 2 ^ m = x.toNat := Nat.div_add_mod ..
  have sign := two_mul_lt_iff m k (x.toNat / 2 ^ m) (x.toNat % 2 ^ m)
    (Nat.mod_lt _ (by positivity)) hk
  rw [whole] at sign
  rw [BitVec.toInt_eq_toNat_cond, BitVec.toInt_eq_toNat_cond, hq, hr]
  by_cases small : 2 * x.toNat < 2 ^ (m + k)
  · rw [if_pos small, if_pos (sign.mp small)]
    exact_mod_cast whole.symm
  · rw [if_neg small, if_neg (mt sign.mpr small), mul_sub, sub_add_eq_add_sub, pow_add]
    have wholeInt : (2 : Int) ^ m * ((x.toNat / 2 ^ m : Nat) : Int) +
        ((x.toNat % 2 ^ m : Nat) : Int) = x.toNat := by
      exact_mod_cast whole
    rw [wholeInt]
    push_cast
    rfl

end Cineraria.FixedWidth
