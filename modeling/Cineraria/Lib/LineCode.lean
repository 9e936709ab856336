import Mathlib.Data.Int.Order.Basic
import Mathlib.Tactic.Common

/-!
# Line codes

Vocabulary of serial line coding over bit vectors of any width: the number of ones
of a symbol, its disparity (ones minus zeros), the number of level changes inside
it, and the two chained codings in which every bit is added to, or compared with,
the bit before it.
-/

namespace Cineraria.LineCode

variable {n : Nat}

/-! ## Ones and disparity -/

/-- The number of bits of `v` that are one. -/
def ones (v : BitVec n) : Nat := v.cpop.toNat

/-- Ones minus zeros. -/
def disparity (v : BitVec n) : Int := 2 * ones v - n

/-- The contribution of a single bit to the disparity. -/
def level (b : Bool) : Int := if b then 1 else -1

theorem ones_le (v : BitVec n) : ones v ≤ n := BitVec.toNat_cpop_le v

theorem ones_cons (b : Bool) (v : BitVec n) : ones (v.cons b) = b.toNat + ones v :=
  BitVec.toNat_cpop_cons

theorem disparity_cons (b : Bool) (v : BitVec n) :
    disparity (v.cons b) = level b + disparity v := by
  simp only [disparity, ones_cons, level]
  cases b <;> simp <;> omega

private theorem cpopNatRec_not (v : BitVec n) (k : Nat) (within : k ≤ n) :
    (~~~v).cpopNatRec k 0 + v.cpopNatRec k 0 = k := by
  induction k with
  | zero => rfl
  | succ k ih =>
      have rest := ih (by omega)
      have bit : (~~~v).getLsbD k = !v.getLsbD k := by
        rw [BitVec.getLsbD_not]
        simp [show k < n by omega]
      rw [BitVec.cpopNatRec_succ, BitVec.cpopNatRec_succ, bit,
        BitVec.cpopNatRec_eq (0 + (!v.getLsbD k).toNat), BitVec.cpopNatRec_eq (0 + (v.getLsbD k).toNat)]
      cases v.getLsbD k <;> simp <;> omega

theorem ones_not (v : BitVec n) : ones (~~~v) + ones v = n := by
  simp only [ones, BitVec.toNat_cpop]
  exact cpopNatRec_not v n (Nat.le_refl n)

/-- Inverting a symbol negates its disparity. -/
theorem disparity_not (v : BitVec n) : disparity (~~~v) = -disparity v := by
  have h := ones_not v
  simp only [disparity]
  omega

theorem disparity_le (v : BitVec n) : disparity v ≤ n := by
  have h := ones_le v
  simp only [disparity]
  omega

theorem neg_le_disparity (v : BitVec n) : -(n : Int) ≤ disparity v := by
  simp only [disparity]
  omega

/-- A symbol of even width has even disparity. -/
theorem even_disparity (v : BitVec n) (even : n % 2 = 0) : disparity v % 2 = 0 := by
  simp only [disparity]
  omega

/-! ## Chained coding -/

/-- Each bit is the sum of the code bit before it and the data bit; with `inv` every
sum is complemented. -/
def chain (inv : Bool) (d : Nat → Bool) : Nat → Bool
  | 0 => d 0
  | i + 1 => ((chain inv d i) ^^ d (i + 1)) ^^ inv

/-- The data bits of a chained code: the first bit is sent plain, the others are the
(complemented) sums of neighbouring code bits. -/
def unchain (inv : Bool) (q : Nat → Bool) : Nat → Bool
  | 0 => q 0
  | i + 1 => (q (i + 1) ^^ q i) ^^ inv

theorem unchain_chain (inv : Bool) (d : Nat → Bool) (i : Nat) :
    unchain inv (chain inv d) i = d i := by
  cases i with
  | zero => rfl
  | succ i =>
      simp only [unchain, chain]
      cases chain inv d i <;> cases d (i + 1) <;> cases inv <;> rfl

/-- Decoding reads code bits up to its own index only. -/
theorem unchain_congr {inv : Bool} {q q' : Nat → Bool} {i : Nat}
    (agree : ∀ j ≤ i, q j = q' j) : unchain inv q i = unchain inv q' i := by
  cases i with
  | zero => exact agree 0 (Nat.le_refl 0)
  | succ i => simp only [unchain, agree (i + 1) (Nat.le_refl _), agree i (Nat.le_succ i)]

/-- A chained code changes level exactly at the data bits that differ from `inv`. -/
theorem chain_changes (inv : Bool) (d : Nat → Bool) (i : Nat) :
    (chain inv d i != chain inv d (i + 1)) = (d (i + 1) != inv) := by
  simp only [chain]
  cases chain inv d i <;> cases d (i + 1) <;> cases inv <;> rfl

/-! ## Level changes -/

/-- The number of neighbouring bits of `v` that differ. -/
def changes (v : BitVec n) : Nat :=
  (List.range (n - 1)).countP fun i => v.getLsbD i != v.getLsbD (i + 1)

theorem changes_not (v : BitVec n) : changes (~~~v) = changes v := by
  apply List.countP_congr
  intro i hi
  have hn : i < n ∧ i + 1 < n := by
    have := List.mem_range.mp hi
    omega
  simp only [BitVec.getLsbD_not, hn.1, hn.2, decide_true, Bool.true_and]
  cases v.getLsbD i <;> cases v.getLsbD (i + 1) <;> simp

end Cineraria.LineCode
