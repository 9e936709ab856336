import Mathlib.Algebra.Group.Nat.Defs
import Mathlib.Logic.Function.Basic
import Mathlib.Tactic.Common

/-!
# Fields of bits in a byte memory

A byte memory as a stream of bits, the lowest bit of a byte first. `field mem pos w` is the number in
the `w` bits from `pos` on, whatever bytes they lie in. `Put` says that a number has been put there and
no other bit has changed; an array of fields that do not overlap then behaves as an array.
-/

namespace Cineraria.BitField

/-- A bit of the stream. -/
def bit (mem : Nat → BitVec 8) (i : Nat) : Bool := (mem (i / 8)).getLsbD (i % 8)

/-- The field of `w` bits from bit `pos` on. -/
def field (mem : Nat → BitVec 8) (pos : Nat) : (w : Nat) → BitVec w
  | 0 => 0#0
  | w + 1 => BitVec.cons (bit mem (pos + w)) (field mem pos w)

/-- `mem'` is `mem` with `x` in the field. -/
def Put (mem mem' : Nat → BitVec 8) (pos : Nat) {w : Nat} (x : BitVec w) : Prop :=
  ∀ i, bit mem' i = if pos ≤ i ∧ i < pos + w then x.getLsbD (i - pos) else bit mem i

section
variable {mem mem' : Nat → BitVec 8} {pos w : Nat}

theorem getLsbD_field (mem : Nat → BitVec 8) (pos w j : Nat) :
    (field mem pos w).getLsbD j = (decide (j < w) && bit mem (pos + j)) := by
  induction w with
  | zero => simp
  | succ w ih =>
    rw [field, BitVec.getLsbD_cons, ih]
    by_cases last : j = w
    · simp [last]
    · simp [last, show j < w + 1 ↔ j < w by omega]

/-- A number is in the field if it has its bits. -/
theorem eq_field {x : BitVec w} (bits : ∀ j < w, x.getLsbD j = bit mem (pos + j)) : x = field mem pos w := by
  apply BitVec.eq_of_getLsbD_eq
  intro j hj
  rw [bits j hj, getLsbD_field, decide_eq_true hj, Bool.true_and]

theorem field_congr (same : ∀ j < w, bit mem' (pos + j) = bit mem (pos + j)) :
    field mem' pos w = field mem pos w :=
  eq_field fun j hj => by rw [getLsbD_field, decide_eq_true hj, Bool.true_and, same j hj]

/-- What has been put is there, as far as it is read. -/
theorem Put.field_low {n : Nat} {x : BitVec n} (put : Put mem mem' pos x) (room : w ≤ n) :
    field mem' pos w = x.setWidth w := by
  refine (eq_field fun j hj => ?_).symm
  rw [put, if_pos (by omega), Nat.add_sub_cancel_left, BitVec.getLsbD_setWidth, decide_eq_true hj, Bool.true_and]

/-- A field that lies apart is as it was. -/
theorem Put.field_apart {x : BitVec w} {pos' w' : Nat} (put : Put mem mem' pos x)
    (apart : pos + w ≤ pos' ∨ pos' + w' ≤ pos) : field mem' pos' w' = field mem pos' w' := by
  refine field_congr fun j hj => ?_
  rw [put, if_neg (by omega)]

/-- A bit after a byte has been stored. -/
theorem bit_update (mem : Nat → BitVec 8) (k : Nat) (b : BitVec 8) (i : Nat) :
    bit (Function.update mem k b) i = if i / 8 = k then b.getLsbD (i % 8) else bit mem i := by
  by_cases h : i / 8 = k
  · simp [bit, h]
  · simp [bit, h]

/-- The bits of a byte. -/
theorem bit_byte {k j : Nat} (within : j < 8) : bit mem (8 * k + j) = (mem k).getLsbD j := by
  rw [bit, show (8 * k + j) / 8 = k by omega, show (8 * k + j) % 8 = j by omega]

/-- Two bytes and four bytes as fields. -/
theorem append_eq_field (mem : Nat → BitVec 8) (k : Nat) : mem (k + 1) ++ mem k = field mem (8 * k) 16 := by
  refine eq_field fun j hj => ?_
  rw [BitVec.getLsbD_append]
  by_cases low : j < 8
  · simp [low, bit_byte low]
  · obtain ⟨i, rfl⟩ : ∃ i, j = 8 + i := ⟨j - 8, by omega⟩
    have within : i < 8 := by omega
    rw [show 8 * k + (8 + i) = 8 * (k + 1) + i by omega, bit_byte within]
    simp

theorem append_field (mem : Nat → BitVec 8) (pos m n : Nat) :
    field mem (pos + n) m ++ field mem pos n = field mem pos (m + n) := by
  refine eq_field fun j hj => ?_
  rw [BitVec.getLsbD_append, getLsbD_field, getLsbD_field]
  by_cases low : j < n
  · simp [low]
  · simp [low, show j - n < m by omega, show pos + n + (j - n) = pos + j by omega]

/-- A number put in a part of one byte. -/
theorem put_byte {x : BitVec w} {k s : Nat} {b : BitVec 8} (room : s + w ≤ 8)
    (bits : ∀ j < 8, b.getLsbD j = if s ≤ j ∧ j < s + w then x.getLsbD (j - s) else (mem k).getLsbD j) :
    Put mem (Function.update mem k b) (8 * k + s) x := by
  intro i
  rw [bit_update]
  by_cases here : i / 8 = k
  · obtain ⟨j, rfl, hj⟩ : ∃ j, i = 8 * k + j ∧ j < 8 := ⟨i % 8, by omega, by omega⟩
    rw [if_pos here, show (8 * k + j) % 8 = j by omega, bits j hj, bit_byte hj]
    simp only [Nat.add_le_add_iff_left, Nat.add_assoc, Nat.add_lt_add_iff_left, Nat.add_sub_add_left]
  · rw [if_neg here, if_neg (by omega)]

theorem put_byte_whole (mem : Nat → BitVec 8) (k : Nat) (b : BitVec 8) :
    Put mem (Function.update mem k b) (8 * k) b :=
  put_byte (s := 0) (by omega) fun j hj => by simp [hj]

/-- A number in two parts. -/
theorem setWidth_split {l : Nat} (x : BitVec l) (m n : Nat) :
    (x >>> n).setWidth m ++ x.setWidth n = x.setWidth (m + n) := by
  apply BitVec.eq_of_getLsbD_eq
  intro j hj
  rw [BitVec.getLsbD_append]
  by_cases low : j < n
  · simp [low, hj]
  · simp [low, hj, show j - n < m by omega, show n + (j - n) = j by omega]

/-- A number put in two parts. -/
theorem Put.append {mem1 mem2 : Nat → BitVec 8} {m n : Nat} {lo : BitVec n} {hi : BitVec m}
    (first : Put mem mem1 pos lo) (second : Put mem1 mem2 (pos + n) hi) : Put mem mem2 pos (hi ++ lo) := by
  intro i
  rw [second, first, BitVec.getLsbD_append]
  by_cases h1 : pos ≤ i ∧ i < pos + n
  · rw [if_neg (by omega), if_pos h1, if_pos (by omega), if_pos (by omega)]
  · by_cases h2 : pos + n ≤ i ∧ i < pos + n + m
    · rw [if_pos h2, if_pos (by omega), if_neg (by omega), show i - pos - n = i - (pos + n) by omega]
    · rw [if_neg h2, if_neg h1, if_neg (by omega)]

end

/-- The masks that keep the low bits. -/
theorem getLsbD_mask (n k j : Nat) : (BitVec.ofNat n (2 ^ k - 1)).getLsbD j = (decide (j < n) && decide (j < k)) := by
  rw [BitVec.getLsbD_ofNat, Nat.testBit_two_pow_sub_one]

/-! ## Arrays of fields -/

section
variable {mem mem' : Nat → BitVec 8} {stride w : Nat}

/-- Entry `c` of an array of fields. -/
def entry (mem : Nat → BitVec 8) (stride w c : Nat) : Nat := (field mem (stride * c) w).toNat

theorem entry_lt (mem : Nat → BitVec 8) (stride w c : Nat) : entry mem stride w c < 2 ^ w :=
  (field mem (stride * c) w).isLt

/-- The low bits of what has been put. -/
theorem entry_put_self {c n : Nat} {x : BitVec n} (put : Put mem mem' (stride * c) x) (room : w ≤ n) :
    entry mem' stride w c = (x.setWidth w).toNat := by
  rw [entry, put.field_low room]

/-- The other entries are as they were. -/
theorem entry_put_ne {c d n : Nat} {x : BitVec n} (put : Put mem mem' (stride * c) x) (fits : n ≤ stride)
    (room : w ≤ stride) (ne : d ≠ c) : entry mem' stride w d = entry mem stride w d := by
  rw [entry, put.field_apart, entry]
  rcases Nat.lt_or_gt_of_ne ne with before | after
  · have := Nat.mul_le_mul_left stride (show d + 1 ≤ c by omega)
    rw [Nat.mul_succ] at this
    omega
  · have := Nat.mul_le_mul_left stride (show c + 1 ≤ d by omega)
    rw [Nat.mul_succ] at this
    omega

end

end Cineraria.BitField
