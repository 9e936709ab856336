import Mathlib.Tactic.Common

/-!
# Little-endian words over byte memories

A byte memory is a function of the byte address. `le32 b i` is the `i`-th 32-bit word. Masks with
one bit test a bit of a word.
-/

namespace Cineraria.Bytes

/-- The `i`-th 32-bit word of a byte memory, least significant byte first. -/
def le32 (b : Nat → BitVec 8) (i : Nat) : BitVec 32 :=
  b (4 * i + 3) ++ b (4 * i + 2) ++ b (4 * i + 1) ++ b (4 * i)

/-- A word depends on its own four bytes only. -/
theorem le32_congr {b c : Nat → BitVec 8} {i : Nat}
    (agree : ∀ k, 4 * i ≤ k → k < 4 * i + 4 → b k = c k) : le32 b i = le32 c i := by
  simp only [le32]
  rw [agree (4 * i + 3) (by omega) (by omega), agree (4 * i + 2) (by omega) (by omega),
    agree (4 * i + 1) (by omega) (by omega), agree (4 * i) (by omega) (by omega)]

/-- The bytes of a word, from the lowest on. -/
theorem le32_byte (b : Nat → BitVec 8) (i : Nat) {j : Nat} (within : j < 4) :
    (le32 b i >>> (8 * j)).setWidth 8 = b (4 * i + j) := by
  rw [BitVec.setWidth_ushiftRight_eq_extractLsb]
  apply BitVec.eq_of_getLsbD_eq
  intro k hk
  simp only [le32, BitVec.getLsbD_extractLsb', BitVec.getLsbD_append, hk, decide_true,
    Bool.true_and]
  obtain rfl | rfl | rfl | rfl : j = 0 ∨ j = 1 ∨ j = 2 ∨ j = 3 := by omega
  · simp [hk]
  · simp [show ¬8 + k < 8 by omega, show 8 + k - 8 = k by omega, hk]
  · simp [show ¬16 + k < 8 by omega, show ¬16 + k - 8 < 8 by omega,
      show 16 + k - 8 - 8 = k by omega, hk]
  · simp [show ¬24 + k < 8 by omega, show ¬24 + k - 8 < 8 by omega,
      show ¬24 + k - 8 - 8 < 8 by omega, show 24 + k - 8 - 8 - 8 = k by omega]

/-- The bytes of a list, zero beyond its end. -/
def ofList (l : List (BitVec 8)) (k : Nat) : BitVec 8 := l.getD k 0

/-- The first `m` words of a list of bytes. -/
def words (l : List (BitVec 8)) (m : Nat) : List (BitVec 32) := (List.range m).map (le32 (ofList l))

@[simp] theorem length_words (l : List (BitVec 8)) (m : Nat) : (words l m).length = m := by
  simp [words]

theorem words_add (l : List (BitVec 8)) (m k : Nat) :
    words l (m + k) = words l m ++ words (l.drop (4 * m)) k := by
  rw [words, List.range_add, List.map_append, List.map_map]
  refine congrArg (words l m ++ ·) (List.map_congr_left fun i _ => ?_)
  have shifted : ∀ j, ofList (l.drop (4 * m)) j = ofList l (4 * m + j) := by
    intro j
    simp [ofList, List.getD_eq_getElem?_getD, List.getElem?_drop]
  simp only [Function.comp, le32, shifted]
  simp only [Nat.mul_add, Nat.add_assoc]

/-- The first `m` words need the first `4 * m` bytes only. -/
theorem words_take (l : List (BitVec 8)) {m k : Nat} (enough : 4 * m ≤ k) :
    words (l.take k) m = words l m := by
  refine List.map_congr_left fun i hi => le32_congr fun j _ hj => ?_
  have := List.mem_range.mp hi
  simp [ofList, List.getD_eq_getElem?_getD, show j < k by omega]

/-! ## Fields of a file -/

/-- A byte of a file. -/
def byteAt (content : List (BitVec 8)) (k : Nat) : Nat := (ofList content k).toNat

/-- A field of 16 bits. -/
def field16 (content : List (BitVec 8)) (k : Nat) : Nat := byteAt content k + 256 * byteAt content (k + 1)

/-- A field of 32 bits. -/
def field32 (content : List (BitVec 8)) (k : Nat) : Nat :=
  field16 content k + 65536 * field16 content (k + 2)

theorem byteAt_lt (content : List (BitVec 8)) (k : Nat) : byteAt content k < 256 := (ofList content k).isLt

theorem ofList_eq_iff (content : List (BitVec 8)) (k : Nat) (b : BitVec 8) :
    ofList content k = b ↔ byteAt content k = b.toNat :=
  BitVec.toNat_inj.symm

theorem ofList_take {content : List (BitVec 8)} {n k : Nat} (before : k < n) :
    ofList (content.take n) k = ofList content k := by
  rw [ofList, ofList, List.getD_eq_getElem?_getD, List.getElem?_take_of_lt before, ← List.getD_eq_getElem?_getD]

/-! ## Single bits -/

/-- A mask with one bit tests that bit. -/
theorem test_bit (x : BitVec 32) {i : Nat} (within : i < 32) :
    (x &&& 1#32 <<< i != 0) = x.getLsbD i := by
  rw [← BitVec.twoPow_eq, BitVec.and_twoPow]
  have nonzero : BitVec.twoPow 32 i ≠ 0 := by
    intro zero
    have bit := congrArg (·.getLsbD i) zero
    simp [within] at bit
  cases x.getLsbD i with
  | false => rfl
  | true => simpa using nonzero

end Cineraria.Bytes
