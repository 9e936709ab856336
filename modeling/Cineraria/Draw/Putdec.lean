import Mathlib.Logic.Function.Basic
import Mathlib.Tactic.IntervalCases
import Mathlib.Tactic.SplitIfs

/-!
# Drawing a number

`nd_lib/nd_egl.c`: `nd_GsEglPutdec` writes the digits of a number into `numstr` from the right to the left, puts the
sign before them and hands the rest of the array to `nd_GsEglPutstr`. The magnitude of the least number is not an
`nd_s32`: its negation is itself, the loop does not run, and the sign is drawn alone (`putdec_meets_iff`).
-/

namespace Cineraria.Draw

/-! ## Signed division of a positive word -/

theorem toNat_of_positive {num : BitVec 32} (positive : 0 < num.toInt) :
    num.toInt = num.toNat ∧ num.toNat < 2147483648 ∧ num.msb = false := by
  have bound := num.isLt
  have sign := BitVec.msb_eq_false_iff_two_mul_lt (x := num)
  rw [BitVec.toInt_eq_toNat_cond] at positive ⊢
  split_ifs at positive ⊢ with small
  · exact ⟨rfl, by omega, sign.mpr (by omega)⟩
  · omega

theorem toNat_sdiv_ten {num : BitVec 32} (positive : 0 < num.toInt) :
    (num.sdiv 10).toNat = num.toNat / 10 := by
  have sign := (toNat_of_positive positive).2.2
  have ten : (10 : BitVec 32).msb = false := rfl
  rw [BitVec.toNat_sdiv, sign, ten]
  exact BitVec.toNat_udiv

theorem toNat_srem_ten {num : BitVec 32} (positive : 0 < num.toInt) :
    (num.srem 10).toNat = num.toNat % 10 := by
  have sign := (toNat_of_positive positive).2.2
  have ten : (10 : BitVec 32).msb = false := rfl
  rw [BitVec.toNat_srem, sign, ten]
  rfl

/-- The quotient is not negative, and smaller. -/
theorem toInt_sdiv_ten {num : BitVec 32} (positive : 0 < num.toInt) :
    (num.sdiv 10).toInt = (num.toNat / 10 : Nat) := by
  have quotient := toNat_sdiv_ten positive
  have below := (toNat_of_positive positive).2.1
  rw [BitVec.toInt_eq_toNat_of_lt (by omega), quotient]

/-! ## The functions -/

/-- A call of `nd_GsEglPutchar`. -/
structure PutcharCall where
  x : BitVec 32
  y : BitVec 32
  s : BitVec 8
  deriving DecidableEq, Repr

/-- The bytes of `numstr` that have been written. -/
abbrev Numstr := Int → Option (BitVec 8)

/-- `numstr[i] = s`, if the array has that index. -/
def Numstr.store (numstr : Numstr) (i : Int) (s : BitVec 8) : Option Numstr :=
  if 0 ≤ i ∧ i < 14 then some (Function.update numstr i (some s)) else none

/-- A read of `numstr[i]`, if the array has that index. -/
def Numstr.load (numstr : Numstr) (i : Int) : Option (BitVec 8) :=
  if 0 ≤ i ∧ i < 14 then numstr i else none

/-- The loop of `nd_GsEglPutstr` from `numstr[i]` on, for a number of turns, if it ends in them. -/
def putstrFrom (numstr : Numstr) (y : BitVec 32) : Nat → Int → BitVec 32 → Option (List PutcharCall)
  | 0, _, _ => none
  | turns + 1, i, x =>
      (numstr.load i).bind fun s =>
        if s = 0 then some []
        else (putstrFrom numstr y turns (i + 1) (x + 8)).map fun calls => { x := x, y := y, s := s } :: calls

/-- The loop of `nd_GsEglPutdec`. -/
def putdecLoop (num : BitVec 32) (i : Int) (numstr : Numstr) : Option (Int × Numstr) :=
  if positive : 0 < num.toInt then
    let rem := num.srem 10
    (numstr.store i ((rem ||| 0x30).setWidth 8)).bind fun numstr => putdecLoop (num.sdiv 10) (i - 1) numstr
  else some (i, numstr)
termination_by num.toInt.toNat
decreasing_by
  have shrinks := toInt_sdiv_ten positive
  have value := (toNat_of_positive positive).1
  omega

/-- `nd_GsEglPutdec` -/
def putdec (turns : Nat) (x y c : BitVec 32) : Option (List PutcharCall) := do
  let num := if c.toInt < 0 then -c else c
  let numstr ← Numstr.store (fun _ => none) 12 0x30
  let numstr ← numstr.store 13 0
  let (i, numstr) ← putdecLoop num 12 numstr
  if c.toInt < 0 then
    let numstr ← numstr.store i 0x2d
    putstrFrom numstr y turns i x
  else
    let i := if i < 12 then i + 1 else i
    putstrFrom numstr y turns i x

/-! ## What is to be drawn -/

/-- The bytes of a text. -/
def bytesOf (text : String) : List (BitVec 8) := text.toList.map fun char => BitVec.ofNat 8 char.toNat

/-- The decimal representation of a number. -/
def decimal (c : Int) : List (BitVec 8) := bytesOf (toString c)

/-- The calls that draw some characters, eight columns apart. -/
def drawnString (y x : BitVec 32) : List (BitVec 8) → List PutcharCall
  | [] => []
  | s :: rest => { x := x, y := y, s := s } :: drawnString y (x + 8) rest

/-- `nd_GsEglPutdec` ends, keeps to its array, and draws the decimal representation. -/
def PutdecMeets (x y c : BitVec 32) : Prop :=
  ∃ turns, putdec turns x y c = some (drawnString y x (decimal c.toInt))

/-! ## Digits -/

/-- The digits of a number, none for zero. -/
def digitsOf (n : Nat) : List (BitVec 8) := if n = 0 then [] else bytesOf (Nat.repr n)

theorem digitsOf_zero : digitsOf 0 = [] := rfl

theorem digitChar_byte {n : Nat} (small : n < 10) :
    BitVec.ofNat 8 (Nat.digitChar n).toNat = BitVec.ofNat 8 (48 + n) := by
  rw [Nat.toNat_digitChar_of_lt_ten small]

/-- The last digit comes off the end. -/
theorem digitsOf_succ {n : Nat} (positive : 0 < n) :
    digitsOf n = digitsOf (n / 10) ++ [BitVec.ofNat 8 (48 + n % 10)] := by
  have last : n % 10 < 10 := Nat.mod_lt n (by decide)
  rw [digitsOf, if_neg (by omega), bytesOf, Nat.toList_repr, Nat.toDigits_eq_if (by decide)]
  by_cases single : n < 10
  · have none : n / 10 = 0 := Nat.div_eq_of_lt single
    rw [if_pos single, none, digitsOf_zero, Nat.mod_eq_of_lt single, ← digitChar_byte single]
    rfl
  · rw [if_neg single, List.map_append, digitsOf, if_neg (by omega), bytesOf, Nat.toList_repr,
      ← digitChar_byte last]
    rfl

theorem length_digitsOf {n k : Nat} (below : n < 10 ^ k) : (digitsOf n).length ≤ k := by
  induction k generalizing n with
  | zero =>
      obtain rfl : n = 0 := by omega
      exact Nat.le_refl 0
  | succ k ih =>
      rcases Nat.eq_zero_or_pos n with rfl | positive
      · exact Nat.zero_le _
      · have rest := ih (n := n / 10) (by rw [Nat.pow_succ] at below; omega)
        rw [digitsOf_succ positive, List.length_append, List.length_singleton]
        omega

/-- No digit is the terminator. -/
theorem digitsOf_ne_zero (n : Nat) : ∀ s ∈ digitsOf n, s ≠ 0 := by
  induction n using Nat.strong_induction_on with
  | _ n ih =>
      rcases Nat.eq_zero_or_pos n with rfl | positive
      · simp [digitsOf_zero]
      · rw [digitsOf_succ positive]
        intro s member
        rcases List.mem_append.mp member with before | last
        · exact ih (n / 10) (Nat.div_lt_self positive (by decide)) s before
        · rw [List.mem_singleton.mp last]
          intro zero
          have value := congrArg BitVec.toNat zero
          rw [BitVec.toNat_ofNat] at value
          have zero' : (0 : BitVec 8).toNat = 0 := rfl
          omega

theorem decimal_of_nonneg (n : Nat) : decimal n = if n = 0 then [0x30] else digitsOf n := by
  split_ifs with none
  · rw [none]
    rfl
  · rw [digitsOf, if_neg none]
    rfl

theorem decimal_of_neg {n : Nat} (positive : 0 < n) : decimal (-(n : Int)) = 0x2d :: digitsOf n := by
  obtain ⟨m, rfl⟩ := Nat.exists_eq_succ_of_ne_zero (Nat.pos_iff_ne_zero.mp positive)
  have text : toString (-((m + 1 : Nat) : Int)) = "-" ++ Nat.repr (m + 1) := rfl
  rw [decimal, bytesOf, text, String.toList_append, List.map_append, digitsOf, if_neg (Nat.succ_ne_zero m)]
  rfl

/-- The digit that the loop stores. -/
theorem stored_digit {num : BitVec 32} (positive : 0 < num.toInt) :
    ((num.srem 10 ||| 0x30).setWidth 8 : BitVec 8) = BitVec.ofNat 8 (48 + num.toNat % 10) := by
  have remainder := toNat_srem_ten positive
  have last : num.toNat % 10 < 10 := Nat.mod_lt _ (by decide)
  have rem : num.srem 10 = BitVec.ofNat 32 (num.toNat % 10) := by
    apply BitVec.eq_of_toNat_eq
    rw [remainder, BitVec.toNat_ofNat]
    omega
  rw [rem]
  generalize num.toNat % 10 = digit at last
  interval_cases digit
  all_goals rfl

/-! ## The array -/

/-- Some characters stand in the array from an index on. -/
def Numstr.Holds (numstr : Numstr) : Int → List (BitVec 8) → Prop
  | _, [] => True
  | i, s :: rest => numstr.load i = some s ∧ numstr.Holds (i + 1) rest

theorem Numstr.Holds.update {numstr : Numstr} {i j : Int} {v : Option (BitVec 8)} {s : List (BitVec 8)}
    (holds : numstr.Holds j s) (before : i < j) : Numstr.Holds (Function.update numstr i v) j s := by
  induction s generalizing j with
  | nil => trivial
  | cons head rest ih =>
      obtain ⟨here, there⟩ := holds
      refine ⟨?_, ih there (by omega)⟩
      rw [Numstr.load, Function.update_of_ne (by omega)]
      exact here

/-- A character is stored before others. -/
theorem Numstr.Holds.store {numstr : Numstr} {i : Int} {s : List (BitVec 8)}
    (holds : numstr.Holds (i + 1) s) (inside : 0 ≤ i ∧ i < 14) (head : BitVec 8) :
    ∃ numstr', numstr.store i head = some numstr' ∧ numstr'.Holds i (head :: s) := by
  refine ⟨Function.update numstr i (some head), if_pos inside, ?_, holds.update (by omega)⟩
  rw [Numstr.load, if_pos inside, Function.update_self]

/-! ## The loops -/

theorem putdecLoop_done (num : BitVec 32) (done : ¬ 0 < num.toInt) (i : Int) (numstr : Numstr) :
    putdecLoop num i numstr = some (i, numstr) := by
  rw [putdecLoop, dif_neg done]

/-- The loop puts the digits before what the array holds behind them, and stops at the index before
the first. -/
theorem putdecLoop_spec (n : Nat) (num : BitVec 32) (j : Int) (numstr : Numstr) (s : List (BitVec 8))
    (value : num.toInt = n) (room : -1 ≤ j) (inside : j + (digitsOf n).length < 14)
    (holds : numstr.Holds (j + (digitsOf n).length + 1) s) :
    ∃ numstr', putdecLoop num (j + (digitsOf n).length) numstr = some (j, numstr') ∧
      numstr'.Holds (j + 1) (digitsOf n ++ s) := by
  induction n using Nat.strong_induction_on generalizing num numstr s with
  | _ n ih =>
      rcases Nat.eq_zero_or_pos n with rfl | positive
      · refine ⟨numstr, ?_, ?_⟩
        · rw [putdecLoop_done num (by omega)]
          simp [digitsOf_zero]
        · simpa [digitsOf_zero] using holds
      · have above : 0 < num.toInt := by omega
        have same : num.toNat = n := by
          have := (toNat_of_positive above).1
          omega
        have digits := digitsOf_succ positive
        have digit := stored_digit above
        have next := toInt_sdiv_ten above
        have length : ((digitsOf n).length : Int) = (digitsOf (n / 10)).length + 1 := by
          rw [digits, List.length_append, List.length_singleton, Nat.cast_add, Nat.cast_one]
        rw [same] at digit next
        rw [length] at inside holds ⊢
        obtain ⟨stored, write, before⟩ := holds.store ⟨by omega, inside⟩ (BitVec.ofNat 8 (48 + n % 10))
        obtain ⟨numstr', loop, result⟩ := ih (n / 10) (Nat.div_lt_self positive (by decide)) (num.sdiv 10)
          stored (BitVec.ofNat 8 (48 + n % 10) :: s) next (by omega) (by rwa [Int.add_assoc])
        refine ⟨numstr', ?_, ?_⟩
        · rw [putdecLoop, dif_pos above]
          simp only [digit, write, Option.bind_some]
          rw [show j + ((digitsOf (n / 10)).length + 1 : Int) - 1 = j + (digitsOf (n / 10)).length by omega]
          exact loop
        · rw [digits, List.append_assoc]
          exact result

/-- A string that stands in the array is drawn, in one turn more than it has characters. -/
theorem putstrFrom_holds {numstr : Numstr} {i : Int} {s : List (BitVec 8)} (y x : BitVec 32) (turns : Nat)
    (holds : numstr.Holds i (s ++ [0])) (texts : ∀ b ∈ s, b ≠ 0) :
    putstrFrom numstr y turns i x = if s.length < turns then some (drawnString y x s) else none := by
  induction s generalizing i x turns with
  | nil =>
      cases turns with
      | zero => rfl
      | succ turns =>
          rw [putstrFrom, holds.1]
          simp [drawnString]
  | cons head rest ih =>
      cases turns with
      | zero => rfl
      | succ turns =>
          have some : head ≠ 0 := texts head List.mem_cons_self
          have later := ih (x + 8) turns holds.2 fun b member => texts b (List.mem_cons_of_mem head member)
          rw [putstrFrom, holds.1, Option.bind_some, if_neg some, later]
          simp only [List.length_cons, Nat.add_lt_add_iff_right]
          split_ifs <;> rfl

/-! ## Every number -/

/-- The array before the loop. -/
def freshNumstr : Numstr := Function.update (Function.update (fun _ => none) 12 (some 0x30)) 13 (some 0)

theorem freshNumstr_holds : freshNumstr.Holds 12 [0x30, 0] := ⟨rfl, rfl, trivial⟩

/-- What the loop counts down: the magnitude, as far as it is an `nd_s32`. -/
def countedDown (c : BitVec 32) : BitVec 32 := if c.toInt < 0 then -c else c

/-- What is left to do after the loop. -/
theorem putdec_of_loop {c : BitVec 32} {i : Int} {numstr : Numstr}
    (loop : putdecLoop (countedDown c) 12 freshNumstr = some (i, numstr)) (turns : Nat) (x y : BitVec 32) :
    putdec turns x y c =
      if c.toInt < 0 then (numstr.store i 0x2d).bind fun numstr => putstrFrom numstr y turns i x
      else putstrFrom numstr y turns (if i < 12 then i + 1 else i) x := by
  have unfolded : putdec turns x y c = (putdecLoop (countedDown c) 12 freshNumstr).bind fun r =>
      if c.toInt < 0 then (r.2.store r.1 0x2d).bind fun numstr => putstrFrom numstr y turns r.1 x
      else putstrFrom r.2 y turns (if r.1 < 12 then r.1 + 1 else r.1) x := rfl
  rw [unfolded, loop]
  rfl

/-- The digits of a positive magnitude end up before the terminator, with room for a sign. -/
theorem loop_digits (num : BitVec 32) (positive : 0 < num.toInt) :
    ∃ j numstr, 0 ≤ j ∧ j < 12 ∧ putdecLoop num 12 freshNumstr = some (j, numstr) ∧
      numstr.Holds (j + 1) (digitsOf num.toNat ++ [0]) := by
  obtain ⟨value, below, -⟩ := toNat_of_positive positive
  have long : (digitsOf num.toNat).length ≤ 10 := length_digitsOf (by omega)
  have some : 0 < (digitsOf num.toNat).length := by
    rw [digitsOf_succ (by omega), List.length_append, List.length_singleton]
    omega
  have start : (12 - (digitsOf num.toNat).length : Int) + (digitsOf num.toNat).length = 12 := by omega
  obtain ⟨numstr, loop, holds⟩ := putdecLoop_spec num.toNat num (12 - (digitsOf num.toNat).length) freshNumstr [0]
    value (by omega) (by omega) (by rw [start]; exact freshNumstr_holds.2)
  rw [start] at loop
  exact ⟨_, numstr, by omega, by omega, loop, holds⟩

/-- What is drawn: the sign alone for the least number. -/
def drawnText (c : BitVec 32) : List (BitVec 8) :=
  if c = 0x80000000 then [0x2d] else decimal c.toInt

/-- When the loop has ended and the sign is set, the array holds `s`, and that is drawn. -/
def Spells (x y c : BitVec 32) (s : List (BitVec 8)) : Prop :=
  ∃ numstr i, numstr.Holds i (s ++ [0]) ∧ (∀ b ∈ s, b ≠ 0) ∧
    ∀ turns, putdec turns x y c = putstrFrom numstr y turns i x

/-- The loop does not run for the least number, whose negation is negative again. -/
theorem spells_least (x y : BitVec 32) : Spells x y 0x80000000 [0x2d] := by
  have loop := putdecLoop_done (countedDown 0x80000000) (by decide) 12 freshNumstr
  obtain ⟨numstr, write, holds⟩ := freshNumstr_holds.2.store ⟨by decide, by decide⟩ 0x2d
  refine ⟨numstr, 12, holds, by decide, fun turns => ?_⟩
  rw [putdec_of_loop loop, if_pos (by decide), write]
  rfl

theorem spells_zero {c : BitVec 32} (x y : BitVec 32) (zero : c.toInt = 0) : Spells x y c (decimal 0) := by
  have same : countedDown c = c := if_neg (by omega)
  have loop := putdecLoop_done (countedDown c) (by rw [same]; omega) 12 freshNumstr
  refine ⟨freshNumstr, 12, freshNumstr_holds, by decide, fun turns => ?_⟩
  rw [putdec_of_loop loop, if_neg (by omega)]
  rfl

theorem spells_pos {c : BitVec 32} (x y : BitVec 32) (positive : 0 < c.toInt) :
    Spells x y c (decimal c.toInt) := by
  have same : countedDown c = c := if_neg (by omega)
  obtain ⟨j, numstr, -, below, loop, digits⟩ := loop_digits (countedDown c) (by rwa [same])
  have spelled : decimal c.toInt = digitsOf (countedDown c).toNat := by
    have natural := (toNat_of_positive positive).1
    rw [same, natural, decimal_of_nonneg, if_neg (by omega)]
  rw [spelled]
  refine ⟨numstr, j + 1, digits, digitsOf_ne_zero _, fun turns => ?_⟩
  rw [putdec_of_loop loop, if_neg (by omega), if_pos below]

/-- The negation of any other negative number does not overflow. -/
theorem toInt_countedDown {c : BitVec 32} (negative : c.toInt < 0) (other : c ≠ 0x80000000) :
    (countedDown c).toInt = -c.toInt := by
  have lower := BitVec.le_toInt c
  norm_num at lower
  have moved : c.toInt ≠ -2147483648 := fun same => other (BitVec.eq_of_toInt_eq same)
  rw [countedDown, if_pos negative, BitVec.toInt_neg, Int.bmod_eq_of_le_mul_two] <;> norm_num <;> omega

theorem spells_neg {c : BitVec 32} (x y : BitVec 32) (negative : c.toInt < 0) (other : c ≠ 0x80000000) :
    Spells x y c (decimal c.toInt) := by
  have value := toInt_countedDown negative other
  have positive : 0 < (countedDown c).toInt := by omega
  obtain ⟨j, numstr, room, below, loop, digits⟩ := loop_digits (countedDown c) positive
  obtain ⟨signed, write, holds⟩ := digits.store ⟨room, by omega⟩ 0x2d
  have spelled : decimal c.toInt = 0x2d :: digitsOf (countedDown c).toNat := by
    have natural := (toNat_of_positive positive).1
    rw [show c.toInt = -((countedDown c).toNat : Int) by omega, decimal_of_neg (by omega)]
  rw [spelled]
  refine ⟨signed, j, holds, List.forall_mem_cons.mpr ⟨by decide, digitsOf_ne_zero _⟩, fun turns => ?_⟩
  rw [putdec_of_loop loop, if_pos negative, write]
  rfl

theorem spells_drawnText (x y c : BitVec 32) : Spells x y c (drawnText c) := by
  by_cases least : c = 0x80000000
  · rw [least]
    exact spells_least x y
  rw [drawnText, if_neg least]
  rcases lt_trichotomy c.toInt 0 with negative | zero | positive
  · exact spells_neg x y negative least
  · rw [zero]
    exact spells_zero x y zero
  · exact spells_pos x y positive

/-- The function never leaves its array, and ends when it is given one turn more than it draws
characters. -/
theorem putdec_total (turns : Nat) (x y c : BitVec 32) :
    putdec turns x y c =
      if (drawnText c).length < turns then some (drawnString y x (drawnText c)) else none := by
  obtain ⟨numstr, i, holds, texts, drawn⟩ := spells_drawnText x y c
  rw [drawn]
  exact putstrFrom_holds y x turns holds texts

theorem length_drawnString (y x : BitVec 32) (s : List (BitVec 8)) : (drawnString y x s).length = s.length := by
  induction s generalizing x with
  | nil => rfl
  | cons head rest ih => rw [drawnString, List.length_cons, List.length_cons, ih]

/-- The sign alone is not the least number. -/
theorem not_meets_least (x y : BitVec 32) : ¬ PutdecMeets x y 0x80000000 := by
  rintro ⟨turns, drawn⟩
  rw [putdec_total] at drawn
  split_ifs at drawn
  have lengths := congrArg List.length (Option.some.inj drawn)
  rw [length_drawnString, length_drawnString] at lengths
  exact absurd lengths (by decide)

/-- The decimal representation is drawn, inside the array, for every number but the least. -/
theorem putdec_meets_iff (x y c : BitVec 32) : PutdecMeets x y c ↔ c ≠ 0x80000000 := by
  constructor
  · intro meets least
    exact not_meets_least x y (least ▸ meets)
  · intro other
    refine ⟨(drawnText c).length + 1, ?_⟩
    rw [putdec_total, if_pos (Nat.lt_succ_self _), drawnText, if_neg other]

/-- The least number: only its sign is drawn. -/
theorem putdec_least :
    putdec 14 0 0 0x80000000 = some [{ x := 0, y := 0, s := 0x2d }] ∧ ¬ PutdecMeets 0 0 0x80000000 := by
  refine ⟨?_, not_meets_least 0 0⟩
  rw [putdec_total]
  rfl

end Cineraria.Draw
