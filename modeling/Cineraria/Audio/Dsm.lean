import Mathlib.Algebra.BigOperators.Intervals
import Mathlib.Tactic.IntervalCases
import Mathlib.Tactic.LinearCombination
import Mathlib.Tactic.Ring
import Cineraria.Lib.Clocked
import Cineraria.Lib.FixedWidth

/-!
# The 1-bit delta-sigma modulator

`ip/pcm_component/os256_dsm.v`, for any `DATABITWIDTH`: a second-order noise shaper
that quantises the input to three bits, followed by a first-order modulator to one
bit. Both are error-feedback quantisers: the part of the sum that is not sent on is
kept in a register and fed back. `indata_reg` has no reset value.
-/

namespace Cineraria.Dsm

open Clocked FixedWidth

/-- The registers of `os256_dsm` for `DATABITWIDTH = n`. -/
structure Regs (n : Nat) where
  indataReg : BitVec n
  z1Reg : BitVec (n - 2)
  z2Reg : BitVec (n - 2)
  zoReg : BitVec 3
  zeReg : BitVec 3
  dsmoutReg : Bool
  deriving DecidableEq, Repr

variable {n : Nat}

/-- `add1_sig`: the sign-extended input minus `z2_reg` plus twice `z1_reg`. -/
def add1Sig (s : Regs n) : BitVec (n + 1) :=
  s.indataReg.signExtend (n + 1) - s.z2Reg.setWidth (n + 1) +
    (s.z1Reg.concat false).setWidth (n + 1)

/-- `add2_sig`: `zo_reg` with its sign bit inverted, plus `ze_reg`. -/
def add2Sig (s : Regs n) : BitVec 4 :=
  (0#1 ++ ~~~s.zoReg.extractLsb' 2 1 ++ s.zoReg.extractLsb' 0 2) + (0#1 ++ s.zeReg)

/-- One clock edge out of reset. -/
def step (din : BitVec n) (s : Regs n) : Regs n where
  indataReg := din
  z1Reg := (add1Sig s).setWidth (n - 2)
  z2Reg := s.z1Reg
  zoReg := (add1Sig s).extractLsb' (n - 2) 3
  zeReg := (add2Sig s).extractLsb' 0 3
  dsmoutReg := (add2Sig s).getLsbD 3

/-- The registers that the reset forces. -/
structure IsReset (s : Regs n) : Prop where
  z1Reg : s.z1Reg = 0
  z2Reg : s.z2Reg = 0
  zoReg : s.zoReg = 0
  zeReg : s.zeReg = 0
  dsmoutReg : s.dsmoutReg = false

/-! ## The adders as integers -/

/-- `add1_sig` does not overflow: as a signed value it is the integer sum. -/
theorem toInt_add1Sig (hn : 2 ≤ n) (s : Regs n) :
    (add1Sig s).toInt = s.indataReg.toInt - s.z2Reg.toNat + 2 * s.z1Reg.toNat := by
  obtain ⟨m, rfl⟩ : ∃ m, n = m + 2 := ⟨n - 2, by omega⟩
  obtain ⟨x, z1, z2, zo, ze, out⟩ := s
  change BitVec m at z1 z2
  have hx : (x.signExtend (m + 3)).toInt = x.toInt := BitVec.toInt_signExtend_of_le (by omega)
  have hz2 : (z2.setWidth (m + 3)).toInt = z2.toNat := toInt_setWidth_of_lt z2 (by omega)
  have hz1 : ((z1.concat false).setWidth (m + 3)).toInt = 2 * z1.toNat := by
    rw [toInt_setWidth_of_lt _ (by omega), BitVec.toNat_concat]
    push_cast
    simp
    ring
  -- All three ranges in terms of one power of two.
  have p2 : (2 : Nat) ^ (m + 2) = 4 * 2 ^ m := by ring
  have p3 : (2 : Nat) ^ (m + 3) = 8 * 2 ^ m := by ring
  have xLower := BitVec.le_two_mul_toInt (x := x)
  have xUpper := BitVec.two_mul_toInt_lt (x := x)
  have z1Upper := z1.isLt
  have z2Upper := z2.isLt
  norm_cast at xLower xUpper
  have difference : (x.signExtend (m + 3) - z2.setWidth (m + 3)).toInt = x.toInt - z2.toNat := by
    rw [toInt_sub_of_range, hx, hz2] <;> rw [hx, hz2] <;> omega
  change (x.signExtend (m + 3) - z2.setWidth (m + 3) + (z1.concat false).setWidth (m + 3)).toInt = _
  rw [toInt_add_of_range, difference, hz1] <;> rw [difference, hz1] <;> omega

/-- The quantiser of the first stage: `zo_reg` takes the upper three bits of the sum,
`z1_reg` exactly what is left. -/
theorem toInt_add1Sig_split (hn : 2 ≤ n) (din : BitVec n) (s : Regs n) :
    (add1Sig s).toInt =
      2 ^ (n - 2) * (step din s).zoReg.toInt + (step din s).z1Reg.toNat := by
  obtain ⟨m, rfl⟩ : ∃ m, n = m + 2 := ⟨n - 2, by omega⟩
  exact toInt_split (m := m) (k := 3) (by decide) (add1Sig s)

/-- The quantiser of the second stage: `ze_reg` keeps what the output bit leaves. -/
theorem add2Sig_split (din : BitVec n) (s : Regs n) :
    s.zoReg.toInt + 4 + s.zeReg.toNat =
      8 * (step din s).dsmoutReg.toNat + (step din s).zeReg.toNat := by
  have total : ∀ zo ze : BitVec 3,
      zo.toInt + 4 + ze.toNat =
        8 * ((((0#1 ++ ~~~zo.extractLsb' 2 1 ++ zo.extractLsb' 0 2) + (0#1 ++ ze) :
          BitVec 4).getLsbD 3).toNat : Int) +
        (((0#1 ++ ~~~zo.extractLsb' 2 1 ++ zo.extractLsb' 0 2) + (0#1 ++ ze) :
          BitVec 4).extractLsb' 0 3).toNat := by
    decide
  exact total s.zoReg s.zeReg

/-- The three-bit code never takes the value `-4`: the sum it is cut from stays above
`-3 * 2 ^ (n - 2)`. -/
theorem zoReg_range (hn : 2 ≤ n) (din : BitVec n) (s : Regs n) :
    -3 ≤ (step din s).zoReg.toInt ∧ (step din s).zoReg.toInt ≤ 3 := by
  have split := toInt_add1Sig_split hn din s
  rw [toInt_add1Sig hn s] at split
  have upper : ∀ z : BitVec 3, -4 ≤ z.toInt ∧ z.toInt ≤ 3 := by decide
  obtain ⟨zoLower, zoUpper⟩ := upper (step din s).zoReg
  refine ⟨?_, zoUpper⟩
  by_contra below
  have minimum : (step din s).zoReg.toInt = -4 := by omega
  obtain ⟨m, rfl⟩ : ∃ m, n = m + 2 := ⟨n - 2, by omega⟩
  have xLower := BitVec.le_two_mul_toInt (x := s.indataReg)
  have z2Upper := s.z2Reg.isLt
  have z1Upper := (step din s).z1Reg.isLt
  have p2 : (2 : Int) ^ (m + 2) = 4 * 2 ^ m := by ring
  simp only [Nat.add_sub_cancel] at *
  rw [minimum] at split
  rw [p2] at xLower
  have z2Int : (s.z2Reg.toNat : Int) < 2 ^ m := by exact_mod_cast z2Upper
  have z1Int : ((step din s).z1Reg.toNat : Int) < 2 ^ m := by exact_mod_cast z1Upper
  omega

/-! ## Conservation along a run -/

open Finset in
/-- First stage: what the shaper has sent on, plus the difference of its two error
registers, is what it has been given. -/
theorem shaper_conserves (hn : 2 ≤ n) (w : Nat → BitVec n) (s : Regs n) (reset : IsReset s)
    (t : Nat) :
    2 ^ (n - 2) * ∑ u ∈ range t, (run step w s (u + 1)).zoReg.toInt +
        ((run step w s t).z1Reg.toNat - (run step w s t).z2Reg.toNat) =
      ∑ u ∈ range t, (run step w s u).indataReg.toInt := by
  induction t with
  | zero => simp [reset.z1Reg, reset.z2Reg]
  | succ t ih =>
      have split := toInt_add1Sig_split hn (w t) (run step w s t)
      rw [toInt_add1Sig hn, ← run_succ step] at split
      have delayed : (run step w s (t + 1)).z2Reg = (run step w s t).z1Reg := rfl
      rw [sum_range_succ, sum_range_succ, mul_add, delayed]
      linarith

open Finset in
/-- Second stage: eight times the ones sent, plus the residue, is the sum of the codes in
offset binary. -/
theorem modulator_conserves (w : Nat → BitVec n) (s : Regs n) (reset : IsReset s) (t : Nat) :
    8 * ∑ u ∈ range t, ((run step w s (u + 1)).dsmoutReg.toNat : Int) +
        (run step w s t).zeReg.toNat =
      ∑ u ∈ range t, ((run step w s u).zoReg.toInt + 4) := by
  induction t with
  | zero => simp [reset.zeReg]
  | succ t ih =>
      have split := add2Sig_split (w t) (run step w s t)
      rw [← run_succ step] at split
      rw [sum_range_succ, sum_range_succ, mul_add]
      linarith

open Finset in
/-- Both stages together. The code register starts at zero and delays by one edge, so
`t + 1` output bits answer `t` registered inputs. -/
theorem ones_conserved (hn : 2 ≤ n) (w : Nat → BitVec n) (s : Regs n) (reset : IsReset s)
    (t : Nat) :
    2 ^ (n + 1) * ∑ u ∈ range (t + 1), ((run step w s (u + 1)).dsmoutReg.toNat : Int) -
        ∑ u ∈ range t, ((run step w s u).indataReg.toInt + 2 ^ n) =
      2 ^ n - ((run step w s t).z1Reg.toNat - (run step w s t).z2Reg.toNat) -
        2 ^ (n - 2) * (run step w s (t + 1)).zeReg.toNat := by
  have first := shaper_conserves hn w s reset t
  have second := modulator_conserves w s reset (t + 1)
  have codes : ∑ u ∈ range (t + 1), ((run step w s u).zoReg.toInt + 4) =
      ∑ u ∈ range t, (run step w s (u + 1)).zoReg.toInt + 4 * (t + 1) := by
    rw [sum_add_distrib, sum_range_succ', run_zero, reset.zoReg]
    simp
    ring
  rw [codes] at second
  have scale : (2 : Int) ^ n = 4 * 2 ^ (n - 2) := by
    obtain ⟨m, rfl⟩ : ∃ m, n = m + 2 := ⟨n - 2, by omega⟩
    simp only [Nat.add_sub_cancel]
    ring
  rw [sum_add_distrib, sum_const, card_range, nsmul_eq_mul, pow_succ, scale]
  linear_combination 2 ^ (n - 2) * second + first

open Finset in
/-- The output bit tracks the mean of the input with an error that does not grow: after
`t` edges out of reset the ones, weighted by the full scale, differ from the sum of the
`t - 1` registered inputs they answer by at most `2 ^ (n + 2)`. On the way `add1_sig`
never overflows, the three-bit code stays within `-3..3`, and both quantisers keep exactly
their residue. -/
theorem dsm_tracks_mean (hn : 4 ≤ n) (w : Nat → BitVec n) (s : Regs n) (reset : IsReset s)
    (t : Nat) :
    |2 ^ (n + 1) * ∑ u ∈ range t, ((run step w s (u + 1)).dsmoutReg.toNat : Int) -
        ∑ u ∈ range (t - 1), ((run step w s u).indataReg.toInt + 2 ^ n)| ≤ 2 ^ (n + 2) ∧
    (add1Sig (run step w s t)).toInt =
      (run step w s t).indataReg.toInt - (run step w s t).z2Reg.toNat +
        2 * (run step w s t).z1Reg.toNat ∧
    (-3 ≤ (run step w s t).zoReg.toInt ∧ (run step w s t).zoReg.toInt ≤ 3) ∧
    (add1Sig (run step w s t)).toInt =
      2 ^ (n - 2) * (run step w s (t + 1)).zoReg.toInt + (run step w s (t + 1)).z1Reg.toNat ∧
    (run step w s (t + 1)).z2Reg = (run step w s t).z1Reg ∧
    (run step w s t).zoReg.toInt + 4 + (run step w s t).zeReg.toNat =
      8 * (run step w s (t + 1)).dsmoutReg.toNat + (run step w s (t + 1)).zeReg.toNat := by
  have hn2 : 2 ≤ n := by omega
  refine ⟨?_, toInt_add1Sig hn2 _, ?_, toInt_add1Sig_split hn2 (w t) _, rfl,
    add2Sig_split (w t) _⟩
  · cases t with
    | zero => simp
    | succ t =>
        rw [Nat.add_sub_cancel, ones_conserved hn2 w s reset t]
        obtain ⟨m, rfl⟩ : ∃ m, n = m + 2 := ⟨n - 2, by omega⟩
        have z1Upper := (run step w s t).z1Reg.isLt
        have z2Upper := (run step w s t).z2Reg.isLt
        have zeUpper := (run step w s (t + 1)).zeReg.isLt
        simp only [Nat.add_sub_cancel] at *
        have z1Int : ((run step w s t).z1Reg.toNat : Int) < 2 ^ m := by exact_mod_cast z1Upper
        have z2Int : ((run step w s t).z2Reg.toNat : Int) < 2 ^ m := by exact_mod_cast z2Upper
        have residue : (2 : Int) ^ m * (run step w s (t + 1)).zeReg.toNat ≤ 2 ^ m * 7 :=
          mul_le_mul_of_nonneg_left (by omega) (by positivity)
        have residuePos : (0 : Int) ≤ 2 ^ m * (run step w s (t + 1)).zeReg.toNat := by positivity
        have p4 : (2 : Int) ^ (m + 2 + 2) = 16 * 2 ^ m := by ring
        have p2 : (2 : Int) ^ (m + 2) = 4 * 2 ^ m := by ring
        rw [p4, p2, abs_le]
        constructor <;> linarith
  · cases t with
    | zero => simp [reset.zoReg]
    | succ t => exact zoReg_range hn2 (w t) _

/-- A constant input at the width the converter uses. -/
theorem dsm_tracks_mean_constant :
    (add1Sig (run step (fun _ => 1000#32) ⟨0, 0, 0, 0, 0, false⟩ 48000)).toInt =
      2 ^ 30 * (run step (fun _ => 1000#32) ⟨0, 0, 0, 0, 0, false⟩ 48001).zoReg.toInt +
        (run step (fun _ => 1000#32) ⟨0, 0, 0, 0, 0, false⟩ 48001).z1Reg.toNat :=
  (dsm_tracks_mean (by decide) (fun _ => 1000#32) ⟨0, 0, 0, 0, 0, false⟩
    ⟨rfl, rfl, rfl, rfl, rfl⟩ 48000).2.2.2.1

end Cineraria.Dsm
