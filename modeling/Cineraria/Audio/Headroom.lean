import Cineraria.Audio.Interpolation

/-!
# Headroom of the converter

Every arithmetic stage of `os256_dac` keeps fewer bits than its operands could need. The
lemmas bound the operands that really occur, stage by stage, so that what each register
holds is the exact integer: the products, their sum, the clamped sum and the volume
product that the modulator reads.
-/

namespace Cineraria.Dac

open Clocked FixedWidth Lanczos

/-- What `reset` forces in the registers of `os256_dac`; the others are not reset. -/
structure Regs.IsReset (s : Regs) : Prop where
  phaseReg : s.phaseReg = 0
  volumeReg : s.volumeReg = 0
  muteReg : s.muteReg = true

/-! ## The taps -/

section
variable (w : Nat → Input) (s : Regs)

/-- A product is in the register two edges after its sample and its address were. -/
theorem run_tapResult (configtap : Nat) (tap : Regs → TapRegs) {din : Regs → BitVec 16}
    (next : ∀ i s, tap (step i s) = tapStep configtap (shiftSig s) s.phaseReg (din s) (tap s)) (t : Nat) :
    (tap (run step w s (t + 2))).multResultReg.toInt =
      (tap (run step w s t)).indataReg.toInt *
        coefficient (tap (run step w s t)).tableAddrReg.toNat := by
  rw [← toInt_multResult]
  rw [run_succ _ _ _ (t + 1), next]
  simp only [tapStep]
  rw [run_succ _ _ _ t, next]
  simp only [tapStep]

/-! ## The sum -/

theorem run_tapadder_succ (t : Nat) :
    (run step w s (t + 1)).tapadderReg.toInt =
      (run step w s t).tap3.multResultReg.toInt + (run step w s t).tap2.multResultReg.toInt +
        (run step w s t).tap1.multResultReg.toInt + (run step w s t).tap0.multResultReg.toInt := by
  rw [← toInt_tapSum, run_succ]
  rfl

end

/-- What the clamp tests is a function of the upper three bits of the sum. -/
theorem upper_bits (x : BitVec 34) :
    x.getLsbD 33 = (x.extractLsb' 31 3).getLsbD 2 ∧
      x.extractLsb' 31 2 = (x.extractLsb' 31 3).setWidth 2 := by
  constructor
  · simp
  · apply BitVec.eq_of_getLsbD_eq
    intro i hi
    simp [hi, show i < 3 by omega]

/-- Above the 32-bit range the sign is clear and the two bits below it are not. -/
theorem tapsatSig_of_large (s : Regs) (large : 2147483648 ≤ s.tapadderReg.toInt) :
    tapsatSig s = 0x1ffff#18 := by
  have split := toInt_split (m := 31) (k := 3) (by decide) s.tapadderReg
  have rest := (s.tapadderReg.setWidth 31).isLt
  have upper : ∀ h : BitVec 3, 0 < h.toInt → h.getLsbD 2 = false ∧ h.setWidth 2 ≠ 0b00#2 := by decide
  have positive : 0 < (s.tapadderReg.extractLsb' 31 3).toInt := by omega
  unfold tapsatSig
  rw [(upper_bits s.tapadderReg).1, (upper_bits s.tapadderReg).2, if_pos (upper _ positive)]

/-- Below the 32-bit range the sign is set and the two bits below it are not both. -/
theorem tapsatSig_of_small (s : Regs) (small : s.tapadderReg.toInt < -2147483648) :
    tapsatSig s = 0x20000#18 := by
  have split := toInt_split (m := 31) (k := 3) (by decide) s.tapadderReg
  have rest := (s.tapadderReg.setWidth 31).isLt
  have lower : ∀ h : BitVec 3, h.toInt < -1 → h.getLsbD 2 = true ∧ h.setWidth 2 ≠ 0b11#2 := by decide
  have negative : (s.tapadderReg.extractLsb' 31 3).toInt < -1 := by omega
  have signed := (lower _ negative).1
  unfold tapsatSig
  rw [(upper_bits s.tapadderReg).1, (upper_bits s.tapadderReg).2, if_neg, if_pos (lower _ negative)]
  intro clear
  rw [signed] at clear
  exact absurd clear.1 (by decide)

/-- The clamp is that of the integers: the sum without its 14 fraction bits, rounded down,
in the range of 18 bits. -/
theorem toInt_tapsatSig (s : Regs) :
    (tapsatSig s).toInt = max (-131072) (min 131071 (s.tapadderReg.toInt / 16384)) := by
  rcases lt_or_ge s.tapadderReg.toInt (-2147483648) with small | lower
  · rw [tapsatSig_of_small s small]
    have value : (0x20000#18).toInt = -131072 := rfl
    omega
  · rcases lt_or_ge s.tapadderReg.toInt 2147483648 with upper | large
    · have passed := toInt_tapsatSig_of_range s lower upper
      have rest := (s.tapadderReg.setWidth 14).isLt
      have range := BitVec.le_toInt (tapsatSig s)
      have range' := BitVec.toInt_lt (x := tapsatSig s)
      norm_num at range range'
      omega
    · rw [tapsatSig_of_large s large]
      have value : (0x1ffff#18).toInt = 131071 := rfl
      omega

/-! ## The volume -/

/-- `volume` is cut to the full scale, 1.0. -/
theorem volume_le (volume : BitVec 15) :
    (if volume.getLsbD 14 = false then volume else 0x4000#15).toNat ≤ 0x4000 := by
  split_ifs with low
  · have msb : volume.msb = false := by rw [BitVec.msb_eq_getLsbD_last, low]
    have below := BitVec.msb_eq_false_iff_two_mul_lt.mp msb
    omega
  · decide

/-- One edge keeps the volume at or below the full scale. -/
theorem step_volume (i : Input) (s : Regs) (bounded : s.volumeReg.toNat ≤ 0x4000) :
    (step i s).volumeReg.toNat ≤ 0x4000 := by
  simp only [step]
  cases i.fsTiming with
  | true => exact volume_le i.volume
  | false => exact bounded

theorem run_volume (w : Nat → Input) (s : Regs) (reset : s.IsReset) (t : Nat) :
    (run step w s t).volumeReg.toNat ≤ 0x4000 := by
  have start : s.volumeReg.toNat ≤ 0x4000 := by
    rw [reset.volumeReg]
    decide
  exact run_invariant step_volume w start t

/-- The volume product fits 32 bits: its extreme is the negative full scale at volume 1.0. -/
theorem volumeProduct_bounds (volume : BitVec 15) (bounded : volume.toNat ≤ 0x4000) (x : BitVec 18) :
    -2147483648 ≤ (volume.toNat : Int) * x.toInt ∧ (volume.toNat : Int) * x.toInt < 2147483648 := by
  have lower := BitVec.le_toInt x
  have upper := BitVec.toInt_lt (x := x)
  norm_num at lower upper
  constructor <;> nlinarith

/-- The multiplier, cut to 32 bits, is the exact product of the volume and a clamped sum. -/
theorem toInt_volumeProduct (volume : BitVec 15) (bounded : volume.toNat ≤ 0x4000) (x : BitVec 18) :
    ((multS18xS18 (volume.setWidth 18) x).setWidth 32).toInt = volume.toNat * x.toInt := by
  have bounds := volumeProduct_bounds volume bounded x
  have operandA : ((volume.setWidth 18).signExtend 36).toInt = volume.toNat := by
    rw [BitVec.toInt_signExtend_of_le (by decide), toInt_setWidth_of_lt _ (by decide)]
  have operandB : (x.signExtend 36).toInt = x.toInt := BitVec.toInt_signExtend_of_le (by decide)
  have product : (multS18xS18 (volume.setWidth 18) x).toInt = volume.toNat * x.toInt := by
    rw [multS18xS18, toInt_mul_of_range, operandA, operandB] <;> rw [operandA, operandB] <;> omega
  rw [toInt_setWidth_of_range (by decide), product] <;> rw [product] <;> omega

/-- The modulator's input, two edges after the clamped sum it comes from. -/
theorem run_dsmdata (w : Nat → Input) (s : Regs) (reset : s.IsReset) (t : Nat) :
    (run step w s (t + 2)).dsmdataReg.toInt =
      (run step w s (t + 1)).volumeReg.toNat * (tapsatSig (run step w s t)).toInt := by
  have bounded := run_volume w s reset (t + 1)
  rw [← toInt_volumeProduct _ bounded]
  rfl

/-! ## The whole path -/

/-- No stage loses a significant bit, whatever the samples, the volume and the strobes are:
each product, their sum and the volume product are those of the integers, the clamp is
exact, and the volume stays at or below 1.0. -/
theorem run_exact (w : Nat → Input) (s : Regs) (reset : s.IsReset) (t : Nat) :
    (∀ tap ∈ [Regs.tap3, Regs.tap2, Regs.tap1, Regs.tap0],
      (tap (run step w s (t + 2))).multResultReg.toInt =
        (tap (run step w s t)).indataReg.toInt *
          coefficient (tap (run step w s t)).tableAddrReg.toNat) ∧
    (run step w s (t + 1)).tapadderReg.toInt =
      (run step w s t).tap3.multResultReg.toInt + (run step w s t).tap2.multResultReg.toInt +
        (run step w s t).tap1.multResultReg.toInt + (run step w s t).tap0.multResultReg.toInt ∧
    (tapsatSig (run step w s t)).toInt =
      max (-131072) (min 131071 ((run step w s t).tapadderReg.toInt / 16384)) ∧
    (run step w s t).volumeReg.toNat ≤ 0x4000 ∧
    (run step w s (t + 2)).dsmdataReg.toInt =
      (run step w s (t + 1)).volumeReg.toNat * (tapsatSig (run step w s t)).toInt := by
  refine ⟨?_, run_tapadder_succ w s t, toInt_tapsatSig _, run_volume w s reset t,
    run_dsmdata w s reset t⟩
  simp only [List.forall_mem_cons, List.not_mem_nil, false_implies, implies_true, and_true]
  refine ⟨?_, ?_, ?_, ?_⟩
  · exact run_tapResult w s 3 Regs.tap3 (fun _ _ => rfl) t
  · exact run_tapResult w s 2 Regs.tap2 (fun _ _ => rfl) t
  · exact run_tapResult w s 1 Regs.tap1 (fun _ _ => rfl) t
  · exact run_tapResult w s 0 Regs.tap0 (fun _ _ => rfl) t

/-- Full scale negative samples at a volume above 1.0, from a reset with every other
register clear. -/
theorem run_exact_fullScale :
    let s : Regs := ⟨0, 0, true, 0, ⟨0, 0, 0, 0, 0⟩, ⟨0, 0, 0, 0, 0⟩, ⟨0, 0, 0, 0, 0⟩,
      ⟨0, 0, 0, 0, 0⟩, 0, 0, 0, ⟨0, 0, 0, 0, 0, false⟩⟩
    (run step (fun _ => ⟨0x7fff, false, true, 0x8000⟩) s 9).dsmdataReg.toInt =
      (run step (fun _ => ⟨0x7fff, false, true, 0x8000⟩) s 8).volumeReg.toNat *
        (tapsatSig (run step (fun _ => ⟨0x7fff, false, true, 0x8000⟩) s 7)).toInt :=
  (run_exact _ _ ⟨rfl, rfl, rfl⟩ 7).2.2.2.2

end Cineraria.Dac
