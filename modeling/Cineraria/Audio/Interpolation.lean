import Cineraria.Audio.Dac

/-!
# Alignment of the interpolation pipeline

A coefficient passes the address register and the operand register, a sample the shift
chain and its own operand register, and both then the product register and the adder.
The lemmas follow one value down each path; `tapadder_eq_interpolated` puts them
together: what the adder loads belongs to one phase and to one window of four samples.
-/

namespace Cineraria.Dac

open Clocked FixedWidth Lanczos

/-! ## Arithmetic of one tap -/

theorem toInt_tableData (address : BitVec 9) :
    (tableData address).toInt = coefficient address.toNat := by
  have bounds := coefficient_bounds address.toNat
  rw [tableData, BitVec.toInt_ofInt, Int.bmod_eq_of_le_mul_two] <;> norm_num <;> omega

theorem toNat_tableAddrSig : ∀ phase : BitVec 8,
    (tableAddrSig 0 phase).toNat = 256 + phase.toNat ∧
    (tableAddrSig 1 phase).toNat = phase.toNat ∧
    (tableAddrSig 2 phase).toNat = 256 - phase.toNat ∧
    (tableAddrSig 3 phase).toNat = if phase.toNat = 0 then 256 else 512 - phase.toNat := by
  decide

/-- The bound of every product: a 16-bit sample times a table word fits 32 bits. -/
theorem product_bounds (x : BitVec 16) (k : Int) (hk : -65536 < k ∧ k ≤ 65536) :
    -2147483648 ≤ x.toInt * k ∧ x.toInt * k < 2147483648 := by
  have lower := BitVec.le_toInt x
  have upper := BitVec.toInt_lt (x := x)
  norm_num at lower upper
  constructor <;> nlinarith

/-- The multiplier, cut to 32 bits, is the exact product of a sample and a table word. -/
theorem toInt_multResult (x : BitVec 16) (address : BitVec 9) :
    ((multS18xS18 (x.signExtend 18) (tableData address)).setWidth 32).toInt =
      x.toInt * coefficient address.toNat := by
  have bounds := product_bounds x _ (coefficient_bounds address.toNat)
  have operandA : ((x.signExtend 18).signExtend 36).toInt = x.toInt := by
    rw [BitVec.toInt_signExtend_of_le (by decide), BitVec.toInt_signExtend_of_le (by decide)]
  have operandB : ((tableData address).signExtend 36).toInt = coefficient address.toNat := by
    rw [BitVec.toInt_signExtend_of_le (by decide), toInt_tableData]
  have product : (multS18xS18 (x.signExtend 18) (tableData address)).toInt =
      x.toInt * coefficient address.toNat := by
    rw [multS18xS18, toInt_mul_of_range, operandA, operandB] <;> rw [operandA, operandB] <;> omega
  rw [toInt_setWidth_of_range (by decide), product] <;> rw [product] <;> omega

/-- The 34-bit adder holds any four 32-bit products. -/
theorem toInt_tapSum (s : Regs) :
    (tapSum s).toInt = s.tap3.multResultReg.toInt + s.tap2.multResultReg.toInt +
      s.tap1.multResultReg.toInt + s.tap0.multResultReg.toInt := by
  have extended : ∀ v : BitVec 32, (v.signExtend 34).toInt = v.toInt :=
    fun v => BitVec.toInt_signExtend_of_le (by decide)
  have range : ∀ v : BitVec 32, -2147483648 ≤ v.toInt ∧ v.toInt < 2147483648 :=
    fun v => ⟨BitVec.le_toInt v, BitVec.toInt_lt⟩
  have range3 := range s.tap3.multResultReg
  have range2 := range s.tap2.multResultReg
  have range1 := range s.tap1.multResultReg
  have range0 := range s.tap0.multResultReg
  have sum32 : (s.tap3.multResultReg.signExtend 34 + s.tap2.multResultReg.signExtend 34).toInt =
      s.tap3.multResultReg.toInt + s.tap2.multResultReg.toInt := by
    rw [toInt_add_of_range] <;> simp only [extended] <;> omega
  have sum321 : (s.tap3.multResultReg.signExtend 34 + s.tap2.multResultReg.signExtend 34 +
      s.tap1.multResultReg.signExtend 34).toInt =
      s.tap3.multResultReg.toInt + s.tap2.multResultReg.toInt + s.tap1.multResultReg.toInt := by
    rw [toInt_add_of_range] <;> simp only [extended, sum32] <;> omega
  rw [tapSum, toInt_add_of_range] <;> simp only [extended, sum321] <;> omega

/-! ## Timing -/

section
variable (w : Nat → ChannelInput) (s : Channel)

/-- The sample taken in the `n`-th sample period. -/
def sample (n : Nat) : BitVec 16 := (w (256 * n)).pcmdata

theorem run_fsdivcount (reset : IsReset s) (t : Nat) :
    (run channelStep w s t).fsdivcountReg = BitVec.ofNat 8 t := by
  induction t with
  | zero => exact reset.fsdivcountReg
  | succ t ih =>
      rw [run_succ, BitVec.ofNat_add, ← ih]
      rfl

theorem ofNat8_eq_zero (t : Nat) : BitVec.ofNat 8 t = 0#8 ↔ t % 256 = 0 := by
  rw [BitVec.toNat_eq]
  simp

theorem run_fsTiming (reset : IsReset s) (t : Nat) :
    fsTimingSig (run channelStep w s t) = decide (t % 256 = 0) := by
  unfold fsTimingSig
  rw [run_fsdivcount w s reset]
  simp only [ofNat8_eq_zero]

/-- From the first edge on the phase counts the edges since the last sample strobe. -/
theorem run_phase (reset : IsReset s) (t : Nat) :
    (run channelStep w s (t + 1)).dac.phaseReg = BitVec.ofNat 8 t := by
  have next : ∀ u, (run channelStep w s (u + 1)).dac.phaseReg =
      if u % 256 = 0 then 0#8 else (run channelStep w s u).dac.phaseReg + 1#8 := by
    intro u
    rw [run_succ]
    simp only [channelStep, step, run_fsTiming w s reset, decide_eq_true_eq]
  induction t with
  | zero => rw [next, if_pos rfl]
  | succ t ih =>
      rw [next, ih]
      split_ifs with strobe
      · exact ((ofNat8_eq_zero (t + 1)).mpr strobe).symm
      · rw [BitVec.ofNat_add]

/-- The strobe that shifts the sample chain comes one edge after the sample strobe. -/
theorem run_shift (reset : IsReset s) (t : Nat) :
    shiftSig (run channelStep w s (t + 1)).dac = decide (t % 256 = 0) := by
  unfold shiftSig
  rw [run_phase w s reset]
  simp only [ofNat8_eq_zero]

/-! ### The sample path -/

theorem run_datain (reset : IsReset s) (n j : Nat) (hj : j < 256) :
    (run channelStep w s (256 * n + 1 + j)).dac.datainReg = sample w n := by
  refine held_until_next_load (x := fun t => (run channelStep w s t).dac.datainReg)
    (y := fun t => (w t).pcmdata) (k := 0) (fun u => ?_) (Nat.mul_mod_right 256 n) hj
  rw [run_succ]
  simp only [channelStep, step, run_fsTiming w s reset, decide_eq_true_eq]

/-- A stage of the shift chain holds for one sample period what its input held at the
strobe. -/
theorem run_stage (reset : IsReset s) {x y : Channel → BitVec 16}
    (next : ∀ i s, x (channelStep i s) = if shiftSig s.dac then y s else x s)
    (n j : Nat) (hj : j < 256) :
    x (run channelStep w s (256 * n + 2 + j)) = y (run channelStep w s (256 * n + 1)) := by
  have held := held_until_next_load (x := fun t => x (run channelStep w s (t + 1)))
    (y := fun t => y (run channelStep w s (t + 1))) (k := 0) (fun u => by
      rw [run_succ _ _ _ (u + 1), next, run_shift w s reset]
      simp only [decide_eq_true_eq]) (Nat.mul_mod_right 256 n) hj
  rwa [show 256 * n + 1 + j + 1 = 256 * n + 2 + j by omega] at held

theorem run_tap3 (reset : IsReset s) (n j : Nat) (hj : j < 256) :
    (run channelStep w s (256 * n + 2 + j)).dac.tap3.indataReg = sample w n := by
  rw [run_stage w s reset (x := fun s => s.dac.tap3.indataReg) (y := fun s => s.dac.datainReg)
    (fun _ _ => rfl) n j hj]
  exact run_datain w s reset n 0 (by decide)

theorem run_tap2 (reset : IsReset s) (n j : Nat) (hj : j < 256) :
    (run channelStep w s (256 * (n + 1) + 2 + j)).dac.tap2.indataReg = sample w n := by
  rw [run_stage w s reset (x := fun s => s.dac.tap2.indataReg) (y := fun s => s.dac.tap3.indataReg)
    (fun _ _ => rfl) (n + 1) j hj]
  exact run_tap3 w s reset n 255 (by decide)

theorem run_tap1 (reset : IsReset s) (n j : Nat) (hj : j < 256) :
    (run channelStep w s (256 * (n + 2) + 2 + j)).dac.tap1.indataReg = sample w n := by
  rw [run_stage w s reset (x := fun s => s.dac.tap1.indataReg) (y := fun s => s.dac.tap2.indataReg)
    (fun _ _ => rfl) (n + 2) j hj]
  exact run_tap2 w s reset n 255 (by decide)

theorem run_tap0 (reset : IsReset s) (n j : Nat) (hj : j < 256) :
    (run channelStep w s (256 * (n + 3) + 2 + j)).dac.tap0.indataReg = sample w n := by
  rw [run_stage w s reset (x := fun s => s.dac.tap0.indataReg) (y := fun s => s.dac.tap1.indataReg)
    (fun _ _ => rfl) (n + 3) j hj]
  exact run_tap1 w s reset n 255 (by decide)

/-! ### The product path -/

/-- The product a tap forms three edges later, from the phase at edge `t` and the sample
it holds one edge after. -/
theorem run_multResult (reset : IsReset s) (configtap : Nat) (tap : Channel → TapRegs)
    {din : Channel → BitVec 16}
    (next : ∀ i s, tap (channelStep i s) =
      tapStep configtap (shiftSig s.dac) s.dac.phaseReg (din s) (tap s)) (t : Nat) :
    (tap (run channelStep w s (t + 4))).multResultReg.toInt =
      (tap (run channelStep w s (t + 2))).indataReg.toInt *
        coefficient (tableAddrSig configtap (BitVec.ofNat 8 t)).toNat := by
  rw [← run_phase w s reset t, ← toInt_multResult]
  rw [run_succ _ _ _ (t + 3), next, run_succ _ _ _ (t + 2), next]
  simp only [tapStep]
  rw [run_succ _ _ _ (t + 1), next]
  simp only [tapStep]

/-- The four products of phase `p` on the window `x 0`, `x 1`, `x 2`, `x 3`. -/
def interpolated (x : Nat → Int) (p : Nat) : Int :=
  x 0 * coefficient (256 + p) + x 1 * coefficient p + x 2 * coefficient (256 - p) +
    x 3 * coefficient (if p = 0 then 256 else 512 - p)

/-- The adder, five edges after the phase counter stood at `p` in the sample period
`n + 3`. -/
theorem run_tapadder (reset : IsReset s) (n p : Nat) (hp : p < 256) :
    (run channelStep w s (256 * (n + 3) + p + 5)).dac.tapadderReg.toInt =
      interpolated (fun j => (sample w (n + j)).toInt) p := by
  have low : (BitVec.ofNat 8 (256 * (n + 3) + p)).toNat = p := by
    rw [BitVec.toNat_ofNat]
    omega
  obtain ⟨address0, address1, address2, address3⟩ :=
    toNat_tableAddrSig (BitVec.ofNat 8 (256 * (n + 3) + p))
  rw [low] at address0 address1 address2 address3
  have product3 := run_multResult w s reset 3 (fun s => s.dac.tap3) (fun _ _ => rfl)
    (256 * (n + 3) + p)
  have product2 := run_multResult w s reset 2 (fun s => s.dac.tap2) (fun _ _ => rfl)
    (256 * (n + 3) + p)
  have product1 := run_multResult w s reset 1 (fun s => s.dac.tap1) (fun _ _ => rfl)
    (256 * (n + 3) + p)
  have product0 := run_multResult w s reset 0 (fun s => s.dac.tap0) (fun _ _ => rfl)
    (256 * (n + 3) + p)
  have sample3 := run_tap3 w s reset (n + 3) p hp
  have sample2 := run_tap2 w s reset (n + 2) p hp
  have sample1 := run_tap1 w s reset (n + 1) p hp
  have sample0 := run_tap0 w s reset n p hp
  rw [Nat.add_right_comm] at sample3 sample2 sample1 sample0
  rw [address3, sample3] at product3
  rw [address2, sample2] at product2
  rw [address1, sample1] at product1
  rw [address0, sample0] at product0
  have added : (run channelStep w s (256 * (n + 3) + p + 5)).dac.tapadderReg =
      tapSum (run channelStep w s (256 * (n + 3) + p + 4)).dac := rfl
  rw [added, toInt_tapSum, product3, product2, product1, product0]
  simp only [interpolated, Nat.add_zero]
  ring

end

/-! ## Saturation at phase 0 -/

/-- At phase 0 only the centre sample has a coefficient. -/
theorem interpolated_zero (x : Nat → Int) : interpolated x 0 = 65536 * x 1 := by
  simp only [interpolated, Nat.add_zero, Nat.sub_zero, if_true, coefficient_zero, coefficient_256]
  ring

/-- A 34-bit sum in the 32-bit range has three equal upper bits. -/
theorem upper_of_range (x : BitVec 34) (lower : -2147483648 ≤ x.toInt)
    (upper : x.toInt < 2147483648) : x.extractLsb' 31 3 = 0 ∨ x.extractLsb' 31 3 = 7 := by
  have split := toInt_split (m := 31) (k := 3) (by decide) x
  have rest := (x.setWidth 31).isLt
  have cases : ∀ h : BitVec 3, h.toInt = 0 ∨ h.toInt = -1 → h = 0 ∨ h = 7 := by decide
  apply cases
  omega

/-- A sum that fits 32 bits is passed on without its 14 fraction bits. -/
theorem toInt_tapsatSig_of_range (s : Regs) (lower : -2147483648 ≤ s.tapadderReg.toInt)
    (upper : s.tapadderReg.toInt < 2147483648) :
    s.tapadderReg.toInt = 16384 * (tapsatSig s).toInt + (s.tapadderReg.setWidth 14).toNat := by
  have sign : s.tapadderReg.getLsbD 33 = (s.tapadderReg.extractLsb' 31 3).getLsbD 2 := by simp
  have guard : s.tapadderReg.extractLsb' 31 2 = (s.tapadderReg.extractLsb' 31 3).setWidth 2 := by
    apply BitVec.eq_of_getLsbD_eq
    intro i hi
    simp [hi, show i < 3 by omega]
  have passed : tapsatSig s = (s.tapadderReg.extractLsb' 14 20).setWidth 18 := by
    have low : s.tapadderReg.extractLsb' 14 18 = (s.tapadderReg.extractLsb' 14 20).setWidth 18 := by
      apply BitVec.eq_of_getLsbD_eq
      intro i hi
      simp [hi, show i < 20 by omega]
    rw [tapsatSig, sign, guard]
    rcases upper_of_range s.tapadderReg lower upper with h | h <;> rw [h] <;> simpa using low
  have split := toInt_split (m := 14) (k := 20) (by decide) s.tapadderReg
  have rest := (s.tapadderReg.setWidth 14).isLt
  rw [passed, toInt_setWidth_of_range (by decide)] <;> omega

/-- Once the pipeline has filled, every value of `tapadder_reg` is the sum of the four
products of one phase `p` on one window of consecutive samples; the phase advances by one
each edge and the window by one sample exactly when the phase returns to 0. At phase 0 the
clamped sum is four times the centre sample. -/
theorem tapadder_eq_interpolated (w : Nat → ChannelInput) (s : Channel) (reset : IsReset s)
    (t : Nat) (filled : 773 ≤ t) :
    (run channelStep w s t).dac.tapadderReg.toInt =
      interpolated (fun j => (sample w ((t - 5) / 256 - 3 + j)).toInt) ((t - 5) % 256) ∧
    ((t - 5) % 256 = 0 →
      (tapsatSig (run channelStep w s t).dac).toInt =
        4 * (sample w ((t - 5) / 256 - 3 + 1)).toInt) := by
  have loaded := run_tapadder w s reset ((t - 5) / 256 - 3) ((t - 5) % 256)
    (Nat.mod_lt _ (by decide))
  rw [show 256 * ((t - 5) / 256 - 3 + 3) + (t - 5) % 256 + 5 = t by omega] at loaded
  refine ⟨loaded, fun phase => ?_⟩
  rw [phase, interpolated_zero] at loaded
  have lower := BitVec.le_toInt (sample w ((t - 5) / 256 - 3 + 1))
  have upper := BitVec.toInt_lt (x := sample w ((t - 5) / 256 - 3 + 1))
  norm_num at lower upper
  have split := toInt_tapsatSig_of_range (run channelStep w s t).dac (by omega) (by omega)
  have rest := ((run channelStep w s t).dac.tapadderReg.setWidth 14).isLt
  omega

/-- A constant sample stream, the first time the full pipeline reaches phase 0. -/
theorem tapadder_eq_interpolated_constant :
    (tapsatSig (run channelStep (fun _ => ⟨0x4000, false, 1000⟩)
      ⟨0, ⟨0, 0, true, 0, ⟨0, 0, 0, 0, 0⟩, ⟨0, 0, 0, 0, 0⟩, ⟨0, 0, 0, 0, 0⟩, ⟨0, 0, 0, 0, 0⟩, 0, 0, 0,
        ⟨0, 0, 0, 0, 0, false⟩⟩⟩ 773).dac).toInt = 4 * (1000 : BitVec 16).toInt :=
  (tapadder_eq_interpolated _ _ ⟨rfl, rfl, rfl, rfl⟩ 773 (by decide)).2 (by decide)

end Cineraria.Dac
