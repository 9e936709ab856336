import Cineraria.Pixel.PixelSimd

/-!
# Streams through the pipelines

`pixelsimd_blend_u8` and `pixelsimd_yuvdec` take new operands at every clock edge. What leaves the
third stage belongs to the operands of one clock, whatever comes before and after them.
-/

namespace Cineraria.Pixel

open Clocked

/-! ## The mixture -/

/-- The operands that `pixelsimd_blend_u8` samples. -/
structure BlendOperands where
  dataa : BitVec 8
  datab : BitVec 8
  bland : BitVec 8
  deriving DecidableEq, Repr

/-- One edge of `clk`. -/
def BlendU8.edge (i : BlendOperands) (s : BlendU8) : BlendU8 := s.step i.dataa i.datab i.bland

/-- The sum of the two products, before its lower byte is dropped. -/
def weightedSum (alpha a b : BitVec 8) : Nat := a.toNat * alpha.toNat + b.toNat * (256 - alpha.toNat)

theorem weightedSum_le_max (alpha a b : BitVec 8) :
    weightedSum alpha a b ≤ 256 * max a.toNat b.toNat := by
  have hAlpha := alpha.isLt
  have left : a.toNat * alpha.toNat ≤ max a.toNat b.toNat * alpha.toNat :=
    Nat.mul_le_mul_right _ (Nat.le_max_left ..)
  have right : b.toNat * (256 - alpha.toNat) ≤ max a.toNat b.toNat * (256 - alpha.toNat) :=
    Nat.mul_le_mul_right _ (Nat.le_max_right ..)
  calc weightedSum alpha a b
      ≤ max a.toNat b.toNat * alpha.toNat + max a.toNat b.toNat * (256 - alpha.toNat) :=
        Nat.add_le_add left right
    _ = 256 * max a.toNat b.toNat := by
        rw [← Nat.mul_add, Nat.add_sub_cancel' (by omega), Nat.mul_comm]

theorem min_le_weightedSum (alpha a b : BitVec 8) :
    256 * min a.toNat b.toNat ≤ weightedSum alpha a b := by
  have hAlpha := alpha.isLt
  have left : min a.toNat b.toNat * alpha.toNat ≤ a.toNat * alpha.toNat :=
    Nat.mul_le_mul_right _ (Nat.min_le_left ..)
  have right : min a.toNat b.toNat * (256 - alpha.toNat) ≤ b.toNat * (256 - alpha.toNat) :=
    Nat.mul_le_mul_right _ (Nat.min_le_right ..)
  calc 256 * min a.toNat b.toNat
      = min a.toNat b.toNat * alpha.toNat + min a.toNat b.toNat * (256 - alpha.toNat) := by
        rw [← Nat.mul_add, Nat.add_sub_cancel' (by omega), Nat.mul_comm]
    _ ≤ weightedSum alpha a b := Nat.add_le_add left right

/-- Sixteen bits hold the sum. -/
theorem weightedSum_lt (alpha a b : BitVec 8) : weightedSum alpha a b < 65536 := by
  have ha := a.isLt
  have hb := b.isLt
  have bound := weightedSum_le_max alpha a b
  omega

/-- The mixture loses nothing but the lower byte of the sum. -/
theorem toNat_mixed (alpha a b : BitVec 8) : (mixed alpha a b).toNat = weightedSum alpha a b / 256 := by
  have bound := weightedSum_lt alpha a b
  rw [mixed, BitVec.toNat_ofNat]
  exact Nat.mod_eq_of_lt (Nat.div_lt_of_lt_mul bound)

theorem mixed_between (alpha a b : BitVec 8) :
    min a.toNat b.toNat ≤ (mixed alpha a b).toNat ∧ (mixed alpha a b).toNat ≤ max a.toNat b.toNat := by
  have lower := min_le_weightedSum alpha a b
  have upper := weightedSum_le_max alpha a b
  rw [toNat_mixed]
  omega

/-- A colour is not changed by mixing it with itself. -/
theorem mixed_self (alpha a : BitVec 8) : mixed alpha a a = a := by
  have between := mixed_between alpha a a
  rw [Nat.min_self, Nat.max_self] at between
  exact BitVec.eq_of_toNat_eq (Nat.le_antisymm between.2 between.1)

theorem mixed_zero (a b : BitVec 8) : mixed 0 a b = b := by
  apply BitVec.eq_of_toNat_eq
  rw [toNat_mixed, weightedSum, show (0 : BitVec 8).toNat = 0 from rfl]
  omega

/-- The third stage reads the products, the passed operand and the bypass of one clock. -/
theorem blend_second (w : Nat → BlendOperands) (s : BlendU8) (t : Nat) :
    let s' := run BlendU8.edge w s (t + 2)
    s'.throw1Reg = (if (w t).bland = 0 then .one else .zero) ∧
    s'.datab0Reg = .ofBitVec (w t).datab ∧
    s'.multaReg = .ofBitVec (multU8xU8 (w t).dataa (w t).bland) ∧
    s'.multbReg = .ofBitVec (multU8xU8 (w t).datab ((blendbSig (w t).bland).extractLsb' 0 8)) := by
  refine ⟨rfl, rfl, ?_, ?_⟩
  · exact StdVector.lift₂_ofBitVec ..
  · exact StdVector.lift₂_ofBitVec ..

theorem toNat_multU8xU8 (a b : BitVec 8) : (multU8xU8 a b).toNat = a.toNat * b.toNat := by
  have ha := a.isLt
  have hb := b.isLt
  have bound : a.toNat * b.toNat < 256 * 256 := Nat.mul_lt_mul'' ha hb
  rw [multU8xU8, BitVec.toNat_mul, BitVec.toNat_setWidth, BitVec.toNat_setWidth,
    Nat.mod_eq_of_lt (show a.toNat < 2 ^ 16 by omega), Nat.mod_eq_of_lt (show b.toNat < 2 ^ 16 by omega)]
  exact Nat.mod_eq_of_lt bound

/-- Eight bits of `blendb_sig` are enough unless all nine are needed. -/
theorem toNat_blendbSig (bland : BitVec 8) (present : bland ≠ 0) :
    ((blendbSig bland).extractLsb' 0 8).toNat = 256 - bland.toNat := by
  have bound := bland.isLt
  have positive : bland.toNat ≠ 0 := by
    intro zero
    exact present (BitVec.eq_of_toNat_eq zero)
  rw [blendbSig, toNat_extract, BitVec.toNat_sub, FixedWidth.toNat_append_add, BitVec.toNat_ofNat,
    BitVec.toNat_ofNat]
  omega

/-- The products of one clock, where they are used, add up to the weighted sum without a carry. -/
theorem products_sum (alpha a b : BitVec 8) (present : alpha ≠ 0) :
    (multU8xU8 a alpha).toNat + (multU8xU8 b ((blendbSig alpha).extractLsb' 0 8)).toNat =
      weightedSum alpha a b := by
  rw [toNat_multU8xU8, toNat_multU8xU8, toNat_blendbSig alpha present]
  rfl

/-- Also where they are not used they do not overflow. -/
theorem products_sum_lt (alpha a b : BitVec 8) :
    (multU8xU8 a alpha).toNat + (multU8xU8 b ((blendbSig alpha).extractLsb' 0 8)).toNat < 65536 := by
  by_cases none : alpha = 0
  · rw [none, toNat_multU8xU8, toNat_multU8xU8]
    have left : (0 : BitVec 8).toNat = 0 := rfl
    have right : ((blendbSig 0).extractLsb' 0 8).toNat = 0 := rfl
    rw [left, right]
    omega
  · rw [products_sum alpha a b none]
    exact weightedSum_lt alpha a b

/-- Operands at every clock, and each result after three: the formula, the bypass for the operands
it was detected on, sums of sixteen bits, and a result between the two bytes. -/
theorem blend_stream (w : Nat → BlendOperands) (s : BlendU8) (t : Nat) :
    let i := w t
    let second := run BlendU8.edge w s (t + 2)
    (run BlendU8.edge w s (t + 3)).resultReg = .ofBitVec (if i.bland = 0 then i.datab else
      BitVec.ofNat 8 ((i.dataa.toNat * i.bland.toNat + i.datab.toNat * (256 - i.bland.toNat)) / 256)) ∧
    (∃ left right, second.multaReg = .ofBitVec left ∧ second.multbReg = .ofBitVec right ∧
      left.toNat + right.toNat < 65536 ∧
      (i.bland ≠ 0 → left.toNat + right.toNat =
        i.dataa.toNat * i.bland.toNat + i.datab.toNat * (256 - i.bland.toNat))) ∧
    (second.throw1Reg = .one ↔ i.bland = 0) ∧ second.datab0Reg = .ofBitVec i.datab ∧
    (∃ result, (run BlendU8.edge w s (t + 3)).resultReg = .ofBitVec result ∧
      min i.dataa.toNat i.datab.toNat ≤ result.toNat ∧ result.toNat ≤ max i.dataa.toNat i.datab.toNat ∧
      (i.dataa = i.datab → result = i.dataa)) := by
  intro i second
  obtain ⟨bypass, passed, left, right⟩ := blend_second w s t
  have filled : (run BlendU8.edge w s (t + 3)).resultReg = .ofBitVec (mixed i.bland i.dataa i.datab) :=
    blend_filled ..
  refine ⟨?_, ⟨_, _, left, right, ?_, ?_⟩, ?_, passed, ⟨_, filled, ?_, ?_, ?_⟩⟩
  · rw [filled]
    split_ifs with none
    · rw [none, mixed_zero]
    · rfl
  · exact products_sum_lt ..
  · exact products_sum _ _ _
  · rw [bypass]
    split_ifs with none
    · exact iff_of_true rfl none
    · exact iff_of_false (by decide) none
  · exact (mixed_between ..).1
  · exact (mixed_between ..).2
  · intro same
    rw [same]
    exact mixed_self ..

/-! ## The decoder -/

/-- The operands that `pixelsimd_yuvdec` samples. -/
structure YuvOperands where
  dataY0 : BitVec 8
  dataY1 : BitVec 8
  dataU : BitVec 8
  dataV : BitVec 8
  deriving DecidableEq, Repr

/-- One edge of `clk`. -/
def Yuvdec.edge (i : YuvOperands) (s : Yuvdec) : Yuvdec := s.step i.dataY0 i.dataY1 i.dataU i.dataV

/-- The sum of a channel with the factors `kU` and `kV`, in units of 1 / 256. -/
def channelSum (kU kV : Int) (y u v : BitVec 8) : Int :=
  256 * y.toNat + kU * ((u.toNat : Int) - 128) + kV * ((v.toNat : Int) - 128)

/-- A channel of five bits. -/
def channel5 (kU kV : Int) (y u v : BitVec 8) : BitVec 5 :=
  BitVec.ofInt 5 (min 255 (max 0 (channelSum kU kV y u v / 256)) / 8)

/-- The pixel of fifteen bits: red, green and blue. -/
def yuvPixel (y u v : BitVec 8) : BitVec 15 :=
  channel5 0 359 y u v ++ channel5 (-88) (-183) y u v ++ channel5 454 0 y u v

/-- `add_r0_sig`, or `add_r1_sig` for the second luma register. -/
def Yuvdec.addRSig (addYReg : StdVector 8) (s : Yuvdec) : StdVector 18 :=
  .lift₂ (· + ·) (.lift luma addYReg) s.multV0Reg

/-- `add_g0_sig` and `add_g1_sig` -/
def Yuvdec.addGSig (addYReg : StdVector 8) (s : Yuvdec) : StdVector 18 :=
  .lift₂ (· + ·) (.lift₂ (· + ·) (.lift luma addYReg) s.multU1Reg) s.multV1Reg

/-- `add_b0_sig` and `add_b1_sig` -/
def Yuvdec.addBSig (addYReg : StdVector 8) (s : Yuvdec) : StdVector 18 :=
  .lift₂ (· + ·) (.lift luma addYReg) s.multU0Reg

/-- Limiting to eight bits and dropping three of them limits to five bits. -/
theorem limited_eq (x : Int) : limited x = BitVec.ofInt 5 (min 255 (max 0 (x / 256)) / 8) := by
  rw [limited]
  congr 1
  omega

/-- The two upper bits of a sum tell whether it is below, in or above the range of a byte. -/
theorem satSig_channel {sum : BitVec 18} {kU kV : Int} {y u v : BitVec 8}
    (agrees : sum.toInt = channelSum kU kV y u v) : satSig sum = channel5 kU kV y u v := by
  rw [satSig_eq, limited_eq, agrees]
  rfl

theorem decodedSig_pixel (y u v : BitVec 8) : decodedSig y u v = yuvPixel y u v := by
  rw [decodedSig, satSig_channel (red_toInt y u v), satSig_channel (green_toInt y u v),
    satSig_channel (blue_toInt y u v)]
  rfl

/-- The sum that `sum` stands for is that of the integers, and is limited as it should be. -/
def ClassifiesSum (sum : StdVector 18) (kU kV : Int) (y u v : BitVec 8) : Prop :=
  ∃ value : BitVec 18, sum = .ofBitVec value ∧ value.toInt = channelSum kU kV y u v ∧
    satStd sum = .ofBitVec (channel5 kU kV y u v)

theorem ClassifiesSum.of_toInt {value : BitVec 18} {kU kV : Int} {y u v : BitVec 8}
    (agrees : value.toInt = channelSum kU kV y u v) :
    ClassifiesSum (.ofBitVec value) kU kV y u v := by
  refine ⟨value, rfl, agrees, ?_⟩
  rw [satStd_ofBitVec, satSig_channel agrees]

/-- The three sums of a luma value, two clocks after it came. -/
theorem sums_filled (y : BitVec 8) (i i₁ : YuvOperands) (s : Yuvdec) :
    let s' := Yuvdec.edge i₁ (Yuvdec.edge i s)
    ClassifiesSum (s'.addRSig (.ofBitVec y)) 0 359 y i.dataU i.dataV ∧
    ClassifiesSum (s'.addGSig (.ofBitVec y)) (-88) (-183) y i.dataU i.dataV ∧
    ClassifiesSum (s'.addBSig (.ofBitVec y)) 454 0 y i.dataU i.dataV := by
  simp only [Yuvdec.edge, Yuvdec.step, Yuvdec.addRSig, Yuvdec.addGSig, Yuvdec.addBSig,
    StdVector.lift_ofBitVec, StdVector.lift₂_ofBitVec]
  refine ⟨?_, ?_, ?_⟩
  · exact .of_toInt (red_toInt y i.dataU i.dataV)
  · exact .of_toInt (green_toInt y i.dataU i.dataV)
  · exact .of_toInt (blue_toInt y i.dataU i.dataV)

/-- Operands at every clock, and both pixels of each after three, in the channels of the transform.
The sums are exact for both luma values, and the two upper bits classify each. -/
theorem yuvdec_stream (w : Nat → YuvOperands) (s : Yuvdec) (t : Nat) :
    let i := w t
    let second := run Yuvdec.edge w s (t + 2)
    (run Yuvdec.edge w s (t + 3)).rgb0Reg = .ofBitVec (yuvPixel i.dataY0 i.dataU i.dataV) ∧
    (run Yuvdec.edge w s (t + 3)).rgb1Reg = .ofBitVec (yuvPixel i.dataY1 i.dataU i.dataV) ∧
    (run Yuvdec.edge w s (t + 3)).result = .ofBitVec
      (0#1 ++ yuvPixel i.dataY1 i.dataU i.dataV ++ 0#1 ++ yuvPixel i.dataY0 i.dataU i.dataV) ∧
    (∀ addY ∈ [(second.addY0Reg, i.dataY0), (second.addY1Reg, i.dataY1)],
      ClassifiesSum (second.addRSig addY.1) 0 359 addY.2 i.dataU i.dataV ∧
      ClassifiesSum (second.addGSig addY.1) (-88) (-183) addY.2 i.dataU i.dataV ∧
      ClassifiesSum (second.addBSig addY.1) 454 0 addY.2 i.dataU i.dataV) := by
  intro i second
  have pixel : ∀ y, second.rgbSig (.ofBitVec y) = .ofBitVec (yuvPixel y i.dataU i.dataV) := by
    intro y
    rw [← decodedSig_pixel]
    exact rgbSig_filled ..
  have first : (run Yuvdec.edge w s (t + 3)).rgb0Reg = .ofBitVec (yuvPixel i.dataY0 i.dataU i.dataV) :=
    pixel i.dataY0
  have other : (run Yuvdec.edge w s (t + 3)).rgb1Reg = .ofBitVec (yuvPixel i.dataY1 i.dataU i.dataV) :=
    pixel i.dataY1
  refine ⟨first, other, ?_, ?_⟩
  · rw [Yuvdec.result, first, other, StdVector.append_ofBitVec, StdVector.append_ofBitVec,
      StdVector.append_ofBitVec]
  · simp only [List.forall_mem_cons, List.not_mem_nil, false_implies, implies_true, and_true]
    exact ⟨sums_filled .., sums_filled ..⟩

end Cineraria.Pixel
