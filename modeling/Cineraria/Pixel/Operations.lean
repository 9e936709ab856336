import Mathlib.Tactic.Linarith
import Mathlib.Tactic.Ring
import Cineraria.Lib.FixedWidth

/-!
# The pixel operations

The combinational parts of the unit in `ip/custom_intsr_pixel`, and what they compute: saturated
sums and differences of bytes, pixels of five bits a channel, the mixture of two pixels, and the
decoding of a YUV pixel. A word holds four bytes, or the red, green and blue byte of a pixel below
its alpha.
-/

namespace Cineraria.Pixel

open FixedWidth

/-- `x(8 * k + 7 downto 8 * k)` -/
def byte (k : Nat) (x : BitVec 32) : BitVec 8 := x.extractLsb' (8 * k) 8

/-! ## Saturated sums and differences -/

/-- `sadd_result` of `pixelsimd_sat_u8` -/
def saddResult (dataa datab : BitVec 8) : BitVec 8 :=
  let addq := (0#1 ++ dataa) + (0#1 ++ datab)
  if addq.getLsbD 8 = false then addq.extractLsb' 0 8 else 0b11111111

/-- `ssub_result` of `pixelsimd_sat_u8` -/
def ssubResult (dataa datab : BitVec 8) : BitVec 8 :=
  let subq := (1#1 ++ dataa) - (0#1 ++ datab)
  if subq.getLsbD 8 = true then subq.extractLsb' 0 8 else 0

/-- The four instances of a unit that works on a byte. -/
def bytewise (f : BitVec 8 → BitVec 8 → BitVec 8) (dataa datab : BitVec 32) : BitVec 32 :=
  f (byte 3 dataa) (byte 3 datab) ++ f (byte 2 dataa) (byte 2 datab) ++
    f (byte 1 dataa) (byte 1 datab) ++ f (byte 0 dataa) (byte 0 datab)

/-- `paddb_sig` -/
def paddbSig : BitVec 32 → BitVec 32 → BitVec 32 := bytewise saddResult

/-- `psubb_sig` -/
def psubbSig : BitVec 32 → BitVec 32 → BitVec 32 := bytewise ssubResult

/-- The sum of two bytes, at most 255. -/
def saturatedSum (a b : BitVec 8) : BitVec 8 := BitVec.ofNat 8 (min 255 (a.toNat + b.toNat))

/-- The difference of two bytes, at least zero. -/
def saturatedDifference (a b : BitVec 8) : BitVec 8 := BitVec.ofNat 8 (a.toNat - b.toNat)

/-! ## Pixels of five bits a channel -/

/-- `ppack_sig` -/
def ppackSig (dataa datab : BitVec 32) : BitVec 32 :=
  0#1 ++ (byte 2 datab).extractLsb' 3 5 ++ (byte 1 datab).extractLsb' 3 5 ++
    (byte 0 datab).extractLsb' 3 5 ++ 0#1 ++ (byte 2 dataa).extractLsb' 3 5 ++
    (byte 1 dataa).extractLsb' 3 5 ++ (byte 0 dataa).extractLsb' 3 5

/-- A colour and its upper bits: `punpack_r_sig & punpack_r_sig(4 downto 2)` and its like. -/
def widened (colour : BitVec 5) : BitVec 8 := colour ++ colour.extractLsb' 2 3

/-- `punpack_sig` -/
def punpackSig (n : BitVec 3) (dataa : BitVec 32) : BitVec 32 :=
  let r := if n.getLsbD 0 = false then dataa.extractLsb' 10 5 else dataa.extractLsb' 26 5
  let g := if n.getLsbD 0 = false then dataa.extractLsb' 5 5 else dataa.extractLsb' 21 5
  let b := if n.getLsbD 0 = false then dataa.extractLsb' 0 5 else dataa.extractLsb' 16 5
  0#8 ++ widened r ++ widened g ++ widened b

/-- The packed pixel: the upper five bits of each channel. -/
def rgb555 (pixel : BitVec 32) : BitVec 16 :=
  BitVec.ofNat 16 ((byte 2 pixel).toNat / 8 * 1024 + (byte 1 pixel).toNat / 8 * 32 + (byte 0 pixel).toNat / 8)

/-- The channel from bit `low` on of a packed pixel, stretched to a byte. -/
def channel8 (low : Nat) (pixel : BitVec 16) : BitVec 8 :=
  let colour := pixel.toNat / 2 ^ low % 32
  BitVec.ofNat 8 (colour * 8 + colour / 4)

/-- The pixel that a packed one stands for. -/
def rgb888 (pixel : BitVec 16) : BitVec 32 :=
  0#8 ++ channel8 10 pixel ++ channel8 5 pixel ++ channel8 0 pixel

/-! ## The mixture of two pixels -/

/-- The mixture of two bytes in the ratio `alpha` to `256 - alpha`. -/
def mixed (alpha a b : BitVec 8) : BitVec 8 :=
  BitVec.ofNat 8 ((a.toNat * alpha.toNat + b.toNat * (256 - alpha.toNat)) / 256)

/-! ## YUV pixels -/

/-- A value in units of 2048, limited to five bits. -/
def limited (x : Int) : BitVec 5 := BitVec.ofInt 5 (min 31 (max 0 (x / 2048)))

/-- The decoded pixel. The factors are those of the standard transform, times 256. -/
def decodedYuv (y u v : BitVec 8) : BitVec 16 :=
  let luma : Int := 256 * y.toNat
  let blue : Int := u.toNat - 128
  let red : Int := v.toNat - 128
  0#1 ++ limited (luma + 359 * red) ++ limited (luma - 88 * blue - 183 * red) ++
    limited (luma + 454 * blue)

/-! ## What the combinational parts compute -/

theorem saddResult_eq (a b : BitVec 8) : saddResult a b = saturatedSum a b := by
  have ha := a.isLt
  have hb := b.isLt
  have sum : ((0#1 ++ a) + (0#1 ++ b)).toNat = a.toNat + b.toNat := by
    rw [BitVec.toNat_add, toNat_append_add, toNat_append_add, BitVec.toNat_ofNat]
    omega
  have carry : ((0#1 ++ a) + (0#1 ++ b)).getLsbD 8 = decide (255 < a.toNat + b.toNat) := by
    rw [BitVec.getLsbD, sum, Nat.testBit_eq_decide_div_mod_eq, decide_eq_decide]
    omega
  apply BitVec.eq_of_toNat_eq
  rw [saddResult, saturatedSum, carry, BitVec.toNat_ofNat]
  by_cases large : 255 < a.toNat + b.toNat
  · rw [if_neg (by simp [large]), Nat.min_eq_left (Nat.le_of_lt large)]
    rfl
  · rw [if_pos (by simp [large]), Nat.min_eq_right (by omega), BitVec.extractLsb'_toNat, sum]
    rfl

theorem ssubResult_eq (a b : BitVec 8) : ssubResult a b = saturatedDifference a b := by
  have ha := a.isLt
  have hb := b.isLt
  have difference : ((1#1 ++ a) - (0#1 ++ b)).toNat = 256 + a.toNat - b.toNat := by
    rw [BitVec.toNat_sub, toNat_append_add, toNat_append_add, BitVec.toNat_ofNat, BitVec.toNat_ofNat]
    omega
  have borrow : ((1#1 ++ a) - (0#1 ++ b)).getLsbD 8 = decide (b.toNat ≤ a.toNat) := by
    rw [BitVec.getLsbD, difference, Nat.testBit_eq_decide_div_mod_eq, decide_eq_decide]
    omega
  apply BitVec.eq_of_toNat_eq
  rw [ssubResult, saturatedDifference, borrow, BitVec.toNat_ofNat]
  by_cases small : b.toNat ≤ a.toNat
  · rw [if_pos (by simp [small]), BitVec.extractLsb'_toNat, difference, Nat.shiftRight_zero]
    omega
  · rw [if_neg (by simp [small]), Nat.sub_eq_zero_of_le (by omega)]
    rfl

theorem toNat_extract (low w : Nat) {v : Nat} (x : BitVec v) :
    (x.extractLsb' low w).toNat = x.toNat / 2 ^ low % 2 ^ w := by
  rw [BitVec.extractLsb'_toNat, Nat.shiftRight_eq_div_pow]

theorem rgb555_eq (pixel : BitVec 32) :
    0#1 ++ (byte 2 pixel).extractLsb' 3 5 ++ (byte 1 pixel).extractLsb' 3 5 ++
      (byte 0 pixel).extractLsb' 3 5 = rgb555 pixel := by
  have red := (byte 2 pixel).isLt
  have green := (byte 1 pixel).isLt
  have blue := (byte 0 pixel).isLt
  apply BitVec.eq_of_toNat_eq
  rw [rgb555, toNat_append_add, toNat_append_add, toNat_append_add, toNat_extract, toNat_extract,
    toNat_extract, BitVec.toNat_ofNat, BitVec.toNat_ofNat]
  omega

theorem ppackSig_eq (dataa datab : BitVec 32) : ppackSig dataa datab = rgb555 datab ++ rgb555 dataa := by
  rw [← rgb555_eq, ← rgb555_eq]
  apply BitVec.eq_of_toNat_eq
  simp only [ppackSig, toNat_append_add]
  ring

theorem widened_eq (low : Nat) (pixel : BitVec 16) :
    widened (pixel.extractLsb' low 5) = channel8 low pixel := by
  apply BitVec.eq_of_toNat_eq
  simp only [widened, channel8, toNat_append_add, toNat_extract, BitVec.toNat_ofNat]
  have within : pixel.toNat / 2 ^ low % 32 < 32 := Nat.mod_lt _ (by decide)
  generalize pixel.toNat / 2 ^ low % 32 = colour at within
  have bits : colour / 2 ^ 2 % 2 ^ 3 = colour / 4 := Nat.mod_eq_of_lt (by omega)
  rw [bits, Nat.mod_eq_of_lt (by omega)]
  rfl

theorem extract_half (start low : Nat) (within : low + 5 ≤ 16) (x : BitVec 32) :
    (x.extractLsb' start 16).extractLsb' low 5 = x.extractLsb' (start + low) 5 := by
  apply BitVec.eq_of_getLsbD_eq
  intro i inside
  rw [BitVec.getLsbD_extractLsb', BitVec.getLsbD_extractLsb', BitVec.getLsbD_extractLsb',
    decide_eq_true (show low + i < 16 by omega), Bool.true_and, Nat.add_assoc]

theorem punpackSig_low (dataa : BitVec 32) :
    punpackSig 2 dataa = rgb888 (dataa.extractLsb' 0 16) := by
  rw [rgb888, ← widened_eq, ← widened_eq, ← widened_eq, extract_half _ _ (by decide),
    extract_half _ _ (by decide), extract_half _ _ (by decide)]
  rfl

theorem punpackSig_high (dataa : BitVec 32) :
    punpackSig 3 dataa = rgb888 (dataa.extractLsb' 16 16) := by
  rw [rgb888, ← widened_eq, ← widened_eq, ← widened_eq, extract_half _ _ (by decide),
    extract_half _ _ (by decide), extract_half _ _ (by decide)]
  rfl

/-! ## Limiting and mixing -/

/-- The test of the two upper bits limits a sum of 18 bits. -/
def satSig (sum : BitVec 18) : BitVec 5 :=
  if sum.getLsbD 17 then 0 else if sum.getLsbD 16 then 0b11111 else sum.extractLsb' 11 5

theorem satSig_eq (sum : BitVec 18) : satSig sum = limited sum.toInt := by
  have bound := sum.isLt
  have sign : sum.getLsbD 17 = decide (131072 ≤ sum.toNat) := by
    rw [BitVec.getLsbD, Nat.testBit_eq_decide_div_mod_eq, decide_eq_decide]
    omega
  have large : sum.getLsbD 16 = decide (sum.toNat / 65536 % 2 = 1) := by
    rw [BitVec.getLsbD, Nat.testBit_eq_decide_div_mod_eq]
  have value : sum.toInt = if sum.toNat < 131072 then (sum.toNat : Int) else sum.toNat - 262144 := by
    rw [BitVec.toInt_eq_toNat_cond]
    split <;> split <;> omega
  rw [satSig, limited, value, sign, large]
  by_cases negative : 131072 ≤ sum.toNat
  · rw [if_pos (by simp [negative]), if_neg (by omega), max_eq_left (by omega)]
    rfl
  · rw [if_neg (by simp [negative]), if_pos (show sum.toNat < 131072 by omega), max_eq_right (by omega)]
    by_cases above : 65536 ≤ sum.toNat
    · rw [if_pos (decide_eq_true (by omega)), min_eq_left (by omega)]
      rfl
    · rw [if_neg (by rw [decide_eq_true_eq]; omega), min_eq_right (by omega)]
      apply BitVec.eq_of_toNat_eq
      rw [toNat_extract, BitVec.toNat_ofInt]
      omega

/-- The two products of a mixture: `multadd_sig(15 downto 8)`. The factor 256 does not fit and is taken
as zero; the other pixel is passed by then. -/
theorem mixed_eq (alpha a b : BitVec 8) :
    (if alpha = 0 then b else
      (a.setWidth 16 * alpha.setWidth 16 +
        b.setWidth 16 * ((256#9 - (0#1 ++ alpha)).extractLsb' 0 8).setWidth 16).extractLsb' 8 8) =
      mixed alpha a b := by
  have ha := a.isLt
  have hb := b.isLt
  have hAlpha := alpha.isLt
  apply BitVec.eq_of_toNat_eq
  by_cases none : alpha = 0
  · have zero : alpha.toNat = 0 := by rw [none]; rfl
    rw [if_pos none, mixed, zero, Nat.mul_zero, Nat.zero_add, Nat.sub_zero, BitVec.toNat_ofNat]
    omega
  · have positive : 0 < alpha.toNat := by
      apply Nat.pos_of_ne_zero
      intro zero
      exact none (BitVec.eq_of_toNat_eq zero)
    have rest : ((256#9 - (0#1 ++ alpha)).extractLsb' 0 8).toNat = 256 - alpha.toNat := by
      rw [toNat_extract, BitVec.toNat_sub, toNat_append_add, BitVec.toNat_ofNat, BitVec.toNat_ofNat]
      omega
    have left : a.toNat * alpha.toNat ≤ 255 * alpha.toNat := Nat.mul_le_mul_right _ (by omega)
    have right : b.toNat * (256 - alpha.toNat) ≤ 255 * (256 - alpha.toNat) :=
      Nat.mul_le_mul_right _ (by omega)
    rw [if_neg none, mixed, toNat_extract, BitVec.toNat_add, BitVec.toNat_mul, BitVec.toNat_mul,
      BitVec.toNat_setWidth, BitVec.toNat_setWidth, BitVec.toNat_setWidth, BitVec.toNat_setWidth, rest,
      BitVec.toNat_ofNat]
    rw [Nat.mod_eq_of_lt (show a.toNat < 2 ^ 16 by omega),
      Nat.mod_eq_of_lt (show alpha.toNat < 2 ^ 16 by omega),
      Nat.mod_eq_of_lt (show b.toNat < 2 ^ 16 by omega),
      Nat.mod_eq_of_lt (show 256 - alpha.toNat < 2 ^ 16 by omega)]
    generalize a.toNat * alpha.toNat = x at left
    generalize b.toNat * (256 - alpha.toNat) = y at right
    omega

/-! ## Decoding -/

/-- `data_u_reg <= data_u - 128` -/
theorem centred_toInt (x : BitVec 8) : (x - 128#8).toInt = (x.toNat : Int) - 128 := by
  revert x
  decide +kernel

/-- `pixelsimd_mult_s8xs10` -/
def multS8xS10 (dataa : BitVec 8) (datab : BitVec 10) : BitVec 18 := dataa.signExtend 18 * datab.signExtend 18

theorem multS8xS10_toInt (a : BitVec 8) (b : BitVec 10) : (multS8xS10 a b).toInt = a.toInt * b.toInt := by
  have la := BitVec.le_two_mul_toInt (x := a)
  have ua := BitVec.two_mul_toInt_lt (x := a)
  have lb := BitVec.le_two_mul_toInt (x := b)
  have ub := BitVec.two_mul_toInt_lt (x := b)
  have sa : (a.signExtend 18).toInt = a.toInt := BitVec.toInt_signExtend_of_le (by decide)
  have sb : (b.signExtend 18).toInt = b.toInt := BitVec.toInt_signExtend_of_le (by decide)
  have above : 0 ≤ (a.toInt + 128) * (511 - b.toInt) := Int.mul_nonneg (by omega) (by omega)
  have above' : 0 ≤ (127 - a.toInt) * (b.toInt + 512) := Int.mul_nonneg (by omega) (by omega)
  have below : 0 ≤ (a.toInt + 128) * (b.toInt + 512) := Int.mul_nonneg (by omega) (by omega)
  have below' : 0 ≤ (127 - a.toInt) * (511 - b.toInt) := Int.mul_nonneg (by omega) (by omega)
  rw [multS8xS10, toInt_mul_of_range, sa, sb]
  · rw [sa, sb]
    push_cast
    linarith
  · rw [sa, sb]
    push_cast
    linarith

/-- `"00" & add_y0_reg & "00000000"` -/
def luma (y : BitVec 8) : BitVec 18 := 0#2 ++ y ++ 0#8

theorem luma_toInt (y : BitVec 8) : (luma y).toInt = 256 * (y.toNat : Int) := by
  have hy := y.isLt
  have value : (luma y).toNat = 256 * y.toNat := by
    rw [luma, toNat_append_add, toNat_append_add, BitVec.toNat_ofNat, BitVec.toNat_ofNat]
    omega
  rw [BitVec.toInt_eq_toNat_of_lt (by omega), value]
  push_cast
  rfl

/-- The three channels of a decoded pixel: `sat_r0_sig & sat_g0_sig & sat_b0_sig`. -/
def decodedSig (y u v : BitVec 8) : BitVec 15 :=
  satSig (luma y + multS8xS10 (v - 128#8) 359#10) ++
    satSig (luma y + multS8xS10 (u - 128#8) (BitVec.ofInt 10 (-88)) +
      multS8xS10 (v - 128#8) (BitVec.ofInt 10 (-183))) ++
    satSig (luma y + multS8xS10 (u - 128#8) 454#10)

/-- The sum of the red channel fits 18 bits. -/
theorem red_toInt (y u v : BitVec 8) :
    (luma y + multS8xS10 (v - 128#8) 359#10).toInt =
      256 * (y.toNat : Int) + 0 * ((u.toNat : Int) - 128) + 359 * ((v.toNat : Int) - 128) := by
  have hy := y.isLt
  have hv := v.isLt
  have product : (multS8xS10 (v - 128#8) 359#10).toInt = ((v.toNat : Int) - 128) * 359 := by
    rw [multS8xS10_toInt, centred_toInt]
    rfl
  rw [toInt_add_of_range] <;> rw [luma_toInt, product] <;> omega

/-- The sum of the blue channel fits 18 bits. -/
theorem blue_toInt (y u v : BitVec 8) :
    (luma y + multS8xS10 (u - 128#8) 454#10).toInt =
      256 * (y.toNat : Int) + 454 * ((u.toNat : Int) - 128) + 0 * ((v.toNat : Int) - 128) := by
  have hy := y.isLt
  have hu := u.isLt
  have product : (multS8xS10 (u - 128#8) 454#10).toInt = ((u.toNat : Int) - 128) * 454 := by
    rw [multS8xS10_toInt, centred_toInt]
    rfl
  rw [toInt_add_of_range] <;> rw [luma_toInt, product] <;> omega

/-- The first of the two sums of the green channel fits 18 bits. -/
theorem greenFirst_toInt (y u : BitVec 8) :
    (luma y + multS8xS10 (u - 128#8) (BitVec.ofInt 10 (-88))).toInt =
      256 * (y.toNat : Int) + (-88) * ((u.toNat : Int) - 128) := by
  have hy := y.isLt
  have hu := u.isLt
  have product : (multS8xS10 (u - 128#8) (BitVec.ofInt 10 (-88))).toInt = ((u.toNat : Int) - 128) * (-88) := by
    rw [multS8xS10_toInt, centred_toInt]
    rfl
  rw [toInt_add_of_range] <;> rw [luma_toInt, product] <;> omega

/-- The whole sum of the green channel fits 18 bits. -/
theorem green_toInt (y u v : BitVec 8) :
    (luma y + multS8xS10 (u - 128#8) (BitVec.ofInt 10 (-88)) +
      multS8xS10 (v - 128#8) (BitVec.ofInt 10 (-183))).toInt =
      256 * (y.toNat : Int) + (-88) * ((u.toNat : Int) - 128) + (-183) * ((v.toNat : Int) - 128) := by
  have hy := y.isLt
  have hu := u.isLt
  have hv := v.isLt
  have product : (multS8xS10 (v - 128#8) (BitVec.ofInt 10 (-183))).toInt =
      ((v.toNat : Int) - 128) * (-183) := by
    rw [multS8xS10_toInt, centred_toInt]
    rfl
  rw [toInt_add_of_range] <;> rw [greenFirst_toInt, product] <;> omega

theorem decodedSig_eq (y u v : BitVec 8) : 0#1 ++ decodedSig y u v = decodedYuv y u v := by
  have red : (luma y + multS8xS10 (v - 128#8) 359#10).toInt =
      256 * (y.toNat : Int) + 359 * ((v.toNat : Int) - 128) := by
    rw [red_toInt y u v]
    ring
  have green : (luma y + multS8xS10 (u - 128#8) (BitVec.ofInt 10 (-88)) +
      multS8xS10 (v - 128#8) (BitVec.ofInt 10 (-183))).toInt =
      256 * (y.toNat : Int) - 88 * ((u.toNat : Int) - 128) - 183 * ((v.toNat : Int) - 128) := by
    rw [green_toInt]
    ring
  have blue : (luma y + multS8xS10 (u - 128#8) 454#10).toInt =
      256 * (y.toNat : Int) + 454 * ((u.toNat : Int) - 128) := by
    rw [blue_toInt y u v]
    ring
  have shape : ∀ r g b : BitVec 5, 0#1 ++ (r ++ g ++ b) = 0#1 ++ r ++ g ++ b := by
    intro r g b
    apply BitVec.eq_of_toNat_eq
    simp only [toNat_append_add]
    ring
  rw [decodedSig, shape, satSig_eq, satSig_eq, satSig_eq, red, green, blue]
  rfl

end Cineraria.Pixel
