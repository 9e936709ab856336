import Cineraria.Pixel.Operations

/-!
# Laws of packing and of the byte lanes

The combinational paths of `pixelsimd.vhd`: what is lost when a pixel is packed and unpacked, or
unpacked and packed, and that the four lanes of a saturating operation do not touch one another.
-/

namespace Cineraria.Pixel

open FixedWidth

/-! ## Bytes of a word -/

theorem byte_append (x₃ x₂ x₁ x₀ : BitVec 8) :
    byte 3 (x₃ ++ x₂ ++ x₁ ++ x₀) = x₃ ∧ byte 2 (x₃ ++ x₂ ++ x₁ ++ x₀) = x₂ ∧
      byte 1 (x₃ ++ x₂ ++ x₁ ++ x₀) = x₁ ∧ byte 0 (x₃ ++ x₂ ++ x₁ ++ x₀) = x₀ := by
  have h₃ := x₃.isLt
  have h₂ := x₂.isLt
  have h₁ := x₁.isLt
  have h₀ := x₀.isLt
  have whole : (x₃ ++ x₂ ++ x₁ ++ x₀ : BitVec 32).toNat =
      x₃.toNat * 16777216 + x₂.toNat * 65536 + x₁.toNat * 256 + x₀.toNat := by
    simp only [toNat_append_add]
    omega
  refine ⟨?_, ?_, ?_, ?_⟩
  all_goals
    apply BitVec.eq_of_toNat_eq
    rw [byte, toNat_extract, whole]
    omega

/-- Each lane depends on its own two bytes. -/
theorem byte_bytewise (f : BitVec 8 → BitVec 8 → BitVec 8) (dataa datab : BitVec 32) (k : Fin 4) :
    byte k (bytewise f dataa datab) = f (byte k dataa) (byte k datab) := by
  obtain ⟨third, second, first, zeroth⟩ := byte_append (f (byte 3 dataa) (byte 3 datab))
    (f (byte 2 dataa) (byte 2 datab)) (f (byte 1 dataa) (byte 1 datab)) (f (byte 0 dataa) (byte 0 datab))
  match k with
  | 0 => exact zeroth
  | 1 => exact first
  | 2 => exact second
  | 3 => exact third

theorem toNat_byte_paddbSig (dataa datab : BitVec 32) (k : Fin 4) :
    (byte k (paddbSig dataa datab)).toNat = min 255 ((byte k dataa).toNat + (byte k datab).toNat) := by
  rw [paddbSig, byte_bytewise, saddResult_eq, saturatedSum, BitVec.toNat_ofNat]
  omega

theorem toNat_byte_psubbSig (dataa datab : BitVec 32) (k : Fin 4) :
    (byte k (psubbSig dataa datab)).toNat = (byte k dataa).toNat - (byte k datab).toNat := by
  have bound := (byte k dataa).isLt
  rw [psubbSig, byte_bytewise, ssubResult_eq, saturatedDifference, BitVec.toNat_ofNat]
  omega

/-! ## Unpacking, then packing -/

theorem upper_widened (colour : BitVec 5) : (widened colour).extractLsb' 3 5 = colour :=
  BitVec.extractLsb'_append_eq_left

/-- The three channels of a packed pixel are the pixel without its upper bit. -/
theorem channels_eq (pixel : BitVec 16) :
    0#1 ++ pixel.extractLsb' 10 5 ++ pixel.extractLsb' 5 5 ++ pixel.extractLsb' 0 5 = pixel &&& 0x7fff := by
  have bound := pixel.isLt
  have masked : (pixel &&& 0x7fff).toNat = pixel.toNat % 32768 := by
    rw [BitVec.toNat_and]
    exact Nat.and_two_pow_sub_one_eq_mod pixel.toNat 15
  apply BitVec.eq_of_toNat_eq
  rw [masked]
  simp only [toNat_append_add, toNat_extract, BitVec.toNat_ofNat]
  omega

theorem rgb555_rgb888 (pixel : BitVec 16) : rgb555 (rgb888 pixel) = pixel &&& 0x7fff := by
  obtain ⟨-, red, green, blue⟩ := byte_append 0#8 (channel8 10 pixel) (channel8 5 pixel) (channel8 0 pixel)
  rw [← rgb555_eq, ← channels_eq, rgb888, red, green, blue, ← widened_eq, ← widened_eq, ← widened_eq,
    upper_widened, upper_widened, upper_widened]

/-- Both pixels of a word come back from their channels. -/
theorem ppackSig_punpackSig (word : BitVec 32) :
    ppackSig (punpackSig 2 word) (punpackSig 3 word) = word &&& 0x7fff7fff := by
  have halves : word.extractLsb' 16 16 ++ word.extractLsb' 0 16 = word :=
    BitVec.extractLsb'_append_extractLsb' (w := 16)
  rw [ppackSig_eq, punpackSig_low, punpackSig_high, rgb555_rgb888, rgb555_rgb888]
  conv_rhs => rw [← halves]
  have masks : (0x7fff7fff : BitVec 32) = (0x7fff : BitVec 16) ++ (0x7fff : BitVec 16) := rfl
  rw [masks, BitVec.and_append]

/-! ## Packing, then unpacking -/

/-- A channel with its lower three bits replaced by its upper three. -/
def requantised (channel : BitVec 8) : BitVec 8 := channel.extractLsb' 3 5 ++ channel.extractLsb' 5 3

theorem toNat_requantised (channel : BitVec 8) :
    (requantised channel).toNat = channel.toNat / 8 * 8 + channel.toNat / 32 := by
  have bound := channel.isLt
  rw [requantised, toNat_append_add, toNat_extract, toNat_extract]
  omega

theorem requantised_idem (channel : BitVec 8) : requantised (requantised channel) = requantised channel := by
  have bound := channel.isLt
  have low : channel.toNat / 32 < 8 := by omega
  have upper : (channel.toNat / 8 * 8 + channel.toNat / 32) / 8 = channel.toNat / 8 := by omega
  have top : (channel.toNat / 8 * 8 + channel.toNat / 32) / 32 = channel.toNat / 32 := by omega
  apply BitVec.eq_of_toNat_eq
  rw [toNat_requantised, toNat_requantised, upper, top]

theorem requantised_mono {x y : BitVec 8} (order : x ≤ y) : requantised x ≤ requantised y := by
  rw [BitVec.le_def] at order ⊢
  rw [toNat_requantised, toNat_requantised]
  omega

/-- A colour of five bits is stretched as `requantised` does it. -/
theorem channel8_eq {low : Nat} {pixel : BitVec 16} {channel : BitVec 8}
    (colour : pixel.toNat / 2 ^ low % 32 = channel.toNat / 8) :
    channel8 low pixel = requantised channel := by
  have bound := channel.isLt
  apply BitVec.eq_of_toNat_eq
  have quarter : channel.toNat / 8 / 4 = channel.toNat / 32 := Nat.div_div_eq_div_mul ..
  have low : channel.toNat / 32 < 8 := by omega
  rw [toNat_requantised, channel8, colour, BitVec.toNat_ofNat, quarter]
  exact Nat.mod_eq_of_lt (by omega)

/-- What is left of a pixel that was packed. -/
theorem rgb888_rgb555 (pixel : BitVec 32) :
    rgb888 (rgb555 pixel) =
      0#8 ++ requantised (byte 2 pixel) ++ requantised (byte 1 pixel) ++ requantised (byte 0 pixel) := by
  have red := (byte 2 pixel).isLt
  have green := (byte 1 pixel).isLt
  have blue := (byte 0 pixel).isLt
  have packed : (rgb555 pixel).toNat =
      (byte 2 pixel).toNat / 8 * 1024 + (byte 1 pixel).toNat / 8 * 32 + (byte 0 pixel).toNat / 8 := by
    rw [rgb555, BitVec.toNat_ofNat]
    omega
  have upper : channel8 10 (rgb555 pixel) = requantised (byte 2 pixel) := channel8_eq (by rw [packed]; omega)
  have middle : channel8 5 (rgb555 pixel) = requantised (byte 1 pixel) := channel8_eq (by rw [packed]; omega)
  have lower : channel8 0 (rgb555 pixel) = requantised (byte 0 pixel) := channel8_eq (by rw [packed]; omega)
  rw [rgb888, upper, middle, lower]

theorem punpackSig_ppackSig (dataa datab : BitVec 32) :
    punpackSig 2 (ppackSig dataa datab) = rgb888 (rgb555 dataa) ∧
      punpackSig 3 (ppackSig dataa datab) = rgb888 (rgb555 datab) := by
  rw [punpackSig_low, punpackSig_high, ppackSig_eq]
  constructor
  · rw [BitVec.extractLsb'_append_eq_right]
  · rw [BitVec.extractLsb'_append_eq_left]

/-- The laws of the combinational paths: the round trip of a word, that of two pixels with what it
does to a channel, and the four lanes of the saturating operations. -/
theorem path_laws :
    (∀ word, ppackSig (punpackSig 2 word) (punpackSig 3 word) = word &&& 0x7fff7fff) ∧
    (∀ dataa datab,
      punpackSig 2 (ppackSig dataa datab) = 0#8 ++ requantised (byte 2 dataa) ++
        requantised (byte 1 dataa) ++ requantised (byte 0 dataa) ∧
      punpackSig 3 (ppackSig dataa datab) = 0#8 ++ requantised (byte 2 datab) ++
        requantised (byte 1 datab) ++ requantised (byte 0 datab)) ∧
    (∀ channel, requantised (requantised channel) = requantised channel) ∧
    requantised 0 = 0 ∧ requantised 255 = 255 ∧
    (∀ x y, x ≤ y → requantised x ≤ requantised y) ∧
    (∀ dataa datab (k : Fin 4),
      (byte k (paddbSig dataa datab)).toNat = min 255 ((byte k dataa).toNat + (byte k datab).toNat) ∧
      (byte k (psubbSig dataa datab)).toNat = (byte k dataa).toNat - (byte k datab).toNat) := by
  refine ⟨ppackSig_punpackSig, fun dataa datab => ⟨?_, ?_⟩, requantised_idem, rfl, rfl,
    fun _ _ => requantised_mono, fun dataa datab k => ⟨?_, ?_⟩⟩
  · rw [(punpackSig_ppackSig dataa datab).1, rgb888_rgb555]
  · rw [(punpackSig_ppackSig dataa datab).2, rgb888_rgb555]
  · exact toNat_byte_paddbSig dataa datab k
  · exact toNat_byte_psubbSig dataa datab k

end Cineraria.Pixel
