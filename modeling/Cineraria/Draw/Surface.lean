import Mathlib.Logic.Function.Basic
import Mathlib.Tactic.IntervalCases
import Mathlib.Tactic.SplitIfs
import Cineraria.Lib.InPlace

/-!
# The drawing surface

`nd_lib/nd_egl.h` and `nd_lib/nd_egl.c`: the pixel format, the window, and `nd_GsEglPset`. The frame buffer has
480 lines of 1024 halfwords, of which the window shows the first 640.
-/

namespace Cineraria.Draw

/-! ## The pixel format -/

/-- `get_red` -/
def getRed (pixel : BitVec 16) : BitVec 32 := (pixel.setWidth 32 &&& 0x7c00) >>> 7

/-- `get_green` -/
def getGreen (pixel : BitVec 16) : BitVec 32 := (pixel.setWidth 32 &&& 0x03e0) >>> 2

/-- `get_blue` -/
def getBlue (pixel : BitVec 16) : BitVec 32 := (pixel.setWidth 32 &&& 0x001f) <<< 3

/-- `set_pixel`, as it is stored in a halfword. -/
def setPixel (r g b : BitVec 32) : BitVec 16 :=
  (((r &&& 0xf8) <<< 7) ||| ((g &&& 0xf8) <<< 2) ||| ((b &&& 0xf8) >>> 3)).setWidth 16

/-- `calc_brend`. The third operand is unsigned, and so is the whole. -/
def calcBrend (a b p : BitVec 32) : BitVec 32 := ((a - b) * p + (b <<< 8)) >>> 8

/-- The five bits of a channel. -/
def colour (low : Nat) (pixel : BitVec 16) : Nat := (pixel.extractLsb' low 5).toNat

theorem colour_lt (low : Nat) (pixel : BitVec 16) : colour low pixel < 32 := (pixel.extractLsb' low 5).isLt

theorem toNat_widened (x : BitVec 5) : (x.setWidth 32 <<< 3).toNat = 8 * x.toNat := by
  have below := x.isLt
  rw [BitVec.toNat_shiftLeft, BitVec.toNat_setWidth, Nat.mod_eq_of_lt (by omega : x.toNat < 2 ^ 32), Nat.shiftLeft_eq]
  omega

theorem getRed_eq (pixel : BitVec 16) : getRed pixel = (pixel.extractLsb' 10 5).setWidth 32 <<< 3 := by
  apply BitVec.eq_of_getLsbD_eq
  intro i hi
  interval_cases i
  all_goals simp [getRed]

theorem getGreen_eq (pixel : BitVec 16) : getGreen pixel = (pixel.extractLsb' 5 5).setWidth 32 <<< 3 := by
  apply BitVec.eq_of_getLsbD_eq
  intro i hi
  interval_cases i
  all_goals simp [getGreen]

theorem getBlue_eq (pixel : BitVec 16) : getBlue pixel = (pixel.extractLsb' 0 5).setWidth 32 <<< 3 := by
  apply BitVec.eq_of_getLsbD_eq
  intro i hi
  interval_cases i
  all_goals simp [getBlue]

theorem toNat_getRed (pixel : BitVec 16) : (getRed pixel).toNat = 8 * colour 10 pixel := by
  rw [getRed_eq, toNat_widened]
  rfl

theorem toNat_getGreen (pixel : BitVec 16) : (getGreen pixel).toNat = 8 * colour 5 pixel := by
  rw [getGreen_eq, toNat_widened]
  rfl

theorem toNat_getBlue (pixel : BitVec 16) : (getBlue pixel).toNat = 8 * colour 0 pixel := by
  rw [getBlue_eq, toNat_widened]
  rfl

section
variable (r g b : BitVec 32)

theorem setPixel_red : (setPixel r g b).extractLsb' 10 5 = r.extractLsb' 3 5 := by
  apply BitVec.eq_of_getLsbD_eq
  intro i hi
  interval_cases i
  all_goals simp [setPixel]

theorem setPixel_green : (setPixel r g b).extractLsb' 5 5 = g.extractLsb' 3 5 := by
  apply BitVec.eq_of_getLsbD_eq
  intro i hi
  interval_cases i
  all_goals simp [setPixel]

theorem setPixel_blue : (setPixel r g b).extractLsb' 0 5 = b.extractLsb' 3 5 := by
  apply BitVec.eq_of_getLsbD_eq
  intro i hi
  interval_cases i
  all_goals simp [setPixel]

theorem setPixel_top : (setPixel r g b).getLsbD 15 = false := by
  simp [setPixel]

theorem toNat_upper (x : BitVec 32) : (x.extractLsb' 3 5).toNat = x.toNat / 8 % 32 := by
  rw [BitVec.extractLsb'_toNat, Nat.shiftRight_eq_div_pow]

theorem colour_red : colour 10 (setPixel r g b) = r.toNat / 8 % 32 := by rw [colour, setPixel_red, toNat_upper]

theorem colour_green : colour 5 (setPixel r g b) = g.toNat / 8 % 32 := by rw [colour, setPixel_green, toNat_upper]

theorem colour_blue : colour 0 (setPixel r g b) = b.toNat / 8 % 32 := by rw [colour, setPixel_blue, toNat_upper]

/-- The halfword of three channels. -/
theorem toNat_setPixel : (setPixel r g b).toNat =
    1024 * (r.toNat / 8 % 32) + 32 * (g.toNat / 8 % 32) + b.toNat / 8 % 32 := by
  have red := colour_red r g b
  have green := colour_green r g b
  have blue := colour_blue r g b
  have top := setPixel_top r g b
  have below := (setPixel r g b).isLt
  rw [BitVec.getLsbD, Nat.testBit_eq_decide_div_mod_eq, decide_eq_false_iff_not] at top
  simp only [colour, BitVec.extractLsb'_toNat, Nat.shiftRight_eq_div_pow] at red green blue
  omega

end

/-! ## The surface -/

/-- `na_VRAM_linesize` in halfwords. -/
def lineSize : Int := 1024

/-- `window_xmax` -/
def windowXmax : Int := 639

/-- `window_ymax` -/
def windowYmax : Int := 479

/-- The state of the drawing functions. The frame buffer is counted in halfwords. -/
structure Surface where
  /-- `nd_GsEglDrawBuffer` -/
  drawBuffer : BitVec 32
  /-- `nd_color` -/
  color : BitVec 32
  /-- `nd_pastel` -/
  pastel : BitVec 32
  vram : Int → BitVec 16

namespace Surface

/-- The value that `nd_GsEglPset` stores over an old one. -/
def shade (s : Surface) (old : BitVec 16) : BitVec 16 :=
  let c := s.color.setWidth 16
  if s.pastel < 256 then
    let r := calcBrend (getRed c) (getRed old) s.pastel
    let g := calcBrend (getGreen c) (getGreen old) s.pastel
    let b := calcBrend (getBlue c) (getBlue old) s.pastel
    setPixel r g b
  else c

/-- The value that `nd_GsEglBoxfill` stores over an old one. -/
def fillShade (s : Surface) (old : BitVec 16) : BitVec 16 :=
  let c := s.color.setWidth 16
  if s.pastel < 256 then
    let r := getRed old
    let r := calcBrend (getRed c) r s.pastel
    let g := getGreen old
    let g := calcBrend (getGreen c) g s.pastel
    let b := getBlue old
    let b := calcBrend (getBlue c) b s.pastel
    setPixel r g b
  else c

/-- The two functions blend alike. -/
theorem fillShade_eq (s : Surface) (old : BitVec 16) : s.fillShade old = s.shade old := rfl

/-- Reading a halfword, shading it and storing it again. -/
def stroke (s : Surface) (p : Int) : Surface := { s with vram := Function.update s.vram p (s.shade (s.vram p)) }

end Surface

/-- A pixel of the window. -/
def InWindow (x y : Int) : Prop := (0 ≤ x ∧ x ≤ windowXmax) ∧ 0 ≤ y ∧ y ≤ windowYmax

instance (x y : Int) : Decidable (InWindow x y) := inferInstanceAs (Decidable ((_ ∧ _) ∧ _))

/-- The halfword of a pixel. -/
def pixelAt (x y : Int) : Int := y * lineSize + x

/-- `nd_GsEglPset` -/
def ndGsEglPset (s : Surface) (x y : Int) : Surface :=
  if s.drawBuffer = 0 then s
  else if s.pastel = 0 then s
  else if InWindow x y then s.stroke (pixelAt x y)
  else s

/-- The pixels of the window have halfwords of their own. -/
theorem pixelAt_injective {x y x' y' : Int} (inside : InWindow x y) (inside' : InWindow x' y')
    (same : pixelAt x y = pixelAt x' y') : x = x' ∧ y = y' := by
  unfold InWindow windowXmax windowYmax pixelAt lineSize at *
  omega

namespace Surface

/-- Something is drawn at all. -/
def Drawing (s : Surface) : Prop := s.drawBuffer ≠ 0 ∧ s.pastel ≠ 0

instance (s : Surface) : Decidable s.Drawing := inferInstanceAs (Decidable (_ ∧ _))

theorem pset_of_drawing {s : Surface} (drawing : s.Drawing) (x y : Int) :
    ndGsEglPset s x y = if InWindow x y then s.stroke (pixelAt x y) else s := by
  rw [ndGsEglPset, if_neg drawing.1, if_neg drawing.2]

theorem pset_of_not_drawing {s : Surface} (idle : ¬ s.Drawing) (x y : Int) : ndGsEglPset s x y = s := by
  unfold ndGsEglPset
  split
  · rfl
  · next buffer =>
      split
      · rfl
      · next shown => exact absurd ⟨buffer, shown⟩ idle

/-- Strokes at some halfwords, one after the other. -/
def strokes (s : Surface) (cells : List Int) : Surface := cells.foldl stroke s

theorem strokes_eq (s : Surface) (cells : List Int) :
    s.strokes cells = { s with vram := InPlace.rewrite id (fun _ => s.shade) cells s.vram } := by
  induction cells generalizing s with
  | nil => rfl
  | cons p cells ih => exact ih (s.stroke p)

theorem strokes_append (s : Surface) (first second : List Int) :
    s.strokes (first ++ second) = (s.strokes first).strokes second :=
  List.foldl_append

end Surface

end Cineraria.Draw
