import Cineraria.Bmp.LoadBmp

/-!
# A complete picture

What `loadbmp` shows of a file with all its rows: as much of the picture as fits the window, from the left upper
corner on.
-/

namespace Cineraria.Bmp

open Bytes Draw

/-- The bytes of a row in a file, up to a multiple of four. -/
def stride (width bits : Nat) : Nat := (width * bits + 31) / 32 * 4

/-- The header of a BMP file, bottom row first. -/
structure Upright (content : List (BitVec 8)) : Prop where
  magic : byteAt content 0 = 0x42 ∧ byteAt content 1 = 0x4d
  width : 0 < field32 content 18 ∧ field32 content 18 < 65536
  height : 0 < field32 content 22 ∧ field32 content 22 < 65536
  bits : field16 content 28 = 16 ∨ field16 content 28 = 24 ∨ field16 content 28 = 32

/-- A complete file. Its size is less than 4 GB, as that of every file of a FAT volume is. -/
structure Picture (content : List (BitVec 8)) : Prop extends Upright content where
  offBits : field32 content 10 = 54
  complete : 54 + stride (field32 content 18) (field16 content 28) * field32 content 22 ≤ content.length
  small : content.length < 2 ^ 32

/-- The offset of a pixel, the rows counted from the top. -/
def pixelOffset (content : List (BitVec 8)) (x y : Nat) : Nat :=
  54 + stride (field32 content 18) (field16 content 28) * (field32 content 22 - 1 - y) + x * (field16 content 28 / 8)

/-- A pixel that is in the picture and in the window. -/
def Visible (content : List (BitVec 8)) (x y : Nat) : Prop :=
  x < min (field32 content 18) 640 ∧ y < min (field32 content 22) 480

/-- What a call must do with a complete picture. -/
structure Shows (content : List (BitVec 8)) (vram : Int → BitVec 16) (l : Loaded) : Prop where
  ret : l.ret = 0
  pixels : ∀ x y, Visible content x y →
    l.vram vram (pixelAt x y) = converted content (field16 content 28) (pixelOffset content x y)
  others : ∀ i, (∀ x y, Visible content x y → i ≠ pixelAt x y) → l.vram vram i = vram i
  reads : ∀ n ∈ l.reads, n ≤ 4 * 640
  buffer : ∀ w ∈ l.writes, w.pbmp + w.bytes.length ≤ 4 * 640

/-! ## Rows and offsets -/

theorem lineBytes_eq {width bits : Nat} (depth : bits = 16 ∨ bits = 24 ∨ bits = 32) :
    lineBytes width bits = stride width bits := by
  unfold lineBytes stride
  dsimp only
  split
  · rcases depth with rfl | rfl | rfl
    all_goals omega
  · rcases depth with rfl | rfl | rfl
    all_goals omega

theorem step_le_stride {width bits : Nat} (depth : bits = 16 ∨ bits = 24 ∨ bits = 32) :
    width * (bits / 8) ≤ stride width bits := by
  unfold stride
  rcases depth with rfl | rfl | rfl
  all_goals omega

namespace Upright

variable {content : List (BitVec 8)} (upright : Upright content)
include upright

theorem width_eq : field16 content 18 = field32 content 18 := by
  have small := upright.width.2
  unfold field32 at *
  omega

theorem height_eq : field16 content 22 = field32 content 22 := by
  have small := upright.height.2
  unfold field32 at *
  omega

theorem bits_eq : byteAt content 28 = field16 content 28 := by
  have bits := upright.bits
  have low := byteAt_lt content 28
  simp only [field16, Nat.reduceAdd] at *
  omega

theorem accepted : Accepted content where
  magic := upright.magic
  depth := by
    rw [upright.bits_eq]
    have bits := upright.bits
    omega

theorem rowPlace_eq (y : Nat) : rowPlace content y = 54 +
    stride (field32 content 18) (field16 content 28) * (field32 content 22 - 1 - y) := by
  rw [rowPlace, upright.width_eq, upright.height_eq, upright.bits_eq, lineBytes_eq upright.bits]

end Upright

namespace Picture

variable {content : List (BitVec 8)} (picture : Picture content)
include picture

/-- A row is where the loader looks for it, and it is all there. -/
theorem row {y : Nat} (before : y < field32 content 22) :
    rowStart content (sizesOf content) y = pixelOffset content 0 y ∧
      pixelOffset content 0 y + field32 content 18 * stepOf content ≤ content.length := by
  have complete := picture.complete
  have small := picture.small
  have place : rowPlace content y = pixelOffset content 0 y := by
    rw [picture.rowPlace_eq, pixelOffset, Nat.zero_mul, Nat.add_zero]
  have inside : pixelOffset content 0 y + stride (field32 content 18) (field16 content 28) ≤ content.length := by
    have rows : field32 content 22 - 1 - y + 1 ≤ field32 content 22 := by omega
    have product := Nat.mul_le_mul_left (stride (field32 content 18) (field16 content 28)) rows
    rw [Nat.mul_succ] at product
    unfold pixelOffset
    omega
  have used : field32 content 18 * stepOf content ≤ stride (field32 content 18) (field16 content 28) := by
    rw [stepOf, picture.bits_eq]
    exact step_le_stride picture.bits
  constructor
  · have offset : (rowOffset (sizesOf content) y).toNat = pixelOffset content 0 y := by
      rw [toNat_rowOffset (by rw [picture.height_eq]; exact before), place]
      omega
    rw [rowStart, offset]
    omega
  · omega

/-- Every pixel that is written is the right one. -/
theorem written (stack : Stack) {x y : Nat} (visible : Visible content x y) :
    (pixelWrite (stepOf content) (rowBytes content stack y) y x).value =
      converted content (field16 content 28) (pixelOffset content x y) := by
  obtain ⟨column, row⟩ := visible
  obtain ⟨start, inside⟩ := picture.row (Nat.lt_of_lt_of_le row (Nat.min_le_left _ _))
  have wide : columns content = min (field32 content 18) 640 := by
    rw [columns, picture.width_eq]
  rw [← wide] at column
  have size := rowSize_eq picture.accepted
  have bytes := usedBytes_le picture.accepted
  have step : stepOf content = field16 content 28 / 8 := by
    rw [stepOf, picture.bits_eq]
  have bits : field16 content 28 = 8 * stepOf content := by
    rw [step]
    rcases picture.bits with depth | depth | depth
    all_goals omega
  have place : pixelOffset content x y = pixelOffset content 0 y + stepOf content * x := by
    rw [pixelOffset, pixelOffset, step, Nat.zero_mul, Nat.add_zero, Nat.mul_comm x]
  rw [bits]
  apply (pixelWrite_fresh y _).2
  intro i used
  have within := pixel_within bytes column
  have inRow : columns content * stepOf content ≤ field32 content 18 * stepOf content :=
    Nat.mul_le_mul_right _ (by omega)
  rw [rowBytes, rowBuffer_succ, size.1, start, if_pos (by omega), place, Nat.add_assoc]

end Picture

section
variable {content : List (BitVec 8)}

theorem visible_iff (picture : Picture content) {x y : Nat} :
    Visible content x y ↔ x < columns content ∧ y < rows content := by
  rw [Visible, columns, rows, picture.width_eq, picture.height_eq]

/-- What is written of a complete picture. -/
theorem Picture.mem_writes (picture : Picture content) (stack : Stack) (w : Write) :
    w ∈ (loadbmp (some content) none (fun _ => none) stack).writes ↔ ∃ x y, Visible content x y ∧
      w = pixelWrite (stepOf content) (rowBytes content stack y) y x := by
  have long : 54 ≤ content.length := by
    have complete := picture.complete
    omega
  rw [Bmp.mem_writes _ _ long picture.accepted]
  constructor
  · rintro ⟨y, ⟨row, _⟩, x, column, same⟩
    exact ⟨x, y, (visible_iff picture).mpr ⟨column, row⟩, same⟩
  · rintro ⟨x, y, visible, same⟩
    obtain ⟨column, row⟩ := (visible_iff picture).mp visible
    exact ⟨y, ⟨row, fun _ _ _ => rfl⟩, x, column, same⟩

theorem inWindow_of_visible {x y : Nat} (visible : Visible content x y) : InWindow x y := by
  obtain ⟨column, row⟩ := visible
  unfold InWindow windowXmax windowYmax
  omega

/-- A complete picture is shown. -/
theorem loadbmp_shows (picture : Picture content) (stack : Stack) (vram : Int → BitVec 16) :
    Shows content vram (loadbmp (some content) none (fun _ => none) stack) := by
  have long : 54 ≤ content.length := by
    have complete := picture.complete
    omega
  have mem := picture.mem_writes stack
  obtain ⟨fp, file, loaded⟩ := loadbmp_accepted (fun _ => none) stack long picture.accepted
  have size := rowSize_eq picture.accepted
  constructor
  · rw [loaded]
  · intro x y visible
    apply InPlace.rewrite_determined
    · rw [List.mem_map]
      exact ⟨_, (mem _).mpr ⟨x, y, visible, rfl⟩, pixelWrite_index _ _ y x⟩
    · intro w listed here _
      obtain ⟨x', y', visible', rfl⟩ := (mem w).mp listed
      rw [pixelWrite_index] at here
      obtain ⟨column, row⟩ := pixelAt_injective (inWindow_of_visible visible') (inWindow_of_visible visible) here
      rw [Int.natCast_inj] at column row
      rw [column, row]
      exact picture.written stack visible
  · intro i other
    apply InPlace.rewrite_other
    intro listed
    obtain ⟨w, member, here⟩ := List.mem_map.mp listed
    obtain ⟨x, y, visible, rfl⟩ := (mem w).mp member
    rw [pixelWrite_index] at here
    exact other x y visible here.symm
  · intro n listed
    rw [loaded] at listed
    rw [loadRows_reads _ _ _ (pixelStep_accepted picture.accepted) _ 0 file n listed, size.1]
    exact size.2
  · intro w listed
    obtain ⟨x, y, visible, rfl⟩ := (mem w).mp listed
    obtain ⟨start, length⟩ := pixelWrite_place (stepOf content) (rowBytes content stack y) y x
    have within := pixel_within (usedBytes_le picture.accepted) ((visible_iff picture).mp visible).1
    rw [start, length]
    exact within.trans size.2

end

/-- A file of two rows of one pixel, the lower of which comes first: blue below red. -/
def redOverBlue : List (BitVec 8) :=
  [0x42, 0x4d, 62, 0, 0, 0, 0, 0, 0, 0, 54, 0, 0, 0, 40, 0, 0, 0, 1, 0, 0, 0, 2, 0, 0, 0, 1, 0, 24, 0, 0, 0, 0, 0,
    8, 0, 0, 0, 0, 0, 0, 0, 0, 0, 0, 0, 0, 0, 0, 0, 0, 0, 0, 0, 0xff, 0, 0, 0, 0, 0, 0xff, 0]

theorem loadbmp_shows_redOverBlue :
    Shows redOverBlue (fun _ => 0) (loadbmp (some redOverBlue) none (fun _ => none) clearStack) ∧
      converted redOverBlue 24 (pixelOffset redOverBlue 0 0) = 0x7c00 ∧
      converted redOverBlue 24 (pixelOffset redOverBlue 0 1) = 0x001f := by
  have picture : Picture redOverBlue := by
    constructor
    · constructor
      all_goals decide
    all_goals decide
  exact ⟨loadbmp_shows picture clearStack (fun _ => 0), by decide, by decide⟩

end Cineraria.Bmp
