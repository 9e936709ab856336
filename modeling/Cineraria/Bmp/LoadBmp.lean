import Cineraria.Draw.Surface
import Cineraria.Lib.FixedWidth
import Cineraria.Mmcfs.Seek
import Cineraria.Player.PlayWav

/-!
# Loading a picture

`cineraria_wavplay/loadbmp.c`: `loadbmp` reads the header of a BMP file, and then one row after the other into a
buffer for 640 pixels, from which it writes the frame buffer.

What the header is to set, and the row buffer, are on the stack. A byte of the row buffer is a value together with
the offset in the file that it was read from, if it was. A complete file is shown as it should be
(`loadbmp_shows`).
-/

namespace Cineraria.Bmp

open Bytes Draw
open Wav (Fil fRead fRead_whole)

/-! ## FatFs -/

/-- `f_lseek` on a file that is only read: the offset is clipped at the size. -/
def fLseek (ofs : BitVec 32) (fp : Fil) : Fil := { fp with fptr := min ofs.toNat fp.content.length }

/-- A file object as `loadbmp` sees it. -/
def fileOf (fp : FatFs.Fil) : Fil where
  content := FatFs.content fp.fsize fp.bytes
  fptr := fp.fptr.toNat

/-- This is what the walk along the chain of clusters comes to. -/
theorem fLseek_fileOf {fs : FatFs.Volume} {fp : FatFs.Fil} (ok : fp.Ok fs) (readOnly : fp.flag &&& Mmcfs.FA_WRITE = 0)
    (ofs : BitVec 32) :
    ∃ fs' fp', FatFs.fLseek ofs fs fp = (.ok, fs', fp') ∧ fp'.Ok fs' ∧ fp'.flag &&& Mmcfs.FA_WRITE = 0 ∧
      fileOf fp' = fLseek ofs (fileOf fp) := by
  obtain ⟨fs', fp', result, ok', fptr, fsize, _, flag, bytes⟩ := FatFs.fLseek_spec ok ofs
  have limit : fp.limit fs = fp.fsize.toNat := if_pos readOnly
  have length : (FatFs.content fp.fsize fp.bytes).length = fp.fsize.toNat := by
    rw [FatFs.content, List.length_map, List.length_range]
  rw [limit] at fptr fsize
  have same : fp'.fsize = fp.fsize := by
    apply BitVec.eq_of_toNat_eq
    omega
  refine ⟨fs', fp', result, ok', by rw [flag, readOnly], ?_⟩
  unfold fileOf fLseek
  rw [same, bytes, fptr, length]

/-! ## Variables -/

/-- A byte of the row buffer. -/
structure Byte where
  value : BitVec 8
  /-- The offset that it was read from. -/
  origin : Option Nat
  deriving DecidableEq, Repr

/-- The variables that come from the header. -/
structure Sizes where
  xsize : Int
  ysize : Int
  bpp : Int
  line : Int
  /-- The header has set them. -/
  read : Bool
  deriving DecidableEq, Repr

/-- What is on the stack when `loadbmp` is called. -/
structure Stack where
  xsize : BitVec 32
  ysize : BitVec 32
  bpp : BitVec 32
  line : BitVec 32
  bmpPixel : Nat → BitVec 8

/-- The variables without a header. -/
def Stack.sizes (stack : Stack) : Sizes where
  xsize := stack.xsize.toInt
  ysize := stack.ysize.toInt
  bpp := stack.bpp.toInt
  line := stack.line.toInt
  read := false

/-- The row buffer before the first row. -/
def Stack.buffer (stack : Stack) (j : Nat) : Byte where
  value := stack.bmpPixel j
  origin := none

/-- A stack of zeros. -/
def clearStack : Stack where
  xsize := 0
  ysize := 0
  bpp := 0
  line := 0
  bmpPixel := fun _ => 0

/-- A pixel that is written. -/
structure Write where
  /-- The halfword of the frame buffer. -/
  index : Int
  /-- Where the pixel is in the row buffer. -/
  pbmp : Nat
  /-- The bytes that it is made of. -/
  bytes : List Byte
  value : BitVec 16
  deriving DecidableEq, Repr

/-- What a call does. -/
structure Loaded where
  ret : Int
  /-- The variables that the rows are loaded with. -/
  sizes : Option Sizes
  /-- How many bytes are asked for in each row. -/
  reads : List Nat
  writes : List Write
  deriving DecidableEq, Repr

/-! ## The header -/

/-- `line`: the bytes of a row, up to a multiple of four. -/
def lineBytes (xsize bpp : Nat) : Nat :=
  let line := xsize * bpp / 8
  if line % 4 ≠ 0 then (line / 4 + 1) * 4 else line

/-- `(hi << 8) | lo` -/
def halfword (hi lo : BitVec 8) : BitVec 32 := (hi.setWidth 32 <<< 8) ||| lo.setWidth 32

/-- The part of `loadbmp` that looks at the header: the variables, or what it returns. -/
def parseHeader (bmpH : List (BitVec 8)) : Except Int Sizes :=
  let h := ofList bmpH
  if h 0x00 = 0x42 ∧ h 0x01 = 0x4d then
    let bpp := (h 0x1c).toNat
    if ¬ (bpp = 32 ∨ bpp = 24 ∨ bpp = 16) then .error (-2)
    else
      let xsize := (halfword (h 0x13) (h 0x12)).toNat
      let ysize := (halfword (h 0x17) (h 0x16)).toNat
      .ok { xsize := xsize, ysize := ysize, bpp := bpp, line := lineBytes xsize bpp, read := true }
  else .error (-3)

/-! ## The rows -/

/-- The bytes of a pixel in the row buffer. Nothing is read for any other depth. -/
def pixelStep (bpp : Int) : Option Nat :=
  if bpp = 32 then some 4 else if bpp = 24 then some 3 else if bpp = 16 then some 2 else none

/-- One turn of the loops over `x`. -/
def pixelWrite (step : Nat) (buffer : Nat → Byte) (y x : Nat) : Write :=
  let pbmp := step * x
  if step = 2 then
    { index := pixelAt x y
      pbmp := pbmp
      bytes := [buffer pbmp, buffer (pbmp + 1)]
      value := (halfword (buffer (pbmp + 1)).value (buffer pbmp).value).setWidth 16 }
  else
    { index := pixelAt x y
      pbmp := pbmp
      bytes := [buffer pbmp, buffer (pbmp + 1), buffer (pbmp + 2)]
      value := setPixel ((buffer (pbmp + 2)).value.setWidth 32) ((buffer (pbmp + 1)).value.setWidth 32)
        ((buffer pbmp).value.setWidth 32) }

/-- The row buffer after a read from the offset `ofs`. -/
def storeRead (ofs : Nat) (bytes : List (BitVec 8)) (buffer : Nat → Byte) (j : Nat) : Byte :=
  match bytes[j]? with
  | some value => { value := value, origin := some (ofs + j) }
  | none => buffer j

/-- The offset that a row is looked for at, in 32 bits. -/
def rowOffset (s : Sizes) (y : Nat) : BitVec 32 := BitVec.ofInt 32 (54 + s.line * (s.ysize - (y + 1)))

/-- The loop over `y`, from `y` on: the bytes asked for, and the pixels written. -/
def loadRows (s : Sizes) (width : Int) (faults : Nat → Option Nat) :
    Nat → Nat → Fil → (Nat → Byte) → List Nat × List Write
  | 0, _, _, _ => ([], [])
  | turns + 1, y, fp, buffer =>
      let fp := fLseek (rowOffset s y) fp
      match pixelStep s.bpp with
      | none => loadRows s width faults turns (y + 1) fp buffer
      | some step =>
          let btr := (BitVec.ofInt 32 (width * step)).toNat
          let r := fRead (faults y) fp btr
          let buffer := storeRead fp.fptr r.bytes buffer
          if r.ok then
            let rest := loadRows s width faults turns (y + 1) r.fp buffer
            (btr :: rest.1, (List.range width.toNat).map (pixelWrite step buffer y) ++ rest.2)
          else ([btr], [])

/-- `width` and `height`. -/
def clipped (size window : Int) : Int := if size + 0 > window then window - 0 else size

/-- `window_xsize` -/
def windowXsize : Int := 640

/-- `window_ysize` -/
def windowYsize : Int := 480

/-- `loadbmp`. `file` is what `f_open` finds, and a fault is the disk's. A file object whose read has failed once
is not read any more. -/
def loadbmp (file : Option (List (BitVec 8))) (headerFault : Option Nat) (faults : Nat → Option Nat) (stack : Stack) :
    Loaded :=
  match file with
  | none => { ret := -1, sizes := none, reads := [], writes := [] }
  | some content =>
      let header := fRead headerFault { content := content, fptr := 0 } 54
      match if header.ok ∧ header.bytes.length = 54 then parseHeader header.bytes else .ok stack.sizes with
      | .error ret => { ret := ret, sizes := none, reads := [], writes := [] }
      | .ok s =>
          let width := clipped s.xsize windowXsize
          let height := clipped s.ysize windowYsize
          let rows := loadRows s width (if header.ok then faults else fun _ => some 0) height.toNat 0 header.fp
            stack.buffer
          { ret := 0, sizes := some s, reads := rows.1, writes := rows.2 }

/-- The frame buffer after a call. -/
def Loaded.vram (l : Loaded) (vram : Int → BitVec 16) : Int → BitVec 16 :=
  InPlace.rewrite Write.index (fun w _ => w.value) l.writes vram

/-! ## The row buffer -/

/-- Where a row is read from. -/
def rowStart (content : List (BitVec 8)) (s : Sizes) (y : Nat) : Nat := min (rowOffset s y).toNat content.length

/-- The bytes that a row is read into, before row `y`. -/
def rowBuffer (content : List (BitVec 8)) (s : Sizes) (btr : Nat) (first : Nat → Byte) : Nat → Nat → Byte
  | 0 => first
  | y + 1 =>
      storeRead (rowStart content s y) ((content.drop (rowStart content s y)).take btr)
        (rowBuffer content s btr first y)

/-- Row `y` and the ones before it, from `first` on, are read without a fault. -/
def ReadTo (faults : Nat → Option Nat) (first y : Nat) : Prop := ∀ j, first ≤ j → j ≤ y → faults j = none

/-- The bytes asked for in a row. -/
def rowSize (width : Int) (step : Nat) : Nat := (BitVec.ofInt 32 (width * step)).toNat

section
variable {content : List (BitVec 8)} {s : Sizes} {step : Nat} (width : Int) (faults : Nat → Option Nat)
  (first : Nat → Byte)

theorem loadRows_succ (known : pixelStep s.bpp = some step) (turns y : Nat) {fp : Fil} (file : fp.content = content) :
    ∃ fp' : Fil, fp'.content = content ∧
      loadRows s width faults (turns + 1) y fp (rowBuffer content s (rowSize width step) first y) =
        if faults y = none then
          let rest := loadRows s width faults turns (y + 1) fp'
            (rowBuffer content s (rowSize width step) first (y + 1))
          (rowSize width step :: rest.1,
            (List.range width.toNat).map (pixelWrite step (rowBuffer content s (rowSize width step) first (y + 1)) y) ++
              rest.2)
        else ([rowSize width step], []) := by
  refine ⟨(fRead (faults y) (fLseek (rowOffset s y) fp) (rowSize width step)).fp, file, ?_⟩
  rw [loadRows]
  simp only [known]
  cases sound : faults y with
  | none =>
      have same : storeRead (fLseek (rowOffset s y) fp).fptr
          (fRead none (fLseek (rowOffset s y) fp) (rowSize width step)).bytes
          (rowBuffer content s (rowSize width step) first y) =
          rowBuffer content s (rowSize width step) first (y + 1) := by
        simp only [rowBuffer, rowStart, fLseek, fRead, Fil.unread, Option.getD_none, Nat.min_self, file]
      rw [if_pos rfl, ← same]
      rfl
  | some fault => rfl

/-- The pixels that are written, row by row. -/
theorem mem_loadRows (known : pixelStep s.bpp = some step) (turns y : Nat) {fp : Fil} (file : fp.content = content)
    (w : Write) :
    w ∈ (loadRows s width faults turns y fp (rowBuffer content s (rowSize width step) first y)).2 ↔
      ∃ y', (y ≤ y' ∧ y' < y + turns) ∧ ReadTo faults y y' ∧ ∃ x < width.toNat,
        w = pixelWrite step (rowBuffer content s (rowSize width step) first (y' + 1)) y' x := by
  induction turns generalizing y fp with
  | zero =>
      simp only [loadRows, List.not_mem_nil, false_iff]
      rintro ⟨y', inside, _⟩
      omega
  | succ turns ih =>
      obtain ⟨fp', file', same⟩ := loadRows_succ width faults first known turns y file
      have ih := ih (y + 1) file'
      rw [same]
      split
      · next sound =>
          dsimp only
          rw [List.mem_append, ih, List.mem_map]
          constructor
          · rintro (⟨x, column, rfl⟩ | ⟨y', inside, read, drawn⟩)
            · refine ⟨y, by omega, ?_, x, List.mem_range.mp column, rfl⟩
              intro j after before
              have here : j = y := by omega
              rw [here]
              exact sound
            · refine ⟨y', by omega, ?_, drawn⟩
              intro j after before
              rcases Nat.eq_or_lt_of_le after with rfl | later
              · exact sound
              · exact read j later before
          · rintro ⟨y', inside, read, x, column, rfl⟩
            rcases Nat.eq_or_lt_of_le inside.1 with rfl | later
            · exact Or.inl ⟨x, List.mem_range.mpr column, rfl⟩
            · refine Or.inr ⟨y', by omega, ?_, x, column, rfl⟩
              intro j after before
              exact read j (by omega) before
      · next failed =>
          simp only [List.not_mem_nil, false_iff]
          rintro ⟨y', inside, read, _⟩
          exact failed (read y (Nat.le_refl y) inside.1)

/-- Each row is read with one call. -/
theorem loadRows_reads (known : pixelStep s.bpp = some step) (turns y : Nat) {fp : Fil} (file : fp.content = content) :
    ∀ n ∈ (loadRows s width faults turns y fp (rowBuffer content s (rowSize width step) first y)).1,
      n = rowSize width step := by
  induction turns generalizing y fp with
  | zero => exact fun n listed => absurd listed List.not_mem_nil
  | succ turns ih =>
      obtain ⟨fp', file', same⟩ := loadRows_succ width faults first known turns y file
      intro n listed
      rw [same] at listed
      split at listed
      · rcases List.mem_cons.mp listed with here | later
        · exact here
        · exact ih (y + 1) file' n later
      · exact List.mem_singleton.mp listed

/-- A byte of the file in the row buffer. -/
def fresh (content : List (BitVec 8)) (k : Nat) : Byte where
  value := ofList content k
  origin := some k

/-- What a row is read into. -/
theorem rowBuffer_succ (content : List (BitVec 8)) (s : Sizes) (btr : Nat) (y j : Nat) :
    rowBuffer content s btr first (y + 1) j =
      if j < btr ∧ rowStart content s y + j < content.length then fresh content (rowStart content s y + j)
      else rowBuffer content s btr first y j := by
  rw [rowBuffer, storeRead, List.getElem?_take, List.getElem?_drop]
  split
  · next value found =>
      split at found
      · next within =>
          obtain ⟨inside, rfl⟩ := List.getElem?_eq_some_iff.mp found
          rw [if_pos ⟨within, inside⟩, fresh, ofList, List.getD_eq_getElem?_getD, List.getElem?_eq_getElem inside]
          rfl
      · exact absurd found (by simp)
  · next missing =>
      rw [if_neg]
      rintro ⟨within, inside⟩
      rw [if_pos within, List.getElem?_eq_getElem inside] at missing
      exact absurd missing (by simp)

end

/-! ## Pixels -/

/-- The bytes of a pixel that count: the fourth one of a 32-bit pixel does not. -/
def usedBytes (step : Nat) : Nat := if step = 2 then 2 else 3

/-- The pixel that some bytes of a file stand for. -/
def converted (content : List (BitVec 8)) (bits p : Nat) : BitVec 16 :=
  if bits = 16 then BitVec.ofNat 16 (byteAt content p + 256 * byteAt content (p + 1))
  else
    BitVec.ofNat 16
      (1024 * (byteAt content (p + 2) / 8) + 32 * (byteAt content (p + 1) / 8) + byteAt content p / 8)

theorem toNat_halfword (hi lo : BitVec 8) : (halfword hi lo).toNat = 256 * hi.toNat + lo.toNat :=
  FixedWidth.toNat_shift_or (by decide) hi lo

theorem pixelWrite_index (step : Nat) (buffer : Nat → Byte) (y x : Nat) :
    (pixelWrite step buffer y x).index = pixelAt x y := by
  unfold pixelWrite
  split
  · rfl
  · rfl

theorem pixelWrite_place (step : Nat) (buffer : Nat → Byte) (y x : Nat) :
    (pixelWrite step buffer y x).pbmp = step * x ∧ (pixelWrite step buffer y x).bytes.length = usedBytes step := by
  unfold pixelWrite usedBytes
  split
  · exact ⟨rfl, rfl⟩
  · exact ⟨rfl, rfl⟩

theorem pixelWrite_first (step : Nat) (buffer : Nat → Byte) (y x : Nat) :
    (pixelWrite step buffer y x).bytes.head? = some (buffer (step * x)) := by
  unfold pixelWrite
  split
  · rfl
  · rfl

/-- A pixel whose bytes have been read. -/
theorem pixelWrite_fresh {content : List (BitVec 8)} {step p x : Nat} {buffer : Nat → Byte} (y : Nat)
    (read : ∀ i < usedBytes step, buffer (step * x + i) = fresh content (p + i)) :
    (pixelWrite step buffer y x).bytes = (List.range (usedBytes step)).map (fun i => fresh content (p + i)) ∧
      (pixelWrite step buffer y x).value = converted content (8 * step) p := by
  unfold pixelWrite usedBytes converted at *
  by_cases half : step = 2
  · subst half
    rw [if_pos rfl] at *
    have h0 := read 0 (by decide)
    have h1 := read 1 (by decide)
    rw [Nat.add_zero, Nat.add_zero] at h0
    simp only [h0, h1]
    refine ⟨rfl, ?_⟩
    apply BitVec.eq_of_toNat_eq
    have low := byteAt_lt content p
    have high := byteAt_lt content (p + 1)
    rw [BitVec.toNat_setWidth, toNat_halfword]
    simp only [fresh, byteAt] at *
    rw [if_pos trivial, BitVec.toNat_ofNat]
    omega
  · have other : ¬ 8 * step = 16 := by omega
    have used : (if step = 2 then 2 else 3) = 3 := if_neg half
    rw [used] at read ⊢
    rw [if_neg half]
    have h0 := read 0 (by decide)
    have h1 := read 1 (by decide)
    have h2 := read 2 (by decide)
    rw [Nat.add_zero, Nat.add_zero] at h0
    simp only [h0, h1, h2, if_neg other]
    refine ⟨rfl, ?_⟩
    apply BitVec.eq_of_toNat_eq
    have blue := byteAt_lt content p
    have green := byteAt_lt content (p + 1)
    have red := byteAt_lt content (p + 2)
    rw [toNat_setPixel, BitVec.toNat_setWidth, BitVec.toNat_setWidth, BitVec.toNat_setWidth, BitVec.toNat_ofNat]
    simp only [fresh, byteAt] at *
    omega

/-! ## A header -/

/-- A file that `loadbmp` does not refuse. -/
structure Accepted (content : List (BitVec 8)) : Prop where
  magic : byteAt content 0 = 0x42 ∧ byteAt content 1 = 0x4d
  depth : byteAt content 28 = 32 ∨ byteAt content 28 = 24 ∨ byteAt content 28 = 16

/-- The variables that its header sets. -/
def sizesOf (content : List (BitVec 8)) : Sizes where
  xsize := field16 content 18
  ysize := field16 content 22
  bpp := byteAt content 28
  line := lineBytes (field16 content 18) (byteAt content 28)
  read := true

theorem parseHeader_accepted {content : List (BitVec 8)} (accepted : Accepted content) :
    parseHeader (content.take 54) = .ok (sizesOf content) := by
  obtain ⟨⟨b, m⟩, depth⟩ := accepted
  unfold parseHeader sizesOf
  simp only [ofList_take (by decide : 0 < 54), ofList_take (by decide : 1 < 54), ofList_take (by decide : 0x1c < 54),
    ofList_take (by decide : 0x13 < 54), ofList_take (by decide : 0x12 < 54), ofList_take (by decide : 0x17 < 54),
    ofList_take (by decide : 0x16 < 54), toNat_halfword, ofList_eq_iff]
  rw [if_pos ⟨b, m⟩]
  have xsize : 256 * byteAt content 0x13 + byteAt content 0x12 = field16 content 18 := by
    simp only [field16, Nat.reduceAdd]
    omega
  have ysize : 256 * byteAt content 0x17 + byteAt content 0x16 = field16 content 22 := by
    simp only [field16, Nat.reduceAdd]
    omega
  unfold byteAt at *
  rw [if_neg (not_not.mpr depth), xsize, ysize]

theorem parseHeader_refused {content : List (BitVec 8)} (refused : ¬ Accepted content) :
    ∃ ret < 0, parseHeader (content.take 54) = .error ret := by
  unfold parseHeader
  simp only [ofList_take (by decide : 0 < 54), ofList_take (by decide : 1 < 54), ofList_take (by decide : 0x1c < 54),
    ofList_eq_iff]
  split
  · next magic =>
      split
      · exact ⟨-2, by decide, rfl⟩
      · next depth => exact absurd ⟨magic, not_not.mp depth⟩ refused
  · exact ⟨-3, by decide, rfl⟩

section
variable {content : List (BitVec 8)} (faults : Nat → Option Nat) (stack : Stack)

/-- The bytes of a pixel, for a depth that is accepted. -/
def stepOf (content : List (BitVec 8)) : Nat := byteAt content 28 / 8

theorem pixelStep_accepted (accepted : Accepted content) : pixelStep (sizesOf content).bpp = some (stepOf content) := by
  unfold pixelStep stepOf sizesOf
  rcases accepted.depth with depth | depth | depth
  all_goals rw [depth]
  all_goals rfl

/-- The columns and rows that fit the window. -/
def columns (content : List (BitVec 8)) : Nat := min (field16 content 18) 640

def rows (content : List (BitVec 8)) : Nat := min (field16 content 22) 480

theorem clipped_eq (size window : Nat) : clipped size window = (min size window : Nat) := by
  unfold clipped
  split
  · omega
  · omega

/-- A header that is read and accepted. -/
theorem loadbmp_accepted (long : 54 ≤ content.length) (accepted : Accepted content) :
    ∃ fp : Fil, fp.content = content ∧ loadbmp (some content) none faults stack =
      let loaded := loadRows (sizesOf content) (columns content) faults (rows content) 0 fp
        (rowBuffer content (sizesOf content) (rowSize (columns content) (stepOf content)) stack.buffer 0)
      { ret := 0, sizes := some (sizesOf content), reads := loaded.1, writes := loaded.2 } := by
  refine ⟨⟨content, 54⟩, rfl, ?_⟩
  have width : clipped (sizesOf content).xsize windowXsize = columns content := clipped_eq _ 640
  have height : clipped (sizesOf content).ysize windowYsize = rows content := clipped_eq _ 480
  simp only [loadbmp, fRead_whole long, List.length_take_of_le long, and_self, if_true, parseHeader_accepted accepted,
    width, height, Int.toNat_natCast]
  rfl

/-- The loader draws a row. -/
def Drawn (content : List (BitVec 8)) (faults : Nat → Option Nat) (y : Nat) : Prop :=
  y < rows content ∧ ReadTo faults 0 y

/-- The row buffer when a row is drawn from it. -/
def rowBytes (content : List (BitVec 8)) (stack : Stack) (y : Nat) : Nat → Byte :=
  rowBuffer content (sizesOf content) (rowSize (columns content) (stepOf content)) stack.buffer (y + 1)

/-- What is written of a file that is accepted. -/
theorem mem_writes (long : 54 ≤ content.length) (accepted : Accepted content) (w : Write) :
    w ∈ (loadbmp (some content) none faults stack).writes ↔ ∃ y, Drawn content faults y ∧ ∃ x < columns content,
      w = pixelWrite (stepOf content) (rowBytes content stack y) y x := by
  obtain ⟨fp, file, loaded⟩ := loadbmp_accepted faults stack long accepted
  have drawn := mem_loadRows (columns content) faults stack.buffer (pixelStep_accepted accepted) (rows content) 0 file w
  rw [loaded]
  dsimp only
  rw [drawn, Int.toNat_natCast]
  constructor
  · rintro ⟨y, ⟨_, row⟩, read, rest⟩
    exact ⟨y, ⟨by omega, read⟩, rest⟩
  · rintro ⟨y, ⟨row, read⟩, rest⟩
    exact ⟨y, ⟨Nat.zero_le y, by omega⟩, read, rest⟩

theorem loadbmp_refused (long : 54 ≤ content.length) (refused : ¬ Accepted content) :
    (loadbmp (some content) none faults stack).ret < 0 := by
  obtain ⟨ret, negative, error⟩ := parseHeader_refused refused
  simp only [loadbmp, fRead_whole long, List.length_take_of_le long, and_self, if_true, error]
  exact negative

/-- Where the loader looks for a row, without the overflow. -/
def rowPlace (content : List (BitVec 8)) (y : Nat) : Nat :=
  54 + lineBytes (field16 content 18) (byteAt content 28) * (field16 content 22 - 1 - y)

theorem toNat_rowOffset {y : Nat} (before : y < field16 content 22) :
    (rowOffset (sizesOf content) y).toNat = rowPlace content y % 2 ^ 32 := by
  have same : 54 + (sizesOf content).line * ((sizesOf content).ysize - (y + 1)) = (rowPlace content y : Nat) := by
    have last : ((field16 content 22 - 1 - y : Nat) : Int) = field16 content 22 - (y + 1) := by omega
    unfold rowPlace sizesOf
    rw [Int.natCast_add, Int.natCast_mul, last]
    rfl
  rw [rowOffset, same, BitVec.toNat_ofInt]
  omega

theorem stepOf_cases (accepted : Accepted content) : stepOf content = 2 ∨ stepOf content = 3 ∨ stepOf content = 4 := by
  unfold stepOf
  rcases accepted.depth with depth | depth | depth
  all_goals omega

/-- A column of the row buffer. -/
theorem pixel_within {step used columns x : Nat} (bytes : used ≤ step) (column : x < columns) :
    step * x + used ≤ columns * step := by
  have next := Nat.mul_le_mul_left step (Nat.succ_le_of_lt column)
  rw [Nat.mul_succ, Nat.mul_comm step columns] at next
  omega

theorem usedBytes_le (accepted : Accepted content) : usedBytes (stepOf content) ≤ stepOf content := by
  unfold usedBytes
  rcases stepOf_cases accepted with step | step | step
  all_goals rw [step]
  all_goals decide

/-- A row is not wider than the buffer. -/
theorem rowSize_eq (accepted : Accepted content) :
    rowSize (columns content) (stepOf content) = columns content * stepOf content ∧
      columns content * stepOf content ≤ 4 * 640 := by
  have fits : columns content ≤ 640 := Nat.min_le_right _ _
  have step : stepOf content ≤ 4 := by
    unfold stepOf
    rcases accepted.depth with depth | depth | depth
    all_goals omega
  have bound : columns content * stepOf content ≤ 640 * 4 := Nat.mul_le_mul fits step
  refine ⟨?_, by omega⟩
  rw [rowSize, ← Int.natCast_mul, BitVec.toNat_ofInt]
  omega

end

end Cineraria.Bmp
