import Cineraria.Draw.Fontx
import Cineraria.Draw.Line

/-!
# Drawing a character

`nd_lib/nd_egl.c`: `nd_GsEglPutcharFont` reads the bitmap of a character row by row, a byte for every eight
columns, and hands the points of the bits that are set to `nd_GsEglPset`. A code that the font does not have is
replaced; whether the font has the replacement character is not looked at. Without one the null pointer of the
second lookup is read through (`putcharFont_meets_iff`). The frame buffer lies outside the fonts.
-/

namespace Cineraria.Draw

open RangeTable

/-! ## The loops -/

/-- The variables `p` and `cbit`, the addresses that have been read through `p`, and the points that have been
handed to `nd_GsEglPset`. -/
structure Scan where
  p : BitVec 32
  cbit : BitVec 8
  reads : List (BitVec 32)
  plots : List Point

/-- The point `(x+i, y+j)`. -/
def glyphPoint (x y : BitVec 32) (j i : Nat) : Point :=
  ⟨(x + BitVec.ofNat 32 i).toInt, (y + BitVec.ofNat 32 j).toInt⟩

/-- `if ( !(i & 7) ) cbit = *p++;` -/
def Scan.load (mem : Memory) (i : Nat) (s : Scan) : Scan :=
  if i &&& 7 = 0 then { s with cbit := mem s.p, p := s.p + 1, reads := s.reads ++ [s.p] } else s

/-- `if ( cbit & 0x80 ) nd_GsEglPset(x+i,y+j);` -/
def Scan.plot (r : Point) (s : Scan) : Scan :=
  if s.cbit &&& 0x80 ≠ 0 then { s with plots := s.plots ++ [r] } else s

/-- One turn of the inner loop. -/
def drawColumn (mem : Memory) (x y : BitVec 32) (j : Nat) (s : Scan) (i : Nat) : Scan :=
  let s := (s.load mem i).plot (glyphPoint x y j i)
  { s with cbit := s.cbit <<< 1 }

/-- The inner loop. -/
def drawRow (mem : Memory) (x y : BitVec 32) (w : Nat) (s : Scan) (j : Nat) : Scan :=
  (List.range w).foldl (drawColumn mem x y j) s

/-- Both loops. -/
def drawGlyph (mem : Memory) (x y : BitVec 32) (w h : Nat) (s : Scan) : Scan :=
  (List.range h).foldl (drawRow mem x y w) s

/-! ## The function -/

/-- The font pointers: `pFONTX_ascii_top` and `pFONTX_kanji_top`. -/
structure FontTops where
  ascii : BitVec 32
  kanji : BitVec 32

/-- What `nd_GsEglPutcharFont` returns, reads through `p`, and plots. -/
structure Printed where
  value : BitVec 32
  reads : List (BitVec 32)
  plots : List Point

/-- The part of the function behind the lookup of `p`. -/
def print (mem : Memory) (x y pFont p : BitVec 32) : Printed :=
  let s := drawGlyph mem x y (mem.width pFont).toNat (mem.height pFont).toNat ⟨p, 0, [], []⟩
  ⟨(mem.width pFont).setWidth 32, s.reads, s.plots⟩

/-- `p` for a character of two bytes. -/
def kanjiPointer (mem : Memory) (c : BitVec 16) (pFK : BitVec 32) : BitVec 32 :=
  let p := ndGsEglFontxPutkanji mem (c.setWidth 32) pFK
  if p = 0 then ndGsEglFontxPutkanji mem (BitVec.ofNat 32 fontxReplaceKanji) pFK else p

/-- `nd_GsEglPutcharFont` -/
def ndGsEglPutcharFont (mem : Memory) (tops : FontTops) (x y : BitVec 32) (c : BitVec 16) : Printed :=
  if c ≤ 0xff then
    if tops.ascii = 0 then ⟨0, [], []⟩
    else print mem x y tops.ascii (ndGsEglFontxAscii mem (c.setWidth 32) tops.ascii)
  else
    if tops.kanji = 0 then ⟨0, [], []⟩
    else print mem x y tops.kanji (kanjiPointer mem c tops.kanji)

/-- The fonts that the pointers show to `nd_GsEglPutstrFont`. -/
def FontTops.fonts (mem : Memory) (tops : FontTops) : Fonts :=
  let font (pFont : BitVec 32) : Option Fontx :=
    if pFont = 0 then none else some fun k => mem (pFont + BitVec.ofNat 32 k)
  ⟨font tops.ascii, font tops.kanji⟩

/-- The function returns what the loop over a string adds to the pen. -/
theorem putcharFont_value (mem : Memory) (tops : FontTops) (x y : BitVec 32) (c : BitVec 16) :
    (ndGsEglPutcharFont mem tops x y c).value = putcharFontWidth (tops.fonts mem) c := by
  unfold ndGsEglPutcharFont putcharFontWidth FontTops.fonts
  dsimp only
  by_cases single : c ≤ 0xff
  · rw [if_pos single, if_pos single]
    by_cases null : tops.ascii = 0
    · rw [if_pos null, if_pos null]
    · rw [if_neg null, if_neg null]
      rfl
  · rw [if_neg single, if_neg single]
    by_cases null : tops.kanji = 0
    · rw [if_pos null, if_pos null]
    · rw [if_neg null, if_neg null]
      rfl

/-! ## Bits -/

/-- The test of the shifted byte. -/
theorem shifted_top (b : BitVec 8) (k : Nat) : (b <<< k) &&& 0x80 ≠ 0 ↔ b.getMsbD k = true := by
  have top : ∀ b : BitVec 8, b &&& 0x80 = 0 ↔ b.msb = false := by decide
  rw [Ne, top, Bool.not_eq_false, BitVec.msb_shiftLeft]

/-! ## A row -/

/-- Some addresses from `p` on. -/
def addressesFrom (p : BitVec 32) (n : Nat) : List (BitVec 32) := (List.range n).map fun k => p + BitVec.ofNat 32 k

theorem addressesFrom_succ (p : BitVec 32) (n : Nat) :
    addressesFrom p (n + 1) = addressesFrom p n ++ [p + BitVec.ofNat 32 n] := by
  rw [addressesFrom, addressesFrom, List.range_succ, List.map_append]
  rfl

theorem addressesFrom_add (p : BitVec 32) (m n : Nat) :
    addressesFrom p (m + n) = addressesFrom p m ++ addressesFrom (p + BitVec.ofNat 32 m) n := by
  induction n with
  | zero => simp [addressesFrom]
  | succ n ih =>
      rw [← Nat.add_assoc, addressesFrom_succ, ih, addressesFrom_succ, List.append_assoc, BitVec.ofNat_add,
        BitVec.add_assoc]

section
variable {mem : Memory} {x y p : BitVec 32}

/-- A bit of the bytes from `p` on, the most significant bit of a byte first. -/
def bitAt (mem : Memory) (p : BitVec 32) (i : Nat) : Bool := (mem (p + BitVec.ofNat 32 (i / 8))).getMsbD (i % 8)

/-- The points of the first columns of a row whose bytes begin at `p`. -/
def rowPixels (mem : Memory) (x y p : BitVec 32) (j w : Nat) : List Point :=
  ((List.range w).filter (bitAt mem p)).map (glyphPoint x y j)

theorem rowPixels_succ (j i : Nat) : rowPixels mem x y p j (i + 1) =
    rowPixels mem x y p j i ++ if bitAt mem p i then [glyphPoint x y j i] else [] := by
  rw [rowPixels, rowPixels, List.range_succ, List.filter_append, List.map_append]
  by_cases top : bitAt mem p i = true
  · rw [if_pos top, List.filter_cons_of_pos top]
    rfl
  · rw [if_neg top, List.filter_cons_of_neg top]
    rfl

/-- The loop is at a column of the row whose bytes begin at `p`. -/
structure AtColumn (mem : Memory) (x y p : BitVec 32) (j : Nat) (start : Scan) (i : Nat) (s : Scan) : Prop where
  pointer : s.p = p + BitVec.ofNat 32 ((i + 7) / 8)
  reads : s.reads = start.reads ++ addressesFrom p ((i + 7) / 8)
  plots : s.plots = start.plots ++ rowPixels mem x y p j i
  /-- The next byte comes when the bits of the last one have been used. -/
  cbit : i % 8 ≠ 0 → s.cbit = mem (p + BitVec.ofNat 32 (i / 8)) <<< (i % 8)

section
variable {j i : Nat} {start s : Scan}

/-- The byte of the column is in `cbit`, with the bit of the column at the top. -/
theorem AtColumn.load (column : AtColumn mem x y p j start i s) :
    (s.load mem i).p = p + BitVec.ofNat 32 ((i + 8) / 8) ∧
    (s.load mem i).reads = start.reads ++ addressesFrom p ((i + 8) / 8) ∧
    (s.load mem i).plots = start.plots ++ rowPixels mem x y p j i ∧
    (s.load mem i).cbit = mem (p + BitVec.ofNat 32 (i / 8)) <<< (i % 8) := by
  have low : i &&& 7 = i % 8 := Nat.and_two_pow_sub_one_eq_mod i 3
  have next : (i + 8) / 8 = i / 8 + 1 := Nat.add_div_right i (by decide)
  unfold Scan.load
  rw [low]
  by_cases whole : i % 8 = 0
  · have here : (i + 7) / 8 = i / 8 := by omega
    rw [if_pos whole, next, whole, addressesFrom_succ, BitVec.ofNat_add, BitVec.shiftLeft_zero]
    dsimp only
    rw [column.pointer, column.reads, here, BitVec.add_assoc, List.append_assoc]
    exact ⟨rfl, rfl, column.plots, rfl⟩
  · have same : (i + 7) / 8 = (i + 8) / 8 := by omega
    rw [if_neg whole, ← same]
    exact ⟨column.pointer, column.reads, column.plots, column.cbit whole⟩

theorem drawColumn_at (column : AtColumn mem x y p j start i s) :
    AtColumn mem x y p j start (i + 1) (drawColumn mem x y j s i) := by
  obtain ⟨pointer, reads, plots, byte⟩ := column.load
  have test : (s.load mem i).cbit &&& 0x80 ≠ 0 ↔ bitAt mem p i = true := by
    rw [byte]
    exact shifted_top _ _
  have shifted : (i + 1) % 8 ≠ 0 →
      (s.load mem i).cbit <<< 1 = mem (p + BitVec.ofNat 32 ((i + 1) / 8)) <<< ((i + 1) % 8) := by
    intro inside
    rw [byte, show (i + 1) / 8 = i / 8 by omega, show (i + 1) % 8 = i % 8 + 1 by omega, BitVec.shiftLeft_add]
  unfold drawColumn Scan.plot
  by_cases top : bitAt mem p i = true
  · rw [if_pos (test.mpr top)]
    refine ⟨pointer, reads, ?_, shifted⟩
    rw [rowPixels_succ, if_pos top, ← List.append_assoc, ← plots]
  · rw [if_neg (mt test.mp top)]
    refine ⟨pointer, reads, ?_, shifted⟩
    rw [rowPixels_succ, if_neg top, List.append_nil]
    exact plots

theorem drawRow_at (w j : Nat) (s : Scan) : AtColumn mem x y s.p j s w (drawRow mem x y w s j) := by
  unfold drawRow
  induction w with
  | zero =>
      refine ⟨?_, ?_, ?_, fun inside => absurd rfl inside⟩
      · simp
      · simp [addressesFrom]
      · simp [rowPixels]
  | succ w ih =>
      rw [List.range_succ, List.foldl_append]
      exact drawColumn_at ih

end

/-! ## A bitmap -/

/-- The points of the first rows of a bitmap at `p`. -/
def glyphPixels (mem : Memory) (x y p : BitVec 32) (w h : Nat) : List Point :=
  (List.range h).flatMap fun j => rowPixels mem x y (p + BitVec.ofNat 32 (j * ((w + 7) / 8))) j w

/-- The loops read the bytes of the rows one after the other. -/
theorem drawGlyph_eq (w h : Nat) (s : Scan) :
    (drawGlyph mem x y w h s).p = s.p + BitVec.ofNat 32 (h * ((w + 7) / 8)) ∧
    (drawGlyph mem x y w h s).reads = s.reads ++ addressesFrom s.p (h * ((w + 7) / 8)) ∧
    (drawGlyph mem x y w h s).plots = s.plots ++ glyphPixels mem x y s.p w h := by
  unfold drawGlyph
  induction h with
  | zero => simp [addressesFrom, glyphPixels]
  | succ h ih =>
      obtain ⟨pointer, reads, plots⟩ := ih
      rw [List.range_succ, List.foldl_append, List.foldl_cons, List.foldl_nil]
      have row : AtColumn mem x y _ h _ w _ := drawRow_at w h ((List.range h).foldl (drawRow mem x y w) s)
      refine ⟨?_, ?_, ?_⟩
      · rw [row.pointer, pointer, Nat.succ_mul, BitVec.ofNat_add, BitVec.add_assoc]
      · rw [row.reads, reads, pointer, Nat.succ_mul, addressesFrom_add, List.append_assoc]
      · rw [row.plots, plots, pointer, glyphPixels, glyphPixels, List.range_succ, List.flatMap_append,
          List.flatMap_singleton, List.append_assoc]

end

theorem print_reads (mem : Memory) (x y pFont p : BitVec 32) :
    (print mem x y pFont p).reads = addressesFrom p (mem.glyphBytes pFont) :=
  (drawGlyph_eq _ _ ⟨p, 0, [], []⟩).2.1

theorem print_plots (mem : Memory) (x y pFont p : BitVec 32) :
    (print mem x y pFont p).plots = glyphPixels mem x y p (mem.width pFont).toNat (mem.height pFont).toNat :=
  (drawGlyph_eq _ _ ⟨p, 0, [], []⟩).2.2

/-! ## What is to be drawn -/

namespace KanjiFont

variable {mem : Memory} {pFont : BitVec 32} (font : KanjiFont mem pFont)

/-- Bit `i` of row `j` of a bitmap, the most significant bit first. -/
def bit (n j i : Nat) : Bool :=
  (mem (BitVec.ofNat 32 (font.glyphAt n + j * mem.rowBytes pFont + i / 8))).getMsbD (i % 8)

/-- The points of a bitmap, row by row. -/
def pixels (x y : BitVec 32) (n : Nat) : List Point :=
  (List.range (mem.height pFont).toNat).flatMap fun j =>
    ((List.range (mem.width pFont).toNat).filter (font.bit n j)).map (glyphPoint x y j)

/-- A code of the font. -/
def Has (c : Nat) : Prop := ∃ r ∈ font.table, r.Contains c

instance (c : Nat) : Decidable (font.Has c) := inferInstanceAs (Decidable (∃ r ∈ font.table, r.Contains c))

theorem assigned_isSome_iff (c : Nat) : (font.assigned c).isSome = true ↔ font.Has c ∨ font.Has fontxReplaceKanji := by
  have found (c : Nat) : index font.table c ≠ none ↔ font.Has c := by
    rw [Ne, index_eq_none_iff]
    simp [Has]
  rw [← found c, ← found fontxReplaceKanji, assigned]
  cases index font.table c with
  | none => simp [Option.isSome_iff_ne_none]
  | some n => simp

end KanjiFont

/-- What drawing a character of two bytes must do: it reads only bytes of the bitmap that the font assigns to the
code, none through a null pointer, and plots the points of the bits that are set. -/
structure PutcharMeets {mem : Memory} {tops : FontTops} (font : KanjiFont mem tops.kanji) (x y : BitVec 32)
    (c : BitVec 16) : Prop where
  reads : ∀ a ∈ (ndGsEglPutcharFont mem tops x y c).reads, ∃ n ∈ font.assigned c.toNat,
    ∃ k < mem.glyphBytes tops.kanji, a.toNat = font.glyphAt n + k
  pointer : (ndGsEglPutcharFont mem tops x y c).reads ≠ [] → kanjiPointer mem c tops.kanji ≠ 0
  plots : (ndGsEglPutcharFont mem tops x y c).plots = ((font.assigned c.toNat).map (font.pixels x y)).getD []

/-! ## The pointer -/

section
variable {mem : Memory} {pFont : BitVec 32} (font : KanjiFont mem pFont)

/-- The pointer is that of the bitmap, or null: the second lookup is not looked at. -/
theorem kanjiPointer_eq (c : BitVec 16) (filled : 0 < mem.glyphBytes pFont) : kanjiPointer mem c pFont =
    match font.assigned c.toNat with
    | some n => BitVec.ofNat 32 (font.glyphAt n)
    | none => 0 := by
  have code : c.setWidth 32 = BitVec.ofNat 32 c.toNat := (BitVec.ofNat_toNat 32 c).symm
  unfold kanjiPointer KanjiFont.assigned
  rw [code, putkanji_eq font c.isLt, putkanji_eq font (by decide)]
  cases found : index font.table c.toNat with
  | none => exact if_pos rfl
  | some n => exact if_neg (font.glyphAt_ne_zero found filled)

end

/-! ## One character -/

theorem putcharFont_double (mem : Memory) {tops : FontTops} (x y : BitVec 32) {c : BitVec 16}
    (present : tops.kanji ≠ 0) (double : 0xff < c) :
    ndGsEglPutcharFont mem tops x y c = print mem x y tops.kanji (kanjiPointer mem c tops.kanji) := by
  have wide : ¬ c ≤ 0xff := by
    rw [BitVec.le_def]
    rw [BitVec.lt_def] at double
    omega
  rw [ndGsEglPutcharFont, if_neg wide, if_neg present]

section
variable {mem : Memory} {tops : FontTops} (font : KanjiFont mem tops.kanji) (x y : BitVec 32) {c : BitVec 16}

theorem glyphPixels_eq (n : Nat) :
    glyphPixels mem x y (BitVec.ofNat 32 (font.glyphAt n)) (mem.width tops.kanji).toNat (mem.height tops.kanji).toNat =
      font.pixels x y n := by
  have same (j : Nat) :
      bitAt mem (BitVec.ofNat 32 (font.glyphAt n) + BitVec.ofNat 32 (j * mem.rowBytes tops.kanji)) = font.bit n j := by
    funext i
    rw [bitAt, KanjiFont.bit, BitVec.ofNat_add, BitVec.ofNat_add]
  unfold glyphPixels rowPixels KanjiFont.pixels
  simp only [← same]
  rfl

/-- A bitmap without a bit. -/
theorem meets_empty (double : 0xff < c) (empty : mem.width tops.kanji = 0 ∨ mem.height tops.kanji = 0) :
    PutcharMeets font x y c := by
  have size : mem.glyphBytes tops.kanji = 0 := (glyphBytes_eq_zero_iff mem tops.kanji).mpr empty
  have drawn := putcharFont_double mem x y font.present double
  have reads : (ndGsEglPutcharFont mem tops x y c).reads = [] := by
    rw [drawn, print_reads, size]
    rfl
  have blank (p : BitVec 32) :
      glyphPixels mem x y p (mem.width tops.kanji).toNat (mem.height tops.kanji).toNat = [] := by
    unfold glyphPixels rowPixels
    rcases empty with flat | low
    · rw [flat]
      simp
    · rw [low]
      rfl
  refine ⟨?_, fun wrong => absurd reads wrong, ?_⟩
  · rw [reads]
    intro a listed
    cases listed
  · rw [drawn, print_plots, blank]
    cases font.assigned c.toNat with
    | none => rfl
    | some n => exact (blank _).symm.trans (glyphPixels_eq font x y n)

/-- A bitmap of the font. -/
theorem meets_assigned (double : 0xff < c) (filled : 0 < mem.glyphBytes tops.kanji) {n : Nat}
    (assigned : font.assigned c.toNat = some n) : PutcharMeets font x y c := by
  have pointer := kanjiPointer_eq font c filled
  rw [assigned] at pointer
  have drawn := putcharFont_double mem x y font.present double
  obtain ⟨_, found⟩ := font.exists_index assigned
  refine ⟨?_, fun _ => ?_, ?_⟩
  · intro a read
    rw [drawn, print_reads, pointer] at read
    obtain ⟨k, inside, rfl⟩ := List.mem_map.mp read
    have below := List.mem_range.mp inside
    refine ⟨n, assigned, k, below, ?_⟩
    rw [← BitVec.ofNat_add, font.toNat_glyphAt found below]
  · rw [pointer]
    exact font.glyphAt_ne_zero found filled
  · rw [drawn, print_plots, pointer, glyphPixels_eq, assigned]
    rfl

/-- No bitmap: the first byte read is that at address 0. -/
theorem not_meets_missing (double : 0xff < c) (filled : 0 < mem.glyphBytes tops.kanji)
    (assigned : font.assigned c.toNat = none) : ¬ PutcharMeets font x y c := by
  intro meets
  have drawn := putcharFont_double mem x y font.present double
  have pointer := kanjiPointer_eq font c filled
  rw [assigned] at pointer
  have first : (0 : BitVec 32) ∈ (ndGsEglPutcharFont mem tops x y c).reads := by
    rw [drawn, print_reads, pointer]
    exact List.mem_map.mpr ⟨0, List.mem_range.mpr filled, rfl⟩
  obtain ⟨n, listed, -⟩ := meets.reads 0 first
  rw [assigned] at listed
  cases listed

end

/-- A character of two bytes is drawn as it should be if and only if the font has its code or the replacement
character, or its bitmaps are empty. -/
theorem putcharFont_meets_iff {mem : Memory} {tops : FontTops} (font : KanjiFont mem tops.kanji) (x y : BitVec 32)
    {c : BitVec 16} (double : 0xff < c) : PutcharMeets font x y c ↔
      font.Has c.toNat ∨ font.Has fontxReplaceKanji ∨ mem.width tops.kanji = 0 ∨ mem.height tops.kanji = 0 := by
  rw [← or_assoc, ← font.assigned_isSome_iff]
  rw [← glyphBytes_eq_zero_iff]
  by_cases empty : mem.glyphBytes tops.kanji = 0
  · have nothing := (glyphBytes_eq_zero_iff mem tops.kanji).mp empty
    exact iff_of_true (meets_empty font x y double nothing) (.inr empty)
  · have filled := Nat.pos_of_ne_zero empty
    cases assigned : font.assigned c.toNat with
    | none =>
        refine iff_of_false (not_meets_missing font x y double filled assigned) ?_
        rintro (wrong | wrong)
        · cases wrong
        · exact empty wrong
    | some n => exact iff_of_true (meets_assigned font x y double filled assigned) (.inl rfl)

/-! ## A font of one character -/

/-- A font of one character of eight columns and one row, at the address 0x100. -/
def starFont : Memory := fun a =>
  if a.toNat < 0x100 then 0
  else
    [0x46, 0x4f, 0x4e, 0x54, 0x58, 0x32, 0x53, 0x54, 0x41, 0x52, 0x20, 0x20, 0x20, 0x20, 8, 1, 1, 1,
      0x9a, 0x81, 0x9a, 0x81, 0x3c].getD (a.toNat - 0x100) 0

def starTops : FontTops := ⟨0, 0x100⟩

def starFontWellFormed : KanjiFont starFont starTops.kanji where
  table := [⟨0x819a, 0x819a, Nat.le_refl _⟩]
  length := by decide
  entries := by
    intro i r listed
    rcases i with _ | i
    · obtain rfl := Option.some.inj listed
      decide
    · cases listed
  present := by decide
  bitmaps := by decide

theorem putcharFont_meets_star : PutcharMeets starFontWellFormed 0 0 0x819a :=
  (putcharFont_meets_iff starFontWellFormed 0 0 (by decide)).mpr (.inl (by decide))

/-- A code that the font does not have: the byte at address 0 is read as its bitmap. -/
theorem putcharFont_replaced : (ndGsEglPutcharFont starFont starTops 0 0 0x889f).reads = [0] ∧
    ¬ PutcharMeets starFontWellFormed 0 0 0x889f :=
  ⟨by decide, not_meets_missing starFontWellFormed 0 0 (by decide) (by decide) (by decide)⟩

end Cineraria.Draw
