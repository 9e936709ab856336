import Cineraria.Draw.PutstrFont
import Cineraria.Lib.RangeTable

/-!
# The bitmap of a character

`nd_lib/nd_egl.c`: the FONTX fonts, and the functions that find a bitmap in them. `nd_GsEglFontx_putkanji` goes
through the ranges of the code table and adds up the sizes of their bitmaps. The variable `i` is -1 when it has
found the code, and else the number of the ranges.
-/

namespace Cineraria.Draw

open RangeTable

/-- The memory of the CPU. -/
abbrev Memory := BitVec 32 → BitVec 8

namespace Memory

/-- An `nd_u16`. -/
def halfword (mem : Memory) (p : BitVec 32) : BitVec 16 := mem (p + 1) ++ mem p

/-! ## The headers -/

section
variable (mem : Memory) (pFont : BitVec 32)

/-- `pFont->width`, the same in both headers. -/
def width : BitVec 8 := mem (pFont + 14)

/-- `pFont->height`, the same in both headers. -/
def height : BitVec 8 := mem (pFont + 15)

/-- `pFont->tnum` -/
def tnum : BitVec 8 := mem (pFont + 17)

/-- `pFont->codetable[i].begin` -/
def codeBegin (i : Nat) : BitVec 16 := mem.halfword (pFont + 18 + BitVec.ofNat 32 (4 * i))

/-- `pFont->codetable[i].end` -/
def codeEnd (i : Nat) : BitVec 16 := mem.halfword (pFont + 20 + BitVec.ofNat 32 (4 * i))

/-- The variable `csize` of both functions. -/
def csize : BitVec 32 := ((mem.width pFont).setWidth 32 + 7).sshiftRight 3 * (mem.height pFont).setWidth 32

/-- The bytes of a row of a bitmap. -/
def rowBytes : Nat := ((mem.width pFont).toNat + 7) / 8

/-- The bytes of a bitmap. -/
def glyphBytes : Nat := (mem.height pFont).toNat * mem.rowBytes pFont

end

end Memory

/-! ## The lookups -/

/-- The loop of `nd_GsEglFontx_putkanji`, for the number of ranges that are left: `i` and `pKanji` behind it. -/
def putkanjiLoop (mem : Memory) (kcode pFont csize : BitVec 32) : Nat → Nat → BitVec 32 → Int × BitVec 32
  | 0, i, pKanji => (i, pKanji)
  | left + 1, i, pKanji =>
      let cb := (mem.codeBegin pFont i).setWidth 32
      let ce := (mem.codeEnd pFont i).setWidth 32
      if cb.toInt ≤ kcode.toInt ∧ kcode.toInt ≤ ce.toInt then (-1, pKanji + (kcode - cb) * csize)
      else putkanjiLoop mem kcode pFont csize left (i + 1) (pKanji + (ce - cb + 1) * csize)

/-- `nd_GsEglFontx_putkanji` -/
def ndGsEglFontxPutkanji (mem : Memory) (kcode pFont : BitVec 32) : BitVec 32 :=
  let pKanji := pFont + ((mem.tnum pFont).setWidth 32 <<< 2) + 18
  let (i, pKanji) := putkanjiLoop mem kcode pFont (mem.csize pFont) (mem.tnum pFont).toNat 0 pKanji
  if i ≥ 0 then 0 else pKanji

/-- `nd_GsEglFontx_ascii` -/
def ndGsEglFontxAscii (mem : Memory) (acode pFont : BitVec 32) : BitVec 32 := pFont + 17 + acode * mem.csize pFont

/-- `nd_FONTX_REPLACE_KANJI` -/
def fontxReplaceKanji : Nat := 0x81a0

/-! ## Fonts of two-byte characters -/

/-- A well-formed font in the memory: the ranges of its code table, with the bitmaps of all of them behind it. -/
structure KanjiFont (mem : Memory) (pFont : BitVec 32) where
  table : List CodeRange
  length : table.length = (mem.tnum pFont).toNat
  entries : ∀ i r, table[i]? = some r →
    (mem.codeBegin pFont i).toNat = r.first ∧ (mem.codeEnd pFont i).toNat = r.last
  present : pFont ≠ 0
  bitmaps : pFont.toNat + 18 + 4 * table.length + total table * mem.glyphBytes pFont ≤ 4294967296

namespace KanjiFont

variable {mem : Memory} {pFont : BitVec 32}

/-- The address of a bitmap. -/
def glyphAt (font : KanjiFont mem pFont) (n : Nat) : Nat :=
  pFont.toNat + 18 + 4 * font.table.length + n * mem.glyphBytes pFont

/-- The number of the bitmap for a code: its own, or that of the replacement character. -/
def assigned (font : KanjiFont mem pFont) (c : Nat) : Option Nat :=
  match index font.table c with
  | some n => some n
  | none => index font.table fontxReplaceKanji

theorem exists_index (font : KanjiFont mem pFont) {c n : Nat} (assigned : font.assigned c = some n) :
    ∃ c', index font.table c' = some n := by
  unfold KanjiFont.assigned at assigned
  cases found : index font.table c with
  | none =>
      rw [found] at assigned
      exact ⟨fontxReplaceKanji, assigned⟩
  | some m =>
      rw [found] at assigned
      exact ⟨c, found.trans assigned⟩

/-- A bitmap lies in the memory. -/
theorem glyphAt_le (font : KanjiFont mem pFont) {c n : Nat} (found : index font.table c = some n) :
    font.glyphAt n + mem.glyphBytes pFont ≤ 4294967296 := by
  have before := Nat.mul_le_mul_right (mem.glyphBytes pFont) (index_lt_total found)
  rw [Nat.succ_mul] at before
  have bitmaps := font.bitmaps
  unfold glyphAt
  omega

/-- Its address is that of its first byte, and not the null pointer, if it has a byte. -/
theorem toNat_glyphAt (font : KanjiFont mem pFont) {c n k : Nat} (found : index font.table c = some n)
    (within : k < mem.glyphBytes pFont) :
    (BitVec.ofNat 32 (font.glyphAt n + k)).toNat = font.glyphAt n + k := by
  have bound := font.glyphAt_le found
  rw [BitVec.toNat_ofNat, Nat.mod_eq_of_lt (by omega)]

theorem glyphAt_ne_zero (font : KanjiFont mem pFont) {c n : Nat} (found : index font.table c = some n)
    (filled : 0 < mem.glyphBytes pFont) : BitVec.ofNat 32 (font.glyphAt n) ≠ 0 := by
  intro null
  have place : (BitVec.ofNat 32 (font.glyphAt n)).toNat = font.glyphAt n := font.toNat_glyphAt found filled
  rw [null, glyphAt] at place
  have zero : (0 : BitVec 32).toNat = 0 := rfl
  omega

end KanjiFont

/-- The bitmaps are empty if and only if they have no columns or no rows. -/
theorem glyphBytes_eq_zero_iff (mem : Memory) (pFont : BitVec 32) :
    mem.glyphBytes pFont = 0 ↔ mem.width pFont = 0 ∨ mem.height pFont = 0 := by
  have zero (b : BitVec 8) : b = 0 ↔ b.toNat = 0 := BitVec.toNat_inj.symm
  rw [Memory.glyphBytes, Memory.rowBytes, Nat.mul_eq_zero, zero, zero]
  omega

/-! ## What the lookups find -/

section
variable {mem : Memory} {pFont : BitVec 32} {c : Nat}

theorem toInt_code (small : c < 65536) : (BitVec.ofNat 32 c).toInt = c := by
  have value : (BitVec.ofNat 32 c).toNat = c := by
    rw [BitVec.toNat_ofNat]
    exact Nat.mod_eq_of_lt (by omega)
  rw [BitVec.toInt_eq_toNat_of_lt (by omega), value]

theorem csize_eq (mem : Memory) (pFont : BitVec 32) : mem.csize pFont = BitVec.ofNat 32 (mem.glyphBytes pFont) := by
  have rounded : ∀ w : BitVec 8, (w.setWidth 32 + 7).sshiftRight 3 = BitVec.ofNat 32 ((w.toNat + 7) / 8) := by decide
  rw [Memory.csize, rounded, Memory.glyphBytes, Memory.rowBytes, Nat.mul_comm, BitVec.ofNat_mul, BitVec.ofNat_toNat]

/-- The comparisons of the loop tell whether the code is in the range. -/
theorem inRange_iff (small : c < 65536) {r : CodeRange} (last_lt : r.last < 65536) :
    (BitVec.ofNat 32 r.first).toInt ≤ (BitVec.ofNat 32 c).toInt ∧
      (BitVec.ofNat 32 c).toInt ≤ (BitVec.ofNat 32 r.last).toInt ↔ r.Contains c := by
  have ordered := r.ordered
  rw [toInt_code small, toInt_code (by omega), toInt_code last_lt, Int.ofNat_le, Int.ofNat_le]
  rfl

/-- The bytes of the bitmaps of a range, as the loop computes them. -/
theorem rangeBytes_eq (r : CodeRange) (last_lt : r.last < 65536) (size : Nat) :
    (BitVec.ofNat 32 r.last - BitVec.ofNat 32 r.first + 1) * BitVec.ofNat 32 size = BitVec.ofNat 32 (r.size * size) := by
  have first_lt : r.first < 2 ^ 32 := lt_of_le_of_lt r.ordered (by omega)
  rw [BitVec.ofNat_sub_ofNat_of_le _ _ first_lt r.ordered, BitVec.ofNat_mul, CodeRange.size, BitVec.ofNat_add]
  rfl

/-- The loop adds the sizes of the bitmaps before that of the code. -/
theorem putkanjiLoop_eq (small : c < 65536) (size : Nat) (rest : List CodeRange) (i : Nat)
    (entries : ∀ k r, rest[k]? = some r →
      (mem.codeBegin pFont (i + k)).toNat = r.first ∧ (mem.codeEnd pFont (i + k)).toNat = r.last) (p : BitVec 32) :
    putkanjiLoop mem (BitVec.ofNat 32 c) pFont (BitVec.ofNat 32 size) rest.length i p =
      match index rest c with
      | some n => (-1, p + BitVec.ofNat 32 (n * size))
      | none => ((i + rest.length : Nat), p + BitVec.ofNat 32 (total rest * size)) := by
  induction rest generalizing i p with
  | nil =>
      rw [List.length_nil, putkanjiLoop, index, total]
      simp
  | cons r rest ih =>
      obtain ⟨first, last⟩ := entries 0 r rfl
      rw [Nat.add_zero] at first last
      have last_lt : r.last < 65536 := last ▸ (mem.codeEnd pFont i).isLt
      have onward : ∀ k q, rest[k]? = some q → (mem.codeBegin pFont (i + 1 + k)).toNat = q.first ∧
          (mem.codeEnd pFont (i + 1 + k)).toNat = q.last := by
        intro k q listed
        rw [Nat.add_assoc, Nat.add_comm 1 k]
        exact entries (k + 1) q listed
      have low : (mem.codeBegin pFont i).setWidth 32 = BitVec.ofNat 32 r.first := by
        rw [← first, BitVec.ofNat_toNat]
      have high : (mem.codeEnd pFont i).setWidth 32 = BitVec.ofNat 32 r.last := by
        rw [← last, BitVec.ofNat_toNat]
      rw [List.length_cons, putkanjiLoop]
      simp only [low, high, inRange_iff small last_lt]
      by_cases inside : r.Contains c
      · rw [if_pos inside, index_cons_inside inside]
        dsimp only
        rw [BitVec.ofNat_sub_ofNat_of_le _ _ (by omega) inside.1, BitVec.ofNat_mul]
      · rw [if_neg inside, ih (i + 1) onward, index_cons_outside inside, rangeBytes_eq r last_lt]
        cases found : index rest c with
        | none =>
            simp only [Option.map_none]
            rw [total, Nat.add_mul, BitVec.ofNat_add, BitVec.add_assoc, Nat.add_right_comm, Nat.add_assoc]
        | some n =>
            simp only [Option.map_some]
            rw [Nat.add_mul, BitVec.ofNat_add, BitVec.add_assoc]

variable (font : KanjiFont mem pFont)

/-- The lookup of a code that the font has. -/
theorem putkanji_eq (small : c < 65536) : ndGsEglFontxPutkanji mem (BitVec.ofNat 32 c) pFont =
    match index font.table c with
    | some n => BitVec.ofNat 32 (font.glyphAt n)
    | none => 0 := by
  have entriesSize : (mem.tnum pFont).setWidth 32 <<< 2 = BitVec.ofNat 32 (4 * font.table.length) := by
    have below := (mem.tnum pFont).isLt
    apply BitVec.eq_of_toNat_eq
    rw [font.length, BitVec.toNat_shiftLeft, BitVec.toNat_setWidth, BitVec.toNat_ofNat, Nat.shiftLeft_eq,
      Nat.mod_eq_of_lt (by omega : (mem.tnum pFont).toNat < 2 ^ 32), Nat.mul_comm]
  have bitmaps : pFont + (mem.tnum pFont).setWidth 32 <<< 2 + 18 =
      BitVec.ofNat 32 (pFont.toNat + 18 + 4 * font.table.length) := by
    rw [entriesSize, Nat.add_right_comm, BitVec.ofNat_add, BitVec.ofNat_add, BitVec.ofNat_toNat, BitVec.setWidth_eq]
    rfl
  have entries : ∀ k r, font.table[k]? = some r → (mem.codeBegin pFont (0 + k)).toNat = r.first ∧
      (mem.codeEnd pFont (0 + k)).toNat = r.last := by
    intro k r listed
    rw [Nat.zero_add]
    exact font.entries k r listed
  unfold ndGsEglFontxPutkanji
  dsimp only
  rw [bitmaps, csize_eq, ← font.length, putkanjiLoop_eq small _ font.table 0 entries]
  cases index font.table c with
  | none => exact if_pos (Int.natCast_nonneg _)
  | some n =>
      dsimp only
      rw [if_neg (by decide), ← BitVec.ofNat_add, KanjiFont.glyphAt]

end

end Cineraria.Draw
