import Mathlib.Tactic.Ring
import Cineraria.Bmp.Picture

/-!
# Damaged pictures

`f_read` reports the end of a file as success with a smaller count, and `loadbmp` does not look at the count of a
row. When the header is too short it goes on with what is on the stack. The width and the height are taken from the
low halves of their fields, the rows are looked for from offset 54 on, and the last one of them first. What is
written is therefore not always what the file says (`loadbmp_meets_iff`).
-/

namespace Cineraria.Bmp

open Bytes Draw
open Wav (Fil)

/-! ## What the header says -/

/-- The value of a signed field of 32 bits. -/
def signed32 (field : Nat) : Int := if field < 2 ^ 31 then field else field - 2 ^ 32

/-- The width that the header gives. -/
def headerWidth (content : List (BitVec 8)) : Int := signed32 (field32 content 18)

/-- The height that the header gives. It is negative if the first row is the upper one. -/
def headerHeight (content : List (BitVec 8)) : Int := signed32 (field32 content 22)

/-- The number of a row in the file. -/
def rowNumber (content : List (BitVec 8)) (y : Nat) : Nat :=
  if 0 < headerHeight content then (headerHeight content).natAbs - 1 - y else y

/-- The offset `p` is the one that the header gives for a pixel. -/
structure Placed (content : List (BitVec 8)) (x y p : Nat) : Prop where
  bits : field16 content 28 = 16 ∨ field16 content 28 = 24 ∨ field16 content 28 = 32
  column : x < headerWidth content
  row : y < (headerHeight content).natAbs
  place : p = field32 content 10 +
    stride (headerWidth content).natAbs (field16 content 28) * rowNumber content y + x * (field16 content 28 / 8)

/-- A write puts a pixel of the file where the header places it. -/
def RightWrite (content : List (BitVec 8)) (w : Write) : Prop :=
  ∃ x y p, InWindow (x : Nat) (y : Nat) ∧ Placed content x y p ∧ w.index = pixelAt x y ∧
    p + usedBytes (field16 content 28 / 8) ≤ content.length ∧
    w.bytes = (List.range (usedBytes (field16 content 28 / 8))).map (fun i => fresh content (p + i)) ∧
    w.value = converted content (field16 content 28) p

/-- What a call must do with any file. -/
def LoadbmpMeets (file : Option (List (BitVec 8))) (l : Loaded) : Prop :=
  l.ret < 0 ∨
    l.ret = 0 ∧ (∀ s, l.sizes = some s → s.read = true) ∧
      ∀ w ∈ l.writes, ∃ content, file = some content ∧ RightWrite content w

/-! ## When it does -/

/-- A row is where the loader looks for it, and all that it needs of it is there. -/
structure RowFits (content : List (BitVec 8)) (y : Nat) : Prop where
  placed : Placed content 0 y (rowPlace content y % 2 ^ 32)
  inside : rowPlace content y % 2 ^ 32 + stepOf content * (columns content - 1) + usedBytes (stepOf content) ≤
    content.length

/-- The header of the file is there, and each row that is drawn fits. -/
def FileFits (file : Option (List (BitVec 8))) (headerFault : Option Nat) (faults : Nat → Option Nat) : Prop :=
  ∀ content, file = some content → headerFault = none ∧ 54 ≤ content.length ∧
    (Accepted content → 0 < columns content → ∀ y, Drawn content faults y → RowFits content y)

section
variable {content : List (BitVec 8)} {x x' y y' p p' : Nat}

theorem Placed.stride_pos (placed : Placed content x y p) :
    0 < stride (headerWidth content).natAbs (field16 content 28) := by
  have column := placed.column
  have wide : 1 ≤ (headerWidth content).natAbs := by omega
  unfold stride
  rcases placed.bits with bits | bits | bits
  all_goals rw [bits]
  all_goals omega

/-- No two rows begin at the same offset. -/
theorem Placed.row_eq (placed : Placed content x y p) (placed' : Placed content x y' p) : y = y' := by
  have positive := placed.stride_pos
  have same := placed.place.symm.trans placed'.place
  have row := placed.row
  have row' := placed'.row
  have number : rowNumber content y = rowNumber content y' := by
    apply Nat.eq_of_mul_eq_mul_left positive
    omega
  unfold rowNumber at number
  split at number
  · omega
  · exact number

/-- Along a row. -/
theorem Placed.along (placed : Placed content 0 y p) (column : x < headerWidth content) :
    Placed content x y p' ↔ p' = p + x * (field16 content 28 / 8) := by
  have place := placed.place
  rw [Nat.zero_mul, Nat.add_zero] at place
  rw [place]
  constructor
  · intro placed'
    exact placed'.place
  · intro same
    exact ⟨placed.bits, column, placed.row, same⟩

theorem Placed.step_eq (accepted : Accepted content) (placed : Placed content x y p) :
    field16 content 28 / 8 = stepOf content ∧ field16 content 28 = 8 * stepOf content := by
  have bits := placed.bits
  have depth := accepted.depth
  have high := byteAt_lt content 29
  unfold stepOf
  simp only [field16, Nat.reduceAdd] at *
  omega

theorem Placed.column_lt (placed : Placed content 0 y p) (column : x < columns content) :
    x < headerWidth content := by
  have positive := placed.column
  unfold headerWidth signed32 field32 columns at *
  split at positive
  · omega
  · have below := byteAt_lt content 18
    have below' := byteAt_lt content 19
    have below2 := byteAt_lt content 20
    have below3 := byteAt_lt content 21
    simp only [field16, Nat.reduceAdd] at *
    omega

end

/-! ## The row buffer -/

/-- What is in the row buffer is from the stack, or from the same place in an earlier row. -/
theorem rowBuffer_origin (content : List (BitVec 8)) (s : Sizes) (btr : Nat) (stack : Stack) (y j : Nat) :
    (rowBuffer content s btr stack.buffer y j).origin = none ∨
      ∃ y' < y, (rowBuffer content s btr stack.buffer y j).origin = some (rowStart content s y' + j) := by
  induction y with
  | zero => exact Or.inl rfl
  | succ y ih =>
      rw [rowBuffer_succ]
      split
      · exact Or.inr ⟨y, Nat.lt_succ_self y, rfl⟩
      · rcases ih with unread | ⟨y', before, origin⟩
        · exact Or.inl unread
        · exact Or.inr ⟨y', Nat.lt_succ_of_lt before, origin⟩

section
variable {content : List (BitVec 8)} {faults : Nat → Option Nat} {stack : Stack} {x y : Nat}

theorem inWindow_of_drawn (column : x < columns content) (drawn : Drawn content faults y) : InWindow x y := by
  have row := drawn.1
  unfold columns rows at *
  unfold InWindow windowXmax windowYmax
  omega

/-- Where a row is read from, if it is in the file. -/
theorem rowStart_eq (drawn : Drawn content faults y) (inside : rowPlace content y % 2 ^ 32 ≤ content.length) :
    rowStart content (sizesOf content) y = rowPlace content y % 2 ^ 32 := by
  have row : y < field16 content 22 := Nat.lt_of_lt_of_le drawn.1 (Nat.min_le_left _ _)
  rw [rowStart, toNat_rowOffset row]
  exact Nat.min_eq_left inside

/-- The pixels of a row that fits. -/
theorem RowFits.right (fits : RowFits content y) (accepted : Accepted content) (drawn : Drawn content faults y)
    (column : x < columns content) :
    RightWrite content (pixelWrite (stepOf content) (rowBytes content stack y) y x) := by
  obtain ⟨step, bits⟩ := fits.placed.step_eq accepted
  have inside := fits.inside
  have size := rowSize_eq accepted
  have within := pixel_within (usedBytes_le accepted) column
  have before : stepOf content * x ≤ stepOf content * (columns content - 1) := Nat.mul_le_mul_left _ (by omega)
  have start := rowStart_eq drawn (by omega)
  have read : ∀ i < usedBytes (stepOf content), rowBytes content stack y (stepOf content * x + i) =
      fresh content (rowPlace content y % 2 ^ 32 + stepOf content * x + i) := by
    intro i used
    rw [rowBytes, rowBuffer_succ, size.1, start, if_pos (by omega), Nat.add_assoc]
  obtain ⟨bytes, value⟩ := pixelWrite_fresh y read
  refine ⟨x, y, rowPlace content y % 2 ^ 32 + stepOf content * x, inWindow_of_drawn column drawn, ?_,
    pixelWrite_index _ _ y x, ?_, ?_, ?_⟩
  · rw [fits.placed.along (fits.placed.column_lt column), step, Nat.mul_comm x]
  · rw [step]
    omega
  · rw [step]
    exact bytes
  · rw [bits]
    exact value

/-- What a right pixel says about the row buffer. -/
theorem RightWrite.placed {buffer : Nat → Byte} (right : RightWrite content (pixelWrite (stepOf content) buffer y x))
    (inWindow : InWindow x y) :
    ∃ p, Placed content x y p ∧ p + usedBytes (field16 content 28 / 8) ≤ content.length ∧
      buffer (stepOf content * x) = fresh content p := by
  obtain ⟨x', y', p, inWindow', placed, index, inside, bytes, _⟩ := right
  rw [pixelWrite_index] at index
  obtain ⟨column, row⟩ := pixelAt_injective inWindow inWindow' index
  rw [Int.natCast_inj] at column row
  rw [← column, ← row] at placed
  refine ⟨p, placed, inside, ?_⟩
  have first := congrArg List.head? bytes
  rw [pixelWrite_first] at first
  unfold usedBytes at first
  split at first
  · exact Option.some.inj first
  · exact Option.some.inj first

/-- The first pixel of a row. The rows before it have been read from other places. -/
theorem start_eq {p : Nat} (drawn : Drawn content faults y) (placed : Placed content 0 y p)
    (read : rowBytes content stack y 0 = fresh content p)
    (earlier : ∀ y' < y, Placed content 0 y' (rowStart content (sizesOf content) y')) :
    p = rowPlace content y % 2 ^ 32 := by
  have row : y < field16 content 22 := Nat.lt_of_lt_of_le drawn.1 (Nat.min_le_left _ _)
  unfold rowBytes at read
  rw [rowBuffer_succ] at read
  split at read
  · next inside =>
      have same : rowStart content (sizesOf content) y + 0 = p := Option.some.inj (congrArg Byte.origin read)
      rw [rowStart, toNat_rowOffset row] at same inside
      omega
  · have origin := congrArg Byte.origin read
    rcases rowBuffer_origin content (sizesOf content) (rowSize (columns content) (stepOf content)) stack y 0 with
      unread | ⟨y', before, stale⟩
    · rw [unread] at origin
      exact absurd origin (Option.some_ne_none p).symm
    · rw [stale] at origin
      have same : rowStart content (sizesOf content) y' + 0 = p := Option.some.inj origin
      have placed' := earlier y' before
      rw [← Nat.add_zero (rowStart content (sizesOf content) y'), same] at placed'
      exact absurd (placed'.row_eq placed) (Nat.ne_of_lt before)

/-- Rows whose pixels are right. -/
theorem rowFits_of_right (stack : Stack) (accepted : Accepted content) (wide : 0 < columns content)
    (right : ∀ y, Drawn content faults y → ∀ x < columns content,
      RightWrite content (pixelWrite (stepOf content) (rowBytes content stack y) y x))
    (drawn : Drawn content faults y) : RowFits content y := by
  induction y using Nat.strong_induction_on with
  | _ y ih =>
      obtain ⟨p, placed, within, read⟩ := (right y drawn 0 wide).placed (inWindow_of_drawn wide drawn)
      have last : columns content - 1 < columns content := by omega
      obtain ⟨p', placed', inside, _⟩ := (right y drawn _ last).placed (inWindow_of_drawn last drawn)
      obtain ⟨step, _⟩ := placed.step_eq accepted
      rw [step] at within inside
      have start : p = rowPlace content y % 2 ^ 32 := by
        apply start_eq drawn placed read
        intro y' before
        have drawn' : Drawn content faults y' :=
          ⟨Nat.lt_trans before drawn.1, fun j after upTo => drawn.2 j after (by omega)⟩
        have fits := ih y' before drawn'
        have inside' := fits.inside
        rw [rowStart_eq drawn' (by omega)]
        exact fits.placed
      rw [placed.along placed'.column, step, Nat.mul_comm _ (stepOf content)] at placed'
      constructor
      · rw [← start]
        exact placed
      · rw [← start, ← placed']
        exact inside

end

/-! ## Every file -/

/-- A header that is not all there. -/
theorem loadbmp_short {content : List (BitVec 8)} {headerFault : Option Nat} (faults : Nat → Option Nat)
    (stack : Stack) (short : ¬ (headerFault = none ∧ 54 ≤ content.length)) :
    (loadbmp (some content) headerFault faults stack).ret = 0 ∧
      (loadbmp (some content) headerFault faults stack).sizes = some stack.sizes := by
  have missing := mt (Wav.fRead_header headerFault content 54).mp short
  constructor
  · unfold loadbmp
    dsimp only
    rw [if_neg missing]
  · unfold loadbmp
    dsimp only
    rw [if_neg missing]

/-- A header that is accepted. -/
theorem loadbmp_meets_accepted {content : List (BitVec 8)} (faults : Nat → Option Nat) (stack : Stack)
    (long : 54 ≤ content.length) (accepted : Accepted content) :
    LoadbmpMeets (some content) (loadbmp (some content) none faults stack) ↔
      (0 < columns content → ∀ y, Drawn content faults y → RowFits content y) := by
  obtain ⟨fp, _, loaded⟩ := loadbmp_accepted faults stack long accepted
  have mem := mem_writes faults stack long accepted
  constructor
  · intro meets wide y drawn
    rcases meets with failed | ⟨_, _, writes⟩
    · rw [loaded] at failed
      exact absurd failed (Int.lt_irrefl 0)
    · apply rowFits_of_right stack accepted wide _ drawn
      intro y drawn x column
      obtain ⟨found, same, right⟩ := writes _ ((mem _).mpr ⟨y, drawn, x, column, rfl⟩)
      obtain rfl := Option.some.inj same
      exact right
  · intro fits
    refine Or.inr ⟨by rw [loaded], ?_, ?_⟩
    · intro s sizes
      rw [loaded] at sizes
      rw [← Option.some.inj sizes]
      rfl
    · intro w listed
      obtain ⟨y, drawn, x, column, rfl⟩ := (mem w).mp listed
      exact ⟨content, rfl, (fits (by omega) y drawn).right accepted drawn column⟩

/-- A header that is not all there: the loader goes on with what is on the stack. -/
theorem not_meets_short {content : List (BitVec 8)} {headerFault : Option Nat} (faults : Nat → Option Nat)
    (stack : Stack) (short : ¬ (headerFault = none ∧ 54 ≤ content.length)) :
    ¬ LoadbmpMeets (some content) (loadbmp (some content) headerFault faults stack) := by
  obtain ⟨ret, sizes⟩ := loadbmp_short faults stack short
  rintro (failed | ⟨_, read, _⟩)
  · omega
  · exact Bool.false_ne_true (read _ sizes)

theorem fileFits_some {content : List (BitVec 8)} {headerFault : Option Nat} {faults : Nat → Option Nat} :
    FileFits (some content) headerFault faults ↔ headerFault = none ∧ 54 ≤ content.length ∧
      (Accepted content → 0 < columns content → ∀ y, Drawn content faults y → RowFits content y) := by
  constructor
  · intro fits
    exact fits content rfl
  · intro fits found same
    rw [← Option.some.inj same]
    exact fits

/-- Which files are loaded as they should be. -/
theorem loadbmp_meets_iff (file : Option (List (BitVec 8))) (headerFault : Option Nat) (faults : Nat → Option Nat)
    (stack : Stack) :
    LoadbmpMeets file (loadbmp file headerFault faults stack) ↔ FileFits file headerFault faults := by
  cases file with
  | none =>
      apply iff_of_true (Or.inl (by decide : (-1 : Int) < 0))
      intro content found
      exact absurd found (Option.some_ne_none content).symm
  | some content =>
      rw [fileFits_some]
      by_cases complete : headerFault = none ∧ 54 ≤ content.length
      · obtain ⟨rfl, long⟩ := complete
        by_cases accepted : Accepted content
        · rw [loadbmp_meets_accepted faults stack long accepted]
          constructor
          · intro fits
            exact ⟨rfl, long, fun _ => fits⟩
          · intro fits
            exact fits.2.2 accepted
        · apply iff_of_true (Or.inl (loadbmp_refused faults stack long accepted))
          exact ⟨rfl, long, fun accepted' => absurd accepted' accepted⟩
      · apply iff_of_false (not_meets_short faults stack complete)
        intro fits
        exact complete ⟨fits.1, fits.2.1⟩

/-- With the usual header and an undisturbed disk, the rows must begin at offset 54, and the last row of the file must
be there, as far as it is shown. -/
theorem Upright.fits_iff {content : List (BitVec 8)} (upright : Upright content) (long : 54 ≤ content.length) :
    FileFits (some content) none (fun _ => none) ↔
      field32 content 10 = 54 ∧ rowPlace content 0 < 2 ^ 32 ∧
        rowPlace content 0 + stepOf content * (columns content - 1) + usedBytes (stepOf content) ≤ content.length := by
  have width := upright.width
  have height := upright.height
  have wide : headerWidth content = field32 content 18 := if_pos (by omega)
  have high : headerHeight content = field32 content 22 := if_pos (by omega)
  have column : 0 < columns content := by
    rw [columns, upright.width_eq]
    omega
  have row : 0 < rows content := by
    rw [rows, upright.height_eq]
    omega
  have number : ∀ y, rowNumber content y = field32 content 22 - 1 - y := by
    intro y
    rw [rowNumber, high, if_pos (by omega), Int.natAbs_natCast]
  have place := upright.rowPlace_eq
  rw [fileFits_some]
  constructor
  · rintro ⟨_, _, rows⟩
    obtain ⟨placed, inside⟩ := rows upright.accepted column 0 ⟨row, fun _ _ _ => rfl⟩
    have same := placed.place
    have first := place 0
    rw [wide, Int.natAbs_natCast, number, Nat.zero_mul, Nat.add_zero] at same
    omega
  · rintro ⟨offBits, small, inside⟩
    refine ⟨rfl, long, ?_⟩
    intro _ _ y drawn
    have before : y < field32 content 22 := by
      rw [← upright.height_eq]
      exact Nat.lt_of_lt_of_le drawn.1 (Nat.min_le_left _ _)
    have above : rowPlace content y ≤ rowPlace content 0 := by
      rw [place, place]
      apply Nat.add_le_add_left
      apply Nat.mul_le_mul_left
      omega
    have exact : rowPlace content y % 2 ^ 32 = rowPlace content y := Nat.mod_eq_of_lt (by omega)
    constructor
    · rw [exact]
      refine ⟨upright.bits, by rw [wide]; omega, by rw [high, Int.natAbs_natCast]; exact before, ?_⟩
      rw [place, offBits, wide, Int.natAbs_natCast, number, Nat.zero_mul, Nat.add_zero]
    · rw [exact]
      omega

/-- An empty file is loaded with whatever the stack holds. -/
theorem loadbmp_empty :
    ¬ LoadbmpMeets (some []) (loadbmp (some []) none (fun _ => none) clearStack) := by
  apply not_meets_short
  rintro ⟨_, long⟩
  exact absurd long (by decide)

end Cineraria.Bmp
