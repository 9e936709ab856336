import Cineraria.Draw.Surface
import Cineraria.Lib.FixedWidth

/-!
# Drawing a string

`nd_lib/nd_egl.c`: `nd_GsEglPutstrFont` hands the characters of a string to `nd_GsEglPutcharFont`, one after the
other, until it comes to the terminator or the pen is beyond the right edge of the window. A character of two
bytes takes the byte after its lead byte without a test, so that a lead byte directly before the terminator takes
the terminator and the loop goes on behind it (`putstr_meets_iff`).
-/

namespace Cineraria.Draw

/-! ## The fonts -/

/-- The bytes of a FONTX font, from its header on. -/
abbrev Fontx := Nat → BitVec 8

/-- The header's `width`. -/
def Fontx.width (font : Fontx) : BitVec 8 := font 14

/-- The current fonts, if any. -/
structure Fonts where
  /-- `pFONTX_ascii_top` -/
  ascii : Option Fontx
  /-- `pFONTX_kanji_top` -/
  kanji : Option Fontx

/-- What `nd_GsEglPutcharFont` returns for a character: its width, or nothing without a font. -/
def putcharFontWidth (fonts : Fonts) (c : BitVec 16) : BitVec 32 :=
  match if c ≤ 0xff then fonts.ascii else fonts.kanji with
  | none => 0
  | some font => font.width.setWidth 32

/-! ## The loop -/

/-- A call of `nd_GsEglPutcharFont`. -/
structure Putchar where
  x : BitVec 32
  y : BitVec 32
  c : BitVec 16
  deriving DecidableEq, Repr

/-- The calls of `nd_GsEglPutstrFont`, and the bytes of the memory that it reads. -/
structure Putstr where
  calls : List Putchar
  reads : List Nat
  deriving DecidableEq, Repr

/-- One more call before the others. -/
def Putstr.cons (call : Putchar) (reads : List Nat) (rest : Putstr) : Putstr where
  calls := call :: rest.calls
  reads := reads ++ rest.reads

/-- The test for a lead byte. -/
def isLead (c : BitVec 16) : Bool := (0x81#16 ≤ c && c ≤ 0x9f#16) || (0xe0#16 ≤ c && c ≤ 0xff#16)

/-- The loop of `nd_GsEglPutstrFont` for a number of turns, if it ends in them. The memory is counted from the
first byte of the string. -/
def putstrLoop (fonts : Fonts) (memory : Nat → BitVec 8) (y : BitVec 32) : Nat → Nat → BitVec 32 → Option Putstr
  | 0, _, _ => none
  | turns + 1, p, x =>
      if memory p = 0 then some { calls := [], reads := [p] }
      else
        let first := (memory p).setWidth 16
        let c := if isLead first then (first <<< 8) ||| (memory (p + 1)).setWidth 16 else first
        let reads := if isLead first then [p, p + 1] else [p]
        let call : Putchar := { x := x, y := y, c := c }
        let x' := x + putcharFontWidth fonts c
        if windowXmax < x'.toInt then some { calls := [call], reads := reads }
        else (putstrLoop fonts memory y turns (p + reads.length) x').map (Putstr.cons call reads)

/-! ## Strings -/

/-- A terminated string in the memory from `p` on. -/
def StringAt (memory : Nat → BitVec 8) : Nat → List (BitVec 8) → Prop
  | p, [] => memory p = 0
  | p, b :: s => memory p = b ∧ b ≠ 0 ∧ StringAt memory (p + 1) s

/-- The first byte of a character of two bytes. -/
def LeadByte (b : BitVec 8) : Prop := 0x81 ≤ b.toNat ∧ b.toNat ≤ 0x9f ∨ 0xe0 ≤ b.toNat

instance (b : BitVec 8) : Decidable (LeadByte b) := inferInstanceAs (Decidable (_ ∧ _ ∨ _))

/-- The characters of a string. A lead byte at the end makes none. -/
def shiftJis : List (BitVec 8) → List (BitVec 16)
  | [] => []
  | [b] => if LeadByte b then [] else [0#8 ++ b]
  | b :: b' :: s => if LeadByte b then (b ++ b') :: shiftJis s else (0#8 ++ b) :: shiftJis (b' :: s)

/-- The last byte of a string is a lead byte that nothing follows. -/
def Unpaired : List (BitVec 8) → Prop
  | [] => False
  | [b] => LeadByte b
  | b :: b' :: s => if LeadByte b then Unpaired s else Unpaired (b' :: s)

/-- The calls that draw some characters, until the pen leaves the window. -/
def drawnFrom (fonts : Fonts) (y x : BitVec 32) : List (BitVec 16) → List Putchar
  | [] => []
  | c :: cs =>
      let x' := x + putcharFontWidth fonts c
      { x := x, y := y, c := c } :: if windowXmax < x'.toInt then [] else drawnFrom fonts y x' cs

/-- The pen leaves the window while some characters are drawn. -/
def Leaves (fonts : Fonts) (x : BitVec 32) : List (BitVec 16) → Prop
  | [] => False
  | c :: cs =>
      let x' := x + putcharFontWidth fonts c
      windowXmax < x'.toInt ∨ Leaves fonts x' cs

/-- What drawing a string must do. -/
def PutstrMeets (fonts : Fonts) (memory : Nat → BitVec 8) (x y : BitVec 32) (s : List (BitVec 8)) : Prop :=
  ∃ turns drawn, putstrLoop fonts memory y turns 0 x = some drawn ∧ (∀ p ∈ drawn.reads, p ≤ s.length) ∧
    drawn.calls = drawnFrom fonts y x (shiftJis s)

/-! ## One character -/

theorem isLead_setWidth (b : BitVec 8) : isLead (b.setWidth 16) = true ↔ LeadByte b := by
  have below := b.isLt
  have same : (b.setWidth 16).toNat = b.toNat := by
    rw [BitVec.toNat_setWidth]
    exact Nat.mod_eq_of_lt (by omega)
  simp only [isLead, LeadByte, Bool.or_eq_true, Bool.and_eq_true, decide_eq_true_iff, BitVec.le_def, same]
  simp only [BitVec.toNat_ofNat, Nat.reducePow, Nat.reduceMod]
  omega

theorem single_eq (b : BitVec 8) : b.setWidth 16 = 0#8 ++ b := by
  apply BitVec.eq_of_toNat_eq
  rw [FixedWidth.toNat_append_add, BitVec.toNat_setWidth]
  have below := b.isLt
  simp only [BitVec.toNat_ofNat]
  omega

theorem double_eq (b b' : BitVec 8) : (b.setWidth 16 <<< 8) ||| b'.setWidth 16 = b ++ b' := by
  apply BitVec.eq_of_toNat_eq
  rw [FixedWidth.toNat_shift_or (Nat.le_refl 16), FixedWidth.toNat_append_add]
  omega

section
variable {fonts : Fonts} {memory : Nat → BitVec 8} {x y : BitVec 32} {p : Nat}

/-- What one turn does with a character. -/
def Takes (fonts : Fonts) (memory : Nat → BitVec 8) (x y : BitVec 32) (p : Nat) (c : BitVec 16) (reads : List Nat) :
    Prop :=
  ∀ turns, putstrLoop fonts memory y (turns + 1) p x =
    let x' := x + putcharFontWidth fonts c
    if windowXmax < x'.toInt then some { calls := [{ x := x, y := y, c := c }], reads := reads }
    else (putstrLoop fonts memory y turns (p + reads.length) x').map (Putstr.cons { x := x, y := y, c := c } reads)

theorem takes_single {b : BitVec 8} (here : memory p = b) (some : b ≠ 0) (single : ¬ LeadByte b) :
    Takes fonts memory x y p (0#8 ++ b) [p] := by
  intro turns
  rw [← isLead_setWidth] at single
  rw [putstrLoop, here, if_neg some]
  simp only [if_neg single]
  simp only [single_eq]

theorem takes_double {b b' : BitVec 8} (here : memory p = b) (some : b ≠ 0) (next : memory (p + 1) = b')
    (double : LeadByte b) : Takes fonts memory x y p (b ++ b') [p, p + 1] := by
  intro turns
  rw [← isLead_setWidth] at double
  rw [putstrLoop, here, next, if_neg some]
  simp only [if_pos double]
  simp only [double_eq]

/-! ## The string -/

/-- The rest of a string is drawn as it should be. -/
def Draws (fonts : Fonts) (memory : Nat → BitVec 8) (x y : BitVec 32) (p : Nat) (s : List (BitVec 8)) : Prop :=
  ∃ turns drawn, putstrLoop fonts memory y turns p x = some drawn ∧ (∀ r ∈ drawn.reads, r ≤ p + s.length) ∧
    drawn.calls = drawnFrom fonts y x (shiftJis s)

theorem draws_cons {c : BitVec 16} {reads : List Nat} {s s' : List (BitVec 8)}
    (takes : Takes fonts memory x y p c reads) (chars : shiftJis s = c :: shiftJis s')
    (size : s.length = s'.length + reads.length) (within : ∀ r ∈ reads, r ≤ p + s.length) :
    Draws fonts memory x y p s ↔
      windowXmax < (x + putcharFontWidth fonts c).toInt ∨
        Draws fonts memory (x + putcharFontWidth fonts c) y (p + reads.length) s' := by
  have calls : drawnFrom fonts y x (shiftJis s) = { x := x, y := y, c := c } ::
      if windowXmax < (x + putcharFontWidth fonts c).toInt then []
      else drawnFrom fonts y (x + putcharFontWidth fonts c) (shiftJis s') := by
    rw [chars, drawnFrom]
  unfold Draws
  rw [calls]
  constructor
  · rintro ⟨turns, drawn, ran, inside, same⟩
    cases turns with
    | zero => exact absurd ran (by simp [putstrLoop])
    | succ turns =>
        rw [takes turns] at ran
        dsimp only at ran
        split at ran
        · next leaves => exact Or.inl leaves
        · next stays =>
            rw [if_neg stays] at same
            obtain ⟨rest, onward, rfl⟩ := Option.map_eq_some_iff.mp ran
            refine Or.inr ⟨turns, rest, onward, ?_, List.tail_eq_of_cons_eq same⟩
            intro r listed
            have bound := inside r (List.mem_append_right _ listed)
            omega
  · intro goes
    by_cases leaves : windowXmax < (x + putcharFontWidth fonts c).toInt
    · refine ⟨1, { calls := [{ x := x, y := y, c := c }], reads := reads }, ?_, within, ?_⟩
      · rw [takes 0]
        exact if_pos leaves
      · rw [if_pos leaves]
    · obtain ⟨turns, rest, ran, inside, same⟩ := goes.resolve_left leaves
      refine ⟨turns + 1, Putstr.cons { x := x, y := y, c := c } reads rest, ?_, ?_, ?_⟩
      · rw [takes turns]
        dsimp only
        rw [if_neg leaves, ran]
        rfl
      · intro r listed
        rcases List.mem_append.mp listed with first | later
        · exact within r first
        · have bound := inside r later
          omega
      · rw [if_neg leaves, ← same]
        rfl

theorem draws_nil (terminator : memory p = 0) : Draws fonts memory x y p [] := by
  refine ⟨1, { calls := [], reads := [p] }, ?_, ?_, rfl⟩
  · rw [putstrLoop, if_pos terminator]
  · intro r listed
    rw [List.mem_singleton.mp listed]
    exact Nat.le_refl p

/-- A character is drawn where the string has none left. -/
theorem not_draws_lead {b : BitVec 8} (here : memory p = b) (some : b ≠ 0) (double : LeadByte b) :
    ¬ Draws fonts memory x y p [b] := by
  rintro ⟨turns, drawn, ran, _, same⟩
  rw [shiftJis, if_pos double, drawnFrom] at same
  cases turns with
  | zero => exact absurd ran (by simp [putstrLoop])
  | succ turns =>
      rw [takes_double here some rfl double turns] at ran
      dsimp only at ran
      split at ran
      · rw [← Option.some.inj ran] at same
        exact absurd same (List.cons_ne_nil _ _)
      · obtain ⟨rest, _, rfl⟩ := Option.map_eq_some_iff.mp ran
        exact absurd same (List.cons_ne_nil _ _)

/-- The rest of a string is drawn as it should be unless the pen reaches an unpaired lead byte. -/
theorem draws_iff {s : List (BitVec 8)} (string : StringAt memory p s) :
    Draws fonts memory x y p s ↔ (Unpaired s → Leaves fonts x (shiftJis s)) := by
  induction s using shiftJis.induct generalizing p x with
  | case1 => exact ⟨fun _ none => none.elim, fun _ => draws_nil string⟩
  | case2 b double =>
      have unpaired : Unpaired [b] := double
      have none : ¬ Leaves fonts x (shiftJis [b]) := by
        rw [shiftJis, if_pos double]
        exact id
      have fails : ¬ Draws fonts memory x y p [b] := not_draws_lead string.1 string.2.1 double
      tauto
  | case3 b single =>
      have chars : shiftJis [b] = (0#8 ++ b) :: shiftJis [] := if_neg single
      have paired : ¬ Unpaired [b] := single
      rw [draws_cons (takes_single string.1 string.2.1 single) chars rfl (by simp)]
      have ends : Draws fonts memory (x + putcharFontWidth fonts (0#8 ++ b)) y (p + [p].length) [] :=
        draws_nil string.2.2
      tauto
  | case4 b b' s double ih =>
      have chars : shiftJis (b :: b' :: s) = (b ++ b') :: shiftJis s := if_pos double
      have rest : Unpaired (b :: b' :: s) ↔ Unpaired s := by rw [Unpaired, if_pos double]
      have onward : StringAt memory (p + [p, p + 1].length) s := string.2.2.2.2
      rw [draws_cons (takes_double string.1 string.2.1 string.2.2.1 double) chars rfl (by simp), chars, Leaves, rest]
      rw [ih onward]
      tauto
  | case5 b b' s single ih =>
      have chars : shiftJis (b :: b' :: s) = (0#8 ++ b) :: shiftJis (b' :: s) := if_neg single
      have rest : Unpaired (b :: b' :: s) ↔ Unpaired (b' :: s) := by rw [Unpaired, if_neg single]
      have onward : StringAt memory (p + [p].length) (b' :: s) := string.2.2
      rw [draws_cons (takes_single string.1 string.2.1 single) chars rfl (by simp), chars, Leaves, rest]
      rw [ih onward]
      tauto

end

/-- A string is drawn as it should be if and only if it does not end in an unpaired lead byte, or the pen has left
the window before that. -/
theorem putstr_meets_iff (fonts : Fonts) {memory : Nat → BitVec 8} (x y : BitVec 32) {s : List (BitVec 8)}
    (string : StringAt memory 0 s) :
    PutstrMeets fonts memory x y s ↔ (Unpaired s → Leaves fonts x (shiftJis s)) := by
  have whole : Draws fonts memory x y 0 s ↔ _ := draws_iff string
  unfold Draws at whole
  rw [Nat.zero_add] at whole
  exact whole

/-- A letter, a character of two bytes and a letter. -/
theorem putstr_meets_paired :
    let fonts : Fonts := ⟨some fun _ => 8, some fun _ => 16⟩
    let memory : Nat → BitVec 8 := fun p => [0x41, 0x82, 0xa0, 0x42].getD p 0
    PutstrMeets fonts memory 0 0 [0x41, 0x82, 0xa0, 0x42] ∧ shiftJis [0x41, 0x82, 0xa0, 0x42] = [0x41, 0x82a0, 0x42] := by
  intro fonts memory
  have string : StringAt memory 0 [0x41, 0x82, 0xa0, 0x42] := by
    refine ⟨rfl, by decide, rfl, by decide, rfl, by decide, rfl, by decide, rfl⟩
  have paired : ¬ Unpaired [0x41, 0x82, 0xa0, 0x42] := by
    rw [Unpaired, if_neg (by decide), Unpaired, if_pos (by decide), Unpaired]
    decide
  exact ⟨(putstr_meets_iff fonts 0 0 string).mpr fun unpaired => absurd unpaired paired, by decide⟩

/-- A lead byte before the terminator: the loop takes both and reads on. -/
theorem putstr_unpaired :
    putstrLoop ⟨none, some fun _ => 16⟩ (fun p => if p = 0 then 0x81 else 0) 0 2 0 0 =
        some { calls := [{ x := 0, y := 0, c := 0x8100 }], reads := [0, 1, 2] } ∧
      ¬ PutstrMeets ⟨none, some fun _ => 16⟩ (fun p => if p = 0 then 0x81 else 0) 0 0 [0x81] := by
  refine ⟨by decide, ?_⟩
  have double : LeadByte 0x81 := by decide
  have fails : ¬ Draws ⟨none, some fun _ => 16⟩ (fun p => if p = 0 then 0x81 else 0) 0 0 0 [0x81] :=
    not_draws_lead rfl (by decide) double
  exact fails

end Cineraria.Draw
