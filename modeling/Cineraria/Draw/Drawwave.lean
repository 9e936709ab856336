import Cineraria.Draw.Surface
import Cineraria.Lib.Run

/-!
# Drawing the waveform

`cineraria_wavplay/drawwave.c`: `drawwave_init` takes 176 rows of the frame buffer as the background and darkens
them. `drawwave` keeps a brightness for each of 160 rows and 640 columns: it fades what it has from the middle to
both edges, stores a new sample for each column in the upper half (left) and in the lower half (right), and draws
the background with the brightness added.

The row of a sample and its brightness come from its absolute value. For the sample -32768 the brightness is 256,
which is stored as 0 (`drawwave_meets_iff`).
-/

namespace Cineraria.Draw

open InPlace Run

/-! ## The brightness -/

/-- `dbuff`, by row and column. -/
abbrev Dbuff := Int × Int → BitVec 8

/-- An index inside the array. -/
def InDbuff (i : Int × Int) : Prop := (0 ≤ i.1 ∧ i.1 < 160) ∧ 0 ≤ i.2 ∧ i.2 < 640

instance (i : Int × Int) : Decidable (InDbuff i) := inferInstanceAs (Decidable ((_ ∧ _) ∧ _))

/-- Reading `dbuff[y][x]`, if it is inside. -/
def loadDbuff (d : Dbuff) (y x : Int) : Option (BitVec 8) := if InDbuff (y, x) then some (d (y, x)) else none

/-- Storing to `dbuff[y][x]`, if it is inside. -/
def storeDbuff (d : Dbuff) (y x value : Int) : Option Dbuff :=
  if InDbuff (y, x) then some (Function.update d (y, x) (BitVec.ofInt 8 value)) else none

/-- The brightness of a pixel that fades, from its own and its neighbour's. -/
def fade (own neighbour : BitVec 8) : Int :=
  let a : Int := (own >>> 1).toNat + (neighbour >>> 1).toNat - 6
  if a < 0 then 0 else if a > 255 then 255 else a

/-- One turn of the loops that fade. -/
def fadeCell (d : Dbuff) (y y' x : Int) : Option Dbuff := do
  let own ← loadDbuff d y x
  let neighbour ← loadDbuff d y' x
  storeDbuff d y x (fade own neighbour)

/-- A row, from the one beside it. -/
def fadeRow (y y' : Int) (d : Dbuff) : Option Dbuff :=
  (List.range 640).foldlM (fun d (x : Nat) => fadeCell d y y' x) d

/-- The rows from 0 to 78, downwards. -/
def fadeUpper (d : Dbuff) : Option Dbuff :=
  (List.range 79).foldlM (fun d (y : Nat) => fadeRow y (y + 1) d) d

/-- The rows from 159 to 79, upwards. -/
def fadeLower (d : Dbuff) : Option Dbuff :=
  (List.range 81).foldlM (fun d (k : Nat) => fadeRow (159 - k) (159 - k - 1) d) d

/-! ## The samples -/

/-- `play_getbuffdata` over the words of `g_datbuff`. -/
def playGetbuffdata (datbuff : Nat → BitVec 32) (buffpos : Nat) : Option (BitVec 32) :=
  let i := buffpos &&& 0xff
  if i < 256 then some (datbuff i) else none

/-- A sample without its sign. -/
def magnitude (data : BitVec 16) : Int := if data.toInt < 0 then -data.toInt else data.toInt

/-- The brightness that is stored for it. -/
def brightness (data : Int) : Int := if data > 128 then data / 512 + 128 + 64 else data

/-- One column of the loop over the samples. -/
def sampleColumn (datbuff : Nat → BitVec 32) (d : Dbuff) (x : Nat) : Option Dbuff := do
  let buffdata ← playGetbuffdata datbuff (x / 3)
  let ldata := magnitude ((buffdata &&& 0xffff).setWidth 16)
  let rdata := magnitude (((buffdata >>> 16) &&& 0xffff).setWidth 16)
  let d ← storeDbuff d (79 - ldata / 512) x (brightness ldata)
  storeDbuff d (80 + rdata / 512) x (brightness rdata)

/-- The loop over the samples. -/
def sampleColumns (datbuff : Nat → BitVec 32) (d : Dbuff) : Option Dbuff :=
  (List.range 640).foldlM (sampleColumn datbuff) d

/-! ## The pixels -/

/-- The static variables of `drawwave.c`. -/
structure Wave where
  /-- The halfwords at `g_pbuff`. -/
  pbuff : Int → BitVec 16
  /-- `g_ypos` -/
  ypos : Int
  dbuff : Dbuff

/-- `*pd++ = *ps++` for words of two pixels. -/
def copyWord (dst : Int → BitVec 16) (pd : Int) (src : Int → BitVec 16) (ps : Int) : Int → BitVec 16 :=
  Function.update (Function.update dst pd (src ps)) (pd + 1) (src (ps + 1))

/-- `n` such words. -/
def copyWords (n : Nat) (pd : Int) (src : Int → BitVec 16) (ps : Int) (dst : Int → BitVec 16) : Int → BitVec 16 :=
  (List.range n).foldl (fun dst (x : Nat) => copyWord dst (pd + 2 * x) src (ps + 2 * x)) dst

/-- A loop that copies `count` rows of the background from `first` on to the frame buffer. -/
def copyRows (s : Wave) (first : Int) (count : Nat) (vram : Int → BitVec 16) : Int → BitVec 16 :=
  (List.range count).foldl
    (fun vram (y : Nat) => copyWords 320 (pixelAt 0 (s.ypos + first + y)) s.pbuff ((first + y) * 640) vram) vram

/-- A channel that is not more than 255. -/
def limitChannel (c : BitVec 32) : BitVec 32 := if c.toInt > 255 then 255 else c

/-- The pixel of a background and a brightness. -/
def wavePixel (background : BitVec 16) (d : BitVec 8) : BitVec 16 :=
  setPixel (limitChannel (getRed background + d.setWidth 32)) (limitChannel (getGreen background + d.setWidth 32))
    (limitChannel (getBlue background + d.setWidth 32))

/-- One turn of the loops over the 160 rows. -/
def waveTurn (s : Wave) (d : Dbuff) (vram : Int → BitVec 16) (y x : Nat) : Option (Int → BitVec 16) := do
  let brightness ← loadDbuff d y x
  return Function.update vram (pixelAt x (s.ypos + 8 + y)) (wavePixel (s.pbuff ((8 + y) * 640 + x)) brightness)

/-- The loops over the 160 rows. -/
def waveRows (s : Wave) (d : Dbuff) (vram : Int → BitVec 16) : Option (Int → BitVec 16) :=
  (List.range 160).foldlM (fun vram y => (List.range 640).foldlM (fun vram x => waveTurn s d vram y x) vram) vram

/-- `drawwave`, if every access to `dbuff` and to the samples is inside. -/
def drawwave (s : Wave) (datbuff : Nat → BitVec 32) (vram : Int → BitVec 16) :
    Option (Wave × (Int → BitVec 16)) := do
  let d ← fadeUpper s.dbuff
  let d ← fadeLower d
  let d ← sampleColumns datbuff d
  let vram := copyRows s 0 8 vram
  let vram ← waveRows s d vram
  let vram := copyRows s 168 8 vram
  return ({ s with dbuff := d }, vram)

/-- `sub_lineblend` for the 640 pixels from `ppix` on. -/
def subLineblend (ppix : Int) (c : BitVec 32) (pbuff : Int → BitVec 16) : Int → BitVec 16 :=
  (List.range 640).foldl
    (fun pbuff (x : Nat) =>
      let pixel := pbuff (ppix + x)
      let r := (getRed pixel * c).sshiftRight 8
      let g := (getGreen pixel * c).sshiftRight 8
      let b := (getBlue pixel * c).sshiftRight 8
      Function.update pbuff (ppix + x) (setPixel r g b))
    pbuff

/-- `drawwave_init` with the buffer `pbuff`. -/
def drawwaveInit (s : Wave) (pbuff : Int → BitVec 16) (vram : Int → BitVec 16) (ypos : Int) : Wave :=
  let ysize := 176
  let pbuff := (List.range 176).foldl
    (fun pbuff (y : Nat) => copyWords 320 (y * 640) vram (pixelAt 0 (ypos + y)) pbuff) pbuff
  let pbuff := (List.range 8).foldl
    (fun pbuff (i : Nat) =>
      let c := BitVec.ofNat 32 (256 - i * 16)
      subLineblend ((ysize - 1 - i) * 640) c (subLineblend (i * 640) c pbuff))
    pbuff
  let pbuff := (List.range 80).foldl
    (fun pbuff (i : Nat) =>
      let c := BitVec.ofNat 32 (128 - i)
      subLineblend ((ysize - 1 - i - 8) * 640) c (subLineblend ((i + 8) * 640) c pbuff))
    pbuff
  { s with pbuff := pbuff, ypos := ypos }

/-! ## What a call must do -/

/-- The brightness for the absolute value of a sample. -/
def level (a : Nat) : Nat := if a ≤ 128 then a else 192 + a / 512

/-- The left sample of a column. -/
def leftSample (datbuff : Nat → BitVec 32) (x : Nat) : Int := ((datbuff (x / 3)).extractLsb' 0 16).toInt

/-- The right sample of a column. -/
def rightSample (datbuff : Nat → BitVec 32) (x : Nat) : Int := ((datbuff (x / 3)).extractLsb' 16 16).toInt

/-- A pixel is the background with the brightness added, in a channel. -/
def Lightened (low : Nat) (pixel background : BitVec 16) (d : BitVec 8) : Prop :=
  colour low pixel = min 255 (8 * colour low background + d.toNat) / 8

/-- The halfwords of the 176 rows. -/
def WaveCell (ypos i : Int) : Prop := ∃ r < 176, ∃ x < 640, i = pixelAt (x : Nat) (ypos + (r : Nat))

/-- What a call leaves. -/
structure Waveform (s : Wave) (datbuff : Nat → BitVec 32) (vram : Int → BitVec 16) (d : Dbuff)
    (vram' : Int → BitVec 16) : Prop where
  left : ∀ x < 640, (d (79 - (leftSample datbuff x).natAbs / 512, x)).toNat = level (leftSample datbuff x).natAbs
  right : ∀ x < 640, (d (80 + (rightSample datbuff x).natAbs / 512, x)).toNat = level (rightSample datbuff x).natAbs
  pixels : ∀ y < 160, ∀ x < 640, ∀ low ∈ [10, 5, 0],
    Lightened low (vram' (pixelAt (x : Nat) (s.ypos + 8 + (y : Nat)))) (s.pbuff ((8 + y) * 640 + x)) (d (y, x))
  rows : ∀ i, ¬ WaveCell s.ypos i → vram' i = vram i

/-- What a call must do: every access is inside its array, and the waveform is right. -/
def DrawwaveMeets (call : (Nat → BitVec 32) × (Int → BitVec 16)) (s : Wave) : Prop :=
  ∃ d vram', drawwave s call.1 call.2 = some ({ s with dbuff := d }, vram') ∧ Waveform s call.1 call.2 d vram'

/-- The variables after a call. -/
def nextWave (call : (Nat → BitVec 32) × (Int → BitVec 16)) (s : Wave) : Wave :=
  match drawwave s call.1 call.2 with
  | some (s', _) => s'
  | none => s

/-- No sample that is shown is -32768. -/
def NoExtreme (datbuff : Nat → BitVec 32) : Prop :=
  ∀ x < 640, leftSample datbuff x ≠ -32768 ∧ rightSample datbuff x ≠ -32768

/-! ## The loops over the brightness -/

theorem exists_fadeCell {y y' : Int} {x : Nat} (row : 0 ≤ y ∧ y < 160) (row' : 0 ≤ y' ∧ y' < 160) (column : x < 640)
    (d : Dbuff) : ∃ d', fadeCell d y y' x = some d' := by
  have inside : InDbuff (y, x) := ⟨row, by dsimp only; omega⟩
  have inside' : InDbuff (y', x) := ⟨row', by dsimp only; omega⟩
  unfold fadeCell loadDbuff storeDbuff
  simp only [if_pos inside, if_pos inside']
  exact ⟨_, rfl⟩

theorem exists_fadeRow {y y' : Int} (row : 0 ≤ y ∧ y < 160) (row' : 0 ≤ y' ∧ y' < 160) (d : Dbuff) :
    ∃ d', fadeRow y y' d = some d' := by
  apply exists_foldlM
  intro x column d
  exact exists_fadeCell row row' (List.mem_range.mp column) d

theorem exists_fadeUpper (d : Dbuff) : ∃ d', fadeUpper d = some d' := by
  apply exists_foldlM
  intro y row d
  rw [List.mem_range] at row
  exact exists_fadeRow (by omega) (by omega) d

theorem exists_fadeLower (d : Dbuff) : ∃ d', fadeLower d = some d' := by
  apply exists_foldlM
  intro k row d
  rw [List.mem_range] at row
  exact exists_fadeRow (by omega) (by omega) d

/-! ## The loop over the samples -/

theorem magnitude_eq (data : BitVec 16) : magnitude data = data.toInt.natAbs := by
  unfold magnitude
  split
  · omega
  · omega

theorem magnitude_bounds (data : BitVec 16) : 0 ≤ magnitude data ∧ magnitude data ≤ 32768 := by
  have lower := data.le_toInt
  have upper := data.toInt_lt
  unfold magnitude
  split
  · omega
  · omega

/-- A column shows one of the first 214 words. -/
theorem playGetbuffdata_column (datbuff : Nat → BitVec 32) {x : Nat} (column : x < 640) :
    playGetbuffdata datbuff (x / 3) = some (datbuff (x / 3)) := by
  have small : x / 3 &&& 0xff = x / 3 := by
    rw [Nat.and_two_pow_sub_one_eq_mod _ 8]
    exact Nat.mod_eq_of_lt (by omega)
  rw [playGetbuffdata, small, if_pos (by omega)]

theorem low_half (data : BitVec 32) : (data &&& 0xffff).setWidth 16 = data.extractLsb' 0 16 := by
  apply BitVec.eq_of_getLsbD_eq
  intro i hi
  interval_cases i
  all_goals simp

theorem high_half (data : BitVec 32) : ((data >>> 16) &&& 0xffff).setWidth 16 = data.extractLsb' 16 16 := by
  apply BitVec.eq_of_getLsbD_eq
  intro i hi
  interval_cases i
  all_goals simp

/-- The cell of a column's left or right sample. -/
def sampleCell (datbuff : Nat → BitVec 32) (q : Nat × Bool) : Int × Int :=
  (if q.2 then 80 + magnitude ((datbuff (q.1 / 3)).extractLsb' 16 16) / 512
    else 79 - magnitude ((datbuff (q.1 / 3)).extractLsb' 0 16) / 512, q.1)

/-- What is stored there. -/
def sampleValue (datbuff : Nat → BitVec 32) (q : Nat × Bool) : BitVec 8 :=
  BitVec.ofInt 8 (brightness (magnitude ((datbuff (q.1 / 3)).extractLsb' (if q.2 then 16 else 0) 16)))

theorem sampleColumn_eq (datbuff : Nat → BitVec 32) (d : Dbuff) {x : Nat} (column : x < 640) :
    sampleColumn datbuff d x = some ([false, true].foldl (fun d side =>
      Function.update d (sampleCell datbuff (x, side)) (sampleValue datbuff (x, side))) d) := by
  have left := magnitude_bounds ((datbuff (x / 3)).extractLsb' 0 16)
  have right := magnitude_bounds ((datbuff (x / 3)).extractLsb' 16 16)
  have insideLeft : InDbuff (79 - magnitude ((datbuff (x / 3)).extractLsb' 0 16) / 512, x) := by
    unfold InDbuff
    dsimp only
    omega
  have insideRight : InDbuff (80 + magnitude ((datbuff (x / 3)).extractLsb' 16 16) / 512, x) := by
    unfold InDbuff
    dsimp only
    omega
  unfold sampleColumn storeDbuff
  rw [playGetbuffdata_column datbuff column]
  simp only [Option.bind_eq_bind, Option.bind_some]
  rw [high_half, low_half]
  simp only [if_pos insideLeft, if_pos insideRight]
  rfl

/-- The samples are stored in cells of their own. -/
theorem nodup_sampleCells (datbuff : Nat → BitVec 32) :
    ((List.range 640 ×ˢ [false, true]).map (sampleCell datbuff)).Nodup := by
  apply List.Nodup.map _ (List.nodup_range.product (by decide))
  rintro ⟨x, side⟩ ⟨x', side'⟩ same
  simp only [sampleCell, Prod.mk.injEq, Int.natCast_inj] at same
  obtain ⟨row, rfl⟩ := same
  have left := magnitude_bounds ((datbuff (x / 3)).extractLsb' 0 16)
  have right := magnitude_bounds ((datbuff (x / 3)).extractLsb' 16 16)
  cases side
  · cases side'
    · rfl
    · simp only [Bool.false_eq_true, if_false, if_true] at row
      omega
  · cases side'
    · simp only [Bool.false_eq_true, if_false, if_true] at row
      omega
    · rfl

theorem sampleColumns_eq (datbuff : Nat → BitVec 32) (d : Dbuff) :
    sampleColumns datbuff d = some (rewrite (sampleCell datbuff) (fun q _ => sampleValue datbuff q)
      (List.range 640 ×ˢ [false, true]) d) := by
  unfold rewrite
  rw [← foldl_nested]
  apply foldlM_some
  intro x column d
  exact sampleColumn_eq datbuff d (List.mem_range.mp column)

/-- The brightness that is stored is that of the absolute value unless the sample is -32768. -/
theorem toNat_brightness (data : BitVec 16) :
    (BitVec.ofInt 8 (brightness (magnitude data))).toNat = level data.toInt.natAbs ↔ data.toInt ≠ -32768 := by
  have lower := data.le_toInt
  have upper := data.toInt_lt
  rw [magnitude_eq, BitVec.toNat_ofInt]
  unfold brightness level
  split
  · split
    · omega
    · omega
  · split
    · omega
    · omega

theorem sampleCell_left (datbuff : Nat → BitVec 32) (x : Nat) :
    sampleCell datbuff (x, false) = ((79 - (leftSample datbuff x).natAbs / 512 : Int), (x : Int)) := by
  simp only [sampleCell, magnitude_eq, leftSample, Bool.false_eq_true, if_false]

theorem sampleCell_right (datbuff : Nat → BitVec 32) (x : Nat) :
    sampleCell datbuff (x, true) = ((80 + (rightSample datbuff x).natAbs / 512 : Int), (x : Int)) := by
  simp only [sampleCell, magnitude_eq, rightSample, if_true]

theorem samples_stored (datbuff : Nat → BitVec 32) {d d' : Dbuff} (ran : sampleColumns datbuff d = some d') {x : Nat}
    (column : x < 640) (side : Bool) : d' (sampleCell datbuff (x, side)) = sampleValue datbuff (x, side) := by
  rw [sampleColumns_eq] at ran
  rw [← Option.some.inj ran]
  apply rewrite_apply (nodup_sampleCells datbuff)
  rw [List.mem_product]
  refine ⟨List.mem_range.mpr column, ?_⟩
  cases side
  · decide
  · decide

/-! ## The loops over the pixels -/

theorem copyWords_other {n : Nat} {pd ps i : Int} {src dst : Int → BitVec 16} (other : ∀ j < 2 * n, i ≠ pd + (j : Nat)) :
    copyWords n pd src ps dst i = dst i := by
  induction n with
  | zero => rfl
  | succ n ih =>
      have first := other (2 * n) (by omega)
      have second := other (2 * n + 1) (by omega)
      push_cast at first second
      rw [← Int.add_assoc] at second
      unfold copyWords at ih ⊢
      rw [List.range_succ, List.foldl_append, List.foldl_cons, List.foldl_nil, copyWord,
        Function.update_of_ne second, Function.update_of_ne first]
      exact ih (fun j before => other j (by omega))

/-- A loop that copies rows leaves the other halfwords alone. -/
theorem copyRows_other {s : Wave} {first : Int} {count : Nat} {vram : Int → BitVec 16} {i : Int}
    (other : ∀ y < count, ∀ x < 640, i ≠ pixelAt (x : Nat) (s.ypos + first + (y : Nat))) :
    copyRows s first count vram i = vram i := by
  induction count with
  | zero => rfl
  | succ count ih =>
      unfold copyRows at ih ⊢
      rw [List.range_succ, List.foldl_append, List.foldl_cons, List.foldl_nil, copyWords_other]
      · exact ih (fun y before x column => other y (by omega) x column)
      · intro j column
        have here := other count (by omega) j column
        unfold pixelAt at here ⊢
        rw [Int.add_zero]
        exact here

/-- The halfword of a row and a column. -/
def waveCell (ypos : Int) (q : Nat × Nat) : Int := pixelAt q.2 (ypos + 8 + q.1)

/-- What is drawn there. -/
def waveValue (s : Wave) (d : Dbuff) (q : Nat × Nat) : BitVec 16 :=
  wavePixel (s.pbuff ((8 + q.1) * 640 + q.2)) (d (q.1, q.2))

theorem waveRows_eq (s : Wave) (d : Dbuff) (vram : Int → BitVec 16) :
    waveRows s d vram = some (rewrite (waveCell s.ypos) (fun q _ => waveValue s d q)
      (List.range 160 ×ˢ List.range 640) vram) := by
  unfold rewrite
  rw [← foldl_nested]
  apply foldlM_some
  intro y row vram
  apply foldlM_some
  intro x column vram
  rw [List.mem_range] at row column
  have inside : InDbuff (y, x) := by
    unfold InDbuff
    dsimp only
    omega
  rw [waveTurn, loadDbuff, if_pos inside]
  rfl

/-- The pixels of the rows are all different. -/
theorem nodup_waveCells (ypos : Int) :
    ((List.range 160 ×ˢ List.range 640).map (waveCell ypos)).Nodup := by
  apply List.Nodup.map_on _ (List.nodup_range.product List.nodup_range)
  rintro ⟨y, x⟩ listed ⟨y', x'⟩ listed' same
  rw [List.mem_product, List.mem_range, List.mem_range] at listed listed'
  unfold waveCell pixelAt lineSize at same
  rw [Prod.mk.injEq]
  dsimp only at listed listed' same
  omega

theorem limitChannel_sum {c : BitVec 32} {colour : Nat} (channel : c.toNat = 8 * colour) (small : colour < 32)
    (d : BitVec 8) : (limitChannel (c + d.setWidth 32)).toNat / 8 % 32 = min 255 (8 * colour + d.toNat) / 8 := by
  have below := d.isLt
  have sum : (c + d.setWidth 32).toNat = 8 * colour + d.toNat := by
    rw [BitVec.toNat_add, BitVec.toNat_setWidth, channel]
    omega
  have signed : (c + d.setWidth 32).toInt = (8 * colour + d.toNat : Nat) := by
    rw [← sum]
    apply BitVec.toInt_eq_toNat_of_lt
    omega
  unfold limitChannel
  rw [signed]
  split
  · have limit : (255 : BitVec 32).toNat = 255 := rfl
    rw [limit]
    omega
  · rw [sum]
    omega

theorem wavePixel_lightened (background : BitVec 16) (d : BitVec 8) :
    ∀ low ∈ [10, 5, 0], Lightened low (wavePixel background d) background d := by
  unfold Lightened wavePixel
  rw [List.forall_mem_cons, List.forall_mem_cons, List.forall_mem_singleton]
  refine ⟨?_, ?_, ?_⟩
  · rw [colour_red]
    exact limitChannel_sum (toNat_getRed background) (colour_lt 10 background) d
  · rw [colour_green]
    exact limitChannel_sum (toNat_getGreen background) (colour_lt 5 background) d
  · rw [colour_blue]
    exact limitChannel_sum (toNat_getBlue background) (colour_lt 0 background) d

/-! ## A call -/

section
variable {s : Wave} {d : Dbuff} {vram vram' : Int → BitVec 16}

theorem pixels_drawn (ran : waveRows s d (copyRows s 0 8 vram) = some vram') {y x : Nat} (row : y < 160)
    (column : x < 640) :
    copyRows s 168 8 vram' (pixelAt x (s.ypos + 8 + y)) = wavePixel (s.pbuff ((8 + y) * 640 + x)) (d (y, x)) := by
  rw [copyRows_other]
  · rw [waveRows_eq] at ran
    rw [← Option.some.inj ran]
    have listed : (y, x) ∈ List.range 160 ×ˢ List.range 640 :=
      List.mem_product.mpr ⟨List.mem_range.mpr row, List.mem_range.mpr column⟩
    change rewrite (waveCell s.ypos) (fun q _ => waveValue s d q) _ _ (waveCell s.ypos (y, x)) = _
    rw [rewrite_apply (nodup_waveCells s.ypos) listed]
    rfl
  · intro y' row' x' column'
    unfold pixelAt lineSize
    omega

theorem others_kept (ran : waveRows s d (copyRows s 0 8 vram) = some vram') {i : Int} (other : ¬ WaveCell s.ypos i) :
    copyRows s 168 8 vram' i = vram i := by
  have elsewhere {r : Nat} (row : r < 176) {x : Nat} (column : x < 640) : i ≠ pixelAt x (s.ypos + r) := by
    intro same
    exact other ⟨r, row, x, column, same⟩
  rw [copyRows_other]
  · rw [waveRows_eq] at ran
    rw [← Option.some.inj ran, rewrite_other, copyRows_other]
    · intro y row x column
      have here := elsewhere (by omega : y < 176) column
      rw [Int.add_zero]
      exact here
    · intro listed
      obtain ⟨⟨y, x⟩, member, same⟩ := List.mem_map.mp listed
      rw [List.mem_product, List.mem_range, List.mem_range] at member
      have here := elsewhere (by omega : 8 + y < 176) member.2
      apply here
      rw [← same, waveCell]
      push_cast
      rw [Int.add_assoc]
  · intro y row x column same
    apply elsewhere (by omega : 168 + y < 176) column
    rw [same]
    push_cast
    rw [Int.add_assoc]

end

/-- A call is made of its loops. -/
theorem exists_drawwave (s : Wave) (datbuff : Nat → BitVec 32) (vram : Int → BitVec 16) :
    ∃ faded d wave, sampleColumns datbuff faded = some d ∧ waveRows s d (copyRows s 0 8 vram) = some wave ∧
      drawwave s datbuff vram = some ({ s with dbuff := d }, copyRows s 168 8 wave) := by
  obtain ⟨upper, ranUpper⟩ := exists_fadeUpper s.dbuff
  obtain ⟨faded, ranLower⟩ := exists_fadeLower upper
  obtain ⟨d, samples⟩ : ∃ d, sampleColumns datbuff faded = some d := ⟨_, sampleColumns_eq datbuff faded⟩
  obtain ⟨wave, pixels⟩ : ∃ wave, waveRows s d (copyRows s 0 8 vram) = some wave := ⟨_, waveRows_eq s d _⟩
  refine ⟨faded, d, wave, samples, pixels, ?_⟩
  rw [drawwave, ranUpper, Option.bind_eq_bind, Option.bind_some, ranLower, Option.bind_some, samples, Option.bind_some]
  dsimp only
  rw [pixels, Option.bind_eq_bind, Option.bind_some]
  rfl

/-- A call is right if and only if no sample that it shows is -32768. -/
theorem drawwaveMeets_iff (s : Wave) (call : (Nat → BitVec 32) × (Int → BitVec 16)) :
    DrawwaveMeets call s ↔ NoExtreme call.1 := by
  obtain ⟨faded, d, wave, samples, pixels, ran⟩ := exists_drawwave s call.1 call.2
  have left (x : Nat) (column : x < 640) :
      (d (79 - (leftSample call.1 x).natAbs / 512, x)).toNat = level (leftSample call.1 x).natAbs ↔
        leftSample call.1 x ≠ -32768 := by
    have stored := samples_stored call.1 samples column false
    rw [sampleCell_left] at stored
    rw [stored]
    exact toNat_brightness _
  have right (x : Nat) (column : x < 640) :
      (d (80 + (rightSample call.1 x).natAbs / 512, x)).toNat = level (rightSample call.1 x).natAbs ↔
        rightSample call.1 x ≠ -32768 := by
    have stored := samples_stored call.1 samples column true
    rw [sampleCell_right] at stored
    rw [stored]
    exact toNat_brightness _
  constructor
  · rintro ⟨d', vram', ran', waveform⟩
    rw [ran, Option.some.injEq, Prod.mk.injEq, Wave.mk.injEq] at ran'
    obtain ⟨⟨_, _, rfl⟩, _⟩ := ran'
    intro x column
    exact ⟨(left x column).mp (waveform.left x column), (right x column).mp (waveform.right x column)⟩
  · intro none
    refine ⟨d, _, ran, ?_, ?_, ?_, ?_⟩
    · intro x column
      exact (left x column).mpr (none x column).1
    · intro x column
      exact (right x column).mpr (none x column).2
    · intro y row x column
      rw [pixels_drawn pixels row column]
      exact wavePixel_lightened _ _
    · intro i other
      exact others_kept pixels other

/-- The brightness does not fall as the absolute value rises. -/
theorem level_monotone : Monotone level := by
  intro a b less
  unfold level
  split
  · split
    · exact less
    · omega
  · split
    · omega
    · have quotient := Nat.div_le_div_right (c := 512) less
      omega

/-- In a run of calls, all are right if and only if no sample that is shown is -32768. -/
theorem drawwave_meets_iff (s : Wave) (pbuff vram : Int → BitVec 16) (ypos : Int)
    (calls : List ((Nat → BitVec 32) × (Int → BitVec 16))) :
    Monotone level ∧
      (EveryStep nextWave DrawwaveMeets (drawwaveInit s pbuff vram ypos) calls ↔ ∀ call ∈ calls, NoExtreme call.1) := by
  refine ⟨level_monotone, ?_⟩
  have same : EveryStep nextWave DrawwaveMeets (drawwaveInit s pbuff vram ypos) calls ↔
      EveryStep nextWave (fun call _ => NoExtreme call.1) (drawwaveInit s pbuff vram ypos) calls := by
    apply everyStep_congr (fun _ => True)
    · intro call s _
      trivial
    · intro call s _
      exact drawwaveMeets_iff s call
    · trivial
  rw [same, everyStep_forall]

/-- The sample -32767 is as bright as can be, and the sample -32768 is dark. -/
theorem drawwave_extreme :
    BitVec.ofInt 8 (brightness (magnitude 0x8001)) = 255 ∧ BitVec.ofInt 8 (brightness (magnitude 0x8000)) = 0 ∧
      ¬ EveryStep nextWave DrawwaveMeets
        (drawwaveInit { pbuff := fun _ => 0, ypos := 0, dbuff := fun _ => 0 } (fun _ => 0) (fun _ => 0) 304)
        [(fun _ => 0x8000, fun _ => 0)] := by
  refine ⟨by decide, by decide, ?_⟩
  rintro ⟨meets, _⟩
  have none := (drawwaveMeets_iff _ _).mp meets
  have extreme : leftSample (fun _ => 0x8000) 0 = -32768 := by decide
  exact (none 0 (by decide)).1 extreme

end Cineraria.Draw
