import Mathlib.Data.Nat.Count
import Mathlib.Tactic.FinCases
import Cineraria.Lib.Clocked
import Cineraria.Lib.StdLogic
import Cineraria.Pixel.Operations

/-!
# The pixel unit

`ip/custom_intsr_pixel/pixelsimd.vhd`. The operations have one or three clocks of latency. The
register that counts them stalls with `clk_en`, the data registers do not. Two clocked processes
assign `resultpack_reg`, so that the signal has two drivers, and the first of the two drives it
with `'X'` in every clock that is not one of a sum or a difference.
-/

namespace Cineraria.Pixel

open Clocked

/-- The signals that the unit samples. -/
structure Input where
  dataa : BitVec 32
  datab : BitVec 32
  clkEn : Bool
  reset : Bool
  start : Bool
  n : BitVec 3
  deriving DecidableEq, Repr

/-! ## `pixelsimd_blend_u8` -/

structure BlendU8 where
  throw0Reg : StdLogic
  throw1Reg : StdLogic
  dataaReg : StdVector 8
  databReg : StdVector 8
  blendaReg : StdVector 8
  blendbReg : StdVector 8
  multaReg : StdVector 16
  multbReg : StdVector 16
  datab0Reg : StdVector 8
  resultReg : StdVector 8

/-- `pixelsimd_mult_u8xu8` -/
def multU8xU8 (dataa datab : BitVec 8) : BitVec 16 := dataa.setWidth 16 * datab.setWidth 16

/-- `blendb_sig` -/
def blendbSig (bland : BitVec 8) : BitVec 9 := 256#9 - (0#1 ++ bland)

def BlendU8.step (dataa datab bland : BitVec 8) (s : BlendU8) : BlendU8 where
  throw0Reg := if bland = 0 then .one else .zero
  dataaReg := .ofBitVec dataa
  databReg := .ofBitVec datab
  blendaReg := .ofBitVec bland
  blendbReg := .ofBitVec ((blendbSig bland).extractLsb' 0 8)
  throw1Reg := s.throw0Reg
  multaReg := .lift₂ multU8xU8 s.dataaReg s.blendaReg
  multbReg := .lift₂ multU8xU8 s.databReg s.blendbReg
  datab0Reg := s.databReg
  resultReg :=
    if s.throw1Reg = .one then s.datab0Reg
    else (StdVector.lift₂ (· + ·) s.multaReg s.multbReg).slice 8 8

/-! ## `pixelsimd_yuvdec` -/

structure Yuvdec where
  dataY0Reg : StdVector 8
  dataY1Reg : StdVector 8
  dataUReg : StdVector 8
  dataVReg : StdVector 8
  addY0Reg : StdVector 8
  addY1Reg : StdVector 8
  multU0Reg : StdVector 18
  multV0Reg : StdVector 18
  multU1Reg : StdVector 18
  multV1Reg : StdVector 18
  rgb0Reg : StdVector 15
  rgb1Reg : StdVector 15

/-- `sat_r0_sig` and its like -/
def satStd (sum : StdVector 18) : StdVector 5 :=
  if sum 17 = .one then .others .zero
  else if sum 16 = .one then .others .one
  else sum.slice 11 5

/-- The pixel of one of the two luma values: `sat_r0_sig & sat_g0_sig & sat_b0_sig` and its like. -/
def Yuvdec.rgbSig (addYReg : StdVector 8) (s : Yuvdec) : StdVector 15 :=
  let sum := StdVector.lift₂ (· + ·) (StdVector.lift luma addYReg)
  ((satStd (sum s.multV0Reg)).append
    (satStd (StdVector.lift₂ (· + ·) (sum s.multU1Reg) s.multV1Reg))).append
    (satStd (sum s.multU0Reg))

def Yuvdec.step (dataY0 dataY1 dataU dataV : BitVec 8) (s : Yuvdec) : Yuvdec where
  dataY0Reg := .ofBitVec dataY0
  dataY1Reg := .ofBitVec dataY1
  dataUReg := .ofBitVec (dataU - 128#8)
  dataVReg := .ofBitVec (dataV - 128#8)
  addY0Reg := s.dataY0Reg
  addY1Reg := s.dataY1Reg
  multU0Reg := .lift (multS8xS10 · 454#10) s.dataUReg
  multV0Reg := .lift (multS8xS10 · 359#10) s.dataVReg
  multU1Reg := .lift (multS8xS10 · (BitVec.ofInt 10 (-88))) s.dataUReg
  multV1Reg := .lift (multS8xS10 · (BitVec.ofInt 10 (-183))) s.dataVReg
  rgb0Reg := s.rgbSig s.addY0Reg
  rgb1Reg := s.rgbSig s.addY1Reg

def Yuvdec.result (s : Yuvdec) : StdVector 32 :=
  (((StdVector.ofBitVec 0#1).append s.rgb1Reg).append (StdVector.ofBitVec 0#1)).append s.rgb0Reg

/-! ## `pixelsimd` -/

/-- The registers of the unit. `resultpackReg0` and `resultpackReg1` are what the two processes
drive `resultpack_reg` with. -/
structure Pixelsimd where
  doneReg : BitVec 4
  resultsatReg : StdVector 32
  resultpackReg0 : StdVector 32
  resultpackReg1 : StdVector 32
  yuvdec : Yuvdec
  blendR : BlendU8
  blendG : BlendU8
  blendB : BlendU8

/-- The process of `done_reg`. -/
def doneNext (i : Input) (doneReg : BitVec 4) : BitVec 4 :=
  if i.reset then 0
  else if i.clkEn then
    if doneReg = 0 then
      if i.start then
        if i.n.extractLsb' 0 2 = 0b00 then 0b0100 else 0b0001
      else doneReg
    else 0#1 ++ doneReg.extractLsb' 1 3
  else doneReg

/-- One edge of `clk`. -/
def Pixelsimd.step (i : Input) (s : Pixelsimd) : Pixelsimd where
  doneReg := doneNext i s.doneReg
  resultsatReg :=
    if i.n = 0b110 then .ofBitVec (paddbSig i.dataa i.datab)
    else if i.n = 0b111 then .ofBitVec (psubbSig i.dataa i.datab)
    else s.resultsatReg
  resultpackReg0 :=
    if i.n = 0b110 then s.resultpackReg0
    else if i.n = 0b111 then s.resultpackReg0
    else .others .unknown
  resultpackReg1 :=
    if i.n = 0b001 then .ofBitVec (ppackSig i.dataa i.datab)
    else if i.n = 0b010 then .ofBitVec (punpackSig i.n i.dataa)
    else if i.n = 0b011 then .ofBitVec (punpackSig i.n i.dataa)
    else .others .unknown
  yuvdec := s.yuvdec.step (byte 0 i.dataa) (byte 1 i.dataa) (byte 0 i.datab) (byte 1 i.datab)
  blendR := s.blendR.step (byte 2 i.dataa) (byte 2 i.datab) (byte 3 i.dataa)
  blendG := s.blendG.step (byte 1 i.dataa) (byte 1 i.datab) (byte 3 i.dataa)
  blendB := s.blendB.step (byte 0 i.dataa) (byte 0 i.datab) (byte 3 i.dataa)

/-- `resultpack_reg`, resolved. -/
def Pixelsimd.resultpackReg (s : Pixelsimd) : StdVector 32 := s.resultpackReg0.resolve s.resultpackReg1

/-- `resultblend_sig` -/
def Pixelsimd.resultblendSig (s : Pixelsimd) : StdVector 32 :=
  (((StdVector.ofBitVec 0#8).append s.blendR.resultReg).append s.blendG.resultReg).append
    s.blendB.resultReg

/-- `done` -/
def Pixelsimd.done (s : Pixelsimd) : Bool := s.doneReg.getLsbD 0

/-- `result` -/
def Pixelsimd.result (n : BitVec 3) (s : Pixelsimd) : StdVector 32 :=
  if n = 0b000 then s.yuvdec.result
  else if n = 0b001 then s.resultpackReg
  else if n = 0b010 then s.resultpackReg
  else if n = 0b011 then s.resultpackReg
  else if n = 0b100 then s.resultblendSig
  else if n = 0b110 then s.resultsatReg
  else if n = 0b111 then s.resultsatReg
  else .others .unknown

/-! ## The operations -/

/-- What operation `n` is for. -/
def reference (n : BitVec 3) (a b : BitVec 32) : BitVec 32 :=
  if n = 0 then decodedYuv (byte 1 a) (byte 0 b) (byte 1 b) ++ decodedYuv (byte 0 a) (byte 0 b) (byte 1 b)
  else if n = 1 then rgb555 b ++ rgb555 a
  else if n = 2 then rgb888 (a.extractLsb' 0 16)
  else if n = 3 then rgb888 (a.extractLsb' 16 16)
  else if n = 4 then
    0#8 ++ mixed (byte 3 a) (byte 2 a) (byte 2 b) ++ mixed (byte 3 a) (byte 1 a) (byte 1 b) ++
      mixed (byte 3 a) (byte 0 a) (byte 0 b)
  else if n = 6 then bytewise saturatedSum a b
  else if n = 7 then bytewise saturatedDifference a b
  else 0

/-- The enabled clocks after which an operation is done. -/
def latency (n : BitVec 3) : Nat := if n.extractLsb' 0 2 = 0b00 then 3 else 1

/-- The enabled clocks after clock 0 and before clock `u`. -/
def turns (w : Nat → Input) (u : Nat) : Nat := Nat.count (fun v => 0 < v ∧ (w v).clkEn = true) u

/-- In clock 0 the unit is idle and the operation is started. Its operands are held until it is
done. -/
structure Issued (w : Nat → Input) (s : Pixelsimd) (n : BitVec 3) (a b : BitVec 32) : Prop where
  idle : s.doneReg = 0
  start : (w 0).start = true
  enabled : (w 0).clkEn = true
  held : ∀ u, turns w u < latency n →
    (w u).n = n ∧ (w u).dataa = a ∧ (w u).datab = b ∧ (w u).reset = false

/-- `done` comes in the last of the enabled clocks, and in no other; then the result is that of the
operation, in all its bits. -/
structure Performs (w : Nat → Input) (s : Pixelsimd) (n : BitVec 3) (a b : BitVec 32) : Prop where
  done : ∀ u, 0 < u → turns w u < latency n →
    ((run Pixelsimd.step w s u).done = true ↔ turns w u + 1 = latency n)
  once : ∀ u, 0 < u → turns w u + 1 = latency n → (w u).clkEn = true →
    (run Pixelsimd.step w s (u + 1)).done = false
  result : ∀ u, 0 < u → turns w u + 1 = latency n →
    ((run Pixelsimd.step w s u).result (w u).n).Defined ∧
      (run Pixelsimd.step w s u).result (w u).n = .ofBitVec (reference n a b)

/-! ## The pipelines -/

/-- The mixture of the operands of one clock is in the result register after three clocks, whatever
operands follow. -/
theorem blend_filled (dataa datab bland dataa₁ datab₁ bland₁ dataa₂ datab₂ bland₂ : BitVec 8) (s : BlendU8) :
    (((s.step dataa datab bland).step dataa₁ datab₁ bland₁).step dataa₂ datab₂ bland₂).resultReg =
      .ofBitVec (mixed bland dataa datab) := by
  rw [← mixed_eq]
  by_cases none : bland = 0
  · simp only [BlendU8.step, if_pos none, if_true]
  · simp only [BlendU8.step, if_neg none, StdVector.lift₂_ofBitVec, StdVector.slice_ofBitVec,
      reduceCtorEq, if_false]
    rfl

theorem satStd_ofBitVec (sum : BitVec 18) : satStd (.ofBitVec sum) = .ofBitVec (satSig sum) := by
  have negative : StdVector.ofBitVec sum 17 = .one ↔ sum.getLsbD 17 = true := StdLogic.ofBool_eq_one_iff _
  have large : StdVector.ofBitVec sum 16 = .one ↔ sum.getLsbD 16 = true := StdLogic.ofBool_eq_one_iff _
  unfold satStd satSig
  by_cases below : sum.getLsbD 17 = true
  · rw [if_pos (negative.mpr below), if_pos below]
    funext i
    fin_cases i <;> rfl
  · rw [if_neg (mt negative.mp below), if_neg below]
    by_cases above : sum.getLsbD 16 = true
    · rw [if_pos (large.mpr above), if_pos above]
      funext i
      fin_cases i <;> rfl
    · rw [if_neg (mt large.mp above), if_neg above, StdVector.slice_ofBitVec]

theorem append_pair (x y : BitVec 15) :
    (((0#1 ++ x) ++ 0#1) ++ y : BitVec 32) = (0#1 ++ x) ++ (0#1 ++ y) := by
  apply BitVec.eq_of_toNat_eq
  simp only [FixedWidth.toNat_append_add]
  ring

/-- Two clocks bring a luma value and the chroma that came with it to the adders. -/
theorem rgbSig_filled (y y0 y1 u v y0₁ y1₁ u₁ v₁ : BitVec 8) (s : Yuvdec) :
    ((s.step y0 y1 u v).step y0₁ y1₁ u₁ v₁).rgbSig (.ofBitVec y) = .ofBitVec (decodedSig y u v) := by
  simp only [Yuvdec.step, Yuvdec.rgbSig, StdVector.lift_ofBitVec, StdVector.lift₂_ofBitVec,
    satStd_ofBitVec, StdVector.append_ofBitVec]
  rfl

/-- The two pixels of one clock are in the result register after three clocks, whatever operands
follow. -/
theorem yuvdec_filled (y0 y1 u v y0₁ y1₁ u₁ v₁ y0₂ y1₂ u₂ v₂ : BitVec 8) (s : Yuvdec) :
    (((s.step y0 y1 u v).step y0₁ y1₁ u₁ v₁).step y0₂ y1₂ u₂ v₂).result =
      .ofBitVec (decodedYuv y1 u v ++ decodedYuv y0 u v) := by
  rw [Yuvdec.result, Yuvdec.step]
  rw [← decodedSig_eq, ← decodedSig_eq, ← append_pair]
  change (((StdVector.ofBitVec 0#1).append (Yuvdec.rgbSig (.ofBitVec y1) _)).append
    (StdVector.ofBitVec 0#1)).append (Yuvdec.rgbSig (.ofBitVec y0) _) = _
  rw [rgbSig_filled, rgbSig_filled, StdVector.append_ofBitVec, StdVector.append_ofBitVec,
    StdVector.append_ofBitVec]

/-! ## Runs -/

section
variable {w : Nat → Input} {s : Pixelsimd} {n : BitVec 3} {a b : BitVec 32}

theorem turns_succ (u : Nat) : turns w (u + 1) = turns w u + if 0 < u ∧ (w u).clkEn = true then 1 else 0 :=
  Nat.count_succ _ _

theorem turns_one : turns w 1 = 0 := by
  rw [turns_succ, turns, Nat.count_zero, if_neg fun both => Nat.lt_irrefl 0 both.1]

/-- A clock after the start is no more than one turn. -/
theorem turns_lt {u : Nat} (after : 0 < u) : turns w u < u := by
  induction u, after using Nat.le_induction with
  | base => rw [turns_one]; decide
  | succ u after ih =>
      rw [turns_succ]
      split <;> omega

theorem turns_mono {u v : Nat} (order : u ≤ v) : turns w u ≤ turns w v := Nat.count_monotone _ order

theorem latency_cases (n : BitVec 3) : latency n = 1 ∨ latency n = 3 := by
  revert n
  decide

/-- The register of `done` counts the turns. -/
theorem doneReg_run (issued : Issued w s n a b) {u : Nat} (after : 0 < u) (before : turns w u < latency n) :
    (run Pixelsimd.step w s u).doneReg = 1#4 <<< (latency n - 1 - turns w u) := by
  induction u, after using Nat.le_induction with
  | base =>
      have held := issued.held 0 (Nat.lt_of_le_of_lt (turns_mono (Nat.zero_le 1)) before)
      have first : (run Pixelsimd.step w s 1).doneReg = if n.extractLsb' 0 2 = 0b00 then 0b0100 else 0b0001 := by
        change doneNext (w 0) s.doneReg = _
        rw [doneNext, held.2.2.2, issued.enabled, issued.idle, issued.start, held.1]
        rfl
      rw [first, turns_one, latency]
      split <;> rfl
  | succ u after ih =>
      have earlier : turns w u < latency n := Nat.lt_of_le_of_lt (turns_mono (Nat.le_succ u)) before
      have now := ih earlier
      have held := issued.held u earlier
      change doneNext (w u) (run Pixelsimd.step w s u).doneReg = _
      rw [turns_succ] at before ⊢
      rw [doneNext, held.2.2.2, now]
      cases enabled : (w u).clkEn
      · simp
      · have shifts : ∀ l, l = 1 ∨ l = 3 → ∀ k, k + 1 < l →
            (1#4 <<< (l - 1 - k) ≠ 0 ∧
              0#1 ++ (1#4 <<< (l - 1 - k)).extractLsb' 1 3 = 1#4 <<< (l - 1 - (k + 1))) := by
          rintro l (rfl | rfl) k within
          · omega
          · obtain rfl | rfl : k = 0 ∨ k = 1 := by omega
            · decide
            · decide
        rw [enabled, if_pos ⟨after, rfl⟩] at before
        obtain ⟨busy, shifted⟩ := shifts _ (latency_cases n) _ before
        rw [if_neg Bool.false_ne_true, if_pos rfl, if_neg busy, if_pos ⟨after, rfl⟩]
        exact shifted

theorem done_run (issued : Issued w s n a b) {u : Nat} (after : 0 < u) (before : turns w u < latency n) :
    (run Pixelsimd.step w s u).done = true ↔ turns w u + 1 = latency n := by
  rw [Pixelsimd.done, doneReg_run issued after before]
  generalize turns w u = k at before
  rcases latency_cases n with short | long
  · rw [short] at before ⊢
    obtain rfl : k = 0 := by omega
    decide
  · rw [long] at before ⊢
    obtain rfl | rfl | rfl : k = 0 ∨ k = 1 ∨ k = 2 := by omega
    · decide
    · decide
    · decide

theorem done_once (issued : Issued w s n a b) {u : Nat} (after : 0 < u)
    (last : turns w u + 1 = latency n) (enabled : (w u).clkEn = true) :
    (run Pixelsimd.step w s (u + 1)).done = false := by
  have now := doneReg_run issued after (by omega)
  have held := issued.held u (by omega)
  change (doneNext (w u) (run Pixelsimd.step w s u).doneReg).getLsbD 0 = false
  rw [doneNext, held.2.2.2, enabled, now, ← last, Nat.add_sub_cancel, Nat.sub_self,
    if_neg Bool.false_ne_true, if_pos rfl, if_neg (by decide)]
  decide

/-- What the data registers sample while the operation is under way. -/
theorem Issued.sampled (issued : Issued w s n a b) {u : Nat} (before : turns w u < latency n)
    {v : Nat} (order : v ≤ u) : (w v).n = n ∧ (w v).dataa = a ∧ (w v).datab = b := by
  have held := issued.held v (Nat.lt_of_le_of_lt (turns_mono order) before)
  exact ⟨held.1, held.2.1, held.2.2.1⟩

/-- After one clock the register of the byte operations holds their result. -/
theorem resultsat_run (issued : Issued w s n a b) {u : Nat} (after : 0 < u) (before : turns w u < latency n)
    (sum : n = 6 ∨ n = 7) :
    (run Pixelsimd.step w s u).resultsatReg = .ofBitVec (reference n a b) := by
  obtain ⟨v, rfl⟩ := Nat.exists_eq_succ_of_ne_zero (Nat.pos_iff_ne_zero.mp after)
  obtain ⟨op, left, right⟩ := issued.sampled before (Nat.le_succ v)
  have adds : saddResult = saturatedSum := by
    funext x y
    exact saddResult_eq x y
  have subtracts : ssubResult = saturatedDifference := by
    funext x y
    exact ssubResult_eq x y
  rw [run_succ]
  simp only [Pixelsimd.step, op, left, right, paddbSig, psubbSig, adds, subtracts]
  rcases sum with rfl | rfl
  · rfl
  · rfl

/-- The first process spoils the signal when the operation is none of its own. -/
theorem resultpack_run (issued : Issued w s n a b) {u : Nat} (after : 0 < u)
    (before : turns w u < latency n) (other : ¬ (n = 6 ∨ n = 7)) :
    ¬ (run Pixelsimd.step w s u).resultpackReg.Defined := by
  obtain ⟨v, rfl⟩ := Nat.exists_eq_succ_of_ne_zero (Nat.pos_iff_ne_zero.mp after)
  obtain ⟨op, -⟩ := issued.sampled before (Nat.le_succ v)
  rw [not_or] at other
  have driver : (run Pixelsimd.step w s (v + 1)).resultpackReg0 = .others .unknown := by
    rw [run_succ]
    simp only [Pixelsimd.step, op]
    rw [if_neg other.1, if_neg other.2]
  intro defined
  have bit := defined 0
  rw [Pixelsimd.resultpackReg, driver] at bit
  exact StdLogic.not_defined_resolve_unknown _ bit

/-- After three turns the pipelines are full. -/
theorem pipelines_run (issued : Issued w s n a b) {u : Nat} (last : turns w u + 1 = latency n)
    (long : latency n = 3) :
    (run Pixelsimd.step w s u).yuvdec.result = .ofBitVec
        (decodedYuv (byte 1 a) (byte 0 b) (byte 1 b) ++ decodedYuv (byte 0 a) (byte 0 b) (byte 1 b)) ∧
      (run Pixelsimd.step w s u).resultblendSig = .ofBitVec
        (0#8 ++ mixed (byte 3 a) (byte 2 a) (byte 2 b) ++ mixed (byte 3 a) (byte 1 a) (byte 1 b) ++
          mixed (byte 3 a) (byte 0 a) (byte 0 b)) := by
  have late : 3 ≤ u := by
    have positive : 0 < u := by
      apply Nat.pos_of_ne_zero
      rintro rfl
      have none : turns w 0 = 0 := rfl
      omega
    have := turns_lt (w := w) positive
    omega
  obtain ⟨v, rfl⟩ := Nat.exists_eq_add_of_le' late
  have before : turns w (v + 3) < latency n := by omega
  obtain ⟨-, left₀, right₀⟩ := issued.sampled before (v := v) (by omega)
  obtain ⟨-, left₁, right₁⟩ := issued.sampled before (v := v + 1) (by omega)
  obtain ⟨-, left₂, right₂⟩ := issued.sampled before (v := v + 2) (by omega)
  have filled : run Pixelsimd.step w s (v + 3) =
      (((run Pixelsimd.step w s v).step (w v)).step (w (v + 1))).step (w (v + 2)) := rfl
  rw [filled]
  constructor
  · change (Yuvdec.step _ _ _ _ (Yuvdec.step _ _ _ _ (Yuvdec.step _ _ _ _ _))).result = _
    rw [left₀, right₀, left₁, right₁, left₂, right₂]
    exact yuvdec_filled _ _ _ _ _ _ _ _ _ _ _ _ _
  · change (((StdVector.ofBitVec 0#8).append
      (BlendU8.step _ _ _ (BlendU8.step _ _ _ (BlendU8.step _ _ _ _))).resultReg).append
      (BlendU8.step _ _ _ (BlendU8.step _ _ _ (BlendU8.step _ _ _ _))).resultReg).append
      (BlendU8.step _ _ _ (BlendU8.step _ _ _ (BlendU8.step _ _ _ _))).resultReg = _
    rw [left₀, right₀, left₁, right₁, left₂, right₂, blend_filled, blend_filled, blend_filled,
      StdVector.append_ofBitVec, StdVector.append_ofBitVec, StdVector.append_ofBitVec]

end

/-- An operation performs as it should exactly if its result does not pass the register that has two
drivers. -/
theorem performs_iff {w : Nat → Input} {s : Pixelsimd} {n : BitVec 3} {a b : BitVec 32} (op : n ≠ 5)
    (issued : Issued w s n a b) : Performs w s n a b ↔ n ≠ 1 ∧ n ≠ 2 ∧ n ≠ 3 := by
  constructor
  · intro performs
    by_contra packs
    have packed : n = 1 ∨ n = 2 ∨ n = 3 := by
      by_contra none
      rw [not_or, not_or] at none
      exact packs none
    have short : latency n = 1 := by rcases packed with rfl | rfl | rfl <;> rfl
    have before : turns w 1 < latency n := by rw [turns_one, short]; decide
    have defined := (performs.result 1 Nat.one_pos (by rw [turns_one, short])).1
    rw [(issued.held 1 before).1] at defined
    refine resultpack_run issued Nat.one_pos before ?_ ?_
    · rcases packed with rfl | rfl | rfl <;> decide
    · rcases packed with rfl | rfl | rfl <;> exact defined
  · rintro ⟨notPack, notLow, notHigh⟩
    refine ⟨fun u after before => done_run issued after before,
      fun u after last enabled => done_once issued after last enabled, ?_⟩
    intro u after last
    have equal : (run Pixelsimd.step w s u).result (w u).n = .ofBitVec (reference n a b) := by
      rw [(issued.held u (by omega)).1]
      have ops : ∀ n : BitVec 3, n ≠ 5 → n ≠ 1 → n ≠ 2 → n ≠ 3 → n = 0 ∨ n = 4 ∨ n = 6 ∨ n = 7 := by
        decide
      rcases ops n op notPack notLow notHigh with rfl | rfl | rfl | rfl
      · exact (pipelines_run issued last rfl).1
      · exact (pipelines_run issued last rfl).2
      · exact resultsat_run issued after (by omega) (.inl rfl)
      · exact resultsat_run issued after (by omega) (.inr rfl)
    rw [equal]
    exact ⟨StdVector.defined_ofBitVec _, rfl⟩

/-- The unit after its reset, with data registers that have never been written. -/
def powerUp : Pixelsimd :=
  let blend : BlendU8 := ⟨.uninitialized, .uninitialized, .others .uninitialized, .others .uninitialized,
    .others .uninitialized, .others .uninitialized, .others .uninitialized, .others .uninitialized,
    .others .uninitialized, .others .uninitialized⟩
  { doneReg := 0
    resultsatReg := .others .uninitialized
    resultpackReg0 := .others .uninitialized
    resultpackReg1 := .others .uninitialized
    yuvdec := ⟨.others .uninitialized, .others .uninitialized, .others .uninitialized,
      .others .uninitialized, .others .uninitialized, .others .uninitialized, .others .uninitialized,
      .others .uninitialized, .others .uninitialized, .others .uninitialized, .others .uninitialized,
      .others .uninitialized⟩
    blendR := blend
    blendG := blend
    blendB := blend }

/-- Operation `n` on two words, in every clock. -/
def always (n : BitVec 3) (a b : BitVec 32) : Nat → Input := fun _ => ⟨a, b, true, false, true, n⟩

theorem performs_iff_sum : Performs (always 6 0xf0 0x20) powerUp 6 0xf0 0x20 :=
  (performs_iff (by decide) ⟨rfl, rfl, rfl, fun _ _ => ⟨rfl, rfl, rfl, rfl⟩⟩).mpr (by decide)

/-- Packing two black pixels: the unit is done, and no bit of its result is defined. -/
theorem packed_undefined :
    Issued (always 1 0 0) powerUp 1 0 0 ∧ turns (always 1 0 0) 1 + 1 = latency 1 ∧
    (run Pixelsimd.step (always 1 0 0) powerUp 1).done = true ∧
    (run Pixelsimd.step (always 1 0 0) powerUp 1).result 1 = .others .unknown ∧
    ¬ Performs (always 1 0 0) powerUp 1 0 0 := by
  have issued : Issued (always 1 0 0) powerUp 1 0 0 := ⟨rfl, rfl, rfl, fun _ _ => ⟨rfl, rfl, rfl, rfl⟩⟩
  have last : turns (always 1 0 0) 1 + 1 = latency 1 := by decide
  refine ⟨issued, last, by decide +kernel, by decide +kernel, ?_⟩
  intro performs
  have defined := (performs.result 1 Nat.one_pos last).1
  exact absurd defined (by decide +kernel)

end Cineraria.Pixel
