import Mathlib.Data.Nat.Count
import Mathlib.Tactic.Ring
import Cineraria.Vga.Avm

/-!
# The address of a burst

The row offset is advanced by the pulses that find the master idle, each of which issues a
burst. A pulse that finds it busy is dropped: it issues none, and the rows below it are
fetched one line late for the rest of the frame.
-/

namespace Cineraria.Vga

open Clocked

section
variable (g : Generics) (w : Nat → M1Input)

/-- The registers of the bus side in clock `t`. -/
def avmAt (t : Nat) : Avm := run (Avm.step g) w Avm.reset t

/-- The pulse in clock `t` is taken. -/
def takenAt (t : Nat) : Bool := (avmAt g w t).takes (w t)

/-- The number of pulses taken after clock `f` and before clock `t`. -/
def linesTaken (f t : Nat) : Nat := Nat.count (fun u => f < u ∧ takenAt g w u = true) t

/-- The number of pulses after clock `f` and before clock `t`. -/
def linePulses (f t : Nat) : Nat := Nat.count (fun u => f < u ∧ (w u).linestart = true) t

/-- The burst that answers the pulse in clock `t` is on the bus in clock `u`. -/
structure Requested (t u : Nat) : Prop where
  taken : takenAt g w t = true
  after : t < u
  waits : ∀ v, t < v → v < u → (w v).waitrequest = true

end

/-- Clock `t` belongs to the frame that starts in clock `f`, over which the base is held. -/
structure InFrame (w : Nat → M1Input) (base : BitVec 32) (f t : Nat) : Prop where
  start : (w f).framestart = true
  after : f < t
  only : ∀ u, f < u → u < t → (w u).framestart = false
  held : ∀ u, f ≤ u → u ≤ t → (w u).framebuffAddr = base

section
variable {g : Generics} {w : Nat → M1Input}

theorem avmAt_succ (t : Nat) : avmAt g w (t + 1) = (avmAt g w t).step g (w t) := rfl

theorem avmAt_readReg (t : Nat) : (avmAt g w t).readReg = ((avmAt g w t).avmState == .readIssue) := by
  induction t with
  | zero => rfl
  | succ t ih => exact Avm.step_readReg g (w t) ih

/-! ## The row offset -/

theorem linesTaken_succ {f t : Nat} (after : f < t) :
    linesTaken g w f (t + 1) = linesTaken g w f t + if takenAt g w t then 1 else 0 := by
  rw [linesTaken, Nat.count_succ]
  simp only [after, true_and, linesTaken]

theorem linesTaken_start (f : Nat) : linesTaken g w f (f + 1) = 0 := by
  rw [linesTaken, Nat.count_iff_forall_not]
  rintro u before ⟨after, -⟩
  omega

/-- The offset counts the pulses that the master has taken. -/
theorem lineoffsReg_inFrame {base : BitVec 32} {f t : Nat} (frame : InFrame w base f t) :
    (avmAt g w t).lineoffsReg = BitVec.ofInt 32 (linesTaken g w f t * g.lineoffsetbytes) := by
  obtain ⟨start, after, only, held⟩ := frame
  induction t, after using Nat.le_induction with
  | base =>
      rw [avmAt_succ, linesTaken_start]
      simp [Avm.step, start]
  | succ t after ih =>
      have before := ih (fun u low high => only u low (by omega)) fun u low high => held u low (by omega)
      have none := only t after (Nat.lt_succ_self t)
      rw [avmAt_succ, linesTaken_succ after]
      simp only [Avm.step, none, Bool.false_eq_true, if_false]
      by_cases taken : takenAt g w t = true
      · have accepted : (avmAt g w t).avmState = .idle ∧ (w t).linestart = true := by
          simpa [takenAt, Avm.takes] using taken
        rw [if_pos accepted, if_pos taken, before, ← BitVec.ofInt_add]
        congr 1
        push_cast
        ring
      · have missed : ¬ ((avmAt g w t).avmState = .idle ∧ (w t).linestart = true) := by
          simpa [takenAt, Avm.takes] using taken
        rw [if_neg missed, if_neg taken, before, Nat.add_zero]

/-- If no pulse of the frame has been missed, the count is the number of the line. -/
theorem linesTaken_eq {f t : Nat}
    (ready : ∀ u, f < u → u < t → (w u).linestart = true → (avmAt g w u).avmState = .idle) :
    linesTaken g w f t = linePulses w f t := by
  rw [linesTaken, linePulses, Nat.count_eq_card_filter_range, Nat.count_eq_card_filter_range]
  congr 1
  refine Finset.filter_congr fun u hu => and_congr_right fun after => ?_
  rw [takenAt, Avm.takes, Bool.and_eq_true, beq_iff_eq]
  exact ⟨fun taken => taken.2, fun pulse => ⟨ready u after (Finset.mem_range.mp hu) pulse, pulse⟩⟩

/-! ## The address -/

/-- The sum of two word addresses. -/
theorem append_word {x y : BitVec 32} (hx : x.toNat % 4 = 0) (hy : y.toNat % 4 = 0) :
    (x.extractLsb' 2 30 + y.extractLsb' 2 30) ++ 0#2 = x + y := by
  apply BitVec.eq_of_toNat_eq
  have := x.isLt
  have := y.isLt
  rw [BitVec.toNat_append, BitVec.toNat_add, BitVec.toNat_add, BitVec.extractLsb'_toNat,
    BitVec.extractLsb'_toNat, BitVec.toNat_ofNat, Nat.zero_mod, Nat.or_zero, Nat.shiftLeft_eq,
    Nat.shiftRight_eq_div_pow, Nat.shiftRight_eq_div_pow]
  omega

theorem ofInt_word {m : Int} (aligned : 4 ∣ m) : (BitVec.ofInt 32 m).toNat % 4 = 0 := by
  rw [BitVec.toNat_ofInt]
  omega

/-- The address is that of the pulse, and is held until the request is accepted. -/
theorem requested_addrReg {t u : Nat} (requested : Requested g w t u) :
    (avmAt g w u).avmState = .readIssue ∧
    (avmAt g w u).addrReg = (avmAt g w t).topaddrReg.extractLsb' 2 30 +
      (avmAt g w t).lineoffsReg.extractLsb' 2 30 := by
  obtain ⟨taken, after, waits⟩ := requested
  have accepted : (avmAt g w t).avmState = .idle ∧ (w t).linestart = true := by
    simpa [takenAt, Avm.takes] using taken
  induction u, after using Nat.le_induction with
  | base =>
      rw [avmAt_succ]
      simp only [Avm.step, Avm.sequence, accepted.1, accepted.2, if_true, and_self]
  | succ u after ih =>
      obtain ⟨state, addr⟩ := ih fun v low high => waits v low (by omega)
      have stalled := waits u after (Nat.lt_succ_self u)
      rw [avmAt_succ]
      simp only [Avm.step, Avm.sequence, state, stalled, Bool.true_eq_false, if_false, true_and]
      exact addr

/-- Every request answers a pulse. -/
theorem exists_requested {u : Nat} (issued : (avmAt g w u).avmState = .readIssue) :
    ∃ t, Requested g w t u := by
  induction u with
  | zero => exact absurd (show BusState.idle = .readIssue from issued) (by decide)
  | succ u ih =>
      rw [avmAt_succ] at issued
      cases st : (avmAt g w u).avmState <;> simp only [Avm.step, Avm.sequence, st] at issued
      case idle =>
        by_cases pulse : (w u).linestart = true
        · refine ⟨u, ?_, Nat.lt_succ_self u, fun v low high => by omega⟩
          simp [takenAt, Avm.takes, st, pulse]
        · rw [if_neg pulse, st] at issued
          exact absurd issued (by decide)
      case readIssue =>
        by_cases accepted : (w u).waitrequest = false
        · rw [if_pos accepted] at issued
          exact absurd issued (by simp)
        · obtain ⟨t, taken, after, waits⟩ := ih st
          refine ⟨t, taken, by omega, ?_⟩
          intro v low high
          rcases Nat.lt_succ_iff_lt_or_eq.mp high with earlier | rfl
          · exact waits v low earlier
          · simpa using accepted
      case dataRead =>
        split at issued
        · split at issued <;> exact absurd issued (by simp)
        · exact absurd (st.symm.trans issued) (by decide)
      all_goals exact absurd issued (by decide)

end

/-- A burst is requested exactly in answer to a pulse that finds the master idle, and its address
is that of row `k` of the frame, where `k` is the number of pulses taken in the frame before. -/
theorem burst_address (g : Generics) (aligned : 4 ∣ g.lineoffsetbytes) (w : Nat → M1Input) (u : Nat) :
    ((avmAt g w u).readReg = true ↔ ∃ t, Requested g w t u) ∧
    ∀ {t f : Nat} {base : BitVec 32}, Requested g w t u → InFrame w base f t → base.toNat % 4 = 0 →
      (avmAt g w u).m1Address =
        base + BitVec.ofInt 32 (linesTaken g w f t * g.lineoffsetbytes) := by
  constructor
  · rw [avmAt_readReg, beq_iff_eq]
    exact ⟨exists_requested, fun ⟨t, requested⟩ => (requested_addrReg requested).1⟩
  · intro t f base requested frame word
    have top : (avmAt g w t).topaddrReg = base := by
      obtain ⟨t, rfl⟩ : ∃ k, t = k + 1 := ⟨t - 1, by have := frame.after; omega⟩
      exact frame.held t (Nat.le_of_lt_succ frame.after) (Nat.le_succ t)
    rw [Avm.m1Address, (requested_addrReg requested).2, top, lineoffsReg_inFrame frame]
    exact append_word word (ofInt_word (Dvd.dvd.mul_left aligned _))

/-- The generics that `vga_component` sets by default. -/
def Generics.vga : Generics where
  burstcycle := 320
  lineoffsetbytes := 2048

/-- A frame with three pulses, and a bus that takes 150 clocks to accept a request and delivers
a word in every clock: the second pulse finds the master busy. -/
def missedLine (u : Nat) : M1Input where
  waitrequest := u < 150
  readdata := 0
  readdatavalid := true
  framebuffAddr := 0x00100000
  framestart := u == 1
  linestart := u == 2 || u == 100 || u == 500

theorem missedLine_inFrame : InFrame missedLine 0x00100000 1 500 where
  start := rfl
  after := by decide
  only u low _ := beq_eq_false_iff_ne.mpr (Nat.ne_of_gt low)
  held _ _ _ := rfl

/-- The third pulse is the second that is taken. -/
theorem burst_address_missedLine :
    (avmAt .vga missedLine 501).m1Address =
      0x00100000 + BitVec.ofInt 32 (linesTaken .vga missedLine 1 500 * 2048) :=
  (burst_address .vga (by decide) missedLine 501).2
    ⟨by decide +kernel, by decide, fun v low high => by omega⟩ missedLine_inFrame (by decide)

/-- The burst that answers pulse 2 of the frame has the address of row 1. -/
theorem missed_pulse_shifts_rows :
    InFrame missedLine 0x00100000 1 500 ∧ Requested .vga missedLine 500 501 ∧
    linePulses missedLine 1 500 = 2 ∧
    (avmAt .vga missedLine 501).readReg = true ∧
    (avmAt .vga missedLine 501).m1Address = 0x00100000 + 1 * 2048 ∧
    (avmAt .vga missedLine 501).m1Address ≠
      0x00100000 + BitVec.ofInt 32 (linePulses missedLine 1 500 * 2048) :=
  ⟨missedLine_inFrame, ⟨by decide +kernel, by decide, fun v low high => by omega⟩, by decide +kernel⟩

end Cineraria.Vga
