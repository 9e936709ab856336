import Mathlib.Algebra.Order.Group.Abs
import Mathlib.Algebra.Order.Group.Int
import Cineraria.Video.TmdsEncoder

/-!
# Running disparity of the T.M.D.S. encoder

`cnt` is the accumulated disparity of the data symbols of the running burst. One
clock edge adds the disparity of the symbol it emits (`encodeData_disparity`) and
keeps `cnt` even and inside its declared range (`encodeData_inRange`); the rest is
the invariant rule over the whole run.
-/

namespace Cineraria.Tmds

open Clocked LineCode

/-- The declared range of `cnt`, with its parity. -/
structure InRange (cnt : Int) : Prop where
  even : cnt % 2 = 0
  lower : -8 ≤ cnt
  upper : cnt ≤ 8

theorem InRange.zero : InRange 0 := ⟨rfl, by omega, by omega⟩

/-- Every branch adds to `cnt` the disparity of the symbol it emits. -/
theorem encodeData_disparity (cnt : Int) (qm : BitVec 9) :
    (encodeData cnt qm).2 = cnt + disparity (encodeData cnt qm).1 := by
  have diff := number1s_sub_number0s (qmByte qm)
  have inverted := disparity_not (qmByte qm)
  unfold encodeData
  cases h8 : qm8 qm <;> dsimp only <;> split_ifs <;>
    simp_all [disparity_symbol, level] <;> omega

/-- No branch leaves the declared range. A positive `cnt` meets a symbol that does not
add ones, a negative one a symbol that does not add zeros; the parity of the data byte's
disparity turns the strict comparisons into steps of two. -/
theorem encodeData_inRange (cnt : Int) (qm : BitVec 9) (h : InRange cnt) :
    InRange (encodeData cnt qm).2 := by
  have diff := number1s_sub_number0s (qmByte qm)
  have even := even_disparity (qmByte qm) rfl
  have upper := disparity_le (qmByte qm)
  have lower := neg_le_disparity (qmByte qm)
  obtain ⟨hEven, hLower, hUpper⟩ := h
  unfold encodeData
  cases h8 : qm8 qm <;> dsimp only <;> split_ifs <;>
    first
      | contradiction
      | (constructor <;> push_cast at upper lower <;> omega)

/-! ## Runs -/

/-- The data symbols emitted up to edge `t` since the last blanking symbol or reset. The symbol of an input comes
two edges after it. -/
def burst (w : Nat → Input) (s : Regs) : Nat → List (BitVec 10)
  | 0 | 1 => []
  | t + 2 => if (w t).deIn then burst w s (t + 1) ++ [(run step w s (t + 2)).qoutReg] else []

/-- The accumulated DC imbalance of a list of symbols. -/
def imbalance (symbols : List (BitVec 10)) : Int :=
  symbols.foldl (fun total q => total + disparity q) 0

theorem imbalance_append_singleton (symbols : List (BitVec 10)) (q : BitVec 10) :
    imbalance (symbols ++ [q]) = imbalance symbols + disparity q := by
  simp [imbalance]

/-- One edge keeps `cnt` in range, whatever the inputs. -/
theorem step_inRange (i : Input) (s : Regs) (h : InRange s.cnt) : InRange (step i s).cnt := by
  cases de : s.deReg with
  | true => simpa [step, de] using encodeData_inRange s.cnt s.qmReg h
  | false => simpa [step, de] using InRange.zero

theorem run_inRange (w : Nat → Input) (s : Regs) (reset : IsReset s) (t : Nat) :
    InRange (run step w s t).cnt := by
  have start : InRange s.cnt := by rw [reset.cnt]; exact .zero
  exact run_invariant step_inRange w start t

/-- A blanking symbol leaves `cnt` at zero. -/
theorem run_cnt_blank (w : Nat → Input) (s : Regs) (t : Nat)
    (blank : (run step w s t).deReg = false) : (run step w s (t + 1)).cnt = 0 := by
  rw [run_succ]
  simp [step, blank]

/-- The enable of an input, one edge later. -/
theorem run_deReg (w : Nat → Input) (s : Regs) (t : Nat) : (run step w s (t + 1)).deReg = (w t).deIn := by
  rw [run_succ]
  rfl

/-- `cnt` is the imbalance of the running burst. -/
theorem run_cnt_eq_imbalance (w : Nat → Input) (s : Regs) (reset : IsReset s) :
    ∀ t, (run step w s t).cnt = imbalance (burst w s t)
  | 0 => reset.cnt
  | 1 => run_cnt_blank w s 0 reset.deReg
  | t + 2 => by
      have ih := run_cnt_eq_imbalance w s reset (t + 1)
      have de := run_deReg w s t
      cases data : (w t).deIn with
      | false =>
          rw [run_cnt_blank w s (t + 1) (de.trans data)]
          simp [burst, data, imbalance]
      | true =>
          rw [data] at de
          have emitted : (run step w s (t + 2)).qoutReg =
              (encodeData (run step w s (t + 1)).cnt (run step w s (t + 1)).qmReg).1 := by
            rw [run_succ]
            simp [step, de]
          have updated : (run step w s (t + 2)).cnt =
              (encodeData (run step w s (t + 1)).cnt (run step w s (t + 1)).qmReg).2 := by
            rw [run_succ]
            simp [step, de]
          rw [burst, if_pos data, imbalance_append_singleton, ← ih, updated, emitted, encodeData_disparity]

/-- Over any input stream after reset, `cnt` is even, in its declared range, zero after
a blanking symbol and equal to the running disparity of the burst, which is therefore
bounded by 8 at every symbol boundary. -/
theorem cnt_tracks_burst (w : Nat → Input) (s : Regs) (reset : IsReset s) (t : Nat) :
    (run step w s t).cnt % 2 = 0 ∧
    -8 ≤ (run step w s t).cnt ∧ (run step w s t).cnt ≤ 8 ∧
    ((run step w s t).deReg = false → (run step w s (t + 1)).cnt = 0) ∧
    ((w t).deIn = false → (run step w s (t + 2)).cnt = 0) ∧
    (run step w s t).cnt = imbalance (burst w s t) ∧
    |imbalance (burst w s t)| ≤ 8 := by
  obtain ⟨even, lower, upper⟩ := run_inRange w s reset t
  have tracks := run_cnt_eq_imbalance w s reset t
  refine ⟨even, lower, upper, run_cnt_blank w s t, fun blank => ?_, tracks, abs_le.mpr ⟨by omega, by omega⟩⟩
  exact run_cnt_blank w s (t + 1) ((run_deReg w s t).trans blank)

/-- The first pixels of a white line after a reset. -/
theorem cnt_tracks_burst_white :
    let s : Regs := ⟨0, 0, false, 0, 0⟩
    let w : Nat → Input := fun _ => ⟨true, false, false, 0xff⟩
    burst w s 4 = [0x200, 0x0ff, 0x0ff] ∧ (run step w s 4).cnt = imbalance (burst w s 4) ∧
      |imbalance (burst w s 640)| ≤ 8 := by
  intro s w
  have tracks := fun t => cnt_tracks_burst w s ⟨rfl, rfl, rfl⟩ t
  exact ⟨by decide, (tracks 4).2.2.2.2.2.1, (tracks 640).2.2.2.2.2.2⟩

end Cineraria.Tmds
