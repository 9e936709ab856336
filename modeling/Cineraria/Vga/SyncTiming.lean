import Cineraria.Lib.Clocked
import Cineraria.Lib.Raster
import Cineraria.Vga.Syncgen

/-!
# The raster of the video timing

The sync and blank registers are set and cleared at single values of the counters, yet they are
functions of them. As `vcount` advances when the active part of a line is over, the raster is
counted from there: its rows are the values of `vcount`, and the last columns of a row are the
active ones.
-/

namespace Cineraria.Vga

open Clocked Raster

/-- The line from which the active part of the frame begins. -/
def Timing.vStart (t : Timing) : Nat := t.vSync + t.vBackp

/-- The line in which the active part of the frame has ended. -/
def Timing.vEnd (t : Timing) : Nat := t.vStart + t.vActive

/-- The registers are what the counters say. -/
structure Syncgen.Aligned (t : Timing) (s : Syncgen) : Prop where
  hcount_lt : s.hcount < t.hTotal
  vcount_lt : s.vcount < t.vTotal
  hsync : s.hsyncReg = true ↔ s.hcount < t.hSync
  hblank : s.hblankReg = false ↔ t.hStart ≤ s.hcount ∧ s.hcount < t.hEnd
  vsync : s.vsyncReg = true ↔ s.vcount < t.vSync
  vblank : s.vblankReg = false ↔ t.vStart ≤ s.vcount ∧ s.vcount < t.vEnd
  framestart : s.frameReg = true ↔ s.vcount = 0 ∧ s.hcount < t.hSync

section
variable {t : Timing} {s : Syncgen}

/-- The parts of a line and of a frame, for arithmetic. -/
theorem Timing.parts (t : Timing) :
    (t.hStart = t.hSync + t.hBackp ∧ t.hEnd = t.hStart + t.hActive ∧ t.hEnd < t.hTotal ∧
      0 < t.hSync ∧ 0 < t.hBackp ∧ 0 < t.hActive) ∧
    (t.vStart = t.vSync + t.vBackp ∧ t.vEnd = t.vStart + t.vActive ∧ t.vEnd < t.vTotal ∧
      0 < t.vSync ∧ 0 < t.vBackp ∧ 0 < t.vActive) :=
  ⟨⟨rfl, rfl, t.hFits, t.hSync_pos, t.hBackp_pos, t.hActive_pos⟩,
    ⟨rfl, rfl, t.vFits, t.vSync_pos, t.vBackp_pos, t.vActive_pos⟩⟩

theorem aligned_reset (t : Timing) : (Syncgen.reset t).Aligned t := by
  obtain ⟨⟨hStart, hEnd, hFits, -⟩, ⟨vStart, vEnd, vFits, -⟩⟩ := t.parts
  constructor <;> simp only [Syncgen.reset, Bool.false_eq_true, Bool.true_eq_false, false_iff] <;>
    omega

theorem Syncgen.Aligned.step (aligned : s.Aligned t) (i : ScanInput) : (s.step t i).Aligned t := by
  obtain ⟨⟨hStart, hEnd, hFits, hSync, hBackp, hActive⟩,
    ⟨vStart, vEnd, vFits, vSync, vBackp, vActive⟩⟩ := t.parts
  have hcount := aligned.hcount_lt
  have vcount := aligned.vcount_lt
  constructor
  case hcount_lt =>
    simp only [Syncgen.step]
    split <;> omega
  case vcount_lt =>
    simp only [Syncgen.step]
    split
    · split <;> omega
    · exact vcount
  case hsync =>
    have before := aligned.hsync
    simp only [Syncgen.step]
    grind
  case hblank =>
    have before := aligned.hblank
    simp only [Syncgen.step]
    grind
  case vsync =>
    have before := aligned.vsync
    simp only [Syncgen.step]
    grind
  case vblank =>
    have before := aligned.vblank
    simp only [Syncgen.step]
    rw [← vStart, ← vEnd]
    grind
  case framestart =>
    have before := aligned.framestart
    simp only [Syncgen.step]
    grind

/-! ## The position in the frame -/

/-- The clocks of a row that are over, counted from the end of the active part of a line. -/
def Syncgen.column (t : Timing) (s : Syncgen) : Nat :=
  if s.hcount < t.hEnd then s.hcount + (t.hTotal - t.hEnd) else s.hcount - t.hEnd

/-- The clocks of the frame that are over. -/
def Syncgen.position (t : Timing) (s : Syncgen) : Nat := t.hTotal * s.vcount + s.column t

theorem Syncgen.Aligned.column_lt (aligned : s.Aligned t) : s.column t < t.hTotal := by
  have inside := aligned.hcount_lt
  obtain ⟨⟨hStart, hEnd, hFits, -⟩, -⟩ := t.parts
  unfold Syncgen.column
  split <;> omega

theorem Syncgen.Aligned.position_lt (aligned : s.Aligned t) :
    s.position t < t.hTotal * t.vTotal :=
  calc s.position t
      < t.hTotal * s.vcount + t.hTotal := Nat.add_lt_add_left aligned.column_lt _
    _ = t.hTotal * (s.vcount + 1) := (Nat.mul_succ _ _).symm
    _ ≤ t.hTotal * t.vTotal := Nat.mul_le_mul_left _ aligned.vcount_lt

theorem Syncgen.Aligned.position_row (aligned : s.Aligned t) :
    s.position t / t.hTotal = s.vcount := by
  have inside := aligned.column_lt
  rw [Syncgen.position, Nat.mul_add_div (by omega), Nat.div_eq_of_lt inside, Nat.add_zero]

theorem Syncgen.Aligned.position_column (aligned : s.Aligned t) :
    s.position t % t.hTotal = s.column t := by
  rw [Syncgen.position, Nat.mul_add_mod, Nat.mod_eq_of_lt aligned.column_lt]

theorem Syncgen.Aligned.position_step (aligned : s.Aligned t) (i : ScanInput) :
    (s.step t i).position t = (s.position t + 1) % (t.hTotal * t.vTotal) := by
  obtain ⟨⟨hStart, hEnd, hFits, hSync, -⟩, -⟩ := t.parts
  have hcount := aligned.hcount_lt
  have vcount := aligned.vcount_lt
  by_cases last : s.hcount + 1 = t.hEnd
  · -- The row is over.
    have column : s.column t + 1 = t.hTotal := by
      unfold Syncgen.column
      split <;> omega
    have after : (s.step t i).column t = 0 := by
      simp only [Syncgen.column, Syncgen.step]
      split <;> split <;> omega
    have row : (s.step t i).vcount = if s.vcount + 1 = t.vTotal then 0 else s.vcount + 1 :=
      if_pos last
    rw [Syncgen.position, after, row, Syncgen.position, Nat.add_assoc, column, ← Nat.mul_succ]
    split
    · next wraps => rw [Nat.succ_eq_add_one, wraps, Nat.mod_self, Nat.mul_zero]
    · next more =>
        rw [Nat.mod_eq_of_lt (Nat.mul_lt_mul_of_pos_left (by omega) (by omega)), Nat.add_zero]
  · have column : (s.step t i).column t = s.column t + 1 := by
      simp only [Syncgen.column, Syncgen.step]
      grind
    have row : (s.step t i).vcount = s.vcount := if_neg last
    have inside := (aligned.step i).position_lt
    rw [Syncgen.position, column, row, ← Nat.add_assoc] at inside
    rw [Syncgen.position, column, row, ← Nat.add_assoc, Syncgen.position, Nat.mod_eq_of_lt inside]

/-- Both blanks are off. -/
def Syncgen.visible (s : Syncgen) : Bool := !s.hblankReg && !s.vblankReg

/-- A position of the active part of the frame: the last columns of the active rows. -/
def Timing.Displayed (t : Timing) (p : Nat) : Prop :=
  (t.vStart ≤ p / t.hTotal ∧ p / t.hTotal < t.vEnd) ∧
    (t.hTotal - t.hActive ≤ p % t.hTotal ∧ p % t.hTotal < t.hTotal)

instance (t : Timing) : DecidablePred t.Displayed := fun _ => inferInstanceAs (Decidable (_ ∧ _))

theorem Syncgen.Aligned.visible_iff (aligned : s.Aligned t) :
    s.visible = true ↔ t.Displayed (s.position t) := by
  obtain ⟨⟨hStart, hEnd, hFits, -⟩, -⟩ := t.parts
  have hcount := aligned.hcount_lt
  have column : t.hStart ≤ s.hcount ∧ s.hcount < t.hEnd ↔
      t.hTotal - t.hActive ≤ s.column t ∧ s.column t < t.hTotal := by
    unfold Syncgen.column
    split <;> omega
  rw [Timing.Displayed, aligned.position_row, aligned.position_column, ← column, ← aligned.vblank,
    ← aligned.hblank, Syncgen.visible, Bool.and_eq_true, Bool.not_eq_true', Bool.not_eq_true',
    and_comm]

theorem count_displayed (t : Timing) :
    Nat.count t.Displayed (t.hTotal * t.vTotal) = t.hActive * t.vActive := by
  obtain ⟨⟨hStart, hEnd, hFits, -⟩, ⟨-, vEnd, vFits, -⟩⟩ := t.parts
  calc Nat.count t.Displayed (t.hTotal * t.vTotal)
      = Nat.count (fun k => t.vStart ≤ k ∧ k < t.vEnd) t.vTotal *
          Nat.count (fun k => t.hTotal - t.hActive ≤ k ∧ k < t.hTotal) t.hTotal :=
        count_raster (R := fun k => t.vStart ≤ k ∧ k < t.vEnd)
          (C := fun k => t.hTotal - t.hActive ≤ k ∧ k < t.hTotal) t.hTotal t.vTotal
    _ = (t.vEnd - t.vStart) * (t.hTotal - (t.hTotal - t.hActive)) := by
        rw [count_interval _ _ (Nat.le_of_lt vFits), count_interval _ _ (Nat.le_refl _)]
    _ = t.hActive * t.vActive := by
        rw [Nat.mul_comm]
        congr 1 <;> omega

end

/-! ## Runs -/

section
variable (t : Timing) (w : Nat → ScanInput)

theorem aligned_run (k : Nat) : (run (Syncgen.step t) w (.reset t) k).Aligned t :=
  run_invariant (fun i _ aligned => aligned.step i) w (aligned_reset t) k

theorem position_steps :
    Steps (t.hTotal * t.vTotal) fun k => (run (Syncgen.step t) w (.reset t) k).position t :=
  fun k => (aligned_run t w k).position_step (w k)

/-- In every run the registers are what the counters say, and in every window as long as a frame
exactly the pixels of a frame are visible. -/
theorem sync_exact :
    (∀ k, (run (Syncgen.step t) w (.reset t) k).Aligned t) ∧
    ∀ a, ((Finset.Ico a (a + t.hTotal * t.vTotal)).filter fun k =>
      (run (Syncgen.step t) w (.reset t) k).hblankReg = false ∧
        (run (Syncgen.step t) w (.reset t) k).vblankReg = false).card = t.hActive * t.vActive := by
  refine ⟨aligned_run t w, fun a => ?_⟩
  have start := (aligned_run t w 0).position_lt
  rw [← count_displayed t, ← (position_steps t w).card_window start t.Displayed a]
  congr 1
  apply Finset.filter_congr
  intro k _
  rw [← (aligned_run t w k).visible_iff, Syncgen.visible, Bool.and_eq_true, Bool.not_eq_true',
    Bool.not_eq_true']

end

end Cineraria.Vga
