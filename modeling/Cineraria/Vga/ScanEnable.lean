import Cineraria.Vga.SyncTiming

/-!
# The enable of the scan

The enable is sampled by one register and taken over by another in the first clock of the line
with which the frame begins. No line of that row is visible, so that the line pulses and the
pixels of a frame all see the same enable.
-/

namespace Cineraria.Vga

open Clocked Raster

/-- The signal rises after clock `k`. -/
def Rises (x : Nat → Bool) (k : Nat) : Prop := x k = false ∧ x (k + 1) = true

instance (x : Nat → Bool) : DecidablePred (Rises x) := fun _ => inferInstanceAs (Decidable (_ ∧ _))

/-- Two pulses of the signal, one right after the other. -/
structure Successive (x : Nat → Bool) (a b : Nat) : Prop where
  first : Rises x a
  second : Rises x b
  order : a < b
  next : ∀ k, a < k → k < b → ¬ Rises x k

/-- A line of the active part of the frame. -/
def Timing.ActiveLine (t : Timing) (v : Nat) : Prop := t.vStart ≤ v ∧ v < t.vEnd

instance (t : Timing) : DecidablePred t.ActiveLine := fun _ => inferInstanceAs (Decidable (_ ∧ _))

/-- The line pulse is what the counters and the enable say. -/
def Syncgen.LinePulse (t : Timing) (s : Syncgen) : Prop :=
  s.lineReg = true ↔ s.scanenaReg = true ∧ s.hcount < t.hSync ∧ t.ActiveLine s.vcount

section
variable {t : Timing} {s : Syncgen}

theorem linePulse_reset (t : Timing) : (Syncgen.reset t).LinePulse t := by
  simp [Syncgen.LinePulse, Syncgen.reset]

theorem Syncgen.Aligned.linePulse_step (aligned : s.Aligned t) (pulse : s.LinePulse t) (i : ScanInput) :
    (s.step t i).LinePulse t := by
  obtain ⟨⟨hStart, hEnd, hFits, hSync, hBackp, -⟩, ⟨vStart, -, -, vSync, -⟩⟩ := t.parts
  have hcount := aligned.hcount_lt
  have vblank := aligned.vblank
  simp only [Syncgen.LinePulse, Timing.ActiveLine, Syncgen.step] at pulse ⊢
  grind

/-! ## Where the signals rise -/

theorem Syncgen.Aligned.frame_rises (aligned : s.Aligned t) (i : ScanInput) :
    s.frameReg = false ∧ (s.step t i).frameReg = true ↔
      (s.step t i).hcount = 0 ∧ (s.step t i).vcount = 0 := by
  obtain ⟨⟨hStart, hEnd, hFits, hSync, hBackp, -⟩, -⟩ := t.parts
  have hcount := aligned.hcount_lt
  have before := aligned.framestart
  rw [(aligned.step i).framestart, ← Bool.not_eq_true, before]
  simp only [Syncgen.step]
  grind

/-- The column of the raster in which the sync pulse of a line begins. -/
theorem Syncgen.Aligned.column_eq_iff (aligned : s.Aligned t) :
    s.column t = t.hTotal - t.hEnd ↔ s.hcount = 0 := by
  obtain ⟨⟨hStart, hEnd, hFits, hSync, -⟩, -⟩ := t.parts
  have hcount := aligned.hcount_lt
  unfold Syncgen.column
  split <;> omega

/-- The frame begins at one position. -/
theorem Syncgen.Aligned.position_eq_iff (aligned : s.Aligned t) :
    s.position t = t.hTotal - t.hEnd ↔ s.hcount = 0 ∧ s.vcount = 0 := by
  obtain ⟨⟨hStart, hEnd, hFits, hSync, -⟩, -⟩ := t.parts
  constructor
  · intro same
    have row := aligned.position_row
    have column := aligned.position_column
    rw [same, Nat.div_eq_of_lt (by omega)] at row
    rw [same, Nat.mod_eq_of_lt (by omega)] at column
    exact ⟨aligned.column_eq_iff.mp column.symm, row.symm⟩
  · rintro ⟨left, top⟩
    rw [Syncgen.position, top, Nat.mul_zero, Nat.zero_add, aligned.column_eq_iff.mpr left]

/-- The clock `c` of a line that is displayed. -/
def Syncgen.Scans (c v : Nat) (s : Syncgen) : Prop :=
  s.hcount = c ∧ s.vcount = v ∧ s.scanenaReg = true

theorem Syncgen.Aligned.scans_step (aligned : s.Aligned t) (i : ScanInput) {c v : Nat}
    (active : t.ActiveLine v) (within : c + 1 < t.hEnd) :
    (s.step t i).Scans (c + 1) v ↔ s.Scans c v := by
  obtain ⟨⟨hStart, hEnd, hFits, -, -, hActive⟩, ⟨vStart, -, -, vSync, -⟩⟩ := t.parts
  have hcount := aligned.hcount_lt
  have below := active.1
  simp only [Syncgen.Scans, Syncgen.step]
  grind

theorem Syncgen.Aligned.line_rises (aligned : s.Aligned t) (pulse : s.LinePulse t) (i : ScanInput) :
    s.lineReg = false ∧ (s.step t i).lineReg = true ↔
      ∃ v, t.ActiveLine v ∧ (s.step t i).Scans 0 v := by
  obtain ⟨⟨hStart, hEnd, hFits, hSync, hBackp, hActive⟩, -⟩ := t.parts
  have hcount := aligned.hcount_lt
  have after : (s.step t i).LinePulse t := aligned.linePulse_step pulse i
  rw [Syncgen.LinePulse] at pulse after
  rw [after, ← Bool.not_eq_true, pulse]
  constructor
  · rintro ⟨down, on, early, active⟩
    refine ⟨_, active, ?_, rfl, on⟩
    by_contra later
    obtain ⟨c, same⟩ := Nat.exists_eq_succ_of_ne_zero later
    have scans : (s.step t i).Scans (c + 1) (s.step t i).vcount := ⟨same, rfl, on⟩
    obtain ⟨left, top, before⟩ := (aligned.scans_step i active (by omega)).mp scans
    exact down ⟨before, by omega, top ▸ active⟩
  · rintro ⟨v, active, left, top, on⟩
    refine ⟨?_, on, by omega, top ▸ active⟩
    rintro ⟨-, early, -⟩
    have next : (s.step t i).hcount = s.hcount + 1 := if_neg (by omega)
    omega

theorem pixelena_iff (aligned : s.Aligned t) :
    s.pixelena = true ↔ s.scanenaReg = true ∧ (t.hStart ≤ s.hcount ∧ s.hcount < t.hEnd) ∧
      t.ActiveLine s.vcount := by
  rw [Syncgen.pixelena, Bool.and_eq_true, Bool.and_eq_true, Bool.not_eq_true', Bool.not_eq_true',
    aligned.hblank, aligned.vblank, and_assoc]
  rfl

theorem Syncgen.Aligned.pixels_rise (aligned : s.Aligned t) (i : ScanInput) :
    s.pixelena = false ∧ (s.step t i).pixelena = true ↔
      ∃ v, t.ActiveLine v ∧ (s.step t i).Scans t.hStart v := by
  obtain ⟨⟨hStart, hEnd, hFits, hSync, hBackp, hActive⟩, -⟩ := t.parts
  have hcount := aligned.hcount_lt
  rw [pixelena_iff (aligned.step i), ← Bool.not_eq_true, pixelena_iff aligned]
  constructor
  · rintro ⟨down, on, ⟨started, within⟩, active⟩
    refine ⟨_, active, ?_, rfl, on⟩
    by_contra later
    obtain ⟨c, same⟩ := Nat.exists_eq_succ_of_ne_zero (n := (s.step t i).hcount) (by omega)
    have scans : (s.step t i).Scans (c + 1) (s.step t i).vcount := ⟨same, rfl, on⟩
    obtain ⟨left, top, before⟩ := (aligned.scans_step i active (by omega)).mp scans
    exact down ⟨before, by omega, top ▸ active⟩
  · rintro ⟨v, active, left, top, on⟩
    refine ⟨?_, on, by omega, top ▸ active⟩
    rintro ⟨-, ⟨started, within⟩, -⟩
    have next : (s.step t i).hcount = s.hcount + 1 := if_neg (by omega)
    omega

end

/-! ## Runs -/

section
variable (t : Timing) (w : Nat → ScanInput)

theorem linePulse_run (k : Nat) : (run (Syncgen.step t) w (.reset t) k).LinePulse t := by
  induction k with
  | zero => exact linePulse_reset t
  | succ k ih => exact (aligned_run t w k).linePulse_step ih (w k)

/-- The active part of a line comes after its sync pulse and its back porch. -/
theorem scans_run {v : Nat} (active : t.ActiveLine v) (k : Nat) {c : Nat} (within : c ≤ t.hStart) :
    (run (Syncgen.step t) w (.reset t) (k + c)).Scans c v ↔
      (run (Syncgen.step t) w (.reset t) k).Scans 0 v := by
  induction c with
  | zero => rfl
  | succ c ih =>
      rw [← ih (by omega)]
      obtain ⟨⟨-, hEnd, -, -, -, hActive⟩, -⟩ := t.parts
      exact (aligned_run t w (k + c)).scans_step (w (k + c)) active (by omega)

/-- The line pulses are those that come `hStart` clocks before the pixels of a line. -/
theorem pulse_iff_pixels (k : Nat) :
    Rises (fun k => (run (Syncgen.step t) w (.reset t) k).lineReg) k ↔
      Rises (fun k => (run (Syncgen.step t) w (.reset t) k).pixelena) (k + t.hStart) := by
  have pulse := (aligned_run t w k).line_rises (linePulse_run t w k) (w k)
  have pixels := (aligned_run t w (k + t.hStart)).pixels_rise (w (k + t.hStart))
  rw [← run_succ (Syncgen.step t) w] at pulse pixels
  rw [Rises, Rises, pulse, pixels]
  apply exists_congr
  intro v
  apply and_congr_right
  intro active
  rw [Nat.add_right_comm]
  exact (scans_run t w active (k + 1) (Nat.le_refl _)).symm

/-- Between two of its pulses the frame keeps its enable. -/
theorem scanena_kept {a b : Nat} (next : ∀ k, a < k → k < b →
    ¬ Rises (fun k => (run (Syncgen.step t) w (.reset t) k).frameReg) k) :
    ∀ k, a + 2 ≤ k → k ≤ b →
      (run (Syncgen.step t) w (.reset t) k).scanenaReg =
        (run (Syncgen.step t) w (.reset t) (a + 2)).scanenaReg := by
  intro k after
  induction k, after using Nat.le_induction with
  | base => exact fun _ => rfl
  | succ k after ih =>
      intro before
      rw [← ih (by omega)]
      have origin := (aligned_run t w (k - 1)).frame_rises (w (k - 1))
      have quiet := next (k - 1) (by omega) (by omega)
      rw [← run_succ (Syncgen.step t) w, Nat.sub_add_cancel (by omega)] at origin
      rw [Rises, Nat.sub_add_cancel (by omega), origin] at quiet
      exact if_neg quiet

theorem frame_rises_run (k : Nat) :
    Rises (fun k => (run (Syncgen.step t) w (.reset t) k).frameReg) k ↔
      (run (Syncgen.step t) w (.reset t) (k + 1)).position t = t.hTotal - t.hEnd := by
  have origin := (aligned_run t w k).frame_rises (w k)
  rw [← run_succ (Syncgen.step t) w] at origin
  rw [Rises, origin, (aligned_run t w (k + 1)).position_eq_iff]

/-- The frame pulses come regularly. -/
theorem frame_period {a b : Nat}
    (frame : Successive (fun k => (run (Syncgen.step t) w (.reset t) k).frameReg) a b) :
    b = a + t.hTotal * t.vTotal := by
  have steps := position_steps t w
  have start := (aligned_run t w 0).position_lt
  have first := (frame_rises_run t w a).mp frame.first
  have second := (frame_rises_run t w b).mp frame.second
  obtain ⟨k, gap⟩ := (steps.again_iff start (Nat.succ_le_succ frame.order.le)).mp
    (second.trans first.symm)
  have whole : t.hTotal * t.vTotal ≤ b - a := by
    rw [Nat.succ_sub_succ] at gap
    rw [gap]
    apply Nat.le_mul_of_pos_right
    apply Nat.pos_of_ne_zero
    rintro rfl
    have := frame.order
    omega
  by_contra longer
  refine frame.next (a + t.hTotal * t.vTotal) ?_ (by omega) ?_
  · have := Nat.zero_lt_of_lt start
    omega
  · rw [frame_rises_run, ← first]
    exact (steps.again_iff start (by omega)).mpr ⟨1, by omega⟩

/-- The clocks in which the sync pulses of active lines begin. -/
def Timing.LineStart (t : Timing) (R : Nat → Prop) (p : Nat) : Prop :=
  (t.ActiveLine (p / t.hTotal) ∧ R (p / t.hTotal)) ∧
    (t.hTotal - t.hEnd ≤ p % t.hTotal ∧ p % t.hTotal < t.hTotal - t.hEnd + 1)

instance (t : Timing) (R : Nat → Prop) [DecidablePred R] : DecidablePred (t.LineStart R) :=
  fun _ => inferInstanceAs (Decidable (_ ∧ _))

theorem count_lineStart (R : Nat → Prop) [DecidablePred R] :
    Nat.count (t.LineStart R) (t.hTotal * t.vTotal) =
      Nat.count (fun v => t.ActiveLine v ∧ R v) t.vTotal := by
  obtain ⟨⟨-, hEnd, hFits, -, -, hActive⟩, -⟩ := t.parts
  calc Nat.count (t.LineStart R) (t.hTotal * t.vTotal)
      = Nat.count (fun v => t.ActiveLine v ∧ R v) t.vTotal *
          Nat.count (fun k => t.hTotal - t.hEnd ≤ k ∧ k < t.hTotal - t.hEnd + 1) t.hTotal :=
        count_raster (R := fun v => t.ActiveLine v ∧ R v)
          (C := fun k => t.hTotal - t.hEnd ≤ k ∧ k < t.hTotal - t.hEnd + 1) t.hTotal t.vTotal
    _ = Nat.count (fun v => t.ActiveLine v ∧ R v) t.vTotal := by
        rw [count_interval _ _ (by omega), Nat.add_sub_cancel_left, Nat.mul_one]

theorem count_one {v : Nat} (active : t.ActiveLine v) (fits : v < t.vTotal) :
    Nat.count (fun u => t.ActiveLine u ∧ u = v) t.vTotal = 1 := by
  rw [Nat.count_eq_card_filter_range, Finset.card_eq_one]
  refine ⟨v, ?_⟩
  ext u
  simp only [Finset.mem_filter, Finset.mem_range, Finset.mem_singleton]
  constructor
  · exact fun member => member.2.2
  · rintro rfl
    exact ⟨fits, active, rfl⟩

theorem line_rises_run {on : Bool} {k : Nat}
    (enable : t.ActiveLine (run (Syncgen.step t) w (.reset t) (k + 1)).vcount →
      (run (Syncgen.step t) w (.reset t) (k + 1)).scanenaReg = on) (R : Nat → Prop) :
    Rises (fun k => (run (Syncgen.step t) w (.reset t) k).lineReg) k ∧
        R (run (Syncgen.step t) w (.reset t) (k + 1)).vcount ↔
      on = true ∧ t.LineStart R ((run (Syncgen.step t) w (.reset t) (k + 1)).position t) := by
  have aligned := aligned_run t w (k + 1)
  have rises := (aligned_run t w k).line_rises (linePulse_run t w k) (w k)
  have column := aligned.column_eq_iff
  rw [← run_succ (Syncgen.step t) w] at rises
  rw [Rises, rises, Timing.LineStart, aligned.position_row, aligned.position_column]
  constructor
  · rintro ⟨⟨v, active, left, rfl, up⟩, chosen⟩
    have place := column.mpr left
    exact ⟨(enable active).symm.trans up, ⟨active, chosen⟩, by omega, by omega⟩
  · rintro ⟨up, ⟨active, chosen⟩, place, before⟩
    exact ⟨⟨_, active, column.mp (by omega), rfl, (enable active).trans up⟩, chosen⟩

theorem pixelena_run {on : Bool} {k : Nat}
    (enable : t.ActiveLine (run (Syncgen.step t) w (.reset t) k).vcount →
      (run (Syncgen.step t) w (.reset t) k).scanenaReg = on) :
    (run (Syncgen.step t) w (.reset t) k).pixelena = true ↔
      on = true ∧ t.Displayed ((run (Syncgen.step t) w (.reset t) k).position t) := by
  have aligned := aligned_run t w k
  rw [← aligned.visible_iff, Syncgen.visible, Bool.and_eq_true, Bool.not_eq_true', Bool.not_eq_true',
    aligned.hblank, aligned.vblank, pixelena_iff aligned]
  constructor
  · rintro ⟨up, part, active⟩
    exact ⟨(enable active).symm.trans up, part, active⟩
  · rintro ⟨up, part, active⟩
    exact ⟨(enable active).trans up, part, active⟩

/-- The row in which the frame begins is not active: the lines and pixels of the frame all see the
enable that is taken over there. -/
theorem enable_of_frame {a b : Nat}
    (frame : Successive (fun k => (run (Syncgen.step t) w (.reset t) k).frameReg) a b) :
    ∀ k, a + 1 ≤ k → k ≤ b → t.ActiveLine (run (Syncgen.step t) w (.reset t) k).vcount →
      (run (Syncgen.step t) w (.reset t) k).scanenaReg =
        (run (Syncgen.step t) w (.reset t) (a + 2)).scanenaReg := by
  intro k after before active
  rcases Nat.eq_or_lt_of_le after with rfl | later
  · have origin := (aligned_run t w (a + 1)).position_eq_iff.mp ((frame_rises_run t w a).mp frame.first)
    obtain ⟨-, ⟨vStart, -, -, vSync, -⟩⟩ := t.parts
    have below := active.1
    rw [origin.2] at below
    omega
  · exact scanena_kept t w frame.next k later before

/-- The line pulses of a frame in the lines of `R`. -/
theorem card_pulses {a b : Nat}
    (frame : Successive (fun k => (run (Syncgen.step t) w (.reset t) k).frameReg) a b)
    (R : Nat → Prop) [DecidablePred R] :
    ((Finset.Ico a b).filter fun k => Rises (fun k => (run (Syncgen.step t) w (.reset t) k).lineReg) k ∧
        R (run (Syncgen.step t) w (.reset t) (k + 1)).vcount).card =
      if (run (Syncgen.step t) w (.reset t) (a + 2)).scanenaReg then
        Nat.count (fun v => t.ActiveLine v ∧ R v) t.vTotal else 0 := by
  have enable := enable_of_frame t w frame
  have steps : Steps (t.hTotal * t.vTotal) fun k => (run (Syncgen.step t) w (.reset t) (k + 1)).position t :=
    fun k => position_steps t w (k + 1)
  have start := (aligned_run t w 1).position_lt
  have period := frame_period t w frame
  have chosen : ∀ k ∈ Finset.Ico a b,
      (Rises (fun k => (run (Syncgen.step t) w (.reset t) k).lineReg) k ∧
        R (run (Syncgen.step t) w (.reset t) (k + 1)).vcount ↔
      (run (Syncgen.step t) w (.reset t) (a + 2)).scanenaReg = true ∧
        t.LineStart R ((run (Syncgen.step t) w (.reset t) (k + 1)).position t)) := by
    intro k member
    obtain ⟨after, before⟩ := Finset.mem_Ico.mp member
    exact line_rises_run t w (enable (k + 1) (by omega) (by omega)) R
  rw [Finset.filter_congr chosen]
  split
  · next on =>
      simp only [on, true_and]
      rw [period, steps.card_window start (t.LineStart R) a, count_lineStart]
  · next off =>
      simp only [off, false_and, Finset.filter_false, Finset.card_empty, Bool.false_eq_true]

theorem card_pixels {a b : Nat}
    (frame : Successive (fun k => (run (Syncgen.step t) w (.reset t) k).frameReg) a b) :
    ((Finset.Ico (a + 1) (b + 1)).filter fun k =>
        (run (Syncgen.step t) w (.reset t) k).pixelena = true).card =
      if (run (Syncgen.step t) w (.reset t) (a + 2)).scanenaReg then t.hActive * t.vActive else 0 := by
  have enable := enable_of_frame t w frame
  have start := (aligned_run t w 0).position_lt
  have chosen : ∀ k ∈ Finset.Ico (a + 1) (b + 1),
      ((run (Syncgen.step t) w (.reset t) k).pixelena = true ↔
      (run (Syncgen.step t) w (.reset t) (a + 2)).scanenaReg = true ∧
        t.Displayed ((run (Syncgen.step t) w (.reset t) k).position t)) := by
    intro k member
    obtain ⟨after, before⟩ := Finset.mem_Ico.mp member
    exact pixelena_run t w (enable k after (by omega))
  rw [Finset.filter_congr chosen, frame_period t w frame, Nat.add_right_comm a]
  split
  · next on =>
      simp only [on, true_and]
      rw [(position_steps t w).card_window start t.Displayed, count_displayed]
  · next off =>
      simp only [off, false_and, Finset.filter_false, Finset.card_empty, Bool.false_eq_true]

end

/-- Between two successive frame pulses the timing emits a line pulse for each line of the active
part, `hStart` clocks before its pixels, and all pixels of the frame, or no line pulse and no
pixel, however the enable changes. -/
theorem scan_all_or_none (t : Timing) (w : Nat → ScanInput) {a b : Nat}
    (frame : Successive (fun k => (run (Syncgen.step t) w (.reset t) k).frameReg) a b) :
    let pulse := Rises fun k => (run (Syncgen.step t) w (.reset t) k).lineReg
    let pixel := fun k => (run (Syncgen.step t) w (.reset t) k).pixelena
    let line := fun k => (run (Syncgen.step t) w (.reset t) (k + 1)).vcount
    (((Finset.Ico a b).filter pulse).card = t.vActive ∧
      (∀ v, t.ActiveLine v → ((Finset.Ico a b).filter fun k => pulse k ∧ line k = v).card = 1) ∧
      (∀ k, pulse k ↔ Rises pixel (k + t.hStart)) ∧
      ((Finset.Ico (a + 1) (b + 1)).filter fun k => pixel k = true).card = t.hActive * t.vActive) ∨
    (((Finset.Ico a b).filter pulse).card = 0 ∧
      ((Finset.Ico (a + 1) (b + 1)).filter fun k => pixel k = true).card = 0) := by
  intro pulse pixel line
  obtain ⟨-, ⟨-, vEnd, vFits, -⟩⟩ := t.parts
  have pulses := card_pulses t w frame fun _ => True
  have pixels := card_pixels t w frame
  simp only [and_true] at pulses
  by_cases on : (run (Syncgen.step t) w (.reset t) (a + 2)).scanenaReg = true
  · left
    refine ⟨?_, ?_, pulse_iff_pixels t w, ?_⟩
    · rw [if_pos on] at pulses
      rw [pulses]
      exact (count_interval t.vStart t.vEnd (Nat.le_of_lt vFits)).trans (by omega)
    · intro v active
      rw [card_pulses t w frame fun u => u = v, if_pos on]
      exact count_one t active (Nat.lt_trans active.2 vFits)
    · rw [pixels, if_pos on]
  · right
    rw [if_neg on] at pulses pixels
    exact ⟨pulses, pixels⟩

/-- A timing of two pixels. -/
def tinyTiming : Timing where
  hTotal := 5
  hSync := 1
  hBackp := 1
  hActive := 2
  vTotal := 4
  vSync := 1
  vBackp := 1
  vActive := 1
  hSync_pos := Nat.one_pos
  hBackp_pos := Nat.one_pos
  hActive_pos := Nat.two_pos
  vSync_pos := Nat.one_pos
  vBackp_pos := Nat.one_pos
  vActive_pos := Nat.one_pos
  hFits := Nat.le_refl 5
  vFits := Nat.le_refl 4

/-- The first frame of `tinyTiming` with the scan enabled. -/
theorem scan_all_or_none_tiny :
    let s := run (Syncgen.step tinyTiming) (fun _ => ⟨true, false⟩) (.reset tinyTiming)
    Successive (fun k => (s k).frameReg) 5 25 ∧
    (((Finset.Ico 5 25).filter (Rises fun k => (s k).lineReg)).card = 1 ∧
        ((Finset.Ico 6 26).filter fun k => (s k).pixelena = true).card = 2 ∨
      ((Finset.Ico 5 25).filter (Rises fun k => (s k).lineReg)).card = 0 ∧
        ((Finset.Ico 6 26).filter fun k => (s k).pixelena = true).card = 0) := by
  intro s
  have quiet : ∀ k < 25, 5 < k → ¬ Rises (fun k => (s k).frameReg) k := by decide +kernel
  have frame : Successive (fun k => (s k).frameReg) 5 25 :=
    ⟨by decide +kernel, by decide +kernel, by decide, fun k after before => quiet k before after⟩
  refine ⟨frame, ?_⟩
  rcases scan_all_or_none tinyTiming _ frame with ⟨pulses, -, -, pixels⟩ | none
  · exact .inl ⟨pulses, pixels⟩
  · exact .inr none

end Cineraria.Vga
