import Cineraria.Lib.RangeCheck
import Cineraria.Mmc.SpiWaveform

/-!
# The range of `bitcount`

`avalonif_mmc` declares `bitcount` with the range `0 to 7`, and counts each bit after it has compared the count
with 7: the clock that samples the eighth bit of a byte assigns 8. Over runs with resets at any time, a busy engine
is in a transfer that it has accepted and that no reset has come into (`exists_started`), so the simulation goes on
exactly as long as no transfer lives to its eighth bit.
-/

namespace Cineraria.Mmc

open Clocked RangeCheck

/-- The process of `avalonif_mmc`. -/
def Spi.process : Process SpiInput Spi where
  reset := Spi.reset
  clock := Spi.step
  signal s := s.bitcount
  range := ⟨0, 7⟩

/-- What a simulation begins with: a signal has the first value of its type. -/
def Spi.initial (s : Spi) : Spi := { s with state := .idle, bitcount := 0 }

theorem Spi.inRange_iff (s : Spi) : Spi.process.InRange s ↔ s.bitcount ≤ 7 := by
  simp only [Process.InRange, IntegerRange.Contains, Spi.process]
  omega

/-! ## Transfers and resets -/

section
variable (w : Nat → Event SpiInput) (s : Spi)

/-- The registers after `m` events of a simulation. -/
def spiAt (m : Nat) : Spi := run Spi.process.react w s.initial m

/-- Event `t` starts a transfer. -/
def StartsAt (t : Nat) : Prop := (spiAt w s t).state = .idle ∧ ∃ i, w t = .clock i ∧ i.starts = true

/-- The event that samples the eighth bit of a transfer started at event `t`. -/
def eighthBit (t : Nat) : Nat := t + rise (spiAt w s t).divrefReg 7

/-- A reset comes into the transfer, at the eighth bit at the latest. -/
def CutShort (t : Nat) : Prop := ∃ u, t < u ∧ u ≤ eighthBit w s t ∧ w u = .reset

end

section
variable {w : Nat → Event SpiInput} {s : Spi} {t k m : Nat}

theorem spiAt_reset (event : w m = .reset) : spiAt w s (m + 1) = (spiAt w s m).reset := by
  rw [spiAt, run_succ, event]
  rfl

theorem spiAt_clock {i : SpiInput} (event : w m = .clock i) : spiAt w s (m + 1) = (spiAt w s m).step i := by
  rw [spiAt, run_succ, event]
  rfl

/-- Up to the next reset a transfer is one of the engine alone. -/
theorem StartsAt.run_eq (started : StartsAt w s t) (unreset : Unreset w t k) :
    ∃ w' : Nat → SpiInput, (w' 0).starts = true ∧
      spiAt w s (t + (k + 1)) = run Spi.step w' (spiAt w s t) (k + 1) := by
  obtain ⟨-, i, event, starts⟩ := started
  refine ⟨fun u => (w (t + u)).inputs i, ?_, Process.run_react event unreset (Nat.le_refl _)⟩
  simp only [Nat.add_zero, event]
  exact starts

/-- The count in clock `k` of a transfer. -/
theorem StartsAt.bitcount (started : StartsAt w s t) (unreset : Unreset w t k)
    (within : k < 17 * ((spiAt w s t).divrefReg.toNat + 1)) :
    (spiAt w s (t + (k + 1))).bitcount = k / ((spiAt w s t).divrefReg.toNat + 1) / 2 := by
  obtain ⟨w', starts, same⟩ := started.run_eq unreset
  obtain ⟨⟨_, shifting⟩, -⟩ := transfer_halfPeriod started.1 starts within
  rw [same]
  exact shifting.bitcount

/-- The transfer ends after 17 half periods. -/
theorem StartsAt.ends (started : StartsAt w s t) (unreset : Unreset w t k)
    (last : k = 17 * ((spiAt w s t).divrefReg.toNat + 1)) : (spiAt w s (t + (k + 1))).state = .idle := by
  obtain ⟨w', starts, same⟩ := started.run_eq unreset
  rw [same, last]
  exact (spi_transfer started.1 starts).2.1

/-- An idle engine that takes no byte. -/
theorem spi_step_unstarted {s : Spi} {i : SpiInput} (idle : s.state = .idle) (unstarted : i.starts = false) :
    (s.step i).state = .idle ∧ (s.step i).bitcount = s.bitcount := by
  simp only [SpiInput.starts, Bool.and_eq_false_iff, Bool.not_eq_false'] at unstarted
  simp only [Spi.step, Spi.engine, idle]
  rcases unstarted with unwritten | kept
  · rw [unwritten]
    simp only [Bool.false_eq_true, if_false]
    split <;> simp [idle]
  · simp only [kept, Bool.true_eq_false, if_false]
    split
    · simp [idle]
    · split <;> simp [idle]

/-- A busy engine is in a transfer, and no reset has come into it. -/
theorem exists_started (busy : (spiAt w s m).state ≠ .idle) :
    ∃ t k, m = t + (k + 1) ∧ StartsAt w s t ∧ k < 17 * ((spiAt w s t).divrefReg.toNat + 1) ∧ Unreset w t k := by
  induction m with
  | zero => exact absurd rfl busy
  | succ m ih =>
      cases event : w m with
      | reset =>
          rw [spiAt_reset event] at busy
          exact absurd rfl busy
      | clock i =>
          by_cases idle : (spiAt w s m).state = .idle
          · cases starts : i.starts with
            | true => exact ⟨m, 0, rfl, ⟨idle, i, event, starts⟩, by omega, unreset_zero w m⟩
            | false =>
                rw [spiAt_clock event] at busy
                exact absurd (spi_step_unstarted idle starts).1 busy
          · obtain ⟨t, k, rfl, started, within, unreset⟩ := ih idle
            refine ⟨t, k + 1, rfl, started, ?_, unreset.next event⟩
            by_contra late
            exact busy (started.ends (unreset.next event) (by omega))

/-! ## The count -/

/-- The count stays in its range if no transfer lives to its eighth bit. -/
theorem bitcount_le {n : Nat} (cut : ∀ t, StartsAt w s t → eighthBit w s t < n → CutShort w s t)
    (within : m ≤ n) : (spiAt w s m).bitcount ≤ 7 := by
  induction m with
  | zero => exact Nat.zero_le 7
  | succ m ih =>
      have before := ih (by omega)
      cases event : w m with
      | reset =>
          rw [spiAt_reset event]
          exact before
      | clock i =>
          by_cases idle : (spiAt w s m).state = .idle
          · rw [spiAt_clock event]
            cases starts : i.starts with
            | true =>
                rw [(starts_step idle starts).bitcount]
                exact Nat.zero_le 7
            | false =>
                rw [(spi_step_unstarted idle starts).2]
                exact before
          · obtain ⟨t, k, rfl, started, -, unreset⟩ := exists_started idle
            have unreset := unreset.next event
            -- A clock at or after the eighth bit would have been preceded by the reset that cuts the transfer.
            have early : k + 1 < 16 * ((spiAt w s t).divrefReg.toNat + 1) := by
              by_contra late
              have eighth : eighthBit w s t ≤ t + (k + 1) := by
                unfold eighthBit rise
                omega
              obtain ⟨u, after, before, reset⟩ := cut t started (by omega)
              exact unreset u after (by omega) reset
            have halfPeriods : (k + 1) / ((spiAt w s t).divrefReg.toNat + 1) < 16 :=
              Nat.div_lt_of_lt_mul (by rwa [Nat.mul_comm])
            have counted := started.bitcount unreset (by omega)
            rw [Nat.add_assoc, counted]
            omega

/-- A transfer that lives to its eighth bit counts eight of them. -/
theorem StartsAt.eighth (started : StartsAt w s t) (whole : ¬ CutShort w s t) :
    (spiAt w s (eighthBit w s t + 1)).bitcount = 8 := by
  have unreset : Unreset w t (rise (spiAt w s t).divrefReg 7) := not_not.mp (mt not_unreset_iff.mp whole)
  have late : rise (spiAt w s t).divrefReg 7 < 17 * ((spiAt w s t).divrefReg.toNat + 1) := by
    unfold rise
    omega
  have counted := started.bitcount unreset late
  rw [rise, Nat.mul_div_cancel _ (Nat.succ_pos _)] at counted
  exact counted

/-- The count stays in its range exactly if no transfer lives to its eighth bit. -/
theorem bitcount_le_iff (w : Nat → Event SpiInput) (s : Spi) (n : Nat) :
    (∀ m ≤ n, (spiAt w s m).bitcount ≤ 7) ↔
      ∀ t, StartsAt w s t → eighthBit w s t < n → CutShort w s t := by
  constructor
  · intro inRange t started sampled
    by_contra whole
    have counted := started.eighth whole
    have bound := inRange (eighthBit w s t + 1) sampled
    omega
  · intro cut m within
    exact bitcount_le cut within

/-- The simulation of `avalonif_mmc` does not fail exactly if no transfer lives to its eighth bit. -/
theorem spi_simulates_iff (w : Nat → Event SpiInput) (s : Spi) (n : Nat) :
    (Spi.process.simulate w s.initial n).isSome = true ↔
      ∀ t, StartsAt w s t → eighthBit w s t < n → CutShort w s t := by
  have start : Spi.process.InRange s.initial := s.initial.inRange_iff.mpr (Nat.zero_le 7)
  rw [Process.simulate_isSome_iff start, ← bitcount_le_iff]
  simp only [Spi.inRange_iff, spiAt]

end

end Cineraria.Mmc
