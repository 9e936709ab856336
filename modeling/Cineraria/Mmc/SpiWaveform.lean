import Cineraria.Mmc.Mmcdma

/-!
# What the card sees of a transfer

The clock and data lines that `avalonif_mmc` drives, edge by edge. The clock line is low
exactly in the incoming half periods, so between transfers it rests at '1' without a count
of its edges.
-/

namespace Cineraria.Mmc

open Clocked ShiftRegister

/-- The last clock before the `j`-th falling edge of SCK, in a transfer accepted in clock 0. -/
def fall (d : BitVec 8) (j : Nat) : Nat := (2 * j + 1) * (d.toNat + 1)

/-- The last clock before the `j`-th rising edge of SCK, in which MMC_SDI is sampled. -/
def rise (d : BitVec 8) (j : Nat) : Nat := (2 * j + 2) * (d.toNat + 1)

/-- A transfer of `b` with the divider at `d`, accepted in clock 0: `x` are the registers and
`sdi` is the card's data line, clock by clock. -/
structure Transfers (d b : BitVec 8) (sdi : Nat → Bool) (x : Nat → Spi) : Prop where
  ready : (x 0).exitReg = true
  busy : ∀ m, 0 < m → m ≤ 17 * (d.toNat + 1) → (x m).exitReg = false
  done : (x (17 * (d.toNat + 1) + 1)).exitReg = true
  falls : ∀ m < transferTime d,
    ((x m).sckReg = true ∧ (x (m + 1)).sckReg = false ↔ ∃ j < 8, m = fall d j)
  rises : ∀ m < transferTime d,
    ((x m).sckReg = false ∧ (x (m + 1)).sckReg = true ↔ ∃ j < 8, m = rise d j)
  rests : (x (transferTime d)).sckReg = true
  sdo : ∀ j < 8, ∀ m, fall d j < m → m ≤ rise d j → (x m).sdoReg = b.getLsbD (7 - j)
  rxd : ∀ j < 8, (x (transferTime d)).rxddata.getLsbD (7 - j) = sdi (rise d j)
  divref : ∀ m ≤ transferTime d, (x m).divrefReg = d

/-! ## The clock line -/

/-- SCK is low in the incoming half periods. -/
def SckShows (s : Spi) : Prop := s.sckReg = decide (s.state ≠ .sdi)

theorem Spi.IsReset.sckShows {s : Spi} (reset : s.IsReset) : SckShows s := by
  rw [SckShows, reset.sckReg, reset.state]
  rfl

theorem step_sckShows (i : SpiInput) (s : Spi) (shows : SckShows s) : SckShows (s.step i) := by
  rw [SckShows] at shows ⊢
  cases st : s.state <;> rw [st] at shows <;> simp only [Spi.step, Spi.engine, st]
  case idle =>
    split
    · split <;> simp [shows, st]
    · split <;> simp [shows, st]
  case sdo => split <;> simp [shows]
  case sdi =>
    split
    · split <;> simp [shows]
    · simp [shows]
  case done => split <;> simp [shows]

theorem run_sckShows {s : Spi} (reset : s.IsReset) (w : Nat → SpiInput) (t : Nat) :
    SckShows (run Spi.step w s t) :=
  run_invariant step_sckShows w reset.sckShows t

/-! ## The data line -/

/-- In half period `q` the transmitter has shifted out `(q + 1) / 2` bits of `b`, and the last
of them is on MMC_SDO. -/
structure Driving (b : BitVec 8) (q : Nat) (s : Spi) : Prop where
  txd : s.txddata = shifts b (fun _ => false) ((q + 1) / 2)
  sdo : 0 < q → s.sdoReg = b.getLsbD (7 - (q - 1) / 2)

section
variable {d rxd b : BitVec 8} {q r : Nat} {s : Spi}

theorem Driving.tick (h : Driving b q s) (shifting : Shifting d q r rxd s) (within : r < d.toNat)
    (i : SpiInput) : Driving b q (s.step i) := by
  have counting : s.divcount ≠ 0 := fun zero => by
    have := shifting.divcount_eq_zero.mp zero
    omega
  have busy := shifting.busy
  obtain ⟨txd, sdo⟩ := h
  cases st : s.state with
  | idle => exact absurd st busy
  | sdo | sdi | done =>
      constructor <;> simp only [Spi.step, Spi.engine, st, if_neg counting]
      · exact txd
      · exact sdo

/-- The next bit goes out at the end of an even half period. -/
theorem Driving.next (h : Driving b q s) (shifting : Shifting d q r rxd s) (within : q < 16)
    (last : r = d.toNat) (i : SpiInput) : Driving b (q + 1) (s.step i) := by
  have zero := shifting.divcount_eq_zero.mpr last
  have state := shifting.state
  obtain ⟨txd, sdo⟩ := h
  rw [halfPeriod, if_neg (by omega)] at state
  rcases Nat.mod_two_eq_zero_or_one q with even | odd
  · rw [if_pos even] at state
    constructor <;> simp only [Spi.step, Spi.engine, state, if_pos zero]
    · rw [show (q + 1 + 1) / 2 = (q + 1) / 2 + 1 by omega, shifts, txd]
    · intro _
      rw [txd, getLsbD_shifts _ _ _ (by decide), if_neg (by omega)]
      congr 1
      omega
  · rw [if_neg (by omega)] at state
    constructor <;> simp only [Spi.step, Spi.engine, state, if_pos zero]
    · rw [show (q + 1 + 1) / 2 = (q + 1) / 2 by omega, txd]
    · intro _
      rw [sdo (by omega)]
      congr 1
      omega

/-- One half period. -/
theorem run_driving_ticks {w : Nat → SpiInput} {t : Nat} (start : Driving b q (run Spi.step w s t))
    (shifting : Shifting d q 0 rxd (run Spi.step w s t)) (within : r ≤ d.toNat) :
    Driving b q (run Spi.step w s (t + r)) := by
  induction r with
  | zero => exact start
  | succ r ih => exact (ih (by omega)).tick (run_ticks shifting (by omega)) (by omega) _

/-- The data line follows the half periods, whatever is written to the engine. -/
theorem run_driving {w : Nat → SpiInput} (shifting : Shifting d 0 0 rxd s) (start : Driving b 0 s)
    (hq : q ≤ 16) : Driving b q (run Spi.step w s (q * (d.toNat + 1))) := by
  induction q with
  | zero =>
      rw [Nat.zero_mul]
      exact start
  | succ q ih =>
      have here := run_shifting (w := w) shifting (show q ≤ 16 by omega)
      have ended := run_driving_ticks (ih (by omega)) here (Nat.le_refl d.toNat)
      rw [Nat.succ_mul, ← Nat.add_assoc, run_succ]
      exact ended.next (run_ticks here (Nat.le_refl _)) (by omega) rfl _

end

/-- The write that starts a transfer loads the transmitter. -/
theorem starts_driving {s : Spi} (idle : s.state = .idle) {i : SpiInput} (starts : i.starts = true) :
    Driving (i.writedata.setWidth 8) 0 (s.step i) := by
  obtain ⟨written, bit9⟩ : i.writes 0 = true ∧ i.writedata.getLsbD 9 = false := by
    simpa [SpiInput.starts] using starts
  constructor
  · simp only [Spi.step, Spi.engine, idle, if_pos written, if_pos bit9]
    rfl
  · intro positive
    exact absurd positive (by decide)

/-! ## The low half periods -/

/-- Clock `m` comes after a falling edge of SCK and not after the rising edge that follows it. -/
def LowHalf (d : BitVec 8) (m : Nat) : Prop := ∃ j < 8, fall d j < m ∧ m ≤ rise d j

section
variable {d : BitVec 8} {m : Nat}

theorem rise_eq (d : BitVec 8) (j : Nat) : rise d j = fall d j + (d.toNat + 1) := by
  rw [rise, fall, ← Nat.succ_mul]

theorem fall_lt_rise (d : BitVec 8) (j : Nat) : fall d j < rise d j := by
  rw [rise_eq]
  omega

/-- One low half period is over before the next begins. -/
theorem rise_lt_fall (d : BitVec 8) {j k : Nat} (later : j < k) : rise d j < fall d k :=
  Nat.mul_lt_mul_of_pos_right (by omega) (Nat.succ_pos _)

theorem lowHalf_begins : ¬ LowHalf d m ∧ LowHalf d (m + 1) ↔ ∃ j < 8, m = fall d j := by
  constructor
  · rintro ⟨high, j, hj, after, before⟩
    refine ⟨j, hj, ?_⟩
    by_contra late
    exact high ⟨j, hj, by omega, by omega⟩
  · rintro ⟨j, hj, rfl⟩
    refine ⟨?_, j, hj, Nat.lt_succ_self _, fall_lt_rise d j⟩
    rintro ⟨k, -, after, before⟩
    rcases Nat.lt_or_ge k j with earlier | later
    · exact absurd before (Nat.not_le_of_lt (rise_lt_fall d earlier))
    · have ordered : fall d j ≤ fall d k := Nat.mul_le_mul_right _ (by omega)
      exact absurd after (Nat.not_lt_of_le ordered)

theorem lowHalf_ends : LowHalf d m ∧ ¬ LowHalf d (m + 1) ↔ ∃ j < 8, m = rise d j := by
  constructor
  · rintro ⟨⟨j, hj, after, before⟩, high⟩
    refine ⟨j, hj, ?_⟩
    by_contra early
    exact high ⟨j, hj, by omega, by omega⟩
  · rintro ⟨j, hj, rfl⟩
    refine ⟨⟨j, hj, fall_lt_rise d j, Nat.le_refl _⟩, ?_⟩
    rintro ⟨k, -, after, before⟩
    rcases Nat.lt_or_ge j k with later | earlier
    · exact absurd (rise_lt_fall d later) (Nat.not_lt_of_le (Nat.le_of_lt_succ after))
    · have ordered : rise d k ≤ rise d j := Nat.mul_le_mul_right _ (by omega)
      exact absurd (Nat.lt_of_succ_le before) (Nat.not_lt_of_le ordered)

/-- The last rising edge comes before the end of the transfer. -/
theorem rise_le (d : BitVec 8) {j : Nat} (hj : j < 8) : rise d j ≤ 16 * (d.toNat + 1) :=
  Nat.mul_le_mul_right _ (by omega)

theorem not_lowHalf_end (late : 16 * (d.toNat + 1) < m) : ¬ LowHalf d m := by
  rintro ⟨j, hj, -, before⟩
  have last := rise_le d hj
  omega

end

/-! ## One transfer -/

section
variable {w : Nat → SpiInput} {s : Spi}

/-- Clock `m` of a transfer is in half period `m / (d + 1)`. -/
theorem transfer_halfPeriod (idle : s.state = .idle) (starts : (w 0).starts = true) {m : Nat}
    (within : m < 17 * (s.divrefReg.toNat + 1)) :
    (∃ rxd, Shifting s.divrefReg (m / (s.divrefReg.toNat + 1)) (m % (s.divrefReg.toNat + 1)) rxd
      (run Spi.step w s (m + 1))) ∧
    Driving ((w 0).writedata.setWidth 8) (m / (s.divrefReg.toNat + 1))
      (run Spi.step w s (m + 1)) := by
  have shifting : Shifting s.divrefReg 0 0 s.rxddata (run Spi.step w s 1) := starts_step idle starts
  have driving : Driving ((w 0).writedata.setWidth 8) 0 (run Spi.step w s 1) :=
    starts_driving idle starts
  have half : m / (s.divrefReg.toNat + 1) ≤ 16 := by
    have : m / (s.divrefReg.toNat + 1) < 17 := Nat.div_lt_of_lt_mul (by rw [Nat.mul_comm]; omega)
    omega
  have rest : m % (s.divrefReg.toNat + 1) ≤ s.divrefReg.toNat :=
    Nat.le_of_lt_succ (Nat.mod_lt m (Nat.succ_pos _))
  have begun := run_shifting (w := shift w 1) shifting half
  have shiftingNow := run_ticks begun rest
  have drivingNow := run_driving_ticks (run_driving shifting driving half) begun rest
  rw [Nat.mul_comm, Nat.div_add_mod, ← run_add, Nat.add_comm 1 m] at shiftingNow drivingNow
  exact ⟨⟨_, shiftingNow⟩, drivingNow⟩

/-- SCK is low from each falling edge to the rising edge that follows it. -/
theorem transfer_sck_low (shows : SckShows s) (idle : s.state = .idle) (starts : (w 0).starts = true)
    {m : Nat} (within : m ≤ transferTime s.divrefReg) :
    (run Spi.step w s m).sckReg = false ↔ LowHalf s.divrefReg m := by
  have showsNow : SckShows (run Spi.step w s m) := run_invariant step_sckShows w shows m
  rw [showsNow, decide_eq_false_iff_not, not_not]
  cases m with
  | zero => simp [LowHalf, idle]
  | succ m =>
      by_cases last : m = 17 * (s.divrefReg.toNat + 1)
      · have ended := (spi_transfer idle starts).2.1
        rw [transferTime, ← last] at ended
        exact iff_of_false (by simp [ended]) (not_lowHalf_end (by omega))
      · have inside : m < 17 * (s.divrefReg.toNat + 1) := by
          simp only [transferTime] at within
          omega
        obtain ⟨⟨rxd, shifting⟩, -⟩ := transfer_halfPeriod idle starts inside
        have half : m / (s.divrefReg.toNat + 1) < 17 :=
          Nat.div_lt_of_lt_mul (by rw [Nat.mul_comm]; omega)
        have split := Nat.div_add_mod m (s.divrefReg.toNat + 1)
        have rest : m % (s.divrefReg.toNat + 1) < s.divrefReg.toNat + 1 :=
          Nat.mod_lt m (Nat.succ_pos _)
        have incoming : halfPeriod (m / (s.divrefReg.toNat + 1)) = .sdi ↔
            m / (s.divrefReg.toNat + 1) % 2 = 1 := by
          rw [halfPeriod]
          split_ifs with h16 heven
          · simp [h16]
          · simp [heven]
          · simp only [true_iff]
            omega
        rw [shifting.state, incoming]
        constructor
        · intro odd
          refine ⟨m / (s.divrefReg.toNat + 1) / 2, by omega, ?_⟩
          rw [rise_eq, fall, show 2 * (m / (s.divrefReg.toNat + 1) / 2) + 1 =
            m / (s.divrefReg.toNat + 1) by omega, Nat.mul_comm]
          omega
        · rintro ⟨j, -, after, before⟩
          have period : m / (s.divrefReg.toNat + 1) = 2 * j + 1 := by
            refine Nat.div_eq_of_lt_le ?_ ?_
            · exact Nat.le_of_lt_succ after
            · exact before
          omega

theorem transfers_of_idle (shows : SckShows s) (exit : s.exitReg = (s.state == .idle))
    (idle : s.state = .idle) (starts : (w 0).starts = true) :
    Transfers s.divrefReg ((w 0).writedata.setWidth 8) (fun m => (w m).mmcSdi)
      (run Spi.step w s) := by
  obtain ⟨busy, -, done, divref, rxd⟩ := spi_transfer idle starts
  have low {m : Nat} (within : m ≤ transferTime s.divrefReg) :
      (run Spi.step w s m).sckReg = false ↔ LowHalf s.divrefReg m :=
    transfer_sck_low shows idle starts within
  have high {m : Nat} (within : m ≤ transferTime s.divrefReg) :
      (run Spi.step w s m).sckReg = true ↔ ¬ LowHalf s.divrefReg m := by
    rw [← low within, Bool.not_eq_false]
  refine ⟨?_, ?_, done, ?_, ?_, ?_, ?_, ?_, ?_⟩
  · rw [run_zero, exit, idle]
    rfl
  · intro m positive before
    exact (busy m positive (Nat.lt_succ_of_le before)).2
  · intro m within
    rw [high (Nat.le_of_lt within), low within]
    exact lowHalf_begins
  · intro m within
    rw [low (Nat.le_of_lt within), high within]
    exact lowHalf_ends
  · rw [high (Nat.le_refl _)]
    apply not_lowHalf_end
    unfold transferTime
    omega
  · intro j hj m after before
    obtain ⟨m, rfl⟩ : ∃ k, m = k + 1 := ⟨m - 1, by omega⟩
    have bound := rise_le s.divrefReg hj
    have period : m / (s.divrefReg.toNat + 1) = 2 * j + 1 :=
      Nat.div_eq_of_lt_le (Nat.le_of_lt_succ after) before
    have driving := (transfer_halfPeriod idle starts (m := m) (by omega)).2
    rw [driving.sdo (by omega), period, show (2 * j + 1 - 1) / 2 = j by omega]
  · intro j hj
    rw [rxd, byteAt, getLsbD_ofBits _ (by omega)]
    simp only [Nat.zero_add, rise]
    rw [show 2 * (8 - (7 - j)) = 2 * j + 2 by omega]
  · intro m within
    rcases Nat.lt_or_eq_of_le within with before | rfl
    · cases m with
      | zero => rfl
      | succ m =>
          simp only [transferTime] at before
          obtain ⟨⟨_, shifting⟩, -⟩ := transfer_halfPeriod idle starts (m := m) (by omega)
          exact shifting.divref
    · exact divref

end

/-- Over every run from reset: SCK rests at '1' while the engine is idle, and every transfer
it accepts takes `17 * (d + 1)` clocks with eight pulses of SCK, sends the byte written and
receives the byte on the card's data line, whatever else is written meanwhile. -/
theorem run_transfers {s : Spi} (reset : s.IsReset) (w : Nat → SpiInput) (t : Nat)
    (idle : (run Spi.step w s t).state = .idle) :
    (run Spi.step w s t).sckReg = true ∧
    ((w t).starts = true →
      Transfers (run Spi.step w s t).divrefReg ((w t).writedata.setWidth 8)
        (fun m => (w (t + m)).mmcSdi) (fun m => run Spi.step w s (t + m))) := by
  have shows := run_sckShows reset w t
  constructor
  · rw [shows, idle]
    rfl
  · intro starts
    have start : s.exitReg = (s.state == .idle) := by
      rw [reset.exitReg, reset.state]
      rfl
    have kept : ∀ (i : SpiInput) (s : Spi), s.exitReg = (s.state == .idle) →
        (s.step i).exitReg = ((s.step i).state == .idle) :=
      fun i s consistent => Spi.step_exit consistent i
    have exit := run_invariant kept w start t
    have transfers := transfers_of_idle (w := shift w t) shows exit idle starts
    simpa only [shift_apply, Nat.add_zero, run_add] using transfers

/-- A bus that sends one byte to a silent card. -/
def sendByte (b : BitVec 8) (t : Nat) : SpiInput where
  chipselect := true
  address := 0
  write := t == 0
  writedata := b.setWidth 32
  mmcSdi := true
  mmcCd := true
  mmcWp := true

/-- The byte `0xA5`, sent after reset at the lowest clock rate. -/
theorem run_transfers_a5 :
    Transfers 0xff 0xA5 (fun _ => true) (run Spi.step (sendByte 0xA5) Mmcdma.powerOn.spi) := by
  have transfers := (run_transfers Mmcdma.powerOn_isReset.spi (sendByte 0xA5) 0 rfl).2 rfl
  simp only [Nat.zero_add] at transfers
  exact transfers

end Cineraria.Mmc
