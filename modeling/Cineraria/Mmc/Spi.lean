import Cineraria.Lib.Clocked
import Cineraria.Lib.ShiftRegister

/-!
# The SPI engine of the card interface

`ip/mmcdma/avalonif_mmc.vhd`: a byte written to register 0 is shifted out and the byte on
the card's data line shifted in, each bit taking two half periods of `divref_reg + 1`
clocks; one more half period ends the transfer. While it lasts the engine takes no write
to its registers 0 and 1. Beside the engine run a down counter for timeouts and the
synchronisers of the card-detect and write-protect pins.

`bitcount` is declared `0 to 7` but is incremented once more at the last bit; it is a
`Nat` here.
-/

namespace Cineraria.Mmc

open Clocked ShiftRegister

/-- `SPI_STATE` -/
inductive SpiState where
  | idle | sdo | sdi | done
  deriving DecidableEq, Repr

/-- The bus signals and the pins at a clock edge. -/
structure SpiInput where
  chipselect : Bool
  address : BitVec 2
  write : Bool
  writedata : BitVec 32
  mmcSdi : Bool
  mmcCd : Bool
  mmcWp : Bool
  deriving DecidableEq, Repr

/-- The registers of `avalonif_mmc`. -/
structure Spi where
  state : SpiState
  bitcount : Nat
  divrefReg : BitVec 8
  divcount : BitVec 8
  rxddata : BitVec 8
  txddata : BitVec 8
  irqenaReg : Bool
  exitReg : Bool
  ncsReg : Bool
  sckReg : Bool
  sdoReg : Bool
  mmcWpReg : Bool
  mmcCd0Reg : Bool
  mmcCd1Reg : Bool
  mmcCd2Reg : Bool
  cdalterReg : Bool
  frcReg : BitVec 32
  frczeroReg : Bool
  deriving DecidableEq, Repr

/-- A bus write to register `a`. -/
def SpiInput.writes (i : SpiInput) (a : BitVec 2) : Bool :=
  i.chipselect && i.write && i.address == a

/-- The `case state` of the process: the registers of the engine. -/
def Spi.engine (i : SpiInput) (s : Spi) : Spi :=
  match s.state with
  | .idle =>
      if i.writes 0 then
        let s :=
          if i.writedata.getLsbD 9 = false then
            { s with state := .sdo, bitcount := 0, divcount := s.divrefReg, exitReg := false }
          else s
        { s with
          irqenaReg := i.writedata.getLsbD 15
          ncsReg := i.writedata.getLsbD 8
          txddata := i.writedata.setWidth 8 }
      else if i.writes 1 then { s with divrefReg := i.writedata.setWidth 8 }
      else s
  | .sdo =>
      if s.divcount = 0 then
        { s with
          state := .sdi
          divcount := s.divrefReg
          sckReg := !s.sckReg
          sdoReg := s.txddata.getLsbD 7
          txddata := shiftIn s.txddata false }
      else { s with divcount := s.divcount - 1 }
  | .sdi =>
      if s.divcount = 0 then
        { s with
          state := if s.bitcount = 7 then .done else .sdo
          bitcount := s.bitcount + 1
          divcount := s.divrefReg
          sckReg := !s.sckReg
          rxddata := shiftIn s.rxddata i.mmcSdi }
      else { s with divcount := s.divcount - 1 }
  | .done =>
      if s.divcount = 0 then
        { s with state := .idle, sckReg := true, sdoReg := true, exitReg := true }
      else { s with divcount := s.divcount - 1 }

/-- One clock edge out of reset. -/
def Spi.step (i : SpiInput) (s : Spi) : Spi :=
  { s.engine i with
    mmcWpReg := i.mmcWp
    mmcCd0Reg := i.mmcCd
    mmcCd1Reg := s.mmcCd0Reg
    mmcCd2Reg := s.mmcCd1Reg
    cdalterReg :=
      if s.mmcCd1Reg ≠ s.mmcCd2Reg then true
      else if i.writes 0 && !i.writedata.getLsbD 13 then false
      else s.cdalterReg
    frcReg :=
      if i.writes 2 then i.writedata
      else if s.frcReg ≠ 0 then s.frcReg - 1
      else s.frcReg
    frczeroReg := s.frcReg == 0 }

/-- `SYSTEMCLOCKINFO` as the core sets it. -/
def systemclockinfo : BitVec 32 := 50000000

/-- `read_0_sig` -/
def Spi.read0Sig (s : Spi) : BitVec (16 + 1 + 1 + 1 + 1 + 1 + 1 + 1 + 1 + 8) :=
  0#16 ++ BitVec.ofBool s.irqenaReg ++ 0#1 ++ BitVec.ofBool s.cdalterReg ++
    BitVec.ofBool s.frczeroReg ++ BitVec.ofBool s.mmcWpReg ++ BitVec.ofBool s.mmcCd2Reg ++
    BitVec.ofBool s.exitReg ++ BitVec.ofBool s.ncsReg ++ s.rxddata

/-- `readdata` -/
def Spi.readdata (address : BitVec 2) (s : Spi) : BitVec 32 :=
  match address with
  | 0 => s.read0Sig
  | 1 => s.divrefReg.setWidth 32
  | 2 => s.frcReg
  | _ => systemclockinfo

/-- The registers that the reset forces. -/
structure Spi.IsReset (s : Spi) : Prop where
  state : s.state = .idle
  divrefReg : s.divrefReg = 0xff
  irqenaReg : s.irqenaReg = false
  ncsReg : s.ncsReg = true
  sckReg : s.sckReg = true
  sdoReg : s.sdoReg = true
  exitReg : s.exitReg = true
  frcReg : s.frcReg = 0
  frczeroReg : s.frczeroReg = true
  mmcCd0Reg : s.mmcCd0Reg = true
  mmcCd1Reg : s.mmcCd1Reg = true
  mmcCd2Reg : s.mmcCd2Reg = true
  cdalterReg : s.cdalterReg = false

/-- The reset. The counters and the shift registers stay as they are. -/
def Spi.reset (s : Spi) : Spi :=
  { s with
    state := .idle
    divrefReg := 0xff
    irqenaReg := false
    ncsReg := true
    sckReg := true
    sdoReg := true
    exitReg := true
    frcReg := 0
    frczeroReg := true
    mmcCd0Reg := true
    mmcCd1Reg := true
    mmcCd2Reg := true
    cdalterReg := false }

/-- The write that starts a transfer. -/
def SpiInput.starts (i : SpiInput) : Bool := i.writes 0 && !i.writedata.getLsbD 9

/-! ## The status word -/

section
variable (s : Spi)

theorem readdata_exit : (s.readdata 0).getLsbD 9 = s.exitReg := by
  change s.read0Sig.getLsbD 9 = _
  simp only [Spi.read0Sig, BitVec.getLsbD_append]
  simp

theorem readdata_zero : (s.readdata 0).getLsbD 12 = s.frczeroReg := by
  change s.read0Sig.getLsbD 12 = _
  simp only [Spi.read0Sig, BitVec.getLsbD_append]
  simp

theorem readdata_wp : (s.readdata 0).getLsbD 11 = s.mmcWpReg := by
  change s.read0Sig.getLsbD 11 = _
  simp only [Spi.read0Sig, BitVec.getLsbD_append]
  simp

theorem readdata_cd : (s.readdata 0).getLsbD 10 = s.mmcCd2Reg := by
  change s.read0Sig.getLsbD 10 = _
  simp only [Spi.read0Sig, BitVec.getLsbD_append]
  simp

theorem readdata_rxd : (s.readdata 0).setWidth 8 = s.rxddata := by
  apply BitVec.eq_of_getLsbD_eq
  intro i hi
  change (s.read0Sig.setWidth 8).getLsbD i = _
  simp only [Spi.read0Sig, BitVec.getLsbD_setWidth, BitVec.getLsbD_append, hi, decide_true,
    Bool.true_and, if_true]

end

/-! ## The timeout counter -/

theorem step_frcReg {i : SpiInput} (unwritten : i.writes 2 = false) (s : Spi) :
    (s.step i).frcReg.toNat = s.frcReg.toNat - 1 := by
  simp only [Spi.step, unwritten, Bool.false_eq_true, if_false]
  split
  · next counting =>
      have positive : 1 ≤ s.frcReg.toNat := by
        rcases Nat.eq_zero_or_pos s.frcReg.toNat with zero | positive
        · exact absurd (BitVec.eq_of_toNat_eq zero) counting
        · exact positive
      exact BitVec.toNat_sub_of_le positive
  · next zero =>
      rw [not_not.mp zero]
      rfl

/-- The counter falls to zero and stays there. -/
theorem run_frcReg {w : Nat → SpiInput} {s : Spi} {t : Nat}
    (unwritten : ∀ u < t, (w u).writes 2 = false) :
    (run Spi.step w s t).frcReg.toNat = s.frcReg.toNat - t := by
  induction t with
  | zero => rfl
  | succ t ih =>
      rw [run_succ, step_frcReg (unwritten t (by omega)), ih fun u hu => unwritten u (by omega)]
      omega

/-- The flag says, one clock late, that the counter is zero. -/
theorem run_frczeroReg {w : Nat → SpiInput} {s : Spi} {t : Nat}
    (unwritten : ∀ u < t, (w u).writes 2 = false) :
    (run Spi.step w s (t + 1)).frczeroReg = decide (s.frcReg.toNat ≤ t) := by
  have counted := run_frcReg (s := s) unwritten
  rw [run_succ]
  simp only [Spi.step]
  rw [Bool.eq_iff_iff, beq_iff_eq, decide_eq_true_eq, BitVec.toNat_eq, counted,
    show (0 : BitVec 32).toNat = 0 from rfl]
  omega

/-! ## One half period -/

/-- The half periods of a transfer: out and in alternate, the 17th ends it. -/
def halfPeriod (q : Nat) : SpiState :=
  if q = 16 then .done else if q % 2 = 0 then .sdo else .sdi

/-- The engine is `r` clocks into half period `q` and has `rxd` in its receiver. -/
structure Shifting (d : BitVec 8) (q r : Nat) (rxd : BitVec 8) (s : Spi) : Prop where
  state : s.state = halfPeriod q
  bitcount : s.bitcount = q / 2
  divref : s.divrefReg = d
  divcount : s.divcount.toNat + r = d.toNat
  exit : s.exitReg = false
  rxd : s.rxddata = rxd

section
variable {d rxd : BitVec 8} {q r : Nat} {s : Spi}

theorem Shifting.busy (h : Shifting d q r rxd s) : s.state ≠ .idle := by
  rw [h.state, halfPeriod]
  split
  · simp
  · split <;> simp

theorem Shifting.divcount_eq_zero (h : Shifting d q r rxd s) : s.divcount = 0 ↔ r = d.toNat := by
  have := h.divcount
  rw [BitVec.toNat_eq, show (0 : BitVec 8).toNat = 0 from rfl]
  omega

/-- Within a half period only the divider counts. -/
theorem Shifting.tick (h : Shifting d q r rxd s) (within : r < d.toNat) (i : SpiInput) :
    Shifting d q (r + 1) rxd (s.step i) := by
  have counting : s.divcount ≠ 0 := fun zero => by
    have := h.divcount_eq_zero.mp zero
    omega
  have count := h.divcount
  have fall : (s.divcount - 1).toNat + (r + 1) = d.toNat := by
    rw [BitVec.toNat_sub_of_le]
    · rw [show (1 : BitVec 8).toNat = 1 from rfl]
      omega
    · rw [BitVec.le_def, show (1 : BitVec 8).toNat = 1 from rfl]
      omega
  obtain ⟨state, bitcount, divref, -, exit, rxddata⟩ := h
  cases st : s.state with
  | idle =>
      rw [st] at state
      exact absurd state.symm (by unfold halfPeriod; split <;> (try split) <;> simp)
  | sdo | sdi | done =>
      refine ⟨?_, ?_, ?_, ?_, ?_, ?_⟩ <;> simp only [Spi.step, Spi.engine, st, if_neg counting]
      all_goals first | assumption | rw [← state, st]

/-- The end of an outgoing half period. -/
theorem Shifting.sdo (h : Shifting d q r rxd s) (out : q < 16) (even : q % 2 = 0)
    (last : r = d.toNat) (i : SpiInput) : Shifting d (q + 1) 0 rxd (s.step i) := by
  have zero := h.divcount_eq_zero.mpr last
  obtain ⟨state, bitcount, divref, -, exit, rxddata⟩ := h
  have here : s.state = .sdo := by
    rw [state, halfPeriod, if_neg (by omega), if_pos even]
  have next : halfPeriod (q + 1) = .sdi := by
    rw [halfPeriod, if_neg (by omega), if_neg (by omega)]
  refine ⟨?_, ?_, ?_, ?_, ?_, ?_⟩ <;> simp only [Spi.step, Spi.engine, here, if_pos zero]
  · exact next.symm
  · rw [bitcount]
    omega
  · exact divref
  · rw [divref, Nat.add_zero]
  · exact exit
  · exact rxddata

/-- The end of an incoming half period: one more bit is in. -/
theorem Shifting.sdi (h : Shifting d q r rxd s) (within : q < 16) (odd : q % 2 = 1)
    (last : r = d.toNat) (i : SpiInput) :
    Shifting d (q + 1) 0 (shiftIn rxd i.mmcSdi) (s.step i) := by
  have zero := h.divcount_eq_zero.mpr last
  obtain ⟨state, bitcount, divref, -, exit, rxddata⟩ := h
  have here : s.state = .sdi := by
    rw [state, halfPeriod, if_neg (by omega), if_neg (by omega)]
  have next : halfPeriod (q + 1) = if s.bitcount = 7 then .done else .sdo := by
    rw [bitcount, halfPeriod]
    by_cases eighth : q = 15
    · subst eighth
      rfl
    · rw [if_neg (by omega), if_pos (by omega), if_neg (by omega)]
  refine ⟨?_, ?_, ?_, ?_, ?_, ?_⟩ <;> simp only [Spi.step, Spi.engine, here, if_pos zero]
  · exact next.symm
  · rw [bitcount]
    omega
  · exact divref
  · rw [divref, Nat.add_zero]
  · exact exit
  · rw [rxddata]

/-- The end of the transfer. -/
theorem Shifting.ended (h : Shifting d 16 r rxd s) (last : r = d.toNat) (i : SpiInput) :
    (s.step i).state = .idle ∧ (s.step i).exitReg = true ∧ (s.step i).divrefReg = d ∧
    (s.step i).rxddata = rxd := by
  have zero := h.divcount_eq_zero.mpr last
  have here : s.state = .done := h.state
  refine ⟨?_, ?_, ?_, ?_⟩ <;> simp only [Spi.step, Spi.engine, here, if_pos zero]
  · exact h.divref
  · exact h.rxd

/-- The write that starts a transfer, to an idle engine. -/
theorem starts_step (idle : s.state = .idle) {i : SpiInput} (starts : i.starts = true) :
    Shifting s.divrefReg 0 0 s.rxddata (s.step i) := by
  obtain ⟨written, bit9⟩ : i.writes 0 = true ∧ i.writedata.getLsbD 9 = false := by
    simpa [SpiInput.starts] using starts
  refine ⟨?_, ?_, ?_, ?_, ?_, ?_⟩ <;> simp only [Spi.step, Spi.engine, idle, if_pos written, if_pos bit9]
  all_goals rfl

end

/-! ## One transfer -/

/-- The byte on the data line in a transfer started at edge `t`: bit `7 - j` is sampled at
the end of the `j`-th incoming half period. -/
def byteAt (d : BitVec 8) (sdi : Nat → Bool) (t : Nat) : BitVec 8 :=
  ofBits (fun i => sdi (t + 2 * (8 - i) * (d.toNat + 1))) 8

/-- The clocks from the start of a transfer until the engine is idle again. -/
def transferTime (d : BitVec 8) : Nat := 17 * (d.toNat + 1) + 1

section
variable {d rxd : BitVec 8} {w : Nat → SpiInput} {s : Spi}

/-- One half period. -/
theorem run_ticks {q t : Nat} (start : Shifting d q 0 rxd (run Spi.step w s t)) {r : Nat}
    (within : r ≤ d.toNat) : Shifting d q r rxd (run Spi.step w s (t + r)) := by
  induction r with
  | zero => exact start
  | succ r ih => exact (ih (by omega)).tick (by omega) _

/-- The bits sampled in a transfer whose first half period begins at edge 0. -/
def sampled (d : BitVec 8) (w : Nat → SpiInput) (j : Nat) : Bool :=
  (w ((2 * j + 1) * (d.toNat + 1) + d.toNat)).mmcSdi

/-- The engine follows the half periods, whatever is written to it. -/
theorem run_shifting (start : Shifting d 0 0 rxd s) {q : Nat} (hq : q ≤ 16) :
    Shifting d q 0 (shifts rxd (sampled d w) (q / 2)) (run Spi.step w s (q * (d.toNat + 1))) := by
  induction q with
  | zero =>
      rw [Nat.zero_mul]
      exact start
  | succ q ih =>
      have ended := run_ticks (ih (by omega)) (Nat.le_refl d.toNat)
      rw [Nat.succ_mul, ← Nat.add_assoc, run_succ]
      rcases Nat.mod_two_eq_zero_or_one q with even | odd
      · rw [show (q + 1) / 2 = q / 2 by omega]
        exact ended.sdo (by omega) even rfl _
      · rw [show (q + 1) / 2 = q / 2 + 1 by omega, shifts]
        have bit : sampled d w (q / 2) = (w (q * (d.toNat + 1) + d.toNat)).mmcSdi := by
          rw [sampled, show 2 * (q / 2) + 1 = q by omega]
        rw [bit]
        exact ended.sdi (by omega) odd rfl _

end

/-- A transfer, started at edge 0 in an idle engine: it is busy for `17 * (d + 1)` clocks,
whatever else is written, then idle with the byte from the data line in its receiver. -/
theorem spi_transfer {w : Nat → SpiInput} {s : Spi} (idle : s.state = .idle)
    (starts : (w 0).starts = true) :
    (∀ m, 0 < m → m < transferTime s.divrefReg →
      (run Spi.step w s m).state ≠ .idle ∧ (run Spi.step w s m).exitReg = false) ∧
    (run Spi.step w s (transferTime s.divrefReg)).state = .idle ∧
    (run Spi.step w s (transferTime s.divrefReg)).exitReg = true ∧
    (run Spi.step w s (transferTime s.divrefReg)).divrefReg = s.divrefReg ∧
    (run Spi.step w s (transferTime s.divrefReg)).rxddata =
      byteAt s.divrefReg (fun t => (w t).mmcSdi) 0 := by
  have start : Shifting s.divrefReg 0 0 s.rxddata (run Spi.step w s 1) := starts_step idle starts
  have later : ∀ m, run Spi.step w s (m + 1) = run Spi.step (shift w 1) (run Spi.step w s 1) m := by
    intro m
    rw [Nat.add_comm, run_add]
  refine ⟨fun m positive before => ?_, ?_⟩
  · -- Clock `m - 1` of the transfer is in half period `q`, `r` clocks into it.
    obtain ⟨m, rfl⟩ : ∃ k, m = k + 1 := ⟨m - 1, by omega⟩
    have split := Nat.div_add_mod m (s.divrefReg.toNat + 1)
    have rest := Nat.mod_lt m (Nat.succ_pos s.divrefReg.toNat)
    have half : m / (s.divrefReg.toNat + 1) ≤ 16 := by
      have : m / (s.divrefReg.toNat + 1) < 17 := Nat.div_lt_of_lt_mul (by
        simp only [transferTime] at before
        rw [Nat.mul_comm]
        omega)
      omega
    have shifting := run_ticks (run_shifting (w := shift w 1) start half)
      (Nat.le_of_lt_succ rest)
    rw [Nat.mul_comm, split, ← later] at shifting
    exact ⟨shifting.busy, shifting.exit⟩
  · have shifting := run_ticks (run_shifting (w := shift w 1) start (Nat.le_refl 16))
      (Nat.le_refl s.divrefReg.toNat)
    have ended := shifting.ended rfl (shift w 1 (16 * (s.divrefReg.toNat + 1) + s.divrefReg.toNat))
    rw [← run_succ Spi.step, ← later] at ended
    rw [show transferTime s.divrefReg = 16 * (s.divrefReg.toNat + 1) + s.divrefReg.toNat + 1 + 1 by
      simp only [transferTime]; omega]
    refine ⟨ended.1, ended.2.1, ended.2.2.1, ended.2.2.2.trans ?_⟩
    rw [show 16 / 2 = 8 from rfl, shifts_width]
    refine ofBits_congr fun i hi => ?_
    have edge : 1 + ((2 * (8 - 1 - i) + 1) * (s.divrefReg.toNat + 1) + s.divrefReg.toNat) =
        0 + 2 * (8 - i) * (s.divrefReg.toNat + 1) := by
      rw [show 8 - i = 8 - 1 - i + 1 by omega]
      generalize 8 - 1 - i = j
      rw [show 2 * (j + 1) = (2 * j + 1) + 1 by omega, Nat.succ_mul (2 * j + 1)]
      omega
    simp only [sampled, shift_apply, edge]

end Cineraria.Mmc
