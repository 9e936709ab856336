import Cineraria.Lib.RegisterIo
import Cineraria.Mmc.Mmcdma

/-!
# The component on the bus

The device that the component is for its driver, as `avalonif_mmcdma_hw.tcl` declares its
slave port: a write takes one clock and a read three, of which the last delivers the data.
Between two accesses any number of clocks pass. The pins of the socket are held.
-/

namespace Cineraria.Mmc

open RegisterIo

/-- The levels of the pins of the socket. -/
structure Pins where
  mmcCd : Bool
  mmcWp : Bool
  deriving DecidableEq, Repr

/-- The pins in a clock. -/
structure Input.Holds (i : Input) (pins : Pins) : Prop where
  mmcCd : i.mmcCd = pins.mmcCd
  mmcWp : i.mmcWp = pins.mmcWp

/-- A clock of a read of the register `reg`. -/
structure Input.Reads (i : Input) (pins : Pins) (reg : Nat) : Prop extends i.Holds pins where
  chipselect : i.chipselect = true
  write : i.write = false
  address : i.address = BitVec.ofNat 8 reg

/-- A write of `data` to the register `reg`. -/
structure Input.Writes (i : Input) (pins : Pins) (reg : Nat) (data : BitVec 32) : Prop
    extends i.Holds pins where
  chipselect : i.chipselect = true
  write : i.write = true
  address : i.address = BitVec.ofNat 8 reg
  writedata : i.writedata = data

/-- Clocks without an access. -/
inductive Idles (pins : Pins) : Mmcdma → Mmcdma → Prop where
  | refl (s : Mmcdma) : Idles pins s s
  | step {s s' : Mmcdma} (i : Input) (holds : i.Holds pins) (chipselect : i.chipselect = false)
      (rest : Idles pins (s.step i) s') : Idles pins s s'

/-- The component as a device. -/
def busDevice (pins : Pins) : Device Mmcdma where
  read reg s x s' := ∃ s₀ i₁ i₂ i₃, Idles pins s s₀ ∧
    i₁.Reads pins reg ∧ i₂.Reads pins reg ∧ i₃.Reads pins reg ∧
    x = ((s₀.step i₁).step i₂).readdaraReg ∧ s' = ((s₀.step i₁).step i₂).step i₃
  write reg data s s' := ∃ s₀ i, Idles pins s s₀ ∧ i.Writes pins reg data ∧ s' = s₀.step i

/-! ## The pins reach the status register -/

/-- The synchronisers hold the levels of the pins. -/
structure Mmcdma.Settled (pins : Pins) (s : Mmcdma) : Prop where
  mmcWpReg : s.spi.mmcWpReg = pins.mmcWp
  mmcCd0Reg : s.spi.mmcCd0Reg = pins.mmcCd
  mmcCd1Reg : s.spi.mmcCd1Reg = pins.mmcCd
  mmcCd2Reg : s.spi.mmcCd2Reg = pins.mmcCd

section
variable {pins : Pins} {s s' : Mmcdma}

theorem step_settled {i : Input} (holds : i.Holds pins) (settled : s.Settled pins) :
    (s.step i).Settled pins :=
  ⟨holds.mmcWp, holds.mmcCd, settled.mmcCd0Reg, settled.mmcCd1Reg⟩

theorem idles_settled (idles : Idles pins s s') (settled : s.Settled pins) : s'.Settled pins := by
  induction idles with
  | refl s => exact settled
  | step i holds _ _ ih => exact ih (step_settled holds settled)

/-- The three clocks of a read fill the synchronisers. -/
theorem read_settles {reg : Nat} {x : BitVec 32} (read : (busDevice pins).read reg s x s') :
    s'.Settled pins := by
  obtain ⟨s₀, i₁, i₂, i₃, -, first, second, third, -, rfl⟩ := read
  exact ⟨third.mmcWp, third.mmcCd, second.mmcCd, first.mmcCd⟩

theorem write_settled {reg : Nat} {data : BitVec 32} (write : (busDevice pins).write reg data s s')
    (settled : s.Settled pins) : s'.Settled pins := by
  obtain ⟨s₀, i, idles, writes, rfl⟩ := write
  exact step_settled writes.toHolds (idles_settled idles settled)

/-- A read of the status register delivers the status word of the clock before. -/
theorem readdara_status {i : Input} (reads : i.Reads pins 0) :
    (s.step i).readdaraReg = s.spi.readdata 0 := by
  have memsel : i.memselSig = false := by
    rw [Input.memselSig, reads.chipselect, reads.address]
    rfl
  have mmcregsel : i.mmcregselSig = true := by
    rw [Input.mmcregselSig, reads.chipselect, reads.address]
    rfl
  have address : (s.spiInput i).address = 0 := by
    rw [Mmcdma.spiInput, reads.address]
    split <;> rfl
  rw [Mmcdma.step, memsel, mmcregsel, if_neg Bool.false_ne_true, if_pos rfl, Mmcdma.mmcifrddataSig,
    address]

/-- The status register shows the pins. -/
theorem read_status {x : BitVec 32} (read : (busDevice pins).read 0 s x s')
    (settled : s.Settled pins) : x.getLsbD 11 = pins.mmcWp ∧ x.getLsbD 10 = pins.mmcCd := by
  obtain ⟨s₀, i₁, i₂, i₃, idles, first, second, -, rfl, -⟩ := read
  have now := step_settled first.toHolds (idles_settled idles settled)
  rw [readdara_status second, readdata_wp, readdata_cd]
  exact ⟨now.mmcWpReg, now.mmcCd2Reg⟩

end

/-- A device whose status register shows the pins, while `Inv` holds. -/
structure ShowsPins {σ : Type} (dev : Device σ) (pins : Pins) (Inv : σ → Prop) : Prop where
  read : ∀ {reg s x s'}, dev.read reg s x s' → Inv s'
  write : ∀ {reg data s s'}, dev.write reg data s s' → Inv s → Inv s'
  status : ∀ {s x s'}, dev.read 0 s x s' → Inv s →
    x.getLsbD 11 = pins.mmcWp ∧ x.getLsbD 10 = pins.mmcCd

/-- The component does, whatever state it is in before the first read. -/
theorem busDevice_showsPins (pins : Pins) : ShowsPins (busDevice pins) pins (Mmcdma.Settled pins) where
  read := read_settles
  write := write_settled
  status := read_status

end Cineraria.Mmc
