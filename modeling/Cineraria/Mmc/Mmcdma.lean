import Cineraria.Lib.Bytes
import Cineraria.Mmc.Spi

/-!
# The card interface with read DMA

`ip/mmcdma/avalonif_mmcdma.vhd`: the SPI engine, a sequencer that starts one byte after
another and waits for each, and a 512-byte buffer. While a DMA runs (`dmadone_reg = '0'`)
the sequencer owns the engine's registers: every write to them is `0xFF` to register 0.

The buffer memory registers its read address and not its output. What it shows of a byte
that is being written is not specified; the bus has no use for it before the DMA is done.
-/

namespace Cineraria.Mmc

open Clocked Bytes

/-- `MMCDMA_STATE` -/
inductive DmaState where
  | idle | resset | reswait | readset | readwait
  deriving DecidableEq, Repr

/-- The bus signals and the pins at a clock edge. -/
structure Input where
  chipselect : Bool
  address : BitVec 8
  write : Bool
  writedata : BitVec 32
  mmcSdi : Bool
  mmcCd : Bool
  mmcWp : Bool
  deriving DecidableEq, Repr

/-- The registers of the sequencer and its bus interface. -/
structure Dma where
  state : DmaState
  dmastartReg : Bool
  dmareadCount : BitVec 9
  dmarefcountReg : BitVec 9
  dmadoneReg : Bool
  dmadataerrReg : Bool
  dmatimoutReg : Bool
  dmairqenaReg : Bool
  mmcifwrReg : Bool
  deriving DecidableEq, Repr

/-- The registers of `avalonif_mmcdma`, of its engine and of its buffer. -/
structure Mmcdma where
  spi : Spi
  dma : Dma
  mem : BitVec 9 → BitVec 8
  memrdaddrReg : BitVec 7
  readdaraReg : BitVec 32

/-! ## Signals -/

def Input.mmcregselSig (i : Input) : Bool := i.chipselect && i.address.extractLsb' 2 6 == 0
def Input.dmaregselSig (i : Input) : Bool := i.chipselect && i.address.extractLsb' 2 6 == 1
def Input.memselSig (i : Input) : Bool := i.chipselect && i.address.getLsbD 7

/-- What the engine is given: the sequencer's signals while a DMA runs, else the bus. -/
def Mmcdma.spiInput (i : Input) (s : Mmcdma) : SpiInput where
  chipselect := true
  address := if s.dma.dmadoneReg then i.address.extractLsb' 0 2 else 0
  write := if s.dma.dmadoneReg then i.mmcregselSig && i.write else s.dma.mmcifwrReg
  writedata := if s.dma.dmadoneReg then i.writedata else 0xFF
  mmcSdi := i.mmcSdi
  mmcCd := i.mmcCd
  mmcWp := i.mmcWp

/-- `mmcifrddata_sig` -/
def Mmcdma.mmcifrddataSig (i : Input) (s : Mmcdma) : BitVec 32 :=
  s.spi.readdata (s.spiInput i).address

def Mmcdma.mmcifexitSig (i : Input) (s : Mmcdma) : Bool := (s.mmcifrddataSig i).getLsbD 9
def Mmcdma.mmcifzeroSig (i : Input) (s : Mmcdma) : Bool := (s.mmcifrddataSig i).getLsbD 12
def Mmcdma.mmcifrxdSig (i : Input) (s : Mmcdma) : BitVec 8 := (s.mmcifrddataSig i).setWidth 8

/-- `dmamemwr_sig` -/
def Mmcdma.dmamemwrSig (i : Input) (s : Mmcdma) : Bool :=
  s.dma.state == .readwait && s.mmcifexitSig i

/-- `memrddata_sig` -/
def Mmcdma.memrddataSig (s : Mmcdma) : BitVec 32 :=
  le32 (fun k => s.mem (BitVec.ofNat 9 k)) s.memrdaddrReg.toNat

/-- `read_0_sig` -/
def Dma.read0Sig (d : Dma) : BitVec 32 :=
  0#16 ++ BitVec.ofBool d.dmairqenaReg ++ BitVec.ofBool d.dmadoneReg ++
    BitVec.ofBool d.dmadataerrReg ++ BitVec.ofBool d.dmatimoutReg ++ 0#1 ++
    BitVec.ofBool d.dmastartReg ++ 0#1 ++ d.dmarefcountReg

/-! ## One clock edge -/

/-- The bus side: `dmastart_reg`, `dmairqena_reg` and `dmarefcount_reg`. -/
def Dma.busStep (i : Input) (d : Dma) : Dma :=
  let written := i.dmaregselSig && i.write && i.address.extractLsb' 0 2 == 0
  { d with
    dmairqenaReg := if written then i.writedata.getLsbD 15 else d.dmairqenaReg
    dmarefcountReg := if written then i.writedata.setWidth 9 else d.dmarefcountReg
    dmastartReg :=
      if d.dmastartReg = false then written && i.writedata.getLsbD 10
      else d.dmadoneReg }

/-- The sequencer: `exit`, `zero` and `rxd` are what it reads from the engine. -/
def Dma.sequence (exit zero : Bool) (rxd : BitVec 8) (d : Dma) : Dma :=
  match d.state with
  | .idle =>
      let d := { d with dmareadCount := 0 }
      if d.dmastartReg then
        { d with
          state := .resset
          mmcifwrReg := true
          dmadoneReg := false
          dmadataerrReg := false
          dmatimoutReg := false }
      else d
  | .resset => { d with state := .reswait, mmcifwrReg := false }
  | .reswait =>
      if exit then
        if zero = false then
          if rxd = 0xFE then { d with state := .readset, mmcifwrReg := true }
          else if rxd = 0xFF then { d with state := .resset, mmcifwrReg := true }
          else { d with state := .idle, dmadoneReg := true, dmadataerrReg := true }
        else { d with state := .idle, dmadoneReg := true, dmatimoutReg := true }
      else d
  | .readset => { d with state := .readwait, mmcifwrReg := false }
  | .readwait =>
      if exit then
        if d.dmareadCount = d.dmarefcountReg then { d with state := .idle, dmadoneReg := true }
        else
          { d with
            state := .readset
            mmcifwrReg := true
            dmareadCount := d.dmareadCount + 1 }
      else d

/-- Both processes of the sequencer. -/
def Dma.step (i : Input) (exit zero : Bool) (rxd : BitVec 8) (d : Dma) : Dma :=
  { d.sequence exit zero rxd with
    dmastartReg := (d.busStep i).dmastartReg
    dmairqenaReg := (d.busStep i).dmairqenaReg
    dmarefcountReg := (d.busStep i).dmarefcountReg }

/-- One clock edge out of reset. -/
def Mmcdma.step (i : Input) (s : Mmcdma) : Mmcdma where
  spi := s.spi.step (s.spiInput i)
  dma := s.dma.step i (s.mmcifexitSig i) (s.mmcifzeroSig i) (s.mmcifrxdSig i)
  mem := fun a =>
    if s.dmamemwrSig i ∧ a = s.dma.dmareadCount then s.mmcifrxdSig i else s.mem a
  memrdaddrReg := i.address.setWidth 7
  readdaraReg :=
    if i.memselSig then s.memrddataSig
    else if i.mmcregselSig then s.mmcifrddataSig i
    else if i.dmaregselSig then s.dma.read0Sig
    else 0

/-- The registers that the reset forces. -/
structure Mmcdma.IsReset (s : Mmcdma) : Prop where
  spi : s.spi.IsReset
  state : s.dma.state = .idle
  dmastartReg : s.dma.dmastartReg = false
  dmareadCount : s.dma.dmareadCount = 0
  dmarefcountReg : s.dma.dmarefcountReg = 0
  dmadoneReg : s.dma.dmadoneReg = true
  dmadataerrReg : s.dma.dmadataerrReg = false
  dmatimoutReg : s.dma.dmatimoutReg = false
  dmairqenaReg : s.dma.dmairqenaReg = false
  mmcifwrReg : s.dma.mmcifwrReg = false

/-- A state after reset. -/
def Mmcdma.powerOn : Mmcdma where
  spi :=
    { state := .idle
      bitcount := 0
      divrefReg := 0xff
      divcount := 0
      rxddata := 0
      txddata := 0
      irqenaReg := false
      exitReg := true
      ncsReg := true
      sckReg := true
      sdoReg := true
      mmcWpReg := true
      mmcCd0Reg := true
      mmcCd1Reg := true
      mmcCd2Reg := true
      cdalterReg := false
      frcReg := 0
      frczeroReg := true }
  dma :=
    { state := .idle
      dmastartReg := false
      dmareadCount := 0
      dmarefcountReg := 0
      dmadoneReg := true
      dmadataerrReg := false
      dmatimoutReg := false
      dmairqenaReg := false
      mmcifwrReg := false }
  mem := fun _ => 0
  memrdaddrReg := 0
  readdaraReg := 0

theorem Mmcdma.powerOn_isReset : Mmcdma.powerOn.IsReset :=
  ⟨⟨rfl, rfl, rfl, rfl, rfl, rfl, rfl, rfl, rfl, rfl, rfl, rfl, rfl⟩, rfl, rfl, rfl, rfl, rfl, rfl, rfl,
    rfl, rfl⟩

/-! ## The engine inside the component -/

section
variable (w : Nat → Input) (s : Mmcdma)

/-- What the engine is given over a run of the component. -/
def spiWave (t : Nat) : SpiInput := (run Mmcdma.step w s t).spiInput (w t)

/-- The engine runs as it does alone under what it is given. -/
theorem run_spi (t : Nat) :
    (run Mmcdma.step w s t).spi = run Spi.step (spiWave w s) s.spi t := by
  induction t with
  | zero => rfl
  | succ t ih =>
      rw [run_succ, run_succ, ← ih]
      rfl

end

/-! ## What the registers always agree on -/

/-- The flags that say a machine is idle do. -/
structure Mmcdma.Consistent (s : Mmcdma) : Prop where
  exit : s.spi.exitReg = (s.spi.state == .idle)
  dmadone : s.dma.dmadoneReg = (s.dma.state == .idle)

theorem Mmcdma.IsReset.consistent {s : Mmcdma} (reset : s.IsReset) : s.Consistent where
  exit := by rw [reset.spi.exitReg, reset.spi.state]; rfl
  dmadone := by rw [reset.dmadoneReg, reset.state]; rfl

theorem Spi.step_exit {s : Spi} (consistent : s.exitReg = (s.state == .idle)) (i : SpiInput) :
    (s.step i).exitReg = ((s.step i).state == .idle) := by
  cases st : s.state <;> rw [st] at consistent <;> simp only [Spi.step, Spi.engine, st]
  case idle =>
    split
    · split <;> simp [consistent, st]
    · split <;> simp [consistent, st]
  case sdo => split <;> simp [consistent]
  case sdi =>
    split
    · split <;> simp [consistent]
    · simp [consistent]
  case done => split <;> simp [consistent]

theorem Dma.sequence_consistent {d : Dma} (dmadone : d.dmadoneReg = (d.state == .idle))
    (exit zero : Bool) (rxd : BitVec 8) :
    (d.sequence exit zero rxd).dmadoneReg = ((d.sequence exit zero rxd).state == .idle) := by
  cases st : d.state <;> rw [st] at dmadone <;> simp only [Dma.sequence, st]
  case idle => split <;> simp [dmadone]
  case resset | readset => simp [dmadone]
  case reswait =>
    split
    · split
      · split
        · simp [dmadone]
        · split <;> simp [dmadone]
      · simp
    · simp [dmadone, st]
  case readwait =>
    split
    · split <;> simp [dmadone]
    · simp [dmadone, st]

theorem Mmcdma.Consistent.step {s : Mmcdma} (consistent : s.Consistent) (i : Input) :
    (s.step i).Consistent :=
  ⟨Spi.step_exit consistent.exit _, Dma.sequence_consistent consistent.dmadone _ _ _⟩

theorem Mmcdma.Consistent.idle {s : Mmcdma} (consistent : s.Consistent)
    (done : s.dma.dmadoneReg = true) : s.dma.state = .idle := by
  rw [consistent.dmadone] at done
  exact eq_of_beq done

theorem Mmcdma.Consistent.busy {s : Mmcdma} (consistent : s.Consistent)
    (running : s.dma.dmadoneReg = false) : s.dma.state ≠ .idle := by
  intro st
  rw [consistent.dmadone, st] at running
  exact absurd running (by decide)

theorem Mmcdma.Consistent.run {s : Mmcdma} (consistent : s.Consistent) (w : Nat → Input) (t : Nat) :
    (run Mmcdma.step w s t).Consistent :=
  run_invariant (fun i _ consistent => consistent.step i) w consistent t

/-- The flags agree in every state reached from reset. -/
theorem run_consistent (w : Nat → Input) {s : Mmcdma} (reset : s.IsReset) (t : Nat) :
    (run Mmcdma.step w s t).Consistent :=
  reset.consistent.run w t

end Cineraria.Mmc
