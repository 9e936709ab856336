import Cineraria.Lib.RegisterIo

/-!
# The card interface driver

`mmcfs/mmc_spi.c`: the functions that read and write the registers of the card interface,
for the build with read DMA. `mmc_spi_reg` is the base address of the registers and is left
out. `iowrs` is not a variable of the driver: it records the register writes, in order.
-/

namespace Cineraria.Mmc

open RegisterIo

/-! ## Registers -/

def mmcregStatus : Nat := 0
def mmcregClkdiv : Nat := 1
def mmcregTimer : Nat := 2
def mmcregDmastatus : Nat := 4
def mmcregReadbuff : Nat := 128

def mmcWpBitmask : BitVec 32 := 1#32 <<< 11
def mmcCdBitmask : BitVec 32 := 1#32 <<< 10
def mmcCommstart : BitVec 32 := 0#32 <<< 9
def mmcCommexit : BitVec 32 := 1#32 <<< 9
def mmcSelassert : BitVec 32 := 0#32 <<< 8
def mmcSelnegete : BitVec 32 := 1#32 <<< 8

def mmcDmadoneBitmask : BitVec 32 := 1#32 <<< 14
def mmcDmadeBitmask : BitVec 32 := 1#32 <<< 13
def mmcDmatoBitmask : BitVec 32 := 1#32 <<< 12
def mmcDmastart : BitVec 32 := 1#32 <<< 10

def mmcClockFreq : Nat := 50000000
def mmcTimecount1ms : BitVec 32 := BitVec.ofNat 32 (mmcClockFreq / 1000)
def mmcTimecount100us : BitVec 32 := BitVec.ofNat 32 (mmcClockFreq / 10000)
def mmcPpmodeFreq : Nat := 400 * 1000

/-! ## State -/

/-- The values of `mmc_spi_ncs`. -/
inductive Ncs where
  | selassert | selnegete
  deriving DecidableEq, Repr

def Ncs.word : Ncs → BitVec 32
  | .selassert => mmcSelassert
  | .selnegete => mmcSelnegete

/-- The static variables of `mmc_spi.c` and `mmcbb.c`. -/
structure Vars where
  mmcSpiNcs : Ncs
  stat : BitVec 8
  cardType : BitVec 8
  iowrs : List (Nat × BitVec 32)
  deriving DecidableEq, Repr

/-- Register writes are recorded. -/
def Vars.log (v : Vars) (writes : List (Nat × BitVec 32)) : Vars :=
  { v with iowrs := v.iowrs ++ writes }

@[simp] theorem Vars.log_log (v : Vars) (l m : List (Nat × BitVec 32)) :
    (v.log l).log m = v.log (l ++ m) := by
  simp only [Vars.log, List.append_assoc]

@[simp] theorem Vars.log_mmcSpiNcs (v : Vars) (l : List (Nat × BitVec 32)) :
    (v.log l).mmcSpiNcs = v.mmcSpiNcs := rfl

/-- Functions of the driver. -/
abbrev DriverM := Driver Vars

/-- `IORD(mmc_spi_reg, reg)` -/
def iord (reg : Nat) : DriverM (BitVec 32) := Driver.iord reg

/-- `IOWR(mmc_spi_reg, reg, data)` -/
def iowr (reg : Nat) (data : BitVec 32) : DriverM Unit := do
  Driver.assign fun v => v.log [(reg, data)]
  Driver.iowr reg data

theorem iowr_runs {σ : Type} {dev : Device σ} {reg : Nat} {data : BitVec 32} {v v' : Vars}
    {s s' : σ} {u : Unit} :
    Runs dev (iowr reg data) v s u v' s' ↔ v' = v.log [(reg, data)] ∧ dev.write reg data s s' := by
  simp only [iowr, runs_bind, runs_assign, runs_iowr]
  constructor
  · rintro ⟨_, _, _, ⟨rfl, rfl⟩, rfl, write⟩
    exact ⟨rfl, write⟩
  · rintro ⟨rfl, write⟩
    exact ⟨(), _, _, ⟨rfl, rfl⟩, rfl, write⟩

/-- `while( !(IORD(mmc_spi_reg, reg) & mask) ) {}`, with the last word read. -/
def waitFor (reg : Nat) (mask : BitVec 32) : DriverM (BitVec 32) :=
  Driver.poll reg fun res => res &&& mask != 0

/-! ## Chip select and bytes -/

/-- `mmc_spi_SetCardSelect` -/
def mmcSpiSetCardSelect : DriverM Unit := do
  Driver.assign fun v => { v with mmcSpiNcs := .selassert }
  let v ← Driver.vars
  iowr mmcregStatus (mmcCommexit ||| v.mmcSpiNcs.word ||| 0xff)

/-- `mmc_spi_SetCardDeselect` -/
def mmcSpiSetCardDeselect : DriverM Unit := do
  Driver.assign fun v => { v with mmcSpiNcs := .selnegete }
  let v ← Driver.vars
  iowr mmcregStatus (mmcCommexit ||| v.mmcSpiNcs.word ||| 0xff)

/-- `mmc_spi_Sendbyte` -/
def mmcSpiSendbyte (data : BitVec 8) : DriverM Unit := do
  let _ ← waitFor mmcregStatus mmcCommexit
  let v ← Driver.vars
  iowr mmcregStatus (mmcCommstart ||| v.mmcSpiNcs.word ||| data.setWidth 32)

/-- `mmc_spi_Recvbyte` -/
def mmcSpiRecvbyte : DriverM (BitVec 8) := do
  let _ ← waitFor mmcregStatus mmcCommexit
  let v ← Driver.vars
  iowr mmcregStatus (mmcCommstart ||| v.mmcSpiNcs.word ||| 0xff)
  let res ← waitFor mmcregStatus mmcCommexit
  return (res &&& 0xff).setWidth 8

/-! ## Timer, clock and socket -/

/-- `mmc_spi_SetTimer` -/
def mmcSpiSetTimer (timeout : BitVec 32) : DriverM Unit :=
  iowr mmcregTimer (mmcTimecount1ms * timeout)

/-- `while( mmc_spi_CheckTimer() ) {}` -/
def waitTimer : DriverM Unit := do
  let _ ← Driver.poll mmcregTimer fun res => res == 0

/-- `mmc_spi_Wait100us` -/
def mmcSpiWait100us : DriverM Unit := do
  iowr mmcregTimer mmcTimecount100us
  waitTimer

/-- `mmc_spi_SetIdentClock` -/
def mmcSpiSetIdentClock : DriverM Unit :=
  iowr mmcregClkdiv (BitVec.ofNat 32 (mmcClockFreq / (mmcPpmodeFreq * 2)))

/-- `mmc_spi_SetTransClock` -/
def mmcSpiSetTransClock : DriverM Unit := iowr mmcregClkdiv 0

/-- `mmc_spi_CheckCardDetect` -/
def mmcSpiCheckCardDetect : DriverM Bool := do
  let res ← iord mmcregStatus
  return res &&& mmcCdBitmask == 0

/-- `mmc_spi_CheckWritePortect` -/
def mmcSpiCheckWritePortect : DriverM Bool := do
  if ← mmcSpiCheckCardDetect then
    let res ← iord mmcregStatus
    return res &&& mmcWpBitmask != 0
  else return true

/-- `mmc_spi_InitSocket` -/
def mmcSpiInitSocket : DriverM Unit := do
  let _ ← waitFor mmcregStatus mmcCommexit
  mmcSpiSetCardDeselect
  mmcSpiSetIdentClock

/-! ## Read DMA -/

/-- The bytes of a word, least significant first. -/
def wordBytes (x : BitVec 32) : List (BitVec 8) :=
  (List.range 4).map fun k => x.extractLsb' (8 * k) 8

/-- The loop for an aligned destination: whole words while at least four bytes are left. The
result is the number of bytes left, the next word of the buffer and the bytes stored. -/
def copyWords (dnum : Nat) : Nat → DriverM (Nat × Nat × List (Option (BitVec 8)))
  | cycle + 4 => do
      let x ← iord (mmcregReadbuff + dnum)
      let (cycle, dnum, stored) ← copyWords (dnum + 1) cycle
      return (cycle, dnum, (wordBytes x).map some ++ stored)
  | cycle => return (cycle, dnum, [])

/-- The loop for the rest: a word is read whenever the number of bytes left is a multiple of
four. `data32` is `none` until a word has been read. -/
def copyBytes (dnum : Nat) (data32 : Option (BitVec 32)) :
    Nat → DriverM (List (Option (BitVec 8)))
  | 0 => return []
  | cycle + 1 => do
      if (cycle + 1) % 4 = 0 then
        let x ← iord (mmcregReadbuff + dnum)
        let stored ← copyBytes (dnum + 1) (some (x >>> 8)) cycle
        return some (x.setWidth 8) :: stored
      else
        let stored ← copyBytes dnum (data32.map fun x : BitVec 32 => x >>> 8) cycle
        return data32.map (·.setWidth 8) :: stored

/-- Both loops: the bytes stored from `buff` on, where a byte of `data32` before any word was
read into it is `none`. `aligned` says if `buff` is a multiple of four. -/
def copyBuffer (aligned : Bool) (cycle : Nat) : DriverM (List (Option (BitVec 8))) := do
  let (cycle, dnum, words) ← if aligned then copyWords 0 cycle else pure (cycle, 0, [])
  let bytes ← copyBytes dnum none cycle
  return words ++ bytes

/-- `cycle`: the number of bytes for the argument `wc`. -/
def cycleOf (wc : BitVec 8) : Nat := if wc ≠ 0 then wc.toNat <<< 1 else 256 <<< 1

/-- `mmc_spi_DmaRecv`: the return value and the bytes stored. -/
def mmcSpiDmaRecv (wc : BitVec 8) (aligned : Bool) :
    DriverM (Nat × List (Option (BitVec 8))) := do
  let _ ← waitFor mmcregStatus mmcCommexit
  mmcSpiSetTimer 100
  iowr mmcregDmastatus (mmcDmastart ||| BitVec.ofNat 32 (cycleOf wc - 1))
  let _ ← waitFor mmcregDmastatus mmcDmadoneBitmask
  let res ← iord mmcregDmastatus
  if res &&& (mmcDmadeBitmask ||| mmcDmatoBitmask) ≠ 0 then return (1, [])
  let stored ← copyBuffer aligned (cycleOf wc)
  return (0, stored)

end Cineraria.Mmc
