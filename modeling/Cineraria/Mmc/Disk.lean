import Cineraria.Mmc.SpiDriver

/-!
# The disk layer

`mmcfs/fatfs/mmcbb.c`: commands to the card and the five disk functions of FatFs. Functions
that fill a buffer return the bytes they store from its start on. `rcvr_datablock` is there
twice, as the source has it: with the read DMA, which is the build of this core, and polled.
-/

namespace Cineraria.Mmc

open RegisterIo

/-! ## Constants -/

def cmd0 : BitVec 8 := 0
def acmd41 : BitVec 8 := 0x80 + 41
def cmd8 : BitVec 8 := 8
def cmd9 : BitVec 8 := 9
def cmd12 : BitVec 8 := 12
def cmd16 : BitVec 8 := 16
def cmd17 : BitVec 8 := 17
def cmd18 : BitVec 8 := 18
def acmd23 : BitVec 8 := 0x80 + 23
def cmd24 : BitVec 8 := 24
def cmd25 : BitVec 8 := 25
def cmd55 : BitVec 8 := 55
def cmd58 : BitVec 8 := 58

def ctMmc : BitVec 8 := 0x01
def ctSd1 : BitVec 8 := 0x02
def ctSd2 : BitVec 8 := 0x04
def ctSdc : BitVec 8 := ctSd1 ||| ctSd2
def ctBlock : BitVec 8 := 0x08

def staNoinit : BitVec 8 := 0x01
def staNodisk : BitVec 8 := 0x02
def staProtect : BitVec 8 := 0x04

def ctrlSync : BitVec 8 := 0
def getSectorCount : BitVec 8 := 1
def getBlockSize : BitVec 8 := 3

/-- The static variables before the first call. -/
def Vars.initial : Vars := ⟨.selassert, staNoinit, 0, []⟩

/-- `DRESULT` -/
inductive Dresult where
  | resOk | resError | resWrprt | resNotrdy | resParerr
  deriving DecidableEq, Repr

/-! ## Bytes to and from the card -/

/-- `xmit_mmc` -/
def xmitMmc : List (BitVec 8) → DriverM Unit
  | [] => return
  | d :: buff => do
      mmcSpiSendbyte d
      xmitMmc buff

/-- The loop of `rcvr_mmc`. -/
def rcvrBytes : Nat → DriverM (List (BitVec 8))
  | 0 => return []
  | bc + 1 => do
      let r ← mmcSpiRecvbyte
      let rest ← rcvrBytes bc
      return r :: rest

/-- `rcvr_mmc`: a count of zero wraps around. -/
def rcvrMmc (bc : Nat) : DriverM (List (BitVec 8)) := rcvrBytes (if bc = 0 then 4294967296 else bc)

/-- `rcvr_mmc(&d, 1)` -/
def rcvrByte : DriverM (BitVec 8) := do
  let d ← rcvrMmc 1
  return d.headD 0

/-- `wait_ready`, with `tmr` attempts left. -/
def waitReadyLoop : Nat → DriverM Bool
  | 0 => return false
  | tmr + 1 => do
      let d ← rcvrByte
      if d = 0xFF then return true
      mmcSpiWait100us
      waitReadyLoop tmr

/-- `wait_ready` -/
def waitReady : DriverM Bool := waitReadyLoop 5000

/-- `deselect` -/
def deselect : DriverM Unit := do
  mmcSpiSetCardDeselect
  let _ ← rcvrByte

/-- `select` -/
def select : DriverM Bool := do
  mmcSpiSetCardSelect
  let _ ← rcvrByte
  if ← waitReady then return true
  deselect
  return false

/-! ## Data packets -/

/-- `rcvr_datablock` with read DMA: the byte count is cut to eight bits. -/
def rcvrDatablock (aligned : Bool) (btr : Nat) :
    DriverM (Bool × List (Option (BitVec 8))) := do
  let (failed, stored) ← mmcSpiDmaRecv (BitVec.ofNat 8 btr) aligned
  if failed ≠ 0 then return (false, stored)
  let _ ← rcvrMmc 2
  return (true, stored)

/-- The wait for the token in the polled `rcvr_datablock`, with `tmr` attempts left and `d`
the last byte received. -/
def waitToken (d : BitVec 8) : Nat → DriverM (BitVec 8)
  | 0 => return d
  | tmr + 1 => do
      let d ← rcvrByte
      if d ≠ 0xFF then return d
      mmcSpiWait100us
      waitToken d tmr

/-- `rcvr_datablock`, polled. -/
def rcvrDatablockPolled (btr : Nat) : DriverM (Bool × List (BitVec 8)) := do
  let d ← waitToken 0xFF 1000
  if d ≠ 0xFE then return (false, [])
  let stored ← rcvrMmc btr
  let _ ← rcvrMmc 2
  return (true, stored)

/-- `xmit_datablock` -/
def xmitDatablock (buff : List (BitVec 8)) (token : BitVec 8) : DriverM Bool := do
  if !(← waitReady) then return false
  xmitMmc [token]
  if token ≠ 0xFD then
    xmitMmc buff
    let _ ← rcvrMmc 2
    let d ← rcvrByte
    if d &&& 0x1F ≠ 0x05 then return false
  return true

/-! ## Commands -/

/-- The command index and argument on the wire. -/
def commandPacket (cmd : BitVec 8) (arg : BitVec 32) : List (BitVec 8) :=
  let n := if cmd = cmd8 then 0x87 else if cmd = cmd0 then 0x95 else 0x01
  [0x40 ||| cmd, (arg >>> 24).setWidth 8, (arg >>> 16).setWidth 8, (arg >>> 8).setWidth 8,
    arg.setWidth 8, n]

/-- The wait for a response, with `n` attempts left after this one. -/
def response : Nat → DriverM (BitVec 8)
  | 0 => rcvrByte
  | n + 1 => do
      let d ← rcvrByte
      if d &&& 0x80 ≠ 0 then response n else return d

/-- `send_cmd` from the selection of the card on. -/
def sendPacket (cmd : BitVec 8) (arg : BitVec 32) : DriverM (BitVec 8) := do
  deselect
  if !(← select) then return 0xFF
  xmitMmc (commandPacket cmd arg)
  if cmd = cmd12 then
    let _ ← rcvrByte
  response 9

/-- `send_cmd` -/
def sendCmd (cmd : BitVec 8) (arg : BitVec 32) : DriverM (BitVec 8) := do
  if cmd &&& 0x80 ≠ 0 then
    let n ← sendPacket cmd55 0
    if 1 < n then return n
    sendPacket (cmd &&& 0x7F) arg
  else sendPacket cmd arg

/-! ## Disk functions -/

/-- `drv || !INS` -/
def noDisk (drv : BitVec 8) : DriverM Bool := do
  if drv ≠ 0 then return true
  return !(← mmcSpiCheckCardDetect)

/-- `disk_status` for a card in the socket, when `s` was the status before. -/
def cardStatus (s : BitVec 8) : DriverM (BitVec 8) := do
  let wp ← mmcSpiCheckWritePortect
  let s := s &&& ~~~staNodisk
  let s := if wp then s ||| staProtect else s &&& ~~~staProtect
  if s &&& staNoinit ≠ 0 then return s
  let n ← sendCmd cmd58 0
  let _ ← rcvrMmc 4
  mmcSpiSetCardDeselect
  return if n ≠ 0 then s ||| staNoinit else s

/-- The new status of a drive. -/
def driveStatus (drv s : BitVec 8) : DriverM (BitVec 8) := do
  if ← noDisk drv then return staNodisk ||| staNoinit
  cardStatus s

/-- `disk_status` -/
def diskStatus (drv : BitVec 8) : DriverM (BitVec 8) := do
  let v ← Driver.vars
  let s ← driveStatus drv v.stat
  Driver.assign fun v => { v with stat := s }
  return s

/-- The wait for leaving the idle state, with `tmr` attempts left; the result is `tmr` at the
end. -/
def waitInitialized (arg : BitVec 32) : Nat → DriverM Nat
  | 0 => return 0
  | tmr + 1 => do
      if (← sendCmd acmd41 arg) = 0 then return tmr + 1
      mmcSpiSetTimer 1
      waitTimer
      waitInitialized arg tmr

/-- The card type that `disk_initialize` finds. -/
def identify : DriverM (BitVec 8) := do
  if (← sendCmd cmd0 0) ≠ 1 then return 0
  if (← sendCmd cmd8 0x1AA) = 1 then
    let buf ← rcvrMmc 4
    if buf.getD 2 0 ≠ 0x01 ∨ buf.getD 3 0 ≠ 0xAA then return 0
    let tmr ← waitInitialized (1#32 <<< 30) 1000
    if tmr = 0 then return 0
    if (← sendCmd cmd58 0) ≠ 0 then return 0
    let buf ← rcvrMmc 4
    return if buf.getD 0 0 &&& 0x40 ≠ 0 then ctSd2 ||| ctBlock else ctSd2
  else
    let ty := if (← sendCmd acmd41 0) ≤ 1 then ctSd1 else ctMmc
    let tmr ← waitInitialized 0 1000
    if tmr = 0 then return 0
    if (← sendCmd cmd16 512) ≠ 0 then return 0
    return ty

/-- `disk_initialize` -/
def diskInitialize (drv : BitVec 8) : DriverM (BitVec 8) := do
  mmcSpiInitSocket
  let s ← diskStatus drv
  if s &&& staNodisk ≠ 0 then return s
  mmcSpiSetCardDeselect
  let _ ← rcvrBytes 10
  let ty ← identify
  Driver.assign fun v => { v with cardType := ty }
  let s := if ty ≠ 0 then s &&& ~~~staNoinit else s ||| staNoinit
  Driver.assign fun v => { v with stat := s }
  deselect
  if s &&& staNoinit = 0 then mmcSpiSetTransClock
  return s

/-- The address on the card of a sector. -/
def cardAddress (sector : BitVec 32) : DriverM (BitVec 32) := do
  let v ← Driver.vars
  return if v.cardType &&& ctBlock = 0 then sector * 512 else sector

/-- The loop of a multiple block read: the blocks not read and the bytes stored. -/
def readBlocks (aligned : Bool) : Nat → DriverM (Nat × List (Option (BitVec 8)))
  | 0 => return (0, [])
  | count + 1 => do
      let (ok, stored) ← rcvrDatablock aligned 512
      if !ok then return (count + 1, stored)
      let (left, rest) ← readBlocks aligned count
      return (left, stored ++ rest)

/-- The transfer of `disk_read`: the blocks not read and the bytes stored. -/
def readSectors (aligned : Bool) (sector : BitVec 32) (count : BitVec 8) :
    DriverM (Nat × List (Option (BitVec 8))) := do
  if count = 1 then
    if (← sendCmd cmd17 sector) ≠ 0 then return (1, [])
    let (ok, stored) ← rcvrDatablock aligned 512
    return (if ok then 0 else 1, stored)
  else
    if (← sendCmd cmd18 sector) ≠ 0 then return (count.toNat, [])
    let (left, stored) ← readBlocks aligned count.toNat
    let _ ← sendCmd cmd12 0
    return (left, stored)

/-- `disk_read`: the result and the bytes stored from `buff` on. -/
def diskRead (drv : BitVec 8) (aligned : Bool) (sector : BitVec 32) (count : BitVec 8) :
    DriverM (Dresult × List (Option (BitVec 8))) := do
  let s ← diskStatus drv
  if s &&& staNoinit ≠ 0 then return (.resNotrdy, [])
  if count = 0 then return (.resParerr, [])
  let sector ← cardAddress sector
  let (left, stored) ← readSectors aligned sector count
  deselect
  return (if left ≠ 0 then .resError else .resOk, stored)

/-- The `i`-th block of the data to be written. -/
def block (buff : Nat → BitVec 8) (i : Nat) : List (BitVec 8) :=
  (List.range 512).map fun k => buff (512 * i + k)

/-- The loop of a multiple block write: the blocks not written. -/
def writeBlocks (buff : Nat → BitVec 8) (i : Nat) : Nat → DriverM Nat
  | 0 => return 0
  | count + 1 => do
      if !(← xmitDatablock (block buff i) 0xFC) then return count + 1
      writeBlocks buff (i + 1) count

/-- The transfer of `disk_write`: the blocks not written, where a failed stop token counts as
one. -/
def writeSectors (buff : Nat → BitVec 8) (sector : BitVec 32) (count : BitVec 8) : DriverM Nat := do
  if count = 1 then
    if (← sendCmd cmd24 sector) ≠ 0 then return 1
    return if ← xmitDatablock (block buff 0) 0xFE then 0 else 1
  else
    if (← Driver.vars).cardType &&& ctSdc ≠ 0 then
      let _ ← sendCmd acmd23 (count.setWidth 32)
    if (← sendCmd cmd25 sector) ≠ 0 then return count.toNat
    let left ← writeBlocks buff 0 count.toNat
    return if ← xmitDatablock [] 0xFD then left else 1

/-- `disk_write` -/
def diskWrite (drv : BitVec 8) (buff : Nat → BitVec 8) (sector : BitVec 32) (count : BitVec 8) :
    DriverM Dresult := do
  let s ← diskStatus drv
  if s &&& staNoinit ≠ 0 then return .resNotrdy
  if s &&& staProtect ≠ 0 then return .resWrprt
  if count = 0 then return .resParerr
  let sector ← cardAddress sector
  let left ← writeSectors buff sector count
  deselect
  return if left ≠ 0 then .resError else .resOk

/-- The number of sectors that a CSD register gives. A negative count of the last shift, which
the source leaves to the compiler, is taken as zero. -/
def sectorCount (csd : Nat → BitVec 8) : BitVec 32 :=
  if csd 0 >>> 6 = 1 then
    let cs : BitVec 16 := (csd 9).setWidth 16 + ((csd 8).setWidth 16 <<< 8) + 1
    cs.setWidth 32 <<< 10
  else
    let n : BitVec 8 := (csd 5 &&& 15) + ((csd 10 &&& 128) >>> 7) + ((csd 9 &&& 3) <<< 1) + 2
    let cs : BitVec 16 := ((csd 8) >>> 6).setWidth 16 + ((csd 7).setWidth 16 <<< 2) +
      ((csd 6 &&& 3).setWidth 16 <<< 10) + 1
    cs.setWidth 32 <<< (n.toNat - 9)

/-- The `switch` of `disk_ioctl`: the result and the word stored through `buff`. -/
def ioctl (ctrl : BitVec 8) (csdAligned : Bool) : DriverM (Dresult × Option (BitVec 32)) := do
  if ctrl = ctrlSync then
    if !(← select) then return (.resError, none)
    deselect
    return (.resOk, none)
  else if ctrl = getSectorCount then
    if (← sendCmd cmd9 0) ≠ 0 then return (.resError, none)
    let (ok, csd) ← rcvrDatablock csdAligned 16
    if !ok then return (.resError, none)
    return (.resOk, some (sectorCount fun i => (csd.getD i none).getD 0))
  else if ctrl = getBlockSize then return (.resOk, some 128)
  else return (.resParerr, none)

/-- `disk_ioctl` -/
def diskIoctl (drv : BitVec 8) (ctrl : BitVec 8) (csdAligned : Bool) :
    DriverM (Dresult × Option (BitVec 32)) := do
  if (← diskStatus drv) &&& staNoinit ≠ 0 then return (.resNotrdy, none)
  let res ← ioctl ctrl csdAligned
  deselect
  return res

end Cineraria.Mmc
