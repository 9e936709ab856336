import Cineraria.Audio.Dsm
import Cineraria.Audio.LanczosTable

/-!
# The oversampling D/A converter

`ip/pcm_component/os256_tap.v` and `os256_dac.v`, with the sample timing of
`pcm_component.v`: four taps hold four consecutive samples, each multiplies its sample
by one word of the coefficient table, and the sum of the four products is scaled by the
volume and sent to the modulator.

The coefficient memory and the multipliers are vendor macros. The memory registers its
address and not its output (`OUTDATA_REG_A = "UNREGISTERED"`); the multiplier is a
combinational product (`LPM_REPRESENTATION = "SIGNED"`, no pipeline).
-/

namespace Cineraria.Dac

open Clocked

/-! ## One tap -/

/-- The registers of `os256_tap`; `tableAddrReg` is the address register inside the
coefficient memory. -/
structure TapRegs where
  indataReg : BitVec 16
  tableAddrReg : BitVec 9
  multDataaReg : BitVec 18
  multDatabReg : BitVec 18
  multResultReg : BitVec 32
  deriving DecidableEq, Repr

/-- `os256_mult_s18xs18` -/
def multS18xS18 (dataa datab : BitVec 18) : BitVec 36 := dataa.signExtend 36 * datab.signExtend 36

/-- The output of `os256_lanczos_table` for the registered address. -/
def tableData (address : BitVec 9) : BitVec 18 := BitVec.ofInt 18 (Lanczos.coefficient address.toNat)

/-- `table_addr_sig` for each `CONFIGTAP`. -/
def tableAddrSig (configtap : Nat) (phase : BitVec 8) : BitVec 9 :=
  match configtap with
  | 0 => 1#1 ++ phase
  | 1 => 0#1 ++ phase
  | 2 => 256#9 - (0#1 ++ phase)
  | 3 => 1#1 ++ ~~~(phase - 1#8)
  | _ => 256#9

/-- One clock edge of `os256_tap`. -/
def tapStep (configtap : Nat) (shift : Bool) (phase : BitVec 8) (din : BitVec 16) (s : TapRegs) :
    TapRegs where
  indataReg := if shift then din else s.indataReg
  tableAddrReg := tableAddrSig configtap phase
  multDataaReg := s.indataReg.signExtend 18
  multDatabReg := tableData s.tableAddrReg
  multResultReg := (multS18xS18 s.multDataaReg s.multDatabReg).setWidth 32

/-! ## The converter -/

/-- The inputs of `os256_dac` at a clock edge. -/
structure Input where
  volume : BitVec 15
  mute : Bool
  fsTiming : Bool
  sampleDin : BitVec 16
  deriving DecidableEq, Repr

/-- The registers of `os256_dac`, with those of its four taps and of its modulator. -/
structure Regs where
  phaseReg : BitVec 8
  volumeReg : BitVec 15
  muteReg : Bool
  datainReg : BitVec 16
  tap3 : TapRegs
  tap2 : TapRegs
  tap1 : TapRegs
  tap0 : TapRegs
  tapadderReg : BitVec 34
  sampleReg : BitVec 18
  dsmdataReg : BitVec 32
  dsm : Dsm.Regs 32
  deriving DecidableEq, Repr

/-- `shift_sig` -/
def shiftSig (s : Regs) : Bool := s.phaseReg = 0#8

/-- The sum loaded into `tapadder_reg`. -/
def tapSum (s : Regs) : BitVec 34 :=
  s.tap3.multResultReg.signExtend 34 + s.tap2.multResultReg.signExtend 34 +
    s.tap1.multResultReg.signExtend 34 + s.tap0.multResultReg.signExtend 34

/-- `tapsat_sig`: the sum without its 14 fraction bits, clamped to 18 bits. -/
def tapsatSig (s : Regs) : BitVec 18 :=
  if s.tapadderReg.getLsbD 33 = false ∧ s.tapadderReg.extractLsb' 31 2 ≠ 0b00#2 then 0x1ffff#18
  else if s.tapadderReg.getLsbD 33 = true ∧ s.tapadderReg.extractLsb' 31 2 ≠ 0b11#2 then 0x20000#18
  else s.tapadderReg.extractLsb' 14 18

/-- The registers of the modulator while its reset, `mute_reg`, is asserted. -/
def dsmReset (s : Dsm.Regs 32) : Dsm.Regs 32 :=
  { s with z1Reg := 0, z2Reg := 0, zoReg := 0, zeReg := 0, dsmoutReg := false }

/-- One clock edge of `os256_dac` out of reset. The modulator's reset is asynchronous: it
acts from the moment `mute_reg` rises and is released one edge after it falls. -/
def step (i : Input) (s : Regs) : Regs :=
  let muteReg := if i.fsTiming then i.mute else s.muteReg
  let dsm := if s.muteReg then s.dsm else Dsm.step s.dsmdataReg s.dsm
  { phaseReg := if i.fsTiming then 0#8 else s.phaseReg + 1#8
    volumeReg :=
      if i.fsTiming then (if i.volume.getLsbD 14 = false then i.volume else 0x4000#15)
      else s.volumeReg
    muteReg := muteReg
    datainReg := if i.fsTiming then i.sampleDin else s.datainReg
    tap3 := tapStep 3 (shiftSig s) s.phaseReg s.datainReg s.tap3
    tap2 := tapStep 2 (shiftSig s) s.phaseReg s.tap3.indataReg s.tap2
    tap1 := tapStep 1 (shiftSig s) s.phaseReg s.tap2.indataReg s.tap1
    tap0 := tapStep 0 (shiftSig s) s.phaseReg s.tap1.indataReg s.tap0
    tapadderReg := tapSum s
    sampleReg := tapsatSig s
    dsmdataReg := (multS18xS18 (s.volumeReg.setWidth 18) s.sampleReg).setWidth 32
    dsm := if muteReg then dsmReset dsm else dsm }

/-! ## The converter under the sample timing -/

/-- What reaches one channel from outside `pcm_component`'s timing: the sample at the head
of the FIFO and the channel's volume and mute registers. -/
structure ChannelInput where
  volume : BitVec 15
  mute : Bool
  pcmdata : BitVec 16
  deriving DecidableEq, Repr

/-- One channel of `pcm_component` on the audio clock: the divider and the converter. -/
structure Channel where
  fsdivcountReg : BitVec 8
  dac : Regs
  deriving DecidableEq, Repr

/-- `fs_timing_sig` -/
def fsTimingSig (s : Channel) : Bool := s.fsdivcountReg = 0#8

/-- One edge of the audio clock. -/
def channelStep (i : ChannelInput) (s : Channel) : Channel where
  fsdivcountReg := s.fsdivcountReg + 1#8
  dac := step ⟨i.volume, i.mute, fsTimingSig s, i.pcmdata⟩ s.dac

/-- The registers that `csi_reset` forces in the divider and in `os256_dac`. -/
structure IsReset (s : Channel) : Prop where
  fsdivcountReg : s.fsdivcountReg = 0
  phaseReg : s.dac.phaseReg = 0
  volumeReg : s.dac.volumeReg = 0
  muteReg : s.dac.muteReg = true

end Cineraria.Dac
