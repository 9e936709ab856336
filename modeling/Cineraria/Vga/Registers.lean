import Mathlib.Tactic.Common

/-!
# The control registers

The register process of `ip/vga_component/vga_component.vhd`, and the functions of
`nd_lib/nd_egl.c` that update the status register. Bit 14 of it is the interrupt flag: the
vertical synchronisation sets it, and a write with bit 14 clear clears it. The other bits that
a write sets are control bits, so every function reads the register before it writes it back.
-/

namespace Cineraria.Vga

/-- The signals that the register process samples. -/
structure S1Input where
  address : BitVec 2
  write : Bool
  writedata : BitVec 32
  vsync : Bool
  overrun : Bool
  deriving DecidableEq, Repr

/-- The registers of the slave port. -/
structure S1 where
  vs0Reg : Bool
  vs1Reg : Bool
  vs2Reg : Bool
  ovr0Reg : Bool
  ovr1Reg : Bool
  ovr2Reg : Bool
  vsirqReg : Bool
  vsirqenaReg : Bool
  vsflagReg : Bool
  ovrerrReg : Bool
  scanenaReg : Bool
  framebuffAddrReg : BitVec 32
  vsynccounterReg : BitVec 8
  deriving DecidableEq, Repr

/-- `readdata_0_sig` -/
def S1.readdata0 (s : S1) : BitVec 32 :=
  0#16 ++ BitVec.ofBool s.vsirqenaReg ++ BitVec.ofBool s.vsirqReg ++ BitVec.ofBool s.vsflagReg ++
    BitVec.ofBool s.ovrerrReg ++ 0#11 ++ BitVec.ofBool s.scanenaReg

/-- `irq_s1` -/
def S1.irq (s : S1) : Bool := s.vsirqReg && s.vsirqenaReg

/-- The rising edge of the synchronised `vsync_sig`. -/
def S1.vsyncEdge (s : S1) : Bool := !s.vs2Reg && s.vs1Reg

/-- The rising edge of the synchronised `overrun_sig`. -/
def S1.overrunEdge (s : S1) : Bool := !s.ovr2Reg && s.ovr1Reg

/-- A write to register `a`. -/
def S1Input.writes (i : S1Input) (a : BitVec 2) : Bool := i.write && i.address == a

/-- One edge of `s1_clk` out of reset. -/
def S1.step (i : S1Input) (s : S1) : S1 where
  vs0Reg := i.vsync
  vs1Reg := s.vs0Reg
  vs2Reg := s.vs1Reg
  ovr0Reg := i.overrun
  ovr1Reg := s.ovr0Reg
  ovr2Reg := s.ovr1Reg
  vsirqReg :=
    if s.vsyncEdge then true
    else if i.writes 0 && !i.writedata.getLsbD 14 then false
    else s.vsirqReg
  vsirqenaReg := if i.writes 0 then i.writedata.getLsbD 15 else s.vsirqenaReg
  vsflagReg := if s.vsyncEdge then !s.vsflagReg else s.vsflagReg
  ovrerrReg :=
    if s.overrunEdge then true
    else if i.writes 0 && !i.writedata.getLsbD 12 then false
    else s.ovrerrReg
  scanenaReg := if i.writes 0 then i.writedata.getLsbD 0 else s.scanenaReg
  framebuffAddrReg := if i.writes 1 then i.writedata else s.framebuffAddrReg
  vsynccounterReg :=
    if i.writes 2 then i.writedata.setWidth 8
    else if s.vsyncEdge && s.vsynccounterReg != 0 then s.vsynccounterReg - 1
    else s.vsynccounterReg

/-- The registers after reset. -/
def S1.reset : S1 where
  vs0Reg := false
  vs1Reg := false
  vs2Reg := false
  ovr0Reg := false
  ovr1Reg := false
  ovr2Reg := false
  vsirqReg := false
  vsirqenaReg := false
  vsflagReg := false
  ovrerrReg := false
  scanenaReg := false
  framebuffAddrReg := 0
  vsynccounterReg := 0

theorem readdata0_vsirq (s : S1) : s.readdata0.getLsbD 14 = s.vsirqReg := by
  simp only [S1.readdata0, BitVec.getLsbD_append]
  simp

theorem readdata0_vsirqena (s : S1) : s.readdata0.getLsbD 15 = s.vsirqenaReg := by
  simp only [S1.readdata0, BitVec.getLsbD_append]
  simp

/-! ## The driver -/

/-- `vga_vsyncirq_clear` -/
def vgaVsyncirqClear : BitVec 32 := ~~~0x4000

/-- `vga_scan_enable` -/
def vgaScanEnable : BitVec 32 := 1

/-- What `nd_GsVgaVsync_isr` writes back. -/
def ndGsVgaVsyncIsr (status : BitVec 32) : BitVec 32 := status &&& vgaVsyncirqClear

/-- What `nd_GsVgaScanOn` writes back. -/
def ndGsVgaScanOn (status : BitVec 32) : BitVec 32 := status ||| vgaScanEnable

/-- What `nd_GsVgaScanOff` writes back. -/
def ndGsVgaScanOff (status : BitVec 32) : BitVec 32 := status &&& ~~~vgaScanEnable

/-- The functions that read the status register and write it back. -/
inductive Update where
  | vsyncIsr | scanOn | scanOff
  deriving DecidableEq, Repr

/-- The value that is written back for the status that was read. -/
def Update.writeBack : Update → BitVec 32 → BitVec 32
  | .vsyncIsr => ndGsVgaVsyncIsr
  | .scanOn => ndGsVgaScanOn
  | .scanOff => ndGsVgaScanOff

/-- The handler clears the interrupt flag, the others write it back as they read it. -/
theorem writeBack_vsirq (f : Update) (status : BitVec 32) :
    (f.writeBack status).getLsbD 14 = (f != .vsyncIsr && status.getLsbD 14) := by
  cases f
  case vsyncIsr =>
    simp only [Update.writeBack, ndGsVgaVsyncIsr, vgaVsyncirqClear, BitVec.getLsbD_and]
    simp
  case scanOn =>
    simp only [Update.writeBack, ndGsVgaScanOn, vgaScanEnable, BitVec.getLsbD_or]
    simp
  case scanOff =>
    simp only [Update.writeBack, ndGsVgaScanOff, vgaScanEnable, BitVec.getLsbD_and]
    simp

/-- All of them keep the interrupt enable as they read it. -/
theorem writeBack_vsirqena (f : Update) (status : BitVec 32) :
    (f.writeBack status).getLsbD 15 = status.getLsbD 15 := by
  cases f
  case vsyncIsr =>
    simp only [Update.writeBack, ndGsVgaVsyncIsr, vgaVsyncirqClear, BitVec.getLsbD_and]
    simp
  case scanOn =>
    simp only [Update.writeBack, ndGsVgaScanOn, vgaScanEnable, BitVec.getLsbD_or]
    simp
  case scanOff =>
    simp only [Update.writeBack, ndGsVgaScanOff, vgaScanEnable, BitVec.getLsbD_and]
    simp

end Cineraria.Vga
