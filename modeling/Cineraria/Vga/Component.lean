import Cineraria.Vga.Avm
import Cineraria.Vga.Syncgen

/-!
# The display on its two clocks

`ip/vga_component/vga_component.vhd` puts the timing generator and the framebuffer reader
together. The bus side sees the frame and line pulses through three registers of its own clock;
the burst takes half as many words as the line has pixels. The edges of the two clocks come in
any order.
-/

namespace Cineraria.Vga

/-- The generics of `vga_component`. -/
structure Display where
  timing : Timing
  lineoffsetbytes : Int

/-- The generics that it gives the framebuffer reader. -/
def Display.generics (d : Display) : Generics where
  burstcycle := d.timing.hActive / 2
  lineoffsetbytes := d.lineoffsetbytes

/-- The bus signals at an edge of `m1_clk`, and the register of the slave port. -/
structure BusInput where
  waitrequest : Bool
  readdata : BitVec 32
  readdatavalid : Bool
  framebuffAddr : BitVec 32
  deriving DecidableEq, Repr

/-- An edge of one of the two clocks. -/
inductive Edge where
  | m1 (i : BusInput)
  | video (i : ScanInput)
  deriving DecidableEq, Repr

/-- The registers of both clocks. -/
structure Screen where
  sync : Syncgen
  fs0Reg : Bool
  fs1Reg : Bool
  fs2Reg : Bool
  ls0Reg : Bool
  ls1Reg : Bool
  ls2Reg : Bool
  avm : Avm
  scanout : Scanout
  buffer : Linebuffer

/-- What the bus side of the framebuffer reader samples. -/
def Screen.m1Input (i : BusInput) (s : Screen) : M1Input where
  waitrequest := i.waitrequest
  readdata := i.readdata
  readdatavalid := i.readdatavalid
  framebuffAddr := i.framebuffAddr
  framestart := !s.fs2Reg && s.fs1Reg
  linestart := !s.ls2Reg && s.ls1Reg

/-- One edge. -/
def Screen.step (d : Display) (e : Edge) (s : Screen) : Screen :=
  match e with
  | .m1 i =>
      { s with
        fs0Reg := s.sync.frameReg
        fs1Reg := s.fs0Reg
        fs2Reg := s.fs1Reg
        ls0Reg := s.sync.lineReg
        ls1Reg := s.ls0Reg
        ls2Reg := s.ls1Reg
        avm := s.avm.step d.generics (s.m1Input i)
        buffer := s.buffer.write (s.avm.readdatavalidSig (s.m1Input i))
          (BitVec.ofNat 9 s.avm.datacount) i.readdata }
  | .video i =>
      { s with
        sync := s.sync.step d.timing i
        scanout := s.scanout.step s.sync.pixelena s.sync.ditherReg s.avm.datacount s.buffer.q
        buffer := s.buffer.read s.scanout.pixeladdrReg }

/-- The registers after reset. The video side of the framebuffer reader has none. -/
def Screen.reset (d : Display) (scanout : Scanout) (buffer : Linebuffer) : Screen where
  sync := .reset d.timing
  fs0Reg := false
  fs1Reg := false
  fs2Reg := false
  ls0Reg := false
  ls1Reg := false
  ls2Reg := false
  avm := .reset
  scanout := scanout
  buffer := buffer

end Cineraria.Vga
