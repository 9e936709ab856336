import Cineraria.Lib.Clocked

/-!
# The framebuffer reader

`ip/vga_component/vga_avm.vhd`: a bus master that fetches one line in one burst, and a video
side that reads the line buffer. The two run on clocks of their own. They meet in the line
buffer and in `datacount`, which the video side samples to notice that it has overtaken the
fetch.

The line buffer takes the content of a word at the edge that takes its address, and shows it
one edge later.
-/

namespace Cineraria.Vga

/-- The generics of `vga_avm`. -/
structure Generics where
  burstcycle : Nat
  lineoffsetbytes : Int

/-- `BUS_STATE` -/
inductive BusState where
  | idle | readIssue | dataRead | readDone | writeIssue | writeDone
  deriving DecidableEq, Repr

/-! ## The bus side -/

/-- The signals that the bus side samples. -/
structure M1Input where
  waitrequest : Bool
  readdata : BitVec 32
  readdatavalid : Bool
  framebuffAddr : BitVec 32
  framestart : Bool
  linestart : Bool
  deriving DecidableEq, Repr

/-- The registers of the bus side. -/
structure Avm where
  avmState : BusState
  datacount : Nat
  topaddrReg : BitVec 32
  lineoffsReg : BitVec 32
  addrReg : BitVec 30
  readReg : Bool
  deriving DecidableEq, Repr

/-- `avm_m1_address` -/
def Avm.m1Address (s : Avm) : BitVec 32 := s.addrReg ++ 0#2

/-- `readdatavalid_sig` -/
def Avm.readdatavalidSig (i : M1Input) (s : Avm) : Bool :=
  s.avmState == .dataRead && i.readdatavalid

/-- The `case avm_state` of the process. -/
def Avm.sequence (g : Generics) (i : M1Input) (s : Avm) : Avm :=
  match s.avmState with
  | .idle =>
      if i.linestart then
        { s with
          avmState := .readIssue
          addrReg := s.topaddrReg.extractLsb' 2 30 + s.lineoffsReg.extractLsb' 2 30
          readReg := true
          datacount := 0 }
      else s
  | .readIssue =>
      if i.waitrequest = false then { s with avmState := .dataRead, readReg := false } else s
  | .dataRead =>
      if i.readdatavalid then
        { s with
          avmState := if s.datacount + 1 = g.burstcycle then .idle else .dataRead
          datacount := s.datacount + 1 }
      else s
  | _ => s

/-- One edge of `csi_m1_clk` out of reset. -/
def Avm.step (g : Generics) (i : M1Input) (s : Avm) : Avm :=
  { s.sequence g i with
    topaddrReg := i.framebuffAddr
    lineoffsReg :=
      if i.framestart then 0
      else if s.avmState = .idle ∧ i.linestart = true then
        s.lineoffsReg + BitVec.ofInt 32 g.lineoffsetbytes
      else s.lineoffsReg }

/-- The registers after reset. -/
def Avm.reset : Avm where
  avmState := .idle
  datacount := 0
  topaddrReg := 0
  lineoffsReg := 0
  addrReg := 0
  readReg := false

/-- The pulse is taken: the master is idle. -/
def Avm.takes (i : M1Input) (s : Avm) : Bool := s.avmState == .idle && i.linestart

/-- The read request is up exactly while the master waits for its acceptance. -/
theorem Avm.step_readReg (g : Generics) (i : M1Input) {s : Avm}
    (readReg : s.readReg = (s.avmState == .readIssue)) :
    (s.step g i).readReg = ((s.step g i).avmState == .readIssue) := by
  cases st : s.avmState <;> rw [st] at readReg <;> simp only [Avm.step, Avm.sequence, st]
  case idle => split <;> simp [readReg, st]
  case readIssue => split <;> simp [readReg, st]
  case dataRead =>
    split
    · split <;> simp [readReg]
    · simp [readReg, st]
  all_goals exact readReg

/-- The count after an edge of the bus clock. -/
theorem step_datacount (g : Generics) (i : M1Input) (s : Avm) :
    (s.step g i).datacount =
      if s.takes i then 0
      else if s.readdatavalidSig i then s.datacount + 1
      else s.datacount := by
  cases st : s.avmState <;>
    simp only [Avm.step, Avm.sequence, Avm.takes, Avm.readdatavalidSig, st]
  case idle => cases i.linestart <;> simp
  case readIssue => cases i.waitrequest <;> simp
  case dataRead => cases i.readdatavalid <;> simp
  all_goals simp

/-! ## The line buffer -/

/-- `vga_linebuffer`: 512 words, read as 1024 pixels. -/
structure Linebuffer where
  mem : BitVec 9 → BitVec 32
  taken : BitVec 16
  q : BitVec 16

/-- An edge of `wrclock`. -/
def Linebuffer.write (wren : Bool) (wraddress : BitVec 9) (data : BitVec 32) (b : Linebuffer) : Linebuffer :=
  { b with mem := fun a => if wren ∧ a = wraddress then data else b.mem a }

/-- The pixel at an address: the lower half of the word comes first. -/
def Linebuffer.pixel (rdaddress : BitVec 10) (b : Linebuffer) : BitVec 16 :=
  (b.mem (rdaddress.extractLsb' 1 9)).extractLsb' (if rdaddress.getLsbD 0 then 16 else 0) 16

/-- An edge of `rdclock`. -/
def Linebuffer.read (rdaddress : BitVec 10) (b : Linebuffer) : Linebuffer :=
  { b with taken := b.pixel rdaddress, q := b.taken }

/-! ## The video side -/

/-- The registers of the video side. -/
structure Scanout where
  validReg : BitVec 3
  pixeladdrReg : BitVec 10
  routReg : BitVec 5
  goutReg : BitVec 5
  boutReg : BitVec 5
  pixelcountReg : BitVec 9
  overrunReg : Bool
  deriving DecidableEq, Repr

/-- The word that the video side reads: `pixeladdr_reg(9 downto 1)`. -/
def Scanout.word (s : Scanout) : BitVec 9 := s.pixeladdrReg.extractLsb' 1 9

/-- `dither_r_sig` and its like -/
def dithered (dither : Bool) (colour : BitVec 5) : BitVec 5 :=
  if colour ≠ 0b11111 ∧ dither then colour + 1 else colour

/-- One edge of `video_clk`. -/
def Scanout.step (active dither : Bool) (datacount : Nat) (q : BitVec 16) (s : Scanout) : Scanout where
  validReg := s.validReg.extractLsb' 0 2 ++ BitVec.ofBool active
  pixeladdrReg := if active = false then 0 else s.pixeladdrReg + 1
  routReg := if s.validReg.getLsbD 1 then dithered dither (q.extractLsb' 10 5) else 0
  goutReg := if s.validReg.getLsbD 1 then dithered dither (q.extractLsb' 5 5) else 0
  boutReg := if s.validReg.getLsbD 1 then dithered dither (q.extractLsb' 0 5) else 0
  pixelcountReg := BitVec.ofNat 9 datacount
  overrunReg :=
    if active = false then false
    else if s.pixelcountReg < s.word then true
    else s.overrunReg

end Cineraria.Vga
