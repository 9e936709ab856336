import Cineraria.Lib.Clocked
import Cineraria.Lib.LineCode
import Cineraria.Lib.ShiftRegister

/-!
# The T.M.D.S. encoder

`ip/vga_component/dvi_tx_pdiff/tmds_encoder.vhd`: two register stages from a pixel
(or a pair of control bits) to a 10-bit symbol. `std_logic` signals are `Bool`, the
integer signal `cnt` is an `Int` whose declared range `-8 to 8` is proved and not
assumed. `qm_reg` and `qout_reg` have no reset value, so a reset state leaves them
open.
-/

namespace Cineraria.Tmds

open Clocked LineCode ShiftRegister

/-- The inputs sampled at a clock edge. -/
structure Input where
  deIn : Bool
  c1In : Bool
  c0In : Bool
  dIn : BitVec 8
  deriving DecidableEq, Repr

/-- The registers. -/
structure Regs where
  cnt : Int
  qmReg : BitVec 9
  deReg : Bool
  cReg : BitVec 2
  qoutReg : BitVec 10
  deriving DecidableEq, Repr

/-- `number1s`: the loop counts the ones of a byte. -/
def number1s (d : BitVec 8) : Int :=
  (List.range 8).foldl (fun num i => if d.getLsbD i then num + 1 else num) 0

/-- `number0s`: the loop counts the zeros of a byte. -/
def number0s (d : BitVec 8) : Int :=
  (List.range 8).foldl (fun num i => if d.getLsbD i then num else num + 1) 0

/-- The loop shared by `encode1` and `encode0`: bit 0 plain, the others chained. -/
def chainByte (inv : Bool) (d : BitVec 8) : BitVec 8 :=
  ofBits (chain inv d.getLsbD) 8

/-- `encode1`: XOR chaining, marked by bit 8 = `'1'`. -/
def encode1 (d : BitVec 8) : BitVec 9 := (chainByte false d).cons true

/-- `encode0`: XNOR chaining, marked by bit 8 = `'0'`. -/
def encode0 (d : BitVec 8) : BitVec 9 := (chainByte true d).cons false

/-- The choice of chaining in the input process. -/
def encodeIn (d : BitVec 8) : BitVec 9 :=
  if number1s d > 4 ∨ (number1s d = 4 ∧ d.getLsbD 0 = false) then encode0 d else encode1 d

/-- `qm_reg(8)` -/
def qm8 (qm : BitVec 9) : Bool := qm.getLsbD 8

/-- `qm_reg(7 downto 0)` -/
def qmByte (qm : BitVec 9) : BitVec 8 := qm.setWidth 8

/-- A 10-bit symbol from `qout_reg(9)`, `qout_reg(8)` and `qout_reg(7 downto 0)`. -/
def symbol (q9 q8 : Bool) (q : BitVec 8) : BitVec 10 := (q.cons q8).cons q9

/-- The symbol emitted for `c_reg` in blanking. -/
def controlSymbol (c : BitVec 2) : BitVec 10 :=
  if c = 0b01#2 then 0b0010101011#10
  else if c = 0b10#2 then 0b0101010100#10
  else if c = 0b11#2 then 0b1010101011#10
  else 0b1101010100#10

/-- The data branch of the encoding process: the symbol and the new `cnt`. -/
def encodeData (cnt : Int) (qm : BitVec 9) : BitVec 10 × Int :=
  let n1 := number1s (qmByte qm)
  let n0 := number0s (qmByte qm)
  if cnt = 0 ∨ n1 = n0 then
    (symbol (!qm8 qm) (qm8 qm) (if qm8 qm = false then ~~~qmByte qm else qmByte qm),
      if qm8 qm = false then cnt + (n0 - n1) else cnt + (n1 - n0))
  else if (cnt > 0 ∧ n1 > n0) ∨ (cnt < 0 ∧ n0 > n1) then
    (symbol true (qm8 qm) (~~~qmByte qm),
      if qm8 qm = false then cnt + (n0 - n1) else cnt + (n0 - n1) + 2)
  else
    (symbol false (qm8 qm) (qmByte qm),
      if qm8 qm = true then cnt + (n1 - n0) else cnt + (n1 - n0) - 2)

/-- One clock edge of both processes. -/
def step (i : Input) (s : Regs) : Regs where
  deReg := i.deIn
  cReg := BitVec.ofBool i.c1In ++ BitVec.ofBool i.c0In
  qmReg := encodeIn i.dIn
  qoutReg := if s.deReg then (encodeData s.cnt s.qmReg).1 else controlSymbol s.cReg
  cnt := if s.deReg then (encodeData s.cnt s.qmReg).2 else 0

/-- The registers that the reset forces; the others keep whatever they held. -/
structure IsReset (s : Regs) : Prop where
  cnt : s.cnt = 0
  deReg : s.deReg = false
  cReg : s.cReg = 0

/-! ## Counting -/

theorem number1s_eq (d : BitVec 8) : number1s d = ones d := by
  have h : ones d = (d.getLsbD 0).toNat + (d.getLsbD 1).toNat + (d.getLsbD 2).toNat +
      (d.getLsbD 3).toNat + (d.getLsbD 4).toNat + (d.getLsbD 5).toNat + (d.getLsbD 6).toNat +
      (d.getLsbD 7).toNat := by
    simp only [ones, BitVec.toNat_cpop, BitVec.cpopNatRec_succ, BitVec.cpopNatRec_zero_self]
    omega
  have step : ∀ (b : Bool) (x : Int), (if b then x + 1 else x) = x + b.toNat := by
    intro b x
    cases b <;> simp
  simp only [number1s, List.range_succ, List.range_zero, List.nil_append, List.foldl_append,
    List.foldl_cons, List.foldl_nil, step, h]
  omega

theorem number0s_eq (d : BitVec 8) : number0s d = 8 - ones d := by
  have swap : ∀ (l : List Nat) (a b : Int),
      l.foldl (fun num i => if d.getLsbD i then num else num + 1) a +
        l.foldl (fun num i => if d.getLsbD i then num + 1 else num) b = a + b + l.length := by
    intro l
    induction l with
    | nil => intro a b; simp
    | cons i l ih =>
        intro a b
        simp only [List.foldl_cons, List.length_cons]
        split <;> rw [ih] <;> omega
  have total := swap (List.range 8) 0 0
  have h := number1s_eq d
  simp only [List.length_range] at total
  unfold number0s
  unfold number1s at h
  omega

/-- The two counting functions only ever enter as their difference. -/
theorem number1s_sub_number0s (d : BitVec 8) : number1s d - number0s d = disparity d := by
  rw [number1s_eq, number0s_eq]
  simp only [disparity]
  omega

theorem disparity_symbol (q9 q8 : Bool) (q : BitVec 8) :
    disparity (symbol q9 q8 q) = level q9 + level q8 + disparity q := by
  simp only [symbol, disparity_cons]
  omega

end Cineraria.Tmds
