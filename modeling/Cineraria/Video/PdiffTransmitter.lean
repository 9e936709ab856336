import Mathlib.Tactic.FinCases
import Cineraria.Lib.Clocked
import Cineraria.Lib.StdLogic

/-!
# The serialiser

`ip/vga_component/dvi_tx_pdiff/pdiff_transmitter.vhd`. A ring of five registers loads the shift
registers with every fifth edge of `clk_x5`; the symbols come with `clk`, of which every edge is
also an edge of `clk_x5`. Whatever the distance of the two, a symbol is taken into its register
between two loads, and the load that follows takes it.
-/

namespace Cineraria.Pdiff

open Clocked

/-- What comes with an edge of `clk_x5`: it may be an edge of `clk` as well. -/
structure Input where
  clk : Bool
  data0In : BitVec 10
  data1In : BitVec 10
  data2In : BitVec 10

/-- A shift register, and the registers of its output pairs. -/
structure Serialiser where
  serReg : StdVector 10
  pHReg : StdLogic
  pLReg : StdLogic
  nHReg : StdLogic
  nLReg : StdLogic

/-- The registers of `pdiff_transmitter`. -/
structure Transmitter where
  data0InReg : StdVector 10
  data1InReg : StdVector 10
  data2InReg : StdVector 10
  startReg : BitVec 5
  data0 : Serialiser
  data1 : Serialiser
  data2 : Serialiser
  clock : Serialiser

/-- One edge: a load or a shift by two, and the bits that leave. -/
def Serialiser.step (start : Bool) (word : StdVector 10) (s : Serialiser) : Serialiser where
  serReg :=
    if start then word else (StdVector.others .unknown : StdVector 2).append (s.serReg.slice 2 8)
  pHReg := s.serReg 0
  pLReg := s.serReg 1
  nHReg := (s.serReg 0).not
  nLReg := (s.serReg 1).not

/-- One edge of `clk_x5` out of reset. -/
def Transmitter.step (i : Input) (s : Transmitter) : Transmitter where
  data0InReg := if i.clk then .ofBitVec i.data0In else s.data0InReg
  data1InReg := if i.clk then .ofBitVec i.data1In else s.data1InReg
  data2InReg := if i.clk then .ofBitVec i.data2In else s.data2InReg
  startReg := s.startReg.extractLsb' 0 1 ++ s.startReg.extractLsb' 1 4
  data0 := s.data0.step (s.startReg.getLsbD 0) s.data0InReg
  data1 := s.data1.step (s.startReg.getLsbD 0) s.data1InReg
  data2 := s.data2.step (s.startReg.getLsbD 0) s.data2InReg
  clock := s.clock.step (s.startReg.getLsbD 0) (.ofBitVec 0b0000011111#10)

/-- The reset sets the ring, and nothing else. -/
def Transmitter.Reset (s : Transmitter) : Prop := s.startReg = 0b00001#5

/-! ## The three data channels by number -/

def Input.dataIn (i : Input) : Fin 3 → BitVec 10 := ![i.data0In, i.data1In, i.data2In]

def Transmitter.dataInReg (s : Transmitter) : Fin 3 → StdVector 10 :=
  ![s.data0InReg, s.data1InReg, s.data2InReg]

def Transmitter.data (s : Transmitter) : Fin 3 → Serialiser := ![s.data0, s.data1, s.data2]

theorem step_dataInReg (i : Input) (s : Transmitter) (c : Fin 3) :
    (s.step i).dataInReg c = if i.clk then .ofBitVec (i.dataIn c) else s.dataInReg c := by
  fin_cases c <;> rfl

theorem step_data (i : Input) (s : Transmitter) (c : Fin 3) :
    (s.step i).data c = (s.data c).step (s.startReg.getLsbD 0) (s.dataInReg c) := by
  fin_cases c <;> rfl

/-! ## The ring -/

/-- The ring has turned `t` times. -/
def ring (t : Nat) : BitVec 5 := 1#5 <<< ((5 - t % 5) % 5)

theorem ring_turn (t : Nat) : (ring t).extractLsb' 0 1 ++ (ring t).extractLsb' 1 4 = ring (t + 1) := by
  have turn : ∀ k < 5, (ring k).extractLsb' 0 1 ++ (ring k).extractLsb' 1 4 = ring (k + 1) := by decide
  have next : (t % 5 + 1) % 5 = (t + 1) % 5 := by omega
  have now := turn (t % 5) (Nat.mod_lt _ (by decide))
  rw [ring, ring, Nat.mod_mod, next] at now
  exact now

theorem ring_start (t : Nat) : (ring t).getLsbD 0 = decide (t % 5 = 0) := by
  have start : ∀ k < 5, (ring k).getLsbD 0 = decide (k = 0) := by decide
  have now := start (t % 5) (Nat.mod_lt _ (by decide))
  rw [ring, Nat.mod_mod] at now
  exact now

/-! ## A lane -/

section
variable {start : Nat → Bool} {word : Nat → StdVector 10} {s : Nat → Serialiser}

/-- `j` edges after a load the next two bits are at the low end. -/
theorem serReg_shifted (next : ∀ t, s (t + 1) = (s t).step (start t) (word t))
    (ring : ∀ t, start t = decide (t % 5 = 0)) {t : Nat} (load : t % 5 = 0) {j : Nat} (within : j < 5)
    (i : Nat) (inside : i + 2 * j < 10) :
    (s (t + 1 + j)).serReg ⟨i, by omega⟩ = word t ⟨i + 2 * j, inside⟩ := by
  induction j generalizing i with
  | zero =>
      have loads : start t = true := by rw [ring, load]; rfl
      rw [Nat.add_zero, next]
      simp [Serialiser.step, loads]
  | succ j ih =>
      have shifts : start (t + 1 + j) = false := by
        rw [ring, decide_eq_false_iff_not]
        omega
      have before := ih (by omega) (i + 2) (by omega)
      rw [← Nat.add_assoc, next]
      simp only [Serialiser.step, shifts, Bool.false_eq_true, if_false, StdVector.append, StdVector.slice]
      rw [dif_pos (by omega)]
      simp only [Nat.add_comm 2 i, before]
      congr 2
      omega

/-- The bits of a word leave in order, the first two with the second edge after its load. -/
theorem bits_leave (next : ∀ t, s (t + 1) = (s t).step (start t) (word t))
    (ring : ∀ t, start t = decide (t % 5 = 0)) {t : Nat} (load : t % 5 = 0) {j : Nat} (within : j < 5) :
    (s (t + 2 + j)).pHReg = word t ⟨2 * j, by omega⟩ ∧
      (s (t + 2 + j)).pLReg = word t ⟨2 * j + 1, by omega⟩ := by
  have high := serReg_shifted next ring load within 0 (by omega)
  have low := serReg_shifted next ring load within 1 (by omega)
  rw [show t + 2 + j = t + 1 + j + 1 by omega, next]
  refine ⟨high.trans ?_, low.trans ?_⟩ <;> congr 2 <;> omega

/-- The bit stream of an output pair: the high half of every cycle, then the low half. The first edge
after the reset brings nothing. -/
def pBit (s : Nat → Serialiser) (n : Nat) : StdLogic :=
  if n % 2 = 0 then (s (n / 2 + 2)).pHReg else (s (n / 2 + 2)).pLReg

/-- The stream is the words that are loaded, one after the other. -/
theorem pBit_eq (next : ∀ t, s (t + 1) = (s t).step (start t) (word t))
    (ring : ∀ t, start t = decide (t % 5 = 0)) (n : Nat) :
    pBit s n = word (5 * (n / 10)) ⟨n % 10, Nat.mod_lt _ (by decide)⟩ := by
  have load : 5 * (n / 10) % 5 = 0 := by omega
  obtain ⟨high, low⟩ := bits_leave next ring load (j := n % 10 / 2) (by omega)
  have clock : 5 * (n / 10) + 2 + n % 10 / 2 = n / 2 + 2 := by omega
  rw [clock] at high low
  unfold pBit
  split
  · rw [high]
    congr 2
    omega
  · rw [low]
    congr 2
    omega

/-- The other pair is the complement. -/
theorem complement_leaves (next : ∀ t, s (t + 1) = (s t).step (start t) (word t)) (t : Nat) :
    (s (t + 1)).nHReg = (s (t + 1)).pHReg.not ∧ (s (t + 1)).nLReg = (s (t + 1)).pLReg.not := by
  rw [next]
  exact ⟨rfl, rfl⟩

end

/-! ## Runs -/

section
variable {w : Nat → Input} {s : Transmitter}

theorem startReg_run (reset : s.Reset) (t : Nat) : (run Transmitter.step w s t).startReg = ring t := by
  induction t with
  | zero => exact reset
  | succ t ih => rw [run_succ, ← ring_turn, ← ih]; rfl

theorem load_run (reset : s.Reset) (t : Nat) :
    (run Transmitter.step w s t).startReg.getLsbD 0 = decide (t % 5 = 0) := by
  rw [startReg_run reset, ring_start]

theorem data_run (c : Fin 3) (t : Nat) : (run Transmitter.step w s (t + 1)).data c =
    ((run Transmitter.step w s t).data c).step ((run Transmitter.step w s t).startReg.getLsbD 0)
      ((run Transmitter.step w s t).dataInReg c) := by
  rw [run_succ, step_data]

theorem clock_run (t : Nat) : (run Transmitter.step w s (t + 1)).clock =
    (run Transmitter.step w s t).clock.step ((run Transmitter.step w s t).startReg.getLsbD 0)
      (.ofBitVec 0b0000011111#10) := rfl

/-- At a load the register holds the last symbol before it. -/
theorem dataInReg_run {phase : Nat} (within : phase < 5) (aligned : ∀ t, (w t).clk = decide (t % 5 = phase))
    (c : Fin 3) (k : Nat) : (run Transmitter.step w s (5 * (k + 1))).dataInReg c =
      .ofBitVec ((w (5 * k + phase)).dataIn c) := by
  have next : ∀ t, (run Transmitter.step w s (t + 1)).dataInReg c =
      if t % 5 = phase then .ofBitVec ((w t).dataIn c) else (run Transmitter.step w s t).dataInReg c := by
    intro t
    rw [run_succ, step_dataInReg, aligned]
    simp only [decide_eq_true_eq]
  have slot : (5 * k + phase) % 5 = phase := by omega
  have held := held_until_next_load (x := fun t => (run Transmitter.step w s t).dataInReg c)
    (y := fun t => .ofBitVec ((w t).dataIn c)) (j := 4 - phase) next slot (by omega)
  rwa [show 5 * k + phase + 1 + (4 - phase) = 5 * (k + 1) by omega] at held

end

/-- For every phase of the symbol clock against the ring. From the second edge after the reset on
the streams are made up of ten bits each: those in the data registers at the reset, and then those
of the symbols. The clock channel goes with them, and the other outputs are the complements. -/
theorem symbols_serialised {phase : Nat} (within : phase < 5) (w : Nat → Input)
    (aligned : ∀ t, (w t).clk = decide (t % 5 = phase)) (s : Transmitter) (reset : s.Reset) :
    (∀ c n, pBit (fun t => (run Transmitter.step w s t).data c) (n + 10) =
      .ofBool (((w (5 * (n / 10) + phase)).dataIn c).getLsbD (n % 10))) ∧
    (∀ c (n : Fin 10), pBit (fun t => (run Transmitter.step w s t).data c) n = s.dataInReg c n) ∧
    (∀ n, pBit (fun t => (run Transmitter.step w s t).clock) n = .ofBool (n % 10 < 5)) ∧
    ∀ t, ∀ lane ∈ [(run Transmitter.step w s (t + 1)).data0, (run Transmitter.step w s (t + 1)).data1,
        (run Transmitter.step w s (t + 1)).data2, (run Transmitter.step w s (t + 1)).clock],
      lane.nHReg = lane.pHReg.not ∧ lane.nLReg = lane.pLReg.not := by
  refine ⟨?_, ?_, ?_, ?_⟩
  · intro c n
    rw [pBit_eq (data_run c) (load_run reset), show (n + 10) / 10 = n / 10 + 1 by omega,
      dataInReg_run within aligned, StdVector.ofBitVec_apply]
    congr 2
    exact Nat.add_mod_right n 10
  · intro c n
    rw [pBit_eq (data_run c) (load_run reset), Nat.div_eq_of_lt n.isLt]
    congr 1
    exact Fin.ext (Nat.mod_eq_of_lt n.isLt)
  · intro n
    rw [pBit_eq clock_run (load_run reset), StdVector.ofBitVec_apply]
    have bits : ∀ k < 10, (0b0000011111#10).getLsbD k = decide (k < 5) := by decide
    rw [bits _ (Nat.mod_lt _ (by decide))]
  · intro t lane member
    have data : ∀ c, ((run Transmitter.step w s (t + 1)).data c).nHReg =
        ((run Transmitter.step w s (t + 1)).data c).pHReg.not ∧
        ((run Transmitter.step w s (t + 1)).data c).nLReg =
          ((run Transmitter.step w s (t + 1)).data c).pLReg.not :=
      fun c => complement_leaves (s := fun t => (run Transmitter.step w s t).data c) (data_run c) t
    simp only [List.mem_cons, List.not_mem_nil, or_false] at member
    rcases member with rfl | rfl | rfl | rfl
    · exact data 0
    · exact data 1
    · exact data 2
    · exact complement_leaves (s := fun t => (run Transmitter.step w s t).clock) clock_run t

/-- Two symbols, the first of them 1, with the symbol clock three edges after the ring. -/
theorem symbols_serialised_phase_three :
    let w : Nat → Input := fun t => ⟨t % 5 = 3, BitVec.ofNat 10 (t / 5 + 1), 0, 0⟩
    let s : Transmitter := ⟨.others .uninitialized, .others .uninitialized, .others .uninitialized, 1#5,
      ⟨.others .uninitialized, .unknown, .unknown, .unknown, .unknown⟩,
      ⟨.others .uninitialized, .unknown, .unknown, .unknown, .unknown⟩,
      ⟨.others .uninitialized, .unknown, .unknown, .unknown, .unknown⟩,
      ⟨.others .uninitialized, .unknown, .unknown, .unknown, .unknown⟩⟩
    pBit (fun t => (run Transmitter.step w s t).data 0) 10 = .one ∧
      pBit (fun t => (run Transmitter.step w s t).data 0) 21 = .one := by
  intro w s
  have stream := (symbols_serialised (by decide) w (fun _ => rfl) s rfl).1 0
  exact ⟨(stream 0).trans (by decide), (stream 11).trans (by decide)⟩

end Cineraria.Pdiff
