import Cineraria.Video.PdiffTransmitter
import Cineraria.Video.TmdsDecode

/-!
# The DVI link

`ip/vga_component/dvi_tx_pdiff/dvi_tx_pdiff.vhd`: three encoders on `clk` before the serialiser on `clk_x5`. The
receiver is the specification. It has the four pairs and nothing else, finds the symbols by the clock pair, and
decodes them.
-/

namespace Cineraria.Dvi

open Clocked ShiftRegister

/-- The video signals. -/
structure Video where
  dviDe : Bool
  dviBlu : BitVec 8
  dviGrn : BitVec 8
  dviRed : BitVec 8
  dviHsync : Bool
  dviVsync : Bool
  dviCtl : BitVec 4

/-- The port maps of `TMDS_B`, `TMDS_G` and `TMDS_R`. -/
def Video.channel (v : Video) : Fin 3 → Tmds.Input :=
  ![⟨v.dviDe, v.dviVsync, v.dviHsync, v.dviBlu⟩, ⟨v.dviDe, v.dviCtl.getLsbD 1, v.dviCtl.getLsbD 0, v.dviGrn⟩,
    ⟨v.dviDe, v.dviCtl.getLsbD 3, v.dviCtl.getLsbD 2, v.dviRed⟩]

/-- What comes with an edge of `clk_x5`: it may be an edge of `clk` as well. -/
structure Edge where
  clk : Bool
  video : Video

/-- The registers of `dvi_tx_pdiff`. -/
structure Regs where
  enc : Fin 3 → Tmds.Regs
  ser : Pdiff.Transmitter

/-- The port map of `SER`. -/
def Regs.serInput (e : Edge) (s : Regs) : Pdiff.Input :=
  ⟨e.clk, (s.enc 0).qoutReg, (s.enc 1).qoutReg, (s.enc 2).qoutReg⟩

/-- One edge of `clk_x5` out of reset. -/
def Regs.step (e : Edge) (s : Regs) : Regs where
  enc c := if e.clk then Tmds.step (e.video.channel c) (s.enc c) else s.enc c
  ser := s.ser.step (s.serInput e)

/-! ## The receiver -/

/-- The bit of a pair, if its wires are complements. -/
def received (p n : StdLogic) : Option Bool :=
  match p.toBool?, n.toBool? with
  | some a, some b => if a = !b then some a else none
  | _, _ => none

/-- The bits of a pair: the high half of every cycle, then the low half. -/
def pair (lane : Nat → Pdiff.Serialiser) (n : Nat) : Option Bool :=
  if n % 2 = 0 then received (lane (n / 2 + 2)).pHReg (lane (n / 2 + 2)).nHReg
  else received (lane (n / 2 + 2)).pLReg (lane (n / 2 + 2)).nLReg

/-- A symbol begins with the next bit: the clock rises. -/
def Begins (clock : Nat → Option Bool) (n : Nat) : Prop := clock n = some false ∧ clock (n + 1) = some true

/-- The ten bits from bit `n` on, if all are known. -/
def symbolAt (bits : Nat → Option Bool) (n : Nat) : Option (BitVec 10) :=
  if ∀ k < 10, (bits (n + k)).isSome then some (ofBits (fun k => (bits (n + k)).getD false) 10) else none

theorem received_not (b : Bool) : received (.ofBool b) (StdLogic.ofBool b).not = some b := by
  cases b <;> rfl

theorem symbolAt_of_bits {bits : Nat → Option Bool} {n : Nat} {q : BitVec 10}
    (is : ∀ k < 10, bits (n + k) = some (q.getLsbD k)) : symbolAt bits n = some q := by
  rw [symbolAt, if_pos fun k within => by rw [is k within]; rfl]
  congr 1
  apply BitVec.eq_of_getLsbD_eq
  intro k within
  rw [getLsbD_ofBits _ within, is k within, Option.getD_some]

/-- What the transmitter puts on a pair is received. -/
theorem pair_of_pBit {lane : Nat → Pdiff.Serialiser} {n : Nat} {b : Bool} (is : Pdiff.pBit lane n = .ofBool b)
    (complement : ∀ t, (lane (t + 1)).nHReg = (lane (t + 1)).pHReg.not ∧
      (lane (t + 1)).nLReg = (lane (t + 1)).pLReg.not) : pair lane n = some b := by
  obtain ⟨high, low⟩ := complement (n / 2 + 1)
  unfold Pdiff.pBit at is
  unfold pair
  split at is
  · next first => rw [if_pos first, high, is, received_not]
  · next second => rw [if_neg second, low, is, received_not]

/-! ## Runs -/

section
variable {e : Nat → Edge} {s : Regs}

/-- The serialiser runs on the symbols of the encoders. -/
theorem ser_run (t : Nat) : (run Regs.step e s t).ser =
    run Pdiff.Transmitter.step (fun t => (run Regs.step e s t).serInput (e t)) s.ser t := by
  induction t with
  | zero => rfl
  | succ t ih => rw [run_succ, run_succ, ← ih]; rfl

/-- The encoders run on every fifth edge. -/
theorem enc_run {phase : Nat} (within : phase < 5) (aligned : ∀ t, (e t).clk = decide (t % 5 = phase)) (c : Fin 3)
    (t : Nat) : (run Regs.step e s t).enc c =
      run Tmds.step (fun k => (e (5 * k + phase)).video.channel c) (s.enc c) ((t + 4 - phase) / 5) := by
  induction t with
  | zero =>
      have none : (0 + 4 - phase) / 5 = 0 := by omega
      rw [none]
      rfl
  | succ t ih =>
      rw [run_succ]
      simp only [Regs.step, aligned, decide_eq_true_eq]
      by_cases edge : t % 5 = phase
      · have next : (t + 1 + 4 - phase) / 5 = (t + 4 - phase) / 5 + 1 := by omega
        have now : 5 * ((t + 4 - phase) / 5) + phase = t := by omega
        rw [if_pos edge, ih, next, run_succ, now]
      · have same : (t + 1 + 4 - phase) / 5 = (t + 4 - phase) / 5 := by omega
        rw [if_neg edge, ih, same]

section
variable {phase : Nat} (within : phase < 5) (aligned : ∀ t, (e t).clk = decide (t % 5 = phase)) (reset : s.ser.Reset)
include reset

/-- The clock pair. -/
theorem clock_received (n : Nat) :
    pair (fun t => (run Regs.step e s t).ser.clock) n = some (decide (n % 10 < 5)) := by
  simp only [ser_run]
  set w := fun t => (run Regs.step e s t).serInput (e t)
  refine pair_of_pBit ?_ fun t =>
    Pdiff.complement_leaves (s := fun t => (run Pdiff.Transmitter.step w s.ser t).clock) Pdiff.clock_run t
  have bits : ∀ k < 10, (0b0000011111#10).getLsbD k = decide (k < 5) := by decide
  rw [Pdiff.pBit_eq Pdiff.clock_run (Pdiff.load_run reset), StdVector.ofBitVec_apply,
    bits _ (Nat.mod_lt _ (by decide))]

include within aligned

/-- The bits of the symbol that is taken with edge `k` of `clk`. -/
theorem data_received (c : Fin 3) (k : Nat) {j : Nat} (bit : j < 10) :
    pair (fun t => (run Regs.step e s t).ser.data c) (10 * (k + 1) + j) =
      some ((run Tmds.step (fun k => (e (5 * k + phase)).video.channel c) (s.enc c) k).qoutReg.getLsbD j) := by
  have taken : ((run Regs.step e s (5 * k + phase)).serInput (e (5 * k + phase))).dataIn c =
      ((run Regs.step e s (5 * k + phase)).enc c).qoutReg := by
    fin_cases c <;> rfl
  have edges : (5 * k + phase + 4 - phase) / 5 = k := by omega
  rw [enc_run within aligned, edges] at taken
  simp only [ser_run]
  set w := fun t => (run Regs.step e s t).serInput (e t)
  refine pair_of_pBit ?_ fun t =>
    Pdiff.complement_leaves (s := fun t => (run Pdiff.Transmitter.step w s.ser t).data c) (Pdiff.data_run c) t
  have word : (10 * (k + 1) + j) / 10 = k + 1 := by omega
  have place : (10 * (k + 1) + j) % 10 = j := by omega
  rw [Pdiff.pBit_eq (Pdiff.data_run c) (Pdiff.load_run reset), word, Pdiff.dataInReg_run within (fun t => aligned t), taken,
    StdVector.ofBitVec_apply]
  simp only [place]

end

/-- The link, for every phase of the two clocks and every video signal. The clock pair rises where a symbol begins and
nowhere else, and from the fourth symbol on every channel gives back its signals, in order, and never takes data for
a control code. -/
theorem link_transparent {phase : Nat} (within : phase < 5) (e : Nat → Edge)
    (aligned : ∀ t, (e t).clk = decide (t % 5 = phase)) (s : Regs) (reset : s.ser.Reset) :
    let lane := fun (c : Fin 3) => pair fun t => (run Regs.step e s t).ser.data c
    let clock := pair fun t => (run Regs.step e s t).ser.clock
    (∀ n, Begins clock n ↔ (n + 1) % 10 = 0) ∧
      ∀ c k, ∃ q, symbolAt (lane c) (10 * (k + 3)) = some q ∧
        Tmds.decode q = ((e (5 * k + phase)).video.channel c).symbol ∧
        ((e (5 * k + phase)).video.dviDe = true → q ∉ Tmds.controlCodes) := by
  intro lane clock
  constructor
  · intro n
    have now : clock n = some (decide (n % 10 < 5)) := clock_received reset n
    have next : clock (n + 1) = some (decide ((n + 1) % 10 < 5)) := clock_received reset (n + 1)
    rw [Begins, now, next, Option.some.injEq, Option.some.injEq, decide_eq_false_iff_not, decide_eq_true_eq]
    omega
  · intro c k
    have sent := Tmds.decode_qoutReg (fun k => (e (5 * k + phase)).video.channel c) (s.enc c) k
    refine ⟨_, symbolAt_of_bits fun j bit => data_received within aligned reset c (k + 2) bit, sent.1, ?_⟩
    have enable : ((e (5 * k + phase)).video.channel c).deIn = (e (5 * k + phase)).video.dviDe := by
      fin_cases c <;> rfl
    rw [← enable]
    exact sent.2

end

/-- Red, from a transmitter of which only the ring has been reset. -/
theorem link_transparent_red :
    let e : Nat → Edge := fun t => ⟨t % 5 = 2, ⟨true, 0, 0, 255, false, false, 0⟩⟩
    let blank : Pdiff.Serialiser := ⟨.others .uninitialized, .unknown, .unknown, .unknown, .unknown⟩
    let s : Regs := ⟨fun _ => ⟨0, 0, false, 0, 0⟩,
      ⟨.others .uninitialized, .others .uninitialized, .others .uninitialized, 1#5, blank, blank, blank, blank⟩⟩
    ∃ q, symbolAt (pair fun t => (run Regs.step e s t).ser.data 2) 30 = some q ∧ Tmds.decode q = .data 255 := by
  intro e blank s
  obtain ⟨q, at30, is, -⟩ := (link_transparent (by decide) e (fun _ => rfl) s rfl).2 2 0
  exact ⟨q, at30, is⟩

end Cineraria.Dvi
