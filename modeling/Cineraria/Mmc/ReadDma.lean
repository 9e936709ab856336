import Cineraria.Mmc.Mmcdma
import Mathlib.Data.Nat.Find
import Mathlib.Logic.Function.Basic

/-!
# The read DMA

Every byte of a DMA takes `transferTime + 1` clocks: one in which the sequencer's write
starts the engine, then the transfer, in whose last clock the sequencer looks at the byte.
`byteStep` says what one byte does from the clock it is asked for; the two loops, over the
busy bytes and over the data bytes, are inductions over it.
-/

namespace Cineraria.Mmc

open Clocked

/-! ## Observations -/

/-- No write on the bus. -/
def Input.quiet (i : Input) : Prop := (i.chipselect && i.write) = false

theorem Input.quiet.mmcregsel {i : Input} (quiet : i.quiet) : (i.mmcregselSig && i.write) = false := by
  simp only [Input.quiet] at quiet
  rw [Input.mmcregselSig, Bool.and_right_comm, quiet, Bool.false_and]

/-- A clock in which the engine accepts the start of a byte. -/
def clockStart (i : Input) (s : Mmcdma) : Option Unit :=
  if s.spi.state = .idle ∧ (s.spiInput i).starts then some () else none

/-- A write to the buffer: address and byte. -/
def bufferWrite (i : Input) (s : Mmcdma) : Option (BitVec 9 × BitVec 8) :=
  if s.dmamemwrSig i then some (s.dma.dmareadCount, s.mmcifrxdSig i) else none

/-- The content of the buffer follows from what is written to it. -/
theorem run_mem (w : Nat → Input) (s : Mmcdma) (t : Nat) :
    (run Mmcdma.step w s t).mem = (observed bufferWrite Mmcdma.step w s t).foldl
      (fun mem p => Function.update mem p.1 p.2) s.mem := by
  induction t with
  | zero => rfl
  | succ t ih =>
      rw [observed_succ, List.foldl_append, ← ih, run_succ]
      funext a
      cases write : (run Mmcdma.step w s t).dmamemwrSig (w t) <;>
        simp [Mmcdma.step, bufferWrite, write, Function.update_apply]

/-! ## The sequencer's signals while a DMA runs -/

section
variable {s : Mmcdma}

theorem spiInput_running (running : s.dma.dmadoneReg = false) (i : Input) :
    s.spiInput i = ⟨true, 0, s.dma.mmcifwrReg, 0xFF, i.mmcSdi, i.mmcCd, i.mmcWp⟩ := by
  simp [Mmcdma.spiInput, running]

theorem exitSig_running (running : s.dma.dmadoneReg = false) (i : Input) :
    s.mmcifexitSig i = s.spi.exitReg := by
  rw [Mmcdma.mmcifexitSig, Mmcdma.mmcifrddataSig, spiInput_running running]
  exact readdata_exit s.spi

theorem zeroSig_running (running : s.dma.dmadoneReg = false) (i : Input) :
    s.mmcifzeroSig i = s.spi.frczeroReg := by
  rw [Mmcdma.mmcifzeroSig, Mmcdma.mmcifrddataSig, spiInput_running running]
  exact readdata_zero s.spi

theorem rxdSig_running (running : s.dma.dmadoneReg = false) (i : Input) :
    s.mmcifrxdSig i = s.spi.rxddata := by
  rw [Mmcdma.mmcifrxdSig, Mmcdma.mmcifrddataSig, spiInput_running running]
  exact readdata_rxd s.spi

/-- The sequencer starts the engine exactly in the clocks of its write pulse. -/
theorem starts_running (running : s.dma.dmadoneReg = false) (i : Input) :
    (s.spiInput i).starts = s.dma.mmcifwrReg := by
  rw [spiInput_running running]
  simp [SpiInput.starts, SpiInput.writes]

/-- An idle engine that is not written to. -/
theorem spi_step_idle (idle : s.spi.state = .idle) {i : SpiInput} (none : i.write = false) :
    (s.spi.step i).state = .idle ∧ (s.spi.step i).divrefReg = s.spi.divrefReg := by
  have unwritten : ∀ a, i.writes a = false := fun a => by simp [SpiInput.writes, none]
  simp only [Spi.step, Spi.engine, idle, unwritten, Bool.false_eq_true, if_false, and_self]

end

/-- Without a bus write the registers on the bus side keep their values, and the start flag
is dropped once the DMA runs. -/
theorem busStep_quiet {i : Input} (quiet : i.quiet) (d : Dma) :
    d.busStep i = { d with dmastartReg := d.dmastartReg && d.dmadoneReg } := by
  have unwritten : (i.dmaregselSig && i.write && i.address.extractLsb' 0 2 == 0) = false := by
    cases chip : i.chipselect with
    | false => simp [Input.dmaregselSig, chip]
    | true =>
        have : i.write = false := by simpa [Input.quiet, chip] using quiet
        simp [this]
  simp only [Dma.busStep, unwritten]
  cases d.dmastartReg <;> simp

/-! ## One byte -/

/-- The sequencer asks for a byte: `st` is `resset` or `readset`. -/
structure Request (d : BitVec 8) (st : DmaState) (count c : BitVec 9) (s : Mmcdma) : Prop where
  idle : s.spi.state = .idle
  divref : s.spi.divrefReg = d
  state : s.dma.state = st
  count : s.dma.dmareadCount = count
  refcount : s.dma.dmarefcountReg = c
  dmadone : s.dma.dmadoneReg = false
  dataerr : s.dma.dmadataerrReg = false
  timout : s.dma.dmatimoutReg = false
  mmcifwr : s.dma.mmcifwrReg = true

/-- The sequencer while it waits for the byte it asked for. -/
def Dma.waiting (d : Dma) : Dma :=
  { d with
    state := if d.state = .resset then .reswait else .readwait
    dmastartReg := false
    mmcifwrReg := false }

section
variable {d : BitVec 8} {st : DmaState} {count c : BitVec 9} {w : Nat → Input} {s : Mmcdma}

theorem waiting_step {d : Dma} (asking : d.state = .resset ∨ d.state = .readset)
    (running : d.dmadoneReg = false) {i : Input} (quiet : i.quiet) (exit zero : Bool)
    (rxd : BitVec 8) : d.step i exit zero rxd = d.waiting := by
  rw [Dma.step, busStep_quiet quiet]
  rcases asking with st | st <;> simp [Dma.sequence, Dma.waiting, st, running]

theorem waiting_hold {d : Dma} {i : Input} (quiet : i.quiet) (zero : Bool) (rxd : BitVec 8) :
    d.waiting.step i false zero rxd = d.waiting := by
  rw [Dma.step, busStep_quiet quiet]
  by_cases st : d.state = .resset <;> simp [Dma.sequence, Dma.waiting, st]

/-- From the clock a byte is asked for until the engine is idle again. -/
structure Transfer (w : Nat → Input) (s : Mmcdma) : Prop where
  dma : ∀ m, 0 < m → m ≤ transferTime s.spi.divrefReg →
    (run Mmcdma.step w s m).dma = s.dma.waiting
  mem : ∀ m ≤ transferTime s.spi.divrefReg, (run Mmcdma.step w s m).mem = s.mem
  busy : ∀ m, 0 < m → m < transferTime s.spi.divrefReg →
    (run Mmcdma.step w s m).spi.state ≠ .idle ∧ (run Mmcdma.step w s m).spi.exitReg = false
  idle : (run Mmcdma.step w s (transferTime s.spi.divrefReg)).spi.state = .idle
  exit : (run Mmcdma.step w s (transferTime s.spi.divrefReg)).spi.exitReg = true
  divref : (run Mmcdma.step w s (transferTime s.spi.divrefReg)).spi.divrefReg = s.spi.divrefReg
  rxd : (run Mmcdma.step w s (transferTime s.spi.divrefReg)).spi.rxddata =
    byteAt s.spi.divrefReg (fun t => (w t).mmcSdi) 0

theorem Request.transfer (request : Request d st count c s) (asking : st = .resset ∨ st = .readset)
    (quiet : ∀ u < transferTime d, (w u).quiet) : Transfer w s := by
  have running := request.dmadone
  have starts : (spiWave w s 0).starts = true := by
    rw [spiWave, run_zero, starts_running running, request.mmcifwr]
  obtain ⟨busy, idle, exit, divref, rxd⟩ := spi_transfer request.idle starts
  have isAsking : s.dma.state = .resset ∨ s.dma.state = .readset := by
    rw [request.state]
    exact asking
  have waits : ∀ m, 0 < m → m ≤ transferTime s.spi.divrefReg →
      (run Mmcdma.step w s m).dma = s.dma.waiting ∧ (run Mmcdma.step w s m).mem = s.mem := by
    intro m positive within
    induction m with
    | zero => omega
    | succ m ih =>
        have still : (w m).quiet := quiet m (by rw [request.divref] at within; omega)
        cases m with
        | zero =>
            refine ⟨waiting_step isAsking running still _ _ _, ?_⟩
            have noWrite : s.dmamemwrSig (w 0) = false := by
              rcases isAsking with st | st <;> simp [Mmcdma.dmamemwrSig, st]
            funext a
            simp [run_succ, Mmcdma.step, noWrite]
        | succ m =>
            obtain ⟨dma, mem⟩ := ih (by omega) (by omega)
            have notYet := (busy (m + 1) (by omega) (by omega)).2
            rw [← run_spi] at notYet
            have runs : (run Mmcdma.step w s (m + 1)).dma.dmadoneReg = false := by
              rw [dma]
              exact running
            have noExit : (run Mmcdma.step w s (m + 1)).mmcifexitSig (w (m + 1)) = false := by
              rw [exitSig_running runs, notYet]
            rw [run_succ _ _ _ (m + 1)]
            constructor
            · simp only [Mmcdma.step, noExit, dma]
              exact waiting_hold still _ _
            · funext a
              simp [Mmcdma.step, Mmcdma.dmamemwrSig, noExit, mem]
  simp only [← run_spi] at busy idle exit divref rxd
  refine ⟨fun m positive within => (waits m positive within).1, fun m within => ?_, busy, idle,
    exit, divref, rxd⟩
  cases m with
  | zero => rfl
  | succ m => exact (waits (m + 1) (Nat.succ_pos m) within).2

/-- The clock in which the sequencer looks at the byte. -/
structure Decision (w : Nat → Input) (s : Mmcdma) (d : BitVec 8) : Prop where
  dma : (run Mmcdma.step w s (transferTime d + 1)).dma = s.dma.waiting.step (w (transferTime d))
    true (run Mmcdma.step w s (transferTime d)).spi.frczeroReg (byteAt d (fun t => (w t).mmcSdi) 0)
  idle : (run Mmcdma.step w s (transferTime d + 1)).spi.state = .idle
  divref : (run Mmcdma.step w s (transferTime d + 1)).spi.divrefReg = d
  clocked : observed clockStart Mmcdma.step w s (transferTime d + 1) = [()]
  written : observed bufferWrite Mmcdma.step w s (transferTime d + 1) =
    if s.dma.state = .readset then [(s.dma.dmareadCount, byteAt d (fun t => (w t).mmcSdi) 0)]
    else []

/-- The DMA goes on while the byte is clocked. -/
theorem Request.running (request : Request d st count c s) (transfer : Transfer w s) {m : Nat}
    (within : m ≤ transferTime s.spi.divrefReg) : (run Mmcdma.step w s m).dma.dmadoneReg = false := by
  cases m with
  | zero => exact request.dmadone
  | succ m =>
      rw [transfer.dma (m + 1) (Nat.succ_pos m) within]
      exact request.dmadone

/-- Nothing is written to the buffer before the byte is in. -/
theorem Request.unwritten (request : Request d st count c s) (asking : st = .resset ∨ st = .readset)
    (transfer : Transfer w s) {m : Nat} (within : m < transferTime s.spi.divrefReg) :
    bufferWrite (w m) (run Mmcdma.step w s m) = none := by
  have noWrite : (run Mmcdma.step w s m).dmamemwrSig (w m) = false := by
    cases m with
    | zero =>
        rcases asking with h | h <;> simp [Mmcdma.dmamemwrSig, request.state, h]
    | succ m =>
        rw [Mmcdma.dmamemwrSig, exitSig_running (request.running transfer (Nat.le_of_lt within)),
          (transfer.busy (m + 1) (Nat.succ_pos m) within).2, Bool.and_false]
  rw [bufferWrite, noWrite]
  rfl

/-- The sequencer still waits when the byte is in. -/
theorem Transfer.ended (transfer : Transfer w s) :
    (run Mmcdma.step w s (transferTime s.spi.divrefReg)).dma = s.dma.waiting :=
  transfer.dma _ (Nat.succ_pos _) (Nat.le_refl _)

/-- One byte is clocked. -/
theorem Request.clocked (request : Request d st count c s) (transfer : Transfer w s) :
    observed clockStart Mmcdma.step w s (transferTime s.spi.divrefReg + 1) = [()] := by
  have start : clockStart (w 0) s = some () :=
    if_pos ⟨request.idle, by rw [starts_running request.dmadone, request.mmcifwr]⟩
  have first : observed clockStart Mmcdma.step w s 1 = [()] := by
    rw [observed_succ, run_zero, start]
    rfl
  rw [Nat.add_comm, observed_quiet, first]
  intro u positive within
  by_cases last : u = transferTime s.spi.divrefReg
  · subst last
    refine if_neg fun h => ?_
    rw [starts_running (request.running transfer (Nat.le_refl _)), transfer.ended] at h
    exact absurd h.2 (by simp [Dma.waiting])
  · exact if_neg fun h => (transfer.busy u positive (by omega)).1 h.1

theorem Request.decision (request : Request d st count c s)
    (asking : st = .resset ∨ st = .readset) (quiet : ∀ u < transferTime d, (w u).quiet) :
    Decision w s d := by
  have transfer := request.transfer asking quiet
  have divref := request.divref
  subst divref
  have ended := transfer.ended
  have runs := request.running transfer (Nat.le_refl _)
  have unwritten : ((run Mmcdma.step w s (transferTime s.spi.divrefReg)).spiInput
      (w (transferTime s.spi.divrefReg))).write = false := by
    simp only [spiInput_running runs, ended, Dma.waiting]
  have engine := spi_step_idle transfer.idle unwritten
  have next := run_succ Mmcdma.step w s (transferTime s.spi.divrefReg)
  refine ⟨?_, ?_, ?_, request.clocked transfer, ?_⟩
  · rw [next]
    simp only [Mmcdma.step, exitSig_running runs, zeroSig_running runs, rxdSig_running runs,
      transfer.exit, transfer.rxd, ended]
  · rw [next]
    exact engine.1
  · rw [next]
    exact engine.2.trans transfer.divref
  · have before : observed bufferWrite Mmcdma.step w s (0 + transferTime s.spi.divrefReg) =
        observed bufferWrite Mmcdma.step w s 0 :=
      observed_quiet fun u _ hu => request.unwritten asking transfer (by omega)
    rw [Nat.zero_add] at before
    rw [observed_succ, before, bufferWrite, Mmcdma.dmamemwrSig, exitSig_running runs,
      rxdSig_running runs, transfer.exit, transfer.rxd, ended]
    rcases asking with h | h <;> simp [Dma.waiting, request.state, h, observed]

/-! ## What follows a byte -/

theorem waiting_decides {d : Dma} {i : Input} (quiet : i.quiet) (zero : Bool) (rxd : BitVec 8) :
    d.waiting.step i true zero rxd = d.waiting.sequence true zero rxd := by
  rw [Dma.step, busStep_quiet quiet]
  by_cases st : d.state = .resset <;> simp only [Dma.sequence, Dma.waiting, st, if_true, if_false]
  · split
    · split
      · rfl
      · split <;> rfl
    · rfl
  · split <;> rfl

/-- The byte of a transfer that is asked for in clock `t`. -/
def received (w : Nat → Input) (d : BitVec 8) (t : Nat) : BitVec 8 :=
  byteAt d (fun u => (w u).mmcSdi) t

theorem received_shift (w : Nat → Input) (d : BitVec 8) (t : Nat) :
    received (shift w t) d 0 = received w d t := by
  simp only [received, byteAt, shift_apply, Nat.zero_add]

/-- The clock in which byte `j` of a DMA is asked for, when the DMA is started in clock 0. -/
def askedAt (d : BitVec 8) (j : Nat) : Nat := 2 + j * (transferTime d + 1)

/-- The clock in which byte `j` completes. -/
def doneAt (d : BitVec 8) (j : Nat) : Nat := askedAt d j + transferTime d

theorem askedAt_zero (d : BitVec 8) : askedAt d 0 = 2 := by
  rw [askedAt, Nat.zero_mul]

theorem askedAt_add (d : BitVec 8) (j i : Nat) :
    askedAt d (j + i) = askedAt d j + i * (transferTime d + 1) := by
  rw [askedAt, askedAt, Nat.add_mul, Nat.add_assoc]

theorem askedAt_succ (d : BitVec 8) (j : Nat) :
    askedAt d (j + 1) = askedAt d j + (transferTime d + 1) := by
  rw [askedAt, askedAt, Nat.succ_mul, Nat.add_assoc]

/-- What is known of a run up to clock `t`, in which the sequencer asks for byte `n`: `n` bytes
have been started and received, and `writes` written to the buffer. -/
structure Progress (w : Nat → Input) (s : Mmcdma) (d : BitVec 8) (n : Nat)
    (writes : List (BitVec 9 × BitVec 8)) (t : Nat) : Prop where
  asked : t = askedAt d n
  rxd : ∀ j < n, (run Mmcdma.step w s (doneAt d j)).spi.rxddata = received w d (askedAt d j)
  low : ∀ u, 2 ≤ u → u ≤ t → (run Mmcdma.step w s u).dma.dmadoneReg = false
  clocked : observed clockStart Mmcdma.step w s t = List.replicate n ()
  written : observed bufferWrite Mmcdma.step w s t = writes

/-- What one byte adds to the run. -/
structure ByteStep (w : Nat → Input) (s : Mmcdma) (d : BitVec 8) (t n : Nat)
    (writes : List (BitVec 9 × BitVec 8)) : Prop where
  asked : t = askedAt d n
  low : ∀ u, 2 ≤ u → u ≤ t + transferTime d → (run Mmcdma.step w s u).dma.dmadoneReg = false
  rxd : ∀ j < n + 1, (run Mmcdma.step w s (doneAt d j)).spi.rxddata = received w d (askedAt d j)
  dma : (run Mmcdma.step w s (t + (transferTime d + 1))).dma =
    (run Mmcdma.step w s t).dma.waiting.sequence true
      (run Mmcdma.step w s (t + transferTime d)).spi.frczeroReg (received w d t)
  idle : (run Mmcdma.step w s (t + (transferTime d + 1))).spi.state = .idle
  divref : (run Mmcdma.step w s (t + (transferTime d + 1))).spi.divrefReg = d
  clocked : observed clockStart Mmcdma.step w s (t + (transferTime d + 1)) =
    List.replicate (n + 1) ()
  written : observed bufferWrite Mmcdma.step w s (t + (transferTime d + 1)) =
    writes ++ if (run Mmcdma.step w s t).dma.state = .readset
      then [((run Mmcdma.step w s t).dma.dmareadCount, received w d t)] else []

theorem byteStep {t n : Nat} {writes : List (BitVec 9 × BitVec 8)}
    (request : Request d st count c (run Mmcdma.step w s t))
    (asking : st = .resset ∨ st = .readset) (progress : Progress w s d n writes t)
    (quiet : ∀ u, t ≤ u → u ≤ t + transferTime d → (w u).quiet) : ByteStep w s d t n writes := by
  have still : ∀ u < transferTime d, (shift w t u).quiet := fun u hu =>
    quiet (t + u) (by omega) (by omega)
  have transfer := request.transfer asking still
  have decision := request.decision asking still
  have byte := received_shift w d t
  rw [received] at byte
  have rxd := transfer.rxd
  rw [request.divref, byte] at rxd
  refine ⟨progress.asked, fun u two within => ?_, ?_, ?_, ?_, ?_, ?_, ?_⟩
  · by_cases before : u ≤ t
    · exact progress.low u two before
    · obtain ⟨m, rfl⟩ : ∃ m, u = t + m := ⟨u - t, by omega⟩
      rw [run_add, transfer.dma m (by omega) (by rw [request.divref]; omega)]
      exact request.dmadone
  · intro j before
    rcases Nat.lt_succ_iff_lt_or_eq.mp before with earlier | rfl
    · exact progress.rxd j earlier
    · rw [doneAt, ← progress.asked, run_add]
      exact rxd
  · rw [run_add, decision.dma, byte, shift_apply, ← run_add,
      waiting_decides (quiet _ (by omega) (Nat.le_refl _))]
  · rw [run_add]
    exact decision.idle
  · rw [run_add]
    exact decision.divref
  · rw [observed_add, progress.clocked, decision.clocked, List.replicate_succ']
  · rw [observed_add, progress.written, decision.written, byte]

/-- The sequencer asks for the next byte. -/
theorem ByteStep.goes_on {t n : Nat} {writes writes' : List (BitVec 9 × BitVec 8)}
    (b : ByteStep w s d t n writes)
    (request : Request d st count c (run Mmcdma.step w s t)) {st' : DmaState} {count' : BitVec 9}
    (next : (run Mmcdma.step w s (t + (transferTime d + 1))).dma =
      { (run Mmcdma.step w s t).dma.waiting with
        state := st', mmcifwrReg := true, dmareadCount := count' })
    (written : observed bufferWrite Mmcdma.step w s (t + (transferTime d + 1)) = writes') :
    Request d st' count' c (run Mmcdma.step w s (t + (transferTime d + 1))) ∧
    Progress w s d (n + 1) writes' (t + (transferTime d + 1)) := by
  have again : Request d st' count' c (run Mmcdma.step w s (t + (transferTime d + 1))) := by
    refine ⟨b.idle, b.divref, ?_, ?_, ?_, ?_, ?_, ?_, ?_⟩ <;> rw [next]
    · exact request.refcount
    · exact request.dmadone
    · exact request.dataerr
    · exact request.timout
  refine ⟨again, ?_, b.rxd, fun u two within => ?_, b.clocked, written⟩
  · rw [askedAt_succ, b.asked]
  · by_cases last : u = t + (transferTime d + 1)
    · rw [last]
      exact again.dmadone
    · exact b.low u two (by omega)

/-- A busy byte, or the token, while the timeout counter runs. -/
theorem ByteStep.response {t n : Nat} {writes : List (BitVec 9 × BitVec 8)}
    (b : ByteStep w s d t n writes)
    (request : Request d .resset count c (run Mmcdma.step w s t))
    (inTime : (run Mmcdma.step w s (t + transferTime d)).spi.frczeroReg = false)
    (rxd : received w d t = 0xFF ∨ received w d t = 0xFE) :
    Request d (if received w d t = 0xFE then .readset else .resset) count c
      (run Mmcdma.step w s (t + (transferTime d + 1))) ∧
    Progress w s d (n + 1) writes (t + (transferTime d + 1)) := by
  refine b.goes_on request ?_ ?_
  · rw [b.dma, inTime]
    rcases rxd with busy | token
    · simp [Dma.sequence, Dma.waiting, request.state, request.count, busy]
    · simp [Dma.sequence, Dma.waiting, request.state, request.count, token]
  · rw [b.written, request.state]
    simp

/-- A data byte that is not the last. -/
theorem ByteStep.data {t n : Nat} {writes : List (BitVec 9 × BitVec 8)}
    (b : ByteStep w s d t n writes)
    (request : Request d .readset count c (run Mmcdma.step w s t)) (more : count ≠ c) :
    Request d .readset (count + 1) c (run Mmcdma.step w s (t + (transferTime d + 1))) ∧
    Progress w s d (n + 1) (writes ++ [(count, received w d t)]) (t + (transferTime d + 1)) := by
  refine b.goes_on request ?_ ?_
  · rw [b.dma]
    simp [Dma.sequence, Dma.waiting, request.state, request.count, request.refcount, more]
  · rw [b.written, request.state, request.count]
    simp

/-! ## The transfer -/

/-- What a read DMA does: the bytes it clocks, the buffer writes and the two error flags. -/
structure Outcome where
  bytes : Nat
  writes : List (BitVec 9 × BitVec 8)
  timout : Bool
  dataerr : Bool
  deriving DecidableEq, Repr

/-- The outcome for reference count `c`, when byte `k` is the first that is not a busy byte
in time: `r` are the bytes and `z` tells if the timeout counter has run out. -/
def outcome (c : BitVec 9) (r : Nat → BitVec 8) (z : Nat → Bool) (k : Nat) : Outcome :=
  if z k then ⟨k + 1, [], true, false⟩
  else if r k ≠ 0xFE then ⟨k + 1, [], false, true⟩
  else
    ⟨k + 1 + (c.toNat + 1),
      (List.range (c.toNat + 1)).map fun i => (BitVec.ofNat 9 i, r (k + 1 + i)), false, false⟩

/-- A DMA started in clock 0 has the outcome `o` in clock `e`, and not before. -/
structure Ends (w : Nat → Input) (s : Mmcdma) (d : BitVec 8) (e : Nat) (o : Outcome) : Prop where
  low : ∀ u, 2 ≤ u → u < e → (run Mmcdma.step w s u).dma.dmadoneReg = false
  done : (run Mmcdma.step w s e).dma.dmadoneReg = true
  timout : (run Mmcdma.step w s e).dma.dmatimoutReg = o.timout
  dataerr : (run Mmcdma.step w s e).dma.dmadataerrReg = o.dataerr
  clocked : observed clockStart Mmcdma.step w s e = List.replicate o.bytes ()
  rxd : ∀ j < o.bytes, (run Mmcdma.step w s (doneAt d j)).spi.rxddata = received w d (askedAt d j)
  written : observed bufferWrite Mmcdma.step w s e = o.writes
  state : (run Mmcdma.step w s e).dma.state = .idle
  dmastart : (run Mmcdma.step w s e).dma.dmastartReg = false
  engine : (run Mmcdma.step w s e).spi.state = .idle

/-- The buffer at the end holds what was written, and is otherwise as it was. -/
theorem Ends.mem {w : Nat → Input} {s : Mmcdma} {d : BitVec 8} {e : Nat} {o : Outcome}
    (h : Ends w s d e o) :
    (run Mmcdma.step w s e).mem =
      o.writes.foldl (fun mem p => Function.update mem p.1 p.2) s.mem := by
  rw [run_mem, h.written]

/-- A response in which the timeout counter has run out, or which is neither a busy byte nor
the token, ends the DMA. -/
theorem ByteStep.fails {t n : Nat} {writes : List (BitVec 9 × BitVec 8)}
    (b : ByteStep w s d t n writes)
    (request : Request d .resset count c (run Mmcdma.step w s t)) {zero : Bool}
    (isZero : (run Mmcdma.step w s (t + transferTime d)).spi.frczeroReg = zero)
    (failed : zero = true ∨ received w d t ≠ 0xFF) (noToken : zero = true ∨ received w d t ≠ 0xFE) :
    Ends w s d (t + (transferTime d + 1)) ⟨n + 1, writes, zero, !zero⟩ := by
  have dma := b.dma
  rw [isZero] at dma
  have flags : (run Mmcdma.step w s (t + (transferTime d + 1))).dma =
      { (run Mmcdma.step w s t).dma.waiting with
        state := .idle, dmadoneReg := true, dmatimoutReg := zero, dmadataerrReg := !zero } := by
    rw [dma]
    cases zero with
    | true => simp [Dma.sequence, Dma.waiting, request.state, request.dataerr]
    | false =>
        have busy : received w d t ≠ 0xFF := by simpa using failed
        have token : received w d t ≠ 0xFE := by simpa using noToken
        simp only [Dma.sequence, Dma.waiting, request.state, request.timout, if_true,
          if_neg token, if_neg busy, Bool.not_false]
  refine ⟨fun u two before => b.low u two (by omega), ?_, ?_, ?_, b.clocked, b.rxd, ?_, ?_, ?_,
    b.idle⟩
  · rw [flags]
  · rw [flags]
  · rw [flags]
  · rw [b.written, request.state]
    simp
  · rw [flags]
  · rw [flags]
    rfl

/-- The data byte whose number is the reference count ends the DMA. -/
theorem ByteStep.last {t n : Nat} {writes : List (BitVec 9 × BitVec 8)}
    (b : ByteStep w s d t n writes)
    (request : Request d .readset c c (run Mmcdma.step w s t)) :
    Ends w s d (t + (transferTime d + 1))
      ⟨n + 1, writes ++ [(c, received w d t)], false, false⟩ := by
  have flags : (run Mmcdma.step w s (t + (transferTime d + 1))).dma =
      { (run Mmcdma.step w s t).dma.waiting with state := .idle, dmadoneReg := true } := by
    rw [b.dma]
    simp [Dma.sequence, Dma.waiting, request.state, request.count, request.refcount]
  refine ⟨fun u two before => b.low u two (by omega), ?_, ?_, ?_, b.clocked, b.rxd, ?_, ?_, ?_,
    b.idle⟩
  · rw [flags]
  · rw [flags]
    exact request.timout
  · rw [flags]
    exact request.dataerr
  · rw [b.written, request.state, request.count]
    simp
  · rw [flags]
  · rw [flags]
    rfl

/-- The bus write that starts a DMA with reference count `c`. -/
structure Input.StartsDma (i : Input) (c : BitVec 9) : Prop where
  select : i.dmaregselSig = true
  write : i.write = true
  address : i.address.extractLsb' 0 2 = 0
  start : i.writedata.getLsbD 10 = true
  count : i.writedata.setWidth 9 = c

/-- The bus start of a DMA is not a write to the engine. -/
theorem Input.StartsDma.mmcregsel {i : Input} (start : i.StartsDma c) :
    (i.mmcregselSig && i.write) = false := by
  have select : i.address.extractLsb' 2 6 = 1 ∧ i.chipselect = true := by
    simpa [Input.dmaregselSig, and_comm] using start.select
  simp [Input.mmcregselSig, select.1]

/-- The component can take the start of a DMA: sequencer and engine are idle. -/
structure Mmcdma.Ready (s : Mmcdma) : Prop where
  consistent : s.Consistent
  state : s.dma.state = .idle
  dmastart : s.dma.dmastartReg = false
  engine : s.spi.state = .idle

/-- A clock in which the sequencer is idle and the bus does not write to the engine. -/
theorem idle_clock {i : Input} (done : s.dma.dmadoneReg = true) (state : s.dma.state = .idle)
    (engine : s.spi.state = .idle) (unwritten : (i.mmcregselSig && i.write) = false) :
    (s.step i).spi.state = .idle ∧ (s.step i).spi.divrefReg = s.spi.divrefReg ∧
    clockStart i s = none ∧ bufferWrite i s = none := by
  have noWrite : (s.spiInput i).write = false := by
    simp only [Mmcdma.spiInput, done, if_true, unwritten]
  have kept := spi_step_idle engine noWrite
  refine ⟨kept.1, kept.2, if_neg fun h => ?_, if_neg fun h => ?_⟩
  · simp [SpiInput.starts, SpiInput.writes, noWrite] at h
  · simp [Mmcdma.dmamemwrSig, state] at h

/-- Two clocks after the start the sequencer asks for the first byte. -/
theorem request_start (ready : s.Ready) (start : (w 0).StartsDma c) (quiet : (w 1).quiet) :
    Request s.spi.divrefReg .resset 0 c (run Mmcdma.step w s 2) ∧ Progress w s s.spi.divrefReg 0 [] 2 := by
  have done : s.dma.dmadoneReg = true := by
    rw [ready.consistent.dmadone, ready.state]
    rfl
  have written : ((w 0).dmaregselSig && (w 0).write &&
      (w 0).address.extractLsb' 0 2 == 0) = true := by
    simp [start.select, start.write, start.address]
  -- The start is in the register bank one clock after the write.
  have first : (s.step (w 0)).dma = { s.dma with
      dmareadCount := 0
      dmastartReg := true
      dmairqenaReg := (w 0).writedata.getLsbD 15
      dmarefcountReg := c } := by
    simp only [Mmcdma.step, Dma.step, Dma.busStep, written, ready.dmastart, Dma.sequence, ready.state,
      start.start, start.count, Bool.true_and, if_true, Bool.false_eq_true, if_false]
  obtain ⟨engine, divref, noClock, noWrite⟩ := idle_clock done ready.state ready.engine
    start.mmcregsel
  have done1 : (s.step (w 0)).dma.dmadoneReg = true := by
    rw [first]
    exact done
  have state1 : (s.step (w 0)).dma.state = .idle := by
    rw [first]
    exact ready.state
  obtain ⟨engine1, divref1, noClock1, noWrite1⟩ := idle_clock done1 state1 engine quiet.mmcregsel
  have second : ((s.step (w 0)).step (w 1)).dma = { s.dma with
      state := .resset
      dmareadCount := 0
      dmastartReg := true
      dmairqenaReg := (w 0).writedata.getLsbD 15
      dmarefcountReg := c
      dmadoneReg := false
      dmadataerrReg := false
      dmatimoutReg := false
      mmcifwrReg := true } := by
    rw [Mmcdma.step]
    simp only [Dma.step, busStep_quiet quiet, first, Dma.sequence, ready.state, done, if_true,
      Bool.and_self]
  have two : run Mmcdma.step w s 2 = (s.step (w 0)).step (w 1) := rfl
  refine ⟨?_, (askedAt_zero _).symm, fun j before => absurd before (Nat.not_lt_zero j),
    fun u low within => ?_, ?_, ?_⟩
  · rw [two]
    refine ⟨engine1, divref1.trans divref, ?_, ?_, ?_, ?_, ?_, ?_, ?_⟩ <;> rw [second]
  · rw [show u = 2 by omega, two, second]
  · simp only [observed, run_zero, noClock, run_succ, noClock1, Option.toList_none,
      List.append_nil, List.replicate_zero]
  · simp only [observed, run_zero, noWrite, run_succ, noWrite1, Option.toList_none,
      List.append_nil]

/-- While the bytes are busy and in time the sequencer keeps asking. -/
theorem run_busy (ready : s.Ready) (start : (w 0).StartsDma c) {k : Nat}
    (quiet : ∀ u, 0 < u → u < askedAt s.spi.divrefReg k → (w u).quiet)
    (busy : ∀ j < k, (run Mmcdma.step w s (doneAt s.spi.divrefReg j)).spi.frczeroReg = false ∧
      received w s.spi.divrefReg (askedAt s.spi.divrefReg j) = 0xFF) :
    Request s.spi.divrefReg .resset 0 c (run Mmcdma.step w s (askedAt s.spi.divrefReg k)) ∧
    Progress w s s.spi.divrefReg k [] (askedAt s.spi.divrefReg k) := by
  induction k with
  | zero =>
      rw [askedAt_zero] at quiet ⊢
      exact request_start ready start (quiet 1 (by decide) (by decide))
  | succ k ih =>
      rw [askedAt_succ] at quiet ⊢
      obtain ⟨request, progress⟩ := ih (fun u positive before => quiet u positive (by omega))
        fun j hj => busy j (by omega)
      obtain ⟨inTime, rxd⟩ := busy k (Nat.lt_succ_self k)
      have byte := byteStep request (.inl rfl) progress fun u low high =>
        quiet u (by simp only [askedAt] at low; omega) (by omega)
      have next := byte.response request inTime (.inl rxd)
      rwa [rxd, if_neg (by decide)] at next

/-- After the token the data bytes go to the buffer one after another. -/
theorem run_data {t n : Nat} (request : Request d .readset 0 c (run Mmcdma.step w s t))
    (progress : Progress w s d n [] t) {i : Nat} (within : i ≤ c.toNat)
    (quiet : ∀ u, t ≤ u → u < t + i * (transferTime d + 1) → (w u).quiet) :
    Request d .readset (BitVec.ofNat 9 i) c
      (run Mmcdma.step w s (t + i * (transferTime d + 1))) ∧
    Progress w s d (n + i)
      ((List.range i).map fun i =>
        (BitVec.ofNat 9 i, received w d (t + i * (transferTime d + 1))))
      (t + i * (transferTime d + 1)) := by
  induction i with
  | zero => simpa using ⟨request, progress⟩
  | succ i ih =>
      rw [Nat.succ_mul, ← Nat.add_assoc] at quiet ⊢
      obtain ⟨asked, before⟩ := ih (by omega) fun u low high => quiet u low (by omega)
      have byte := byteStep asked (.inr rfl) before fun u low high =>
        quiet u (by omega) (by omega)
      have more : BitVec.ofNat 9 i ≠ c := by
        intro same
        have small := c.isLt
        rw [← same, BitVec.toNat_ofNat] at within
        omega
      have next := byte.data asked more
      rw [List.range_succ, List.map_append, BitVec.ofNat_add]
      exact next

/-- `r_j`: byte `j` of a DMA started in clock 0. -/
def dmaByte (w : Nat → Input) (s : Mmcdma) (j : Nat) : BitVec 8 :=
  received w s.spi.divrefReg (askedAt s.spi.divrefReg j)

/-- `z_j`: the FRC-zero flag in the clock byte `j` completes. -/
def dmaZero (w : Nat → Input) (s : Mmcdma) (j : Nat) : Bool :=
  (run Mmcdma.step w s (doneAt s.spi.divrefReg j)).spi.frczeroReg

/-- The clock in which a DMA of `n` bytes ends. -/
def endAt (s : Mmcdma) (n : Nat) : Nat := askedAt s.spi.divrefReg n

/-- Whoever drives the engine, the timeout counter is written from the bus only. -/
theorem frc_unwritten {i : Input} (unwritten : (i.mmcregselSig && i.write) = false) (s : Mmcdma) :
    (s.spiInput i).writes 2 = false := by
  cases done : s.dma.dmadoneReg with
  | true => simp [Mmcdma.spiInput, SpiInput.writes, done, unwritten]
  | false => simp [spiInput_running done, SpiInput.writes]

/-- The flag of byte `k` depends on the value of the timeout counter at the start. -/
theorem dmaZero_eq (start : (w 0).StartsDma c) {k : Nat}
    (quiet : ∀ u, 0 < u → u < doneAt s.spi.divrefReg k → (w u).quiet) :
    dmaZero w s k = decide (s.spi.frcReg.toNat < doneAt s.spi.divrefReg k) := by
  obtain ⟨t, atEnd⟩ : ∃ t, doneAt s.spi.divrefReg k = t + 1 :=
    ⟨doneAt s.spi.divrefReg k - 1, by simp only [doneAt, askedAt]; omega⟩
  rw [dmaZero, atEnd, run_spi, run_frczeroReg]
  · simp only [Nat.lt_succ_iff]
  · intro u before
    refine frc_unwritten ?_ _
    rcases Nat.eq_zero_or_pos u with rfl | positive
    · exact start.mmcregsel
    · exact (quiet u positive (by omega)).mmcregsel

/-- There is a byte that decides: at the latest the one during which the timeout counter runs
out. -/
theorem exists_decisive (start : (w 0).StartsDma c) (quiet : ∀ u, 0 < u → (w u).quiet) :
    ∃ k, (∀ j < k, dmaZero w s j = false ∧ dmaByte w s j = 0xFF) ∧
      (dmaZero w s k = true ∨ dmaByte w s k ≠ 0xFF) := by
  have exhausted : ∃ k, dmaZero w s k = true ∨ dmaByte w s k ≠ 0xFF := by
    refine ⟨s.spi.frcReg.toNat, .inl ?_⟩
    rw [dmaZero_eq start fun u positive _ => quiet u positive, decide_eq_true_eq]
    simp only [doneAt, askedAt]
    have := Nat.le_mul_of_pos_right s.spi.frcReg.toNat
      (show 0 < transferTime s.spi.divrefReg + 1 by omega)
    omega
  refine ⟨Nat.find exhausted, fun j before => ?_, Nat.find_spec exhausted⟩
  have undecided := Nat.find_min exhausted before
  rw [not_or, Bool.not_eq_true, not_not] at undecided
  exact undecided

/-- In a run without bus writes until the end of a DMA of more than `k` bytes, the sequencer has asked for
byte `k`, and gets it, if the bytes before it are busy bytes in time. -/
theorem run_decisive (ready : s.Ready) (start : (w 0).StartsDma c) {k n : Nat}
    (busy : ∀ j < k, dmaZero w s j = false ∧ dmaByte w s j = 0xFF)
    (quiet : ∀ u, 0 < u → u < endAt s n → (w u).quiet) (more : k < n) :
    ByteStep w s s.spi.divrefReg (askedAt s.spi.divrefReg k) k [] ∧
    Request s.spi.divrefReg .resset 0 c (run Mmcdma.step w s (askedAt s.spi.divrefReg k)) := by
  have within : askedAt s.spi.divrefReg k + (transferTime s.spi.divrefReg + 1) ≤ endAt s n := by
    rw [← askedAt_succ]
    exact Nat.add_le_add_left (Nat.mul_le_mul_right _ more) 2
  obtain ⟨request, progress⟩ := run_busy ready start (k := k)
    (fun u positive before => quiet u positive (by omega)) busy
  exact ⟨byteStep request (.inl rfl) progress fun u low high =>
    quiet u (by simp only [askedAt] at low; omega) (by omega), request⟩

/-- The writes of the data bytes, the last of them apart. -/
theorem dataWrites_eq (w : Nat → Input) (s : Mmcdma) (c : BitVec 9) (k : Nat) :
    ((List.range (c.toNat + 1)).map fun i => (BitVec.ofNat 9 i, dmaByte w s (k + i))) =
      ((List.range c.toNat).map fun i => (BitVec.ofNat 9 i,
        received w s.spi.divrefReg (askedAt s.spi.divrefReg k + i * (transferTime s.spi.divrefReg + 1)))) ++
      [(c, received w s.spi.divrefReg
        (askedAt s.spi.divrefReg k + c.toNat * (transferTime s.spi.divrefReg + 1)))] := by
  simp only [List.range_succ, List.map_append, List.map_cons, List.map_nil, dmaByte,
    askedAt_add, BitVec.ofNat_toNat, BitVec.setWidth_eq]

/-- The read DMA: started in clock 0 while sequencer and engine are idle, with no other bus
write until its end, it has the outcome of its bytes, where `k` is the first byte that is not
a busy byte in time. -/
theorem readDma_ends (ready : s.Ready) (start : (w 0).StartsDma c) {k : Nat}
    (busy : ∀ j < k, dmaZero w s j = false ∧ dmaByte w s j = 0xFF)
    (decides : dmaZero w s k = true ∨ dmaByte w s k ≠ 0xFF)
    (quiet : ∀ u, 0 < u → u < endAt s (outcome c (dmaByte w s) (dmaZero w s) k).bytes →
      (w u).quiet) :
    Ends w s s.spi.divrefReg (endAt s (outcome c (dmaByte w s) (dmaZero w s) k).bytes)
      (outcome c (dmaByte w s) (dmaZero w s) k) := by
  cases timeout : dmaZero w s k with
  | true =>
      have o : outcome c (dmaByte w s) (dmaZero w s) k = ⟨k + 1, [], true, false⟩ := if_pos timeout
      rw [o] at quiet ⊢
      obtain ⟨byte, request⟩ := run_decisive ready start busy quiet (Nat.lt_succ_self k)
      rw [endAt, askedAt_succ]
      exact byte.fails request timeout (.inl rfl) (.inl rfl)
  | false =>
      have notBusy : dmaByte w s k ≠ 0xFF := by simpa [timeout] using decides
      by_cases token : dmaByte w s k = 0xFE
      · have o : outcome c (dmaByte w s) (dmaZero w s) k =
            ⟨k + 1 + (c.toNat + 1), (List.range (c.toNat + 1)).map fun i =>
              (BitVec.ofNat 9 i, dmaByte w s (k + 1 + i)), false, false⟩ := by
          simp [outcome, timeout, token]
        rw [o] at quiet ⊢
        obtain ⟨byte, request⟩ := run_decisive ready start busy quiet (show k < k + 1 + (c.toNat + 1) by omega)
        have data := byte.response request timeout (.inr token)
        rw [← askedAt_succ, if_pos (show received w s.spi.divrefReg _ = 0xFE from token)] at data
        have ending : endAt s (k + 1 + (c.toNat + 1)) = askedAt s.spi.divrefReg (k + 1) +
            c.toNat * (transferTime s.spi.divrefReg + 1) + (transferTime s.spi.divrefReg + 1) := by
          rw [endAt, ← Nat.add_assoc, askedAt_succ, askedAt_add]
        rw [ending] at quiet ⊢
        obtain ⟨asked, before⟩ := run_data data.1 data.2 (Nat.le_refl c.toNat)
          fun u low high => quiet u (by simp only [askedAt] at low; omega) (by omega)
        rw [BitVec.ofNat_toNat, BitVec.setWidth_eq] at asked
        have last := (byteStep asked (.inr rfl) before fun u low high =>
          quiet u (by simp only [askedAt] at low; omega) (by omega)).last asked
        rw [dataWrites_eq w s c (k + 1)]
        exact last
      · have o : outcome c (dmaByte w s) (dmaZero w s) k = ⟨k + 1, [], false, true⟩ := by
          rw [outcome, timeout, if_neg Bool.false_ne_true, if_pos token]
        rw [o] at quiet ⊢
        obtain ⟨byte, request⟩ := run_decisive ready start busy quiet (Nat.lt_succ_self k)
        rw [endAt, askedAt_succ]
        exact byte.fails request timeout (.inr notBusy) (.inr token)

end

/-- A bus that starts a DMA of two bytes and then waits, and a card that sends the token and
keeps the line high. -/
def twoBytes (u : Nat) : Input where
  chipselect := u == 0
  address := 4
  write := u == 0
  writedata := 0x401
  mmcSdi := u != 18
  mmcCd := false
  mmcWp := true

/-- The interface at the highest clock rate, with 1000 clocks until the timeout. -/
def fastInterface : Mmcdma :=
  { Mmcdma.powerOn with spi := { Mmcdma.powerOn.spi with divrefReg := 0, frcReg := 1000 } }

/-- Three bytes are clocked, two written, and the DMA ends after 59 clocks. -/
theorem readDma_ends_two_bytes :
    Ends twoBytes fastInterface 0 59 ⟨3, [(0, 0xFF), (1, 0xFF)], false, false⟩ := by
  have start : (twoBytes 0).StartsDma 1 := ⟨by decide, rfl, by decide, by decide, by decide⟩
  have quiet : ∀ u, 0 < u → (twoBytes u).quiet := fun u positive => by
    simp [Input.quiet, twoBytes, show u ≠ 0 by omega]
  have inTime : dmaZero twoBytes fastInterface 0 = false := by
    rw [dmaZero_eq start fun u positive _ => quiet u positive]
    decide
  have o : outcome 1 (dmaByte twoBytes fastInterface) (dmaZero twoBytes fastInterface) 0 =
      ⟨3, [(0, 0xFF), (1, 0xFF)], false, false⟩ := by
    rw [outcome, inTime]
    decide
  have ends := readDma_ends (s := fastInterface) ⟨⟨rfl, rfl⟩, rfl, rfl, rfl⟩ start (k := 0)
    (fun j before => absurd before (Nat.not_lt_zero j)) (.inr (by decide))
    fun u positive _ => quiet u positive
  rw [o] at ends
  exact ends

end Cineraria.Mmc
