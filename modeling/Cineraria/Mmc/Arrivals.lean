import Cineraria.Mmc.Bus
import Cineraria.Mmc.Card
import Cineraria.Mmc.DoneFlag

/-!
# The writes that reach the component

The component on the bus with a record of the register writes in the order of their arrival, and what each
kind of access does to a component that no DMA keeps busy. The engine may be busy: whether a write finds it
idle is what the record is for.
-/

namespace Cineraria.Mmc

open RegisterIo

/-- A register write with the registers in its clock and after it. -/
structure Arrival where
  reg : Nat
  data : BitVec 32
  before : Mmcdma
  after : Mmcdma

/-- The component with the record of its writes, the latest first. -/
def recordedBus (pins : Pins) : Device (Mmcdma × List Arrival) where
  read reg s x s' := (busDevice pins).read reg s.1 x s'.1 ∧ s'.2 = s.2
  write reg data s s' := ∃ s₀ i, Idles pins s.1 s₀ ∧ i.Writes pins reg data ∧
    s' = (s₀.step i, ⟨reg, data, s₀, s₀.step i⟩ :: s.2)

/-- The record is no part of the component. -/
theorem recordedBus_forgets (pins : Pins) : Forgets (recordedBus pins) (busDevice pins) Prod.fst where
  read access := access.1
  write access := by
    obtain ⟨s₀, i, idles, writes, same⟩ := access
    exact ⟨s₀, i, idles, writes, congrArg Prod.fst same⟩
  readBack access := ⟨(_, _), rfl, access, rfl⟩
  writeBack access := by
    obtain ⟨s₀, i, idles, writes, rfl⟩ := access
    exact ⟨_, rfl, s₀, i, idles, writes, rfl⟩

/-- Every run of the component has a record. -/
theorem runs_iff_record {pins : Pins} {α : Type} {m : DriverM α} {v v' : Vars} {s s' : Mmcdma} {a : α} :
    Runs (busDevice pins) m v s a v' s' ↔ ∃ log, Runs (recordedBus pins) m v (s, []) a v' (s', log) := by
  have same : Exec (busDevice pins) (m v) s (a, v') s' ↔
      ∃ t : Mmcdma × List Arrival, t.1 = s' ∧ Exec (recordedBus pins) (m v) (s, []) (a, v') t :=
    (recordedBus_forgets pins).exec_iff (t := (s, []))
  unfold Runs
  rw [same]
  constructor
  · rintro ⟨⟨_, log⟩, rfl, exec⟩
    exact ⟨log, exec⟩
  · rintro ⟨log, exec⟩
    exact ⟨(s', log), rfl, exec⟩

/-! ## Clocks without a write -/

/-- The bus owns the engine: no DMA runs or has been asked for. -/
structure Mmcdma.Owned (s : Mmcdma) : Prop where
  consistent : s.Consistent
  state : s.dma.state = .idle
  dmastart : s.dma.dmastartReg = false

section
variable {pins : Pins} {s s' : Mmcdma} {i : Input}

theorem Mmcdma.Owned.done (owned : s.Owned) : s.dma.dmadoneReg = true := by
  rw [owned.consistent.dmadone, owned.state]
  rfl

theorem Mmcdma.Ready.owned (ready : s.Ready) : s.Owned := ⟨ready.consistent, ready.state, ready.dmastart⟩

theorem Mmcdma.Owned.ready (owned : s.Owned) (engine : s.spi.state = .idle) : s.Ready :=
  ⟨owned.consistent, owned.state, owned.dmastart, engine⟩

/-- A clock that does not ask for a DMA leaves the bus the engine. -/
theorem Mmcdma.Owned.step (owned : s.Owned) (unasked : (i.dmaregselSig && i.write) = false) :
    (s.step i).Owned where
  consistent := owned.consistent.step i
  state := by simp only [Mmcdma.step, Dma.step, Dma.sequence, owned.state, owned.dmastart, Bool.false_eq_true, if_false]
  dmastart := by
    simp only [Mmcdma.step, Dma.step, Dma.busStep, unasked, owned.dmastart, Bool.false_and, if_true]

theorem Input.quiet.dmaregsel (quiet : i.quiet) : (i.dmaregselSig && i.write) = false := by
  unfold Input.quiet at quiet
  rw [Input.dmaregselSig, Bool.and_right_comm, quiet, Bool.false_and]

theorem Mmcdma.Owned.quiet (owned : s.Owned) (quiet : i.quiet) : (s.step i).Owned :=
  owned.step quiet.dmaregsel

theorem Mmcdma.Ready.quiet (ready : s.Ready) (quiet : i.quiet) : (s.step i).Ready := by
  have engine := idle_clock ready.owned.done ready.state ready.engine quiet.mmcregsel
  exact (ready.owned.quiet quiet).ready engine.1

theorem Input.Reads.quiet {reg : Nat} (reads : i.Reads pins reg) : i.quiet := by
  unfold Input.quiet
  rw [reads.write, Bool.and_false]

theorem quiet_of_unselected (unselected : i.chipselect = false) : i.quiet := by
  unfold Input.quiet
  rw [unselected, Bool.false_and]

/-- What the clocks without a write keep, the clocks without an access keep. -/
theorem idles_keeps {P : Mmcdma → Prop} (kept : ∀ {i s}, P s → i.quiet → P (s.step i))
    (idles : Idles pins s s') (holds : P s) : P s' := by
  induction idles with
  | refl s => exact holds
  | step i _ unselected _ ih => exact ih (kept holds (quiet_of_unselected unselected))

/-- What the clocks without a write keep, a read keeps. -/
theorem read_keeps {P : Mmcdma → Prop} (kept : ∀ {i s}, P s → i.quiet → P (s.step i)) {reg : Nat}
    {x : BitVec 32} (read : (busDevice pins).read reg s x s') (holds : P s) : P s' := by
  obtain ⟨s₀, i₁, i₂, i₃, idles, first, second, third, -, rfl⟩ := read
  have start := idles_keeps kept idles holds
  exact kept (kept (kept start first.quiet) second.quiet) third.quiet

/-! ## The status of the engine -/

/-- A read of the status register that shows the end of a transfer leaves an idle engine. -/
theorem read_exit {x : BitVec 32} (read : (busDevice pins).read mmcregStatus s x s')
    (exit : x.getLsbD 9 = true) (owned : s.Owned) : s'.Ready := by
  obtain ⟨s₀, i₁, i₂, i₃, idles, first, second, third, rfl, rfl⟩ := read
  have start := (idles_keeps Mmcdma.Owned.quiet idles owned).quiet first.quiet
  rw [readdara_status second, readdata_exit, start.consistent.exit] at exit
  have ready := start.ready (eq_of_beq exit)
  exact (ready.quiet second.quiet).quiet third.quiet

/-! ## A DMA -/

/-- A DMA has been asked for in the clock before. -/
structure Mmcdma.Asked (s : Mmcdma) : Prop where
  consistent : s.Consistent
  state : s.dma.state = .idle
  dmastart : s.dma.dmastartReg = true

/-- A DMA runs. -/
structure Mmcdma.Fetching (s : Mmcdma) : Prop where
  consistent : s.Consistent
  state : s.dma.state ≠ .idle
  mmcifwr : s.dma.state = .reswait ∨ s.dma.state = .readwait → s.dma.mmcifwrReg = false

theorem Mmcdma.Asked.step (asked : s.Asked) (i : Input) : (s.step i).Fetching := by
  have state : (s.step i).dma.state = .resset := by
    simp only [Mmcdma.step, Dma.step, Dma.sequence, asked.state, asked.dmastart, if_true]
  refine ⟨asked.consistent.step i, ?_, ?_⟩
  · rw [state]
    exact DmaState.noConfusion
  · rw [state]
    rintro (wrong | wrong)
    · cases wrong
    · cases wrong

/-- The sequencer waits for the end of a transfer. -/
def Mmcdma.Waiting (s : Mmcdma) : Prop := s.dma.state = .reswait ∨ s.dma.state = .readwait

/-- It waits on, or goes to a state in which nothing is waited for. -/
theorem Mmcdma.Waiting.step (waiting : s.Waiting) (i : Input) :
    s.mmcifexitSig i = false ∧ (s.step i).dma.state = s.dma.state ∧
        (s.step i).dma.mmcifwrReg = s.dma.mmcifwrReg ∨
      s.mmcifexitSig i = true ∧ ¬ (s.step i).Waiting := by
  unfold Mmcdma.Waiting
  rcases waiting with st | st
  all_goals
    cases exit : s.mmcifexitSig i with
    | false =>
        left
        simp only [Mmcdma.step, Dma.step, Dma.sequence, st, exit, Bool.false_eq_true, if_false, and_self]
    | true =>
        right
        refine ⟨rfl, ?_⟩
        simp only [Mmcdma.step, Dma.step, Dma.sequence, st, exit, if_true]
        split_ifs
        all_goals simp only [or_self, not_false_eq_true]

/-- The engine is idle in the clock in which a wait ends, and nothing is written to it. -/
theorem Mmcdma.Fetching.engine (fetching : s.Fetching) (running : s.dma.dmadoneReg = false) (waiting : s.Waiting)
    (exit : s.mmcifexitSig i = true) : (s.step i).spi.state = .idle := by
  rw [exitSig_running running, fetching.consistent.exit] at exit
  have unwritten : (s.spiInput i).write = false := by
    rw [spiInput_running running]
    exact fetching.mmcifwr waiting
  exact (spi_step_idle (eq_of_beq exit) unwritten).1

/-- A DMA goes on, or ends with an idle engine. -/
theorem Mmcdma.Fetching.quiet (fetching : s.Fetching) (quiet : i.quiet) :
    (s.step i).Fetching ∨ (s.step i).Ready := by
  have consistent := fetching.consistent.step i
  have running : s.dma.dmadoneReg = false := by
    rw [fetching.consistent.dmadone]
    exact beq_eq_false_iff_ne.mpr fetching.state
  have dmastart : (s.step i).dma.dmastartReg = false := by
    simp only [Mmcdma.step, Dma.step, busStep_quiet quiet, running, Bool.and_false]
  have goes (busy : (s.step i).dma.state ≠ .idle)
      (mmcifwr : (s.step i).Waiting → (s.step i).dma.mmcifwrReg = false) : (s.step i).Fetching :=
    ⟨consistent, busy, mmcifwr⟩
  have waits (waiting : s.Waiting) : (s.step i).Fetching ∨ (s.step i).Ready := by
    rcases waiting.step i with ⟨-, same, kept⟩ | ⟨exit, left⟩
    · left
      apply goes
      · rw [same]
        exact fetching.state
      · intro _
        rw [kept]
        exact fetching.mmcifwr waiting
    · by_cases idle : (s.step i).dma.state = .idle
      · exact .inr ⟨consistent, idle, dmastart, fetching.engine running waiting exit⟩
      · exact .inl (goes idle fun still => absurd still left)
  cases st : s.dma.state with
  | idle => exact absurd st fetching.state
  | reswait => exact waits (.inl st)
  | readwait => exact waits (.inr st)
  | resset | readset =>
      left
      apply goes
      · simp only [Mmcdma.step, Dma.step, Dma.sequence, st]
        exact DmaState.noConfusion
      · intro _
        simp only [Mmcdma.step, Dma.step, Dma.sequence, st]

/-- A DMA has been asked for, and may have ended already. -/
def Mmcdma.Started (s : Mmcdma) : Prop := s.Asked ∨ s.Fetching ∨ s.Ready

/-- The request is heard in the first clock. -/
theorem Mmcdma.Started.step (started : s.Started) (quiet : i.quiet) :
    (s.step i).Fetching ∨ (s.step i).Ready := by
  rcases started with asked | fetching | ready
  · exact .inl (asked.step i)
  · exact fetching.quiet quiet
  · exact .inr (ready.quiet quiet)

theorem Mmcdma.Started.quiet (started : s.Started) (quiet : i.quiet) : (s.step i).Started :=
  .inr (started.step quiet)

/-- A read of the status register of the DMA delivers the status word of the clock before. -/
theorem readdara_dmastatus (reads : i.Reads pins mmcregDmastatus) :
    (s.step i).readdaraReg = s.dma.read0Sig := by
  have memsel : i.memselSig = false := by
    rw [Input.memselSig, reads.chipselect, reads.address]
    rfl
  have mmcregsel : i.mmcregselSig = false := by
    rw [Input.mmcregselSig, reads.chipselect, reads.address]
    rfl
  have dmaregsel : i.dmaregselSig = true := by
    rw [Input.dmaregselSig, reads.chipselect, reads.address]
    rfl
  rw [Mmcdma.step, memsel, mmcregsel, dmaregsel, if_neg Bool.false_ne_true, if_neg Bool.false_ne_true,
    if_pos rfl]

/-- A read of the status register that shows the end of a DMA leaves sequencer and engine idle. -/
theorem read_dmadone {x : BitVec 32} (read : (busDevice pins).read mmcregDmastatus s x s')
    (done : x.getLsbD 14 = true) (started : s.Started) : s'.Ready := by
  obtain ⟨s₀, i₁, i₂, i₃, idles, first, second, third, rfl, rfl⟩ := read
  have start := (idles_keeps Mmcdma.Started.quiet idles started).step first.quiet
  rw [readdara_dmastatus second, read0Sig_dmadone] at done
  rcases start with fetching | ready
  · rw [fetching.consistent.dmadone] at done
    exact absurd (eq_of_beq done) fetching.state
  · exact (ready.quiet second.quiet).quiet third.quiet

/-! ## Register writes -/

/-- A write of the functions that select the card or set the clock. -/
def Arrival.Controls (a : Arrival) : Prop :=
  a.reg = mmcregStatus ∧ a.data.getLsbD 9 = true ∨ a.reg = mmcregClkdiv

/-- The write comes to an idle engine and does what it is for: the select line has the level that was
written, or the divider the value. -/
structure Arrival.Lands (a : Arrival) : Prop where
  idle : a.before.spi.state = .idle
  ncs : a.reg = mmcregStatus → a.after.spi.ncsReg = a.data.getLsbD 8
  divref : a.reg = mmcregClkdiv → a.after.spi.divrefReg = a.data.setWidth 8

/-- The write starts the transfer of a byte. -/
def Arrival.Sends (b : BitVec 8) (a : Arrival) : Prop :=
  a.reg = mmcregStatus ∧ a.data.getLsbD 9 = false ∧ a.data.setWidth 8 = b

section
variable {reg : Nat} {data : BitVec 32}

theorem Input.Writes.mmcregsel (writes : i.Writes pins reg data) (engine : reg < 4) :
    i.mmcregselSig = true ∧ i.address.extractLsb' 0 2 = BitVec.ofNat 2 reg := by
  have register : ∀ r < 4, (BitVec.ofNat 8 r).extractLsb' 2 6 = 0 ∧
      (BitVec.ofNat 8 r).extractLsb' 0 2 = BitVec.ofNat 2 r := by
    decide
  obtain ⟨high, low⟩ := register reg engine
  rw [Input.mmcregselSig, writes.chipselect, writes.address, high]
  exact ⟨rfl, low⟩

theorem Input.Writes.dmaregsel (writes : i.Writes pins reg data) (engine : reg < 4) :
    (i.dmaregselSig && i.write) = false := by
  have selected := (writes.mmcregsel engine).1
  rw [Input.mmcregselSig, Bool.and_eq_true, beq_iff_eq] at selected
  rw [Input.dmaregselSig, selected.2, selected.1]
  rfl

/-- The engine is given the write. -/
theorem Mmcdma.Owned.writes (owned : s.Owned) (writes : i.Writes pins reg data) (engine : reg < 4)
    (a : BitVec 2) :
    (s.spiInput i).writes a = (BitVec.ofNat 2 reg == a) ∧ (s.spiInput i).writedata = data := by
  obtain ⟨selected, low⟩ := writes.mmcregsel engine
  rw [spiInput_done owned.done, SpiInput.writes, selected, writes.write, low]
  exact ⟨rfl, writes.writedata⟩

/-- A write to the engine leaves it to the bus. -/
theorem Mmcdma.Owned.written (owned : s.Owned) (writes : i.Writes pins reg data) (engine : reg < 4) :
    (s.step i).Owned :=
  owned.step (writes.dmaregsel engine)

/-- A write to an idle engine that does not start a transfer lands. -/
theorem Mmcdma.Ready.control (ready : s.Ready) (writes : i.Writes pins reg data) (engine : reg < 4)
    (control : reg = mmcregStatus → data.getLsbD 9 = true) :
    (s.step i).Ready ∧ Arrival.Lands ⟨reg, data, s, s.step i⟩ := by
  have given := ready.owned.writes writes engine
  have word : (s.spiInput i).writedata = data := (given 0).2
  have status : (s.spiInput i).writes 0 = true → reg = mmcregStatus := by
    intro written
    rw [(given 0).1] at written
    have same : ∀ r < 4, (BitVec.ofNat 2 r == 0) = true → r = mmcregStatus := by decide
    exact same reg engine written
  have idle : (s.step i).spi.state = .idle := by
    simp only [Mmcdma.step, Spi.step, Spi.engine, ready.engine]
    by_cases written : (s.spiInput i).writes 0 = true
    · rw [if_pos written, word, control (status written), if_neg (Ne.symm Bool.false_ne_true)]
      exact ready.engine
    · rw [if_neg written]
      split
      · rfl
      · exact ready.engine
  refine ⟨(ready.owned.written writes engine).ready idle, ready.engine, ?_, ?_⟩
  · intro selects
    have written : (s.spiInput i).writes 0 = true := by
      have register : reg = mmcregStatus := selects
      rw [(given 0).1, register]
      rfl
    change (s.spi.step (s.spiInput i)).ncsReg = _
    rw [step_ncsReg, if_pos ⟨ready.engine, written⟩, word]
  · intro divides
    have register : reg = mmcregClkdiv := divides
    have other : (s.spiInput i).writes 0 = false := by
      rw [(given 0).1, register]
      rfl
    have written : (s.spiInput i).writes 1 = true := by
      rw [(given 1).1, register]
      rfl
    change (s.spi.step (s.spiInput i)).divrefReg = _
    simp only [Spi.step, Spi.engine, ready.engine, other, written, Bool.false_eq_true, if_false, if_true, word]

/-- The write that starts a DMA. -/
theorem Mmcdma.Ready.asked (ready : s.Ready) (writes : i.Writes pins mmcregDmastatus data)
    (start : data.getLsbD 10 = true) : (s.step i).Asked := by
  have dmaregsel : (i.dmaregselSig && i.write && i.address.extractLsb' 0 2 == 0) = true := by
    rw [Input.dmaregselSig, writes.chipselect, writes.address, writes.write]
    rfl
  refine ⟨ready.consistent.step i, ?_, ?_⟩
  · simp only [Mmcdma.step, Dma.step, Dma.sequence, ready.state, ready.dmastart, Bool.false_eq_true, if_false]
  · simp only [Mmcdma.step, Dma.step, Dma.busStep, ready.dmastart, dmaregsel, writes.writedata, start,
      Bool.and_self, if_true]

end

end

end Cineraria.Mmc
