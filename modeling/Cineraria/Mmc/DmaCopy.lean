import Cineraria.Mmc.BufferCopy
import Cineraria.Mmc.ControlWrites

/-!
# The buffer behind `mmc_spi_DmaRecv`

The function on the component: when it returns 0 the DMA is over, and the copy loops read the memory that the DMA
has written. They deliver the bytes of the memory for an even number of words only (`dmaRecv_delivers_iff`): for
an odd one two bytes are stored that come from no word, and to an unaligned destination the others follow them.
-/

namespace Cineraria.Mmc

open RegisterIo Clocked Bytes

/-- A byte of the buffer memory. -/
def Mmcdma.byte (s : Mmcdma) (k : Nat) : BitVec 8 := s.mem (BitVec.ofNat 9 k)

/-- A word of the buffer memory, as `U_mem` shows it. -/
def Mmcdma.memWord (s : Mmcdma) (n : Nat) : BitVec 32 := le32 s.byte n

/-- What `mmc_spi_DmaRecv` promises of what it stores when it returns 0: as many bytes as were asked for, each
from a word that was read, and byte `i` from word `i / 4`. -/
structure Delivers (wc : BitVec 8) (s : Mmcdma) (stored : List (Option (BitVec 8))) : Prop where
  length : stored.length = cycleOf wc
  byte : ∀ i < cycleOf wc, stored[i]? = some (some ((s.memWord (i / 4) >>> (8 * (i % 4))).setWidth 8))

theorem delivers_iff (wc : BitVec 8) (s : Mmcdma) (stored : List (Option (BitVec 8))) :
    Delivers wc s stored ↔ stored = bytesFrom s.byte 0 (cycleOf wc) := by
  have expected : ∀ i < cycleOf wc, (bytesFrom s.byte 0 (cycleOf wc))[i]? =
      some (some ((s.memWord (i / 4) >>> (8 * (i % 4))).setWidth 8)) := by
    intro i within
    rw [Mmcdma.memWord, le32_byte s.byte (i / 4) (Nat.mod_lt i (by decide)), Nat.div_add_mod]
    simp [bytesFrom, within]
  constructor
  · rintro ⟨length, byte⟩
    apply List.ext_getElem?
    intro i
    rcases Nat.lt_or_ge i (cycleOf wc) with within | beyond
    · rw [byte i within, expected i within]
    · rw [List.getElem?_eq_none (by omega), List.getElem?_eq_none (by rwa [bytesFrom_length])]
  · rintro rfl
    exact ⟨bytesFrom_length _ _ _, expected⟩

/-! ## The memory on the bus -/

section
variable {pins : Pins} {s s' : Mmcdma} {i : Input}

/-- Nothing is written to the memory while the sequencer is idle. -/
theorem mem_step (state : s.dma.state = .idle) (i : Input) : (s.step i).mem = s.mem := by
  have idle : s.dmamemwrSig i = false := by
    rw [Mmcdma.dmamemwrSig, state]
    rfl
  funext a
  simp only [Mmcdma.step, idle, Bool.false_eq_true, false_and, if_false]

/-- The first clock of a read takes the address, and the second the word. -/
theorem readdara_readbuff {i₁ i₂ : Input} {n : Nat} (within : n < 128) (first : i₁.Reads pins (mmcregReadbuff + n))
    (second : i₂.Reads pins (mmcregReadbuff + n)) :
    ((s.step i₁).step i₂).readdaraReg = (s.step i₁).memWord n := by
  have memsel : i₂.memselSig = true := by
    have above : ∀ n < 128, (BitVec.ofNat 8 (128 + n)).getLsbD 7 = true := by decide
    rw [Input.memselSig, second.chipselect, second.address]
    exact above n within
  have address : (s.step i₁).memrdaddrReg.toNat = n := by
    have low : ∀ n < 128, ((BitVec.ofNat 8 (128 + n)).setWidth 7).toNat = n := by decide
    rw [Mmcdma.step, first.address]
    exact low n within
  rw [Mmcdma.step, memsel, if_pos rfl, Mmcdma.memrddataSig, address]
  rfl

/-- The component shows its memory while sequencer and engine are idle. -/
theorem busDevice_showsBuffer (pins : Pins) : ShowsBuffer (busDevice pins) Mmcdma.byte Mmcdma.Ready where
  read := by
    intro n s x s' within read ready
    have kept : ∀ {i : Input} {t : Mmcdma}, t.Ready ∧ t.mem = s.mem → i.quiet →
        (t.step i).Ready ∧ (t.step i).mem = s.mem := by
      rintro i t ⟨ready, same⟩ quiet
      exact ⟨ready.quiet quiet, (mem_step ready.state i).trans same⟩
    obtain ⟨ready', same⟩ := read_keeps (P := fun t => t.Ready ∧ t.mem = s.mem) kept read ⟨ready, rfl⟩
    obtain ⟨s₀, i₁, i₂, i₃, idles, first, second, third, rfl, -⟩ := read
    have waited := idles_keeps (P := fun t => t.Ready ∧ t.mem = s.mem) kept idles ⟨ready, rfl⟩
    have before := kept waited first.quiet
    refine ⟨?_, ?_, ready'⟩
    · rw [readdara_readbuff within first second, Mmcdma.memWord]
      unfold Mmcdma.byte
      rw [before.2]
    · unfold Mmcdma.byte
      rw [same]

theorem recordedBus_showsBuffer (pins : Pins) :
    ShowsBuffer (recordedBus pins) (fun s => s.1.byte) fun s => s.1.Ready where
  read within read ready := (busDevice_showsBuffer pins).read within read.1 ready

end

/-! ## The function -/

section
variable {pins : Pins} {wc : BitVec 8} {aligned : Bool} {stored : List (Option (BitVec 8))} {v v' : Vars}

/-- When the function returns 0 it has copied the memory after the end of the DMA. -/
theorem dmaRecv_copies {s s' : Mmcdma × List Arrival} (isOpen : Open s)
    (ran : Runs (recordedBus pins) (mmcSpiDmaRecv wc aligned) v s (0, stored) v' s') :
    ∃ v₁ s₁, Quiet s₁ ∧ Runs (recordedBus pins) (copyBuffer aligned (cycleOf wc)) v₁ s₁ stored v' s' := by
  have start : (mmcDmastart ||| BitVec.ofNat 32 (cycleOf wc - 1)).getLsbD 10 = true := by
    rw [BitVec.getLsbD_or, Bool.or_eq_true]
    left
    decide
  obtain ⟨_, _, _, exit, ran⟩ := runs_bind.mp ran
  have quiet := waitFor_exit.runs exit isOpen
  obtain ⟨_, _, _, timer, ran⟩ := runs_bind.mp ran
  have quiet := (mmcSpiSetTimer_quiet 100).runs timer quiet
  obtain ⟨_, _, _, asks, ran⟩ := runs_bind.mp ran
  have started := (iowr_dmastart start).runs asks quiet
  obtain ⟨_, _, _, ends, ran⟩ := runs_bind.mp ran
  have quiet := waitFor_dmadone.runs ends started
  obtain ⟨res, v₁, s₁, status, ran⟩ := runs_bind.mp ran
  have quiet := (iord_quiet mmcregDmastatus).runs status quiet
  split at ran
  · obtain ⟨wrong, -, -⟩ := runs_pure.mp ran
    cases wrong
  · obtain ⟨stored', _, _, copies, ended⟩ := runs_bind.mp ran
    obtain ⟨same, rfl, rfl⟩ := runs_pure.mp ended
    cases same
    exact ⟨v₁, s₁, quiet, copies⟩

/-- What is stored by a call that returns 0, for every number of words. -/
theorem dmaRecv_stored {s s' : Mmcdma} (owned : s.Owned)
    (ran : Runs (busDevice pins) (mmcSpiDmaRecv wc aligned) v s (0, stored) v' s') :
    stored = copiedBytes s'.byte aligned (cycleOf wc) := by
  obtain ⟨log, recorded⟩ := runs_iff_record.mp ran
  have isOpen : Open (s, []) := ⟨owned, trivial⟩
  obtain ⟨v₁, s₁, quiet, copies⟩ := dmaRecv_copies isOpen recorded
  have stores := copyBuffer_stored (recordedBus_showsBuffer pins) quiet.ready (cycleOf_le wc) copies
  have same : s'.byte = s₁.1.byte := stores.byte
  rw [stores.stored, same]

end

/-! ## A bus that waits for the DMA -/

/-- A read that comes `n` clocks after the last access when it looks for the end of a DMA. `sdi` is on the
card's data line. -/
def patientRead (pins : Pins) (sdi : Nat → Bool) (n reg : Nat) (s : Mmcdma) : Option (BitVec 32 × Mmcdma) :=
  let s₀ := if reg = mmcregDmastatus then run Mmcdma.step (waits pins sdi) s n else s
  let i := readClock pins reg
  some (((s₀.step i).step i).readdaraReg, ((s₀.step i).step i).step i)

def promptWrite (pins : Pins) (reg : Nat) (data : BitVec 32) (s : Mmcdma) : Option Mmcdma :=
  some (s.step (writeClock pins reg data))

theorem patient_simulates (pins : Pins) (sdi : Nat → Bool) (n : Nat) :
    Simulates (busDevice pins) (patientRead pins sdi n) (promptWrite pins) Eq where
  read := by
    rintro reg s x s' t read rfl
    obtain ⟨rfl, rfl⟩ := Prod.mk.inj (Option.some.inj read)
    have reads := readClock_reads pins reg
    refine ⟨_, ⟨_, _, _, _, ?_, reads, reads, reads, rfl, rfl⟩, rfl⟩
    split
    · exact idles_waits sdi s n
    · exact .refl s
  write := by
    rintro reg data s s' t write rfl
    obtain rfl := Option.some.inj write
    exact ⟨_, ⟨_, _, .refl s, writeClock_writes pins reg data, rfl⟩, rfl⟩

/-- The component with the clock of the transfers at its highest rate. -/
def fastReset : Mmcdma := Mmcdma.powerOn.step (writeClock writablePins mmcregClkdiv 0)

theorem fastReset_owned : fastReset.Owned := by
  have ready : Mmcdma.powerOn.Ready := ⟨Mmcdma.powerOn_isReset.consistent, rfl, rfl, rfl⟩
  have writes := writeClock_writes writablePins mmcregClkdiv 0
  exact (ready.control writes (by decide) fun wrong => absurd wrong (by decide)).1.owned

/-- A call in which the card sends the token and then keeps the line high. -/
theorem fastReset_runs (wc : BitVec 8) (aligned : Bool) {r : Nat × List (Option (BitVec 8))}
    (result : ((mmcSpiDmaRecv wc aligned .initial).attempt (patientRead writablePins (· != 17) 95)
      (promptWrite writablePins) fastReset).map (fun r => r.1.1) = some r) :
    ∃ v s, Runs (busDevice writablePins) (mmcSpiDmaRecv wc aligned) .initial fastReset r v s := by
  obtain ⟨⟨⟨_, v⟩, s⟩, attempt, rfl⟩ := Option.map_eq_some_iff.mp result
  obtain ⟨_, exec, rfl⟩ := (patient_simulates writablePins (· != 17) 95).exec attempt rfl
  exact ⟨v, s, exec⟩

/-! ## What is delivered -/

/-- A call that returns 0 has delivered the bytes of the memory if and only if the number of words is even. -/
theorem dmaRecv_delivers_iff {pins : Pins} {s s' : Mmcdma} (owned : s.Owned) {wc : BitVec 8} {aligned : Bool}
    {stored : List (Option (BitVec 8))} {v v' : Vars}
    (ran : Runs (busDevice pins) (mmcSpiDmaRecv wc aligned) v s (0, stored) v' s') :
    Delivers wc s' stored ↔ wc.toNat % 2 = 0 := by
  rw [delivers_iff, dmaRecv_stored owned ran, copiedBytes_eq_iff, cycleOf_whole_iff]

theorem dmaRecv_delivers_two : ∃ stored v s,
    Runs (busDevice writablePins) (mmcSpiDmaRecv 2 false) .initial fastReset (0, stored) v s ∧ Delivers 2 s stored := by
  obtain ⟨v, s, ran⟩ : ∃ v s, Runs (busDevice writablePins) (mmcSpiDmaRecv 2 false) .initial fastReset
      (0, List.replicate 4 (some 0xff)) v s :=
    fastReset_runs 2 false (by decide +kernel)
  exact ⟨_, v, s, ran, (dmaRecv_delivers_iff fastReset_owned ran).mpr rfl⟩

/-- One word of two bytes: both bytes are stored before any word has been read. -/
theorem dmaRecv_one_word : Mmcdma.powerOn.IsReset ∧ fastReset.Owned ∧ ∃ v s,
    Runs (busDevice writablePins) (mmcSpiDmaRecv 1 true) .initial fastReset (0, [none, none]) v s ∧
      ¬ Delivers 1 s [none, none] := by
  obtain ⟨v, s, ran⟩ : ∃ v s, Runs (busDevice writablePins) (mmcSpiDmaRecv 1 true) .initial fastReset
      (0, [none, none]) v s :=
    fastReset_runs 1 true (by decide +kernel)
  refine ⟨Mmcdma.powerOn_isReset, fastReset_owned, v, s, ran, ?_⟩
  intro delivers
  have first := delivers.byte 0 (cycleOf_pos 1)
  cases first

end Cineraria.Mmc
