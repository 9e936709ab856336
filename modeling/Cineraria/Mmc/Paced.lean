import Cineraria.Mmc.Arrivals

/-!
# A driver that reads late and writes at once

A model of the interface for a CPU that comes to read only when everything that was under way has ended, and that
writes in the very next clock. The card sends one byte in every transfer. The component can do whatever the model
does (`paced_simulates`), so that a run of the driver over the model is one over the component.
-/

namespace Cineraria.Mmc

open RegisterIo Clocked ShiftRegister

/-- The interface: `clocks` is the number of clocks since the write that started the transfer under way,
`cdalter` the change flag of the socket, and `missed` says that a write has not changed the select line. -/
structure Paced where
  pos : Nat
  rxd : BitVec 8
  ncs : Bool
  cdalter : Bool
  clocks : Nat
  missed : Bool

namespace Paced

/-- Nothing has been accessed. The card has been seen. -/
def initial : Paced := ⟨0, 0, true, true, 0, false⟩

/-- The register 0. -/
def status (pins : Pins) (p : Paced) : BitVec (16 + 1 + 1 + 1 + 1 + 1 + 1 + 1 + 1 + 8) :=
  0#16 ++ 0#1 ++ 0#1 ++ BitVec.ofBool p.cdalter ++ 1#1 ++ BitVec.ofBool pins.mmcWp ++ BitVec.ofBool pins.mmcCd ++ 1#1 ++
    BitVec.ofBool p.ncs ++ p.rxd

/-- The transfer under way, if any, has ended. -/
def finish (stream : Nat → BitVec 8) (p : Paced) : Paced :=
  if p.clocks = 0 then p else { p with pos := p.pos + 1, rxd := stream p.pos, clocks := 0 }

/-- A register read. The timer has run out. -/
def read (stream : Nat → BitVec 8) (pins : Pins) (reg : Nat) (p : Paced) : Option (BitVec 32 × Paced) :=
  if reg = mmcregStatus then some ((p.finish stream).status pins, p.finish stream)
  else if reg = mmcregTimer ∧ p.clocks = 0 then some (0, p)
  else none

/-- A register write: while a transfer is under way only one that could select the card, which is ignored. -/
def write (reg : Nat) (data : BitVec 32) (p : Paced) : Option Paced :=
  if p.clocks = 0 then
    if reg = mmcregStatus ∧ data.getLsbD 15 = false ∧ data.getLsbD 13 = false then
      some { p with ncs := data.getLsbD 8, cdalter := false, clocks := if data.getLsbD 9 then 0 else 1 }
    else if reg = mmcregClkdiv ∨ reg = mmcregTimer then some p
    else none
  else if p.clocks = 1 ∧ reg = mmcregStatus ∧ data.getLsbD 9 = true ∧ data.getLsbD 13 = false then
    some { p with cdalter := false, clocks := 2, missed := p.missed || p.ncs != data.getLsbD 8 }
  else none

end Paced

/-! ## The component between two accesses -/

/-- The engine is `k` clocks into a transfer. -/
def Sending (k : Nat) (s : Spi) : Prop :=
  ∃ w s₀, s₀.state = .idle ∧ (w 0).starts = true ∧ s = run Spi.step w s₀ k

/-- The registers that tell the driver something, whatever the engine does. -/
structure Mmcdma.Rests (pins : Pins) (ncs cdalter : Bool) (s : Mmcdma) : Prop where
  owned : s.Owned
  settled : s.Settled pins
  cdalter : s.spi.cdalterReg = cdalter
  irqena : s.spi.irqenaReg = false
  ncs : s.spi.ncsReg = ncs

/-- The component with an idle engine that has received a byte. -/
structure Mmcdma.Stands (pins : Pins) (ncs cdalter : Bool) (rxd : BitVec 8) (s : Mmcdma) : Prop where
  rests : s.Rests pins ncs cdalter
  idle : s.spi.state = .idle
  rxd : s.spi.rxddata = rxd

/-- The interrupt enable follows the writes that an idle engine takes. -/
theorem step_irqenaReg (i : SpiInput) (s : Spi) :
    (s.step i).irqenaReg =
      if s.state = .idle ∧ i.writes 0 = true then i.writedata.getLsbD 15 else s.irqenaReg := by
  cases st : s.state <;> simp only [Spi.step, Spi.engine, st]
  case idle =>
      by_cases written : i.writes 0 = true
      · simp only [if_pos written, true_and]
      · simp only [if_neg written, true_and]
        split <;> rfl
  all_goals
    simp only [reduceCtorEq, false_and, if_false]
    split <;> rfl

section
variable {pins : Pins} {ncs cdalter : Bool} {rxd : BitVec 8} {s : Mmcdma} {i : Input}

/-- Pins that hold their levels do not set the change flag. -/
theorem step_cdalterReg (settled : s.Settled pins) (i : Input) :
    (s.step i).spi.cdalterReg =
      if (s.spiInput i).writes 0 && !(s.spiInput i).writedata.getLsbD 13 then false else s.spi.cdalterReg := by
  have same : ¬ s.spi.mmcCd1Reg ≠ s.spi.mmcCd2Reg := by
    rw [settled.mmcCd1Reg, settled.mmcCd2Reg]
    exact not_not.mpr rfl
  simp only [Mmcdma.step, Spi.step, if_neg same]

theorem Mmcdma.Owned.unheard (owned : s.Owned) (quiet : i.quiet) (a : BitVec 2) :
    (s.spiInput i).writes a = false := by
  rw [spiInput_done owned.done, SpiInput.writes, quiet.mmcregsel]
  rfl

theorem Mmcdma.Rests.quiet (rests : s.Rests pins ncs cdalter) (quiet : i.quiet) (holds : i.Holds pins) :
    (s.step i).Rests pins ncs cdalter where
  owned := rests.owned.quiet quiet
  settled := step_settled holds rests.settled
  cdalter := by
    rw [step_cdalterReg rests.settled, rests.owned.unheard quiet]
    exact rests.cdalter
  irqena := by
    change (s.spi.step (s.spiInput i)).irqenaReg = false
    rw [step_irqenaReg, rests.owned.unheard quiet, if_neg (fun both => Bool.false_ne_true both.2)]
    exact rests.irqena
  ncs := by
    change (s.spi.step (s.spiInput i)).ncsReg = ncs
    rw [step_ncsReg, rests.owned.unheard quiet, if_neg (fun both => Bool.false_ne_true both.2)]
    exact rests.ncs

theorem Mmcdma.Stands.ready (stands : s.Stands pins ncs cdalter rxd) : s.Ready := stands.rests.owned.ready stands.idle

theorem Mmcdma.Stands.quiet (stands : s.Stands pins ncs cdalter rxd) (quiet : i.quiet) (holds : i.Holds pins) :
    (s.step i).Stands pins ncs cdalter rxd := by
  have idle := (stands.ready.quiet quiet).engine
  refine ⟨stands.rests.quiet quiet holds, idle, ?_⟩
  change (s.spi.step (s.spiInput i)).rxddata = rxd
  rw [step_rxddata idle]
  exact stands.rxd

/-! ## Waiting -/

/-- Clocks without an access, with `sdi` on the card's data line. -/
def waits (pins : Pins) (sdi : Nat → Bool) (u : Nat) : Input :=
  ⟨false, 0, false, 0, sdi u, pins.mmcCd, pins.mmcWp⟩

theorem waits_holds (pins : Pins) (sdi : Nat → Bool) (u : Nat) : (waits pins sdi u).Holds pins := ⟨rfl, rfl⟩

theorem waits_quiet (pins : Pins) (sdi : Nat → Bool) (u : Nat) : (waits pins sdi u).quiet := rfl

theorem Idles.trans {s₁ s₂ s₃ : Mmcdma} (first : Idles pins s₁ s₂) (second : Idles pins s₂ s₃) :
    Idles pins s₁ s₃ := by
  induction first with
  | refl => exact second
  | step i holds unselected _ ih => exact .step i holds unselected (ih second)

theorem idles_waits (sdi : Nat → Bool) (s : Mmcdma) (n : Nat) :
    Idles pins s (run Mmcdma.step (waits pins sdi) s n) := by
  induction n with
  | zero => exact .refl s
  | succ n ih => exact ih.trans (.step _ (waits_holds pins sdi n) rfl (.refl _))

theorem Mmcdma.Rests.waits (rests : s.Rests pins ncs cdalter) (sdi : Nat → Bool) (n : Nat) :
    (run Mmcdma.step (waits pins sdi) s n).Rests pins ncs cdalter := by
  induction n with
  | zero => exact rests
  | succ n ih => exact ih.quiet (waits_quiet pins sdi n) (waits_holds pins sdi n)

theorem Mmcdma.Stands.waits (stands : s.Stands pins ncs cdalter rxd) (sdi : Nat → Bool) (n : Nat) :
    (run Mmcdma.step (waits pins sdi) s n).Stands pins ncs cdalter rxd := by
  induction n with
  | zero => exact stands
  | succ n ih => exact ih.quiet (waits_quiet pins sdi n) (waits_holds pins sdi n)

/-- A transfer that has just begun ends with any byte that the card can send. -/
theorem wait_transfer {k : Nat} (sending : Sending k s.spi) (positive : 0 < k) (begun : k ≤ 2) (b : BitVec 8)
    (rests : s.Rests pins ncs cdalter) : ∃ s', Idles pins s s' ∧ s'.Stands pins ncs cdalter b := by
  obtain ⟨w, s₀, idle, starts, here⟩ := sending
  have length : 2 < transferTime s₀.divrefReg := by
    unfold transferTime
    omega
  -- Bit `7 - j` is sampled `(2 * j + 2) * (d + 1)` clocks after the write.
  let sdi (u : Nat) : Bool := b.getLsbD (8 - (k + u) / (2 * (s₀.divrefReg.toNat + 1)))
  let whole (m : Nat) : SpiInput := if m < k then w m else spiWave (waits pins sdi) s (m - k)
  have begins : run Spi.step whole s₀ k = s.spi := by
    rw [here]
    apply run_congr
    intro u before
    exact if_pos before
  have goes (n : Nat) : (run Mmcdma.step (waits pins sdi) s n).spi = run Spi.step whole s₀ (k + n) := by
    rw [run_spi, run_add, begins]
    apply run_congr
    intro u _
    have later : ¬ k + u < k := by omega
    rw [shift_apply]
    simp only [whole, if_neg later, Nat.add_sub_cancel_left]
  have starts' : (whole 0).starts = true := by
    simp only [whole, if_pos positive]
    exact starts
  obtain ⟨-, ends, -, -, received⟩ := spi_transfer idle starts'
  have clocks : k + (transferTime s₀.divrefReg - k) = transferTime s₀.divrefReg := by omega
  have byte : byteAt s₀.divrefReg (fun t => (whole t).mmcSdi) 0 = b := by
    apply BitVec.eq_of_getLsbD_eq
    intro j hj
    rw [byteAt, getLsbD_ofBits _ hj, Nat.zero_add]
    have whole' : 2 * (8 - j) * (s₀.divrefReg.toNat + 1) = (8 - j) * (2 * (s₀.divrefReg.toNat + 1)) := by
      rw [Nat.mul_comm 2, Nat.mul_assoc]
    have period : 1 * 2 ≤ (8 - j) * (2 * (s₀.divrefReg.toNat + 1)) := Nat.mul_le_mul (by omega) (by omega)
    have later : ¬ (8 - j) * (2 * (s₀.divrefReg.toNat + 1)) < k := by omega
    have clock : k + ((8 - j) * (2 * (s₀.divrefReg.toNat + 1)) - k) =
        (8 - j) * (2 * (s₀.divrefReg.toNat + 1)) := by omega
    rw [whole']
    simp only [whole, if_neg later]
    change sdi _ = _
    simp only [sdi, clock]
    rw [Nat.mul_div_cancel _ (by omega)]
    congr 1
    omega
  refine ⟨run Mmcdma.step (waits pins sdi) s (transferTime s₀.divrefReg - k), idles_waits sdi s _,
    rests.waits sdi _, ?_, ?_⟩
  · rw [goes, clocks]
    exact ends
  · rw [goes, clocks, received, byte]

/-- The timer runs out. -/
theorem wait_timer (stands : s.Stands pins ncs cdalter rxd) :
    ∃ s', Idles pins s s' ∧ s'.Stands pins ncs cdalter rxd ∧ s'.spi.frcReg = 0 := by
  have level : Nat → Bool := fun _ => true
  have unwritten : ∀ u < s.spi.frcReg.toNat, (spiWave (waits pins level) s u).writes 2 = false := by
    intro u _
    exact (stands.waits level u).rests.owned.unheard (waits_quiet pins level u) 2
  refine ⟨run Mmcdma.step (waits pins level) s s.spi.frcReg.toNat, idles_waits level s _, stands.waits level _, ?_⟩
  apply BitVec.eq_of_toNat_eq
  rw [run_spi, run_frcReg unwritten, Nat.sub_self]
  rfl

end

/-! ## The simulation -/

/-- The component shows what the model does, and its record has a write that was missed if the model has. -/
structure Paced.Shows (pins : Pins) (p : Paced) (s : Mmcdma × List Arrival) : Prop where
  rests : s.1.Rests pins p.ncs p.cdalter
  stands : p.clocks = 0 → s.1.Stands pins p.ncs p.cdalter p.rxd
  sending : 0 < p.clocks → p.clocks ≤ 2 ∧ Sending p.clocks s.1.spi
  missed : p.missed = true →
    ∃ a ∈ s.2, a.Controls ∧ a.before.spi.state ≠ .idle ∧ a.after.spi.ncsReg ≠ a.data.getLsbD 8

/-- A clock of a read. -/
def readClock (pins : Pins) (reg : Nat) : Input :=
  ⟨true, BitVec.ofNat 8 reg, false, 0, true, pins.mmcCd, pins.mmcWp⟩

/-- The clock of a write. -/
def writeClock (pins : Pins) (reg : Nat) (data : BitVec 32) : Input :=
  ⟨true, BitVec.ofNat 8 reg, true, data, true, pins.mmcCd, pins.mmcWp⟩

section
variable {pins : Pins} {ncs cdalter : Bool} {rxd : BitVec 8} {reg : Nat} {data : BitVec 32}

theorem readClock_reads (pins : Pins) (reg : Nat) : (readClock pins reg).Reads pins reg :=
  ⟨⟨rfl, rfl⟩, rfl, rfl, rfl⟩

theorem writeClock_writes (pins : Pins) (reg : Nat) (data : BitVec 32) :
    (writeClock pins reg data).Writes pins reg data :=
  ⟨⟨rfl, rfl⟩, rfl, rfl, rfl, rfl⟩

/-- A read of the engine by a CPU that comes late. -/
theorem read_stands {s s₀ : Mmcdma} (idles : Idles pins s s₀) (stands : s₀.Stands pins ncs cdalter rxd)
    (timer : s₀.spi.frcReg = 0) (reg : Nat) :
    ∃ s₁ s' : Mmcdma, s₁.Stands pins ncs cdalter rxd ∧ s₁.spi.frcReg = 0 ∧ s₁.spi.frczeroReg = true ∧
      (busDevice pins).read reg s (s₁.step (readClock pins reg)).readdaraReg s' ∧
      s'.Stands pins ncs cdalter rxd := by
  have reads := readClock_reads pins reg
  have first := stands.quiet reads.quiet reads.toHolds
  have second := first.quiet reads.quiet reads.toHolds
  have third := second.quiet reads.quiet reads.toHolds
  refine ⟨s₀.step (readClock pins reg), _, first, ?_, ?_,
    ⟨s₀, _, _, _, idles, reads, reads, reads, rfl, rfl⟩, third⟩
  · apply BitVec.eq_of_toNat_eq
    change (s₀.spi.step (s₀.spiInput _)).frcReg.toNat = _
    rw [step_frcReg (stands.rests.owned.unheard reads.quiet 2), timer]
    rfl
  · change (s₀.spi.frcReg == 0) = true
    rw [timer]
    rfl

/-- The status register of a component that stands. -/
theorem readdara_stands {s : Mmcdma} (stands : s.Stands pins ncs cdalter rxd) (timer : s.spi.frczeroReg = true)
    {p : Paced} (level : p.ncs = ncs) (change : p.cdalter = cdalter) (byte : p.rxd = rxd) :
    (s.step (readClock pins mmcregStatus)).readdaraReg = p.status pins := by
  have exit : s.spi.exitReg = true := by
    rw [stands.rests.owned.consistent.exit, stands.idle]
    rfl
  rw [readdara_status (readClock_reads pins mmcregStatus)]
  change s.spi.read0Sig = _
  rw [Spi.read0Sig, Paced.status, stands.rests.irqena, stands.rests.cdalter, timer, stands.rests.settled.mmcWpReg,
    stands.rests.settled.mmcCd2Reg, exit, stands.rests.ncs, stands.rxd, level, change, byte]
  rfl

/-- The timer register. -/
theorem readdara_timer {s : Mmcdma} (stands : s.Stands pins ncs cdalter rxd) (timer : s.spi.frcReg = 0) :
    (s.step (readClock pins mmcregTimer)).readdaraReg = 0 := by
  have address : (s.spiInput (readClock pins mmcregTimer)).address = 2 := by
    rw [spiInput_done stands.rests.owned.done]
    rfl
  have reads := readClock_reads pins mmcregTimer
  have memsel : (readClock pins mmcregTimer).memselSig = false := by
    rw [Input.memselSig, reads.chipselect, reads.address]
    rfl
  have mmcregsel : (readClock pins mmcregTimer).mmcregselSig = true := by
    rw [Input.mmcregselSig, reads.chipselect, reads.address]
    rfl
  rw [Mmcdma.step, memsel, mmcregsel, if_neg Bool.false_ne_true, if_pos rfl, Mmcdma.mmcifrddataSig, address]
  exact timer

/-- A late read of a component in which a transfer may be under way. -/
theorem Paced.Shows.finish {p : Paced} {s : Mmcdma × List Arrival} (shows : p.Shows pins s)
    (stream : Nat → BitVec 8) :
    ∃ s', Idles pins s.1 s' ∧
      s'.Stands pins (p.finish stream).ncs (p.finish stream).cdalter (p.finish stream).rxd ∧
      s'.spi.frcReg = 0 := by
  unfold Paced.finish
  by_cases still : p.clocks = 0
  · rw [if_pos still]
    exact wait_timer (shows.stands still)
  · rw [if_neg still]
    have positive : 0 < p.clocks := Nat.pos_of_ne_zero still
    obtain ⟨begun, sending⟩ := shows.sending positive
    obtain ⟨s₁, first, stands⟩ := wait_transfer sending positive begun (stream p.pos) shows.rests
    obtain ⟨s₂, second, stands', timer⟩ := wait_timer stands
    exact ⟨s₂, first.trans second, stands', timer⟩

theorem finish_clocks (stream : Nat → BitVec 8) (p : Paced) : (p.finish stream).clocks = 0 := by
  unfold Paced.finish
  split
  · assumption
  · rfl

theorem finish_missed (stream : Nat → BitVec 8) (p : Paced) : (p.finish stream).missed = p.missed := by
  unfold Paced.finish
  split
  · rfl
  · rfl

/-- A component that stands shows a model without a transfer. -/
theorem Paced.Shows.ofStands {p : Paced} {s : Mmcdma × List Arrival} (stands : s.1.Stands pins p.ncs p.cdalter p.rxd)
    (still : p.clocks = 0)
    (missed : p.missed = true →
      ∃ a ∈ s.2, a.Controls ∧ a.before.spi.state ≠ .idle ∧ a.after.spi.ncsReg ≠ a.data.getLsbD 8) :
    p.Shows pins s where
  rests := stands.rests
  stands := fun _ => stands
  sending := fun busy => absurd still (Nat.ne_of_gt busy)
  missed := missed

theorem paced_read {stream : Nat → BitVec 8} {x : BitVec 32} {p p' : Paced} {s : Mmcdma × List Arrival}
    (read : p.read stream pins reg = some (x, p')) (shows : p.Shows pins s) :
    ∃ s', (recordedBus pins).read reg s x s' ∧ p'.Shows pins s' := by
  unfold Paced.read at read
  split at read
  · next status =>
      cases read
      obtain ⟨s₀, idles, stands, timer⟩ := shows.finish stream
      obtain ⟨s₁, s', between, -, zero, access, after⟩ := read_stands idles stands timer reg
      rw [status, readdara_stands between zero rfl rfl rfl] at access
      refine ⟨(s', s.2), ⟨?_, rfl⟩, .ofStands after (finish_clocks stream p) ?_⟩
      · rw [status]
        exact access
      · rw [finish_missed]
        exact shows.missed
  · split at read
    · next _ timerRead =>
        obtain ⟨timerReg, still⟩ := timerRead
        cases read
        obtain ⟨s₀, idles, stands, timer⟩ := wait_timer (shows.stands still)
        obtain ⟨s₁, s', between, zero, -, access, after⟩ := read_stands idles stands timer reg
        rw [timerReg, readdara_timer between zero] at access
        refine ⟨(s', s.2), ⟨?_, rfl⟩, .ofStands after still shows.missed⟩
        rw [timerReg]
        exact access
    · cases read

/-- What a write leaves of the registers that the driver sees. -/
theorem Mmcdma.Rests.written {s : Mmcdma} {level change : Bool} (rests : s.Rests pins ncs cdalter)
    (engine : reg < 4) (irqena : s.spi.state = .idle → reg = mmcregStatus → data.getLsbD 15 = false)
    (select : (s.step (writeClock pins reg data)).spi.ncsReg = level)
    (flag : (s.step (writeClock pins reg data)).spi.cdalterReg = change) :
    (s.step (writeClock pins reg data)).Rests pins level change := by
  have writes := writeClock_writes pins reg data
  refine ⟨rests.owned.written writes engine, step_settled writes.toHolds rests.settled, flag, ?_, select⟩
  change (s.spi.step (s.spiInput _)).irqenaReg = false
  rw [step_irqenaReg]
  split
  · next heard =>
      have same : ∀ r < 4, (BitVec.ofNat 2 r == 0) = true → r = mmcregStatus := by decide
      rw [(rests.owned.writes writes engine 0).1] at heard
      rw [(rests.owned.writes writes engine 0).2]
      exact irqena heard.1 (same reg engine heard.2)
  · exact rests.irqena

/-- The change flag after a write. -/
theorem written_cdalter {s : Mmcdma} (rests : s.Rests pins ncs cdalter) (engine : reg < 4)
    (acknowledge : reg = mmcregStatus → data.getLsbD 13 = false) :
    (s.step (writeClock pins reg data)).spi.cdalterReg = if reg = mmcregStatus then false else cdalter := by
  have writes := writeClock_writes pins reg data
  have same : ∀ r < 4, (BitVec.ofNat 2 r == 0) = decide (r = mmcregStatus) := by decide
  rw [step_cdalterReg rests.settled, (rests.owned.writes writes engine 0).1,
    (rests.owned.writes writes engine 0).2, same reg engine, rests.cdalter]
  by_cases status : reg = mmcregStatus
  · rw [acknowledge status, if_pos status, decide_eq_true status]
    rfl
  · rw [if_neg status, decide_eq_false status]
    rfl

/-- The select line after a write. -/
theorem written_ncs {s : Mmcdma} (rests : s.Rests pins ncs cdalter) (engine : reg < 4) :
    (s.step (writeClock pins reg data)).spi.ncsReg =
      if s.spi.state = .idle ∧ reg = mmcregStatus then data.getLsbD 8 else ncs := by
  have writes := writeClock_writes pins reg data
  have same : ∀ r < 4, (BitVec.ofNat 2 r == 0) = true ↔ r = mmcregStatus := by decide
  change (s.spi.step (s.spiInput _)).ncsReg = _
  rw [step_ncsReg, (rests.owned.writes writes engine 0).1, (rests.owned.writes writes engine 0).2, rests.ncs]
  simp only [same reg engine]

/-- A write that starts no transfer, to an engine that stands. -/
theorem Mmcdma.Stands.written {s : Mmcdma} {level change : Bool} (stands : s.Stands pins ncs cdalter rxd)
    (engine : reg < 4) (control : reg = mmcregStatus → data.getLsbD 9 = true ∧ data.getLsbD 15 = false)
    (select : (s.step (writeClock pins reg data)).spi.ncsReg = level)
    (flag : (s.step (writeClock pins reg data)).spi.cdalterReg = change) :
    (s.step (writeClock pins reg data)).Stands pins level change rxd := by
  have writes := writeClock_writes pins reg data
  have idle := (stands.ready.control writes engine fun status => (control status).1).1.engine
  refine ⟨stands.rests.written engine (fun _ status => (control status).2) select flag, idle, ?_⟩
  change (s.spi.step (s.spiInput _)).rxddata = rxd
  rw [step_rxddata idle]
  exact stands.rxd

/-- The component after a write that comes at once, and its record. -/
def recorded (pins : Pins) (reg : Nat) (data : BitVec 32) (s : Mmcdma × List Arrival) : Mmcdma × List Arrival :=
  (s.1.step (writeClock pins reg data), ⟨reg, data, s.1, s.1.step (writeClock pins reg data)⟩ :: s.2)

theorem recorded_write (s : Mmcdma × List Arrival) : (recordedBus pins).write reg data s (recorded pins reg data s) :=
  ⟨s.1, _, .refl s.1, writeClock_writes pins reg data, rfl⟩

/-- A write that was missed stays in the record. -/
theorem Paced.Shows.missed_before {p : Paced} {s : Mmcdma × List Arrival} (shows : p.Shows pins s)
    (missed : p.missed = true) : ∃ a ∈ (recorded pins reg data s).2,
      a.Controls ∧ a.before.spi.state ≠ .idle ∧ a.after.spi.ncsReg ≠ a.data.getLsbD 8 := by
  obtain ⟨a, member, found⟩ := shows.missed missed
  exact ⟨a, List.mem_cons_of_mem _ member, found⟩

/-- A write to the status register of an idle engine. -/
theorem Paced.Shows.status_write {p : Paced} {s : Mmcdma × List Arrival} (shows : p.Shows pins s)
    (still : p.clocks = 0) (irqena : data.getLsbD 15 = false) (acknowledge : data.getLsbD 13 = false) :
    Paced.Shows pins
      { p with ncs := data.getLsbD 8, cdalter := false, clocks := if data.getLsbD 9 then 0 else 1 }
      (recorded pins mmcregStatus data s) := by
  have stands := shows.stands still
  have writes := writeClock_writes pins mmcregStatus data
  have engine : mmcregStatus < 4 := by decide
  have select : (s.1.step (writeClock pins mmcregStatus data)).spi.ncsReg = data.getLsbD 8 := by
    rw [written_ncs stands.rests engine, if_pos ⟨stands.idle, rfl⟩]
  have flag : (s.1.step (writeClock pins mmcregStatus data)).spi.cdalterReg = false := by
    rw [written_cdalter stands.rests engine fun _ => acknowledge, if_pos rfl]
  cases start : data.getLsbD 9 with
  | true =>
      rw [if_pos rfl]
      exact .ofStands (stands.written engine (fun _ => ⟨start, irqena⟩) select flag) rfl shows.missed_before
  | false =>
      rw [if_neg Bool.false_ne_true]
      refine ⟨stands.rests.written engine (fun _ _ => irqena) select flag,
        fun wrong => absurd wrong Nat.one_ne_zero, fun _ => ⟨Nat.le_succ 1, ?_⟩, shows.missed_before⟩
      refine ⟨fun _ => s.1.spiInput (writeClock pins mmcregStatus data), s.1.spi, stands.idle, ?_, rfl⟩
      rw [SpiInput.starts, (stands.rests.owned.writes writes engine 0).1,
        (stands.rests.owned.writes writes engine 0).2, start]
      rfl

/-- A write to another register of an idle engine. -/
theorem Paced.Shows.other_write {p : Paced} {s : Mmcdma × List Arrival} (shows : p.Shows pins s)
    (still : p.clocks = 0) (engine : reg < 4) (other : reg ≠ mmcregStatus) :
    p.Shows pins (recorded pins reg data s) := by
  have stands := shows.stands still
  have select : (s.1.step (writeClock pins reg data)).spi.ncsReg = p.ncs := by
    rw [written_ncs stands.rests engine, if_neg (fun both => other both.2)]
  have flag : (s.1.step (writeClock pins reg data)).spi.cdalterReg = p.cdalter := by
    rw [written_cdalter stands.rests engine fun status => absurd status other, if_neg other]
  exact .ofStands (stands.written engine (fun status => absurd status other) select flag) still shows.missed_before

/-- A write to the status register while a transfer is under way, which is ignored. -/
theorem Paced.Shows.ignored_write {p : Paced} {s : Mmcdma × List Arrival} (shows : p.Shows pins s)
    (one : p.clocks = 1) (control : data.getLsbD 9 = true) (acknowledge : data.getLsbD 13 = false) :
    Paced.Shows pins { p with cdalter := false, clocks := 2, missed := p.missed || p.ncs != data.getLsbD 8 }
      (recorded pins mmcregStatus data s) := by
  have engine : mmcregStatus < 4 := by decide
  obtain ⟨w, s₀, idle, starts, here⟩ := (shows.sending (by omega)).2
  have working : s.1.spi.state ≠ .idle := by
    rw [here]
    refine ((spi_transfer idle starts).1 p.clocks (by omega) ?_).1
    unfold transferTime
    omega
  have select : (s.1.step (writeClock pins mmcregStatus data)).spi.ncsReg = p.ncs := by
    rw [written_ncs shows.rests engine, if_neg (fun both => working both.1)]
  have flag : (s.1.step (writeClock pins mmcregStatus data)).spi.cdalterReg = false := by
    rw [written_cdalter shows.rests engine fun _ => acknowledge, if_pos rfl]
  refine ⟨shows.rests.written engine (fun idle => absurd idle working) select flag,
    fun wrong => absurd wrong (Nat.succ_ne_zero 1), fun _ => ⟨Nat.le_refl 2, ?_⟩, ?_⟩
  · -- The transfer goes on as it would without the write.
    let whole (m : Nat) : SpiInput :=
      if m < p.clocks then w m else s.1.spiInput (writeClock pins mmcregStatus data)
    have first : whole 0 = w 0 := if_pos (by omega)
    have last : whole 1 = s.1.spiInput (writeClock pins mmcregStatus data) := if_neg (by omega)
    have begins : run Spi.step whole s₀ 1 = s.1.spi := by
      rw [here, one]
      apply run_congr
      intro u before
      exact if_pos (by omega)
    refine ⟨whole, s₀, idle, ?_, ?_⟩
    · rw [first]
      exact starts
    · rw [run_succ, begins, last]
      rfl
  · intro missed
    rw [Bool.or_eq_true] at missed
    rcases missed with before | now
    · exact shows.missed_before before
    · refine ⟨_, List.mem_cons_self, .inl ⟨rfl, control⟩, working, ?_⟩
      rw [bne_iff_ne] at now
      change (s.1.step (writeClock pins mmcregStatus data)).spi.ncsReg ≠ _
      rw [select]
      exact now

theorem paced_write {p p' : Paced} {s : Mmcdma × List Arrival} (write : p.write reg data = some p')
    (shows : p.Shows pins s) : ∃ s', (recordedBus pins).write reg data s s' ∧ p'.Shows pins s' := by
  refine ⟨recorded pins reg data s, recorded_write s, ?_⟩
  unfold Paced.write at write
  split at write
  · next still =>
      split at write
      · next status =>
          obtain ⟨rfl, irqena, acknowledge⟩ := status
          cases write
          exact shows.status_write still irqena acknowledge
      · split at write
        · next other =>
            cases write
            rcases other with rfl | rfl
            · exact shows.other_write still (by decide) (by decide)
            · exact shows.other_write still (by decide) (by decide)
        · cases write
  · split at write
    · next ignored =>
        obtain ⟨one, rfl, control, acknowledge⟩ := ignored
        cases write
        exact shows.ignored_write one control acknowledge
    · cases write

/-- The component can do whatever the model does. -/
theorem paced_simulates (stream : Nat → BitVec 8) (pins : Pins) :
    Simulates (recordedBus pins) (Paced.read stream pins) Paced.write (Paced.Shows pins) where
  read := paced_read
  write := paced_write

end

end Cineraria.Mmc
