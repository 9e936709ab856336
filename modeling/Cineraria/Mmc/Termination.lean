import Cineraria.Lib.FixedWidth
import Cineraria.Mmc.ReadDma

/-!
# A read DMA ends

The sequencer waits for the card with a loop that counts nothing: on a silent card it ends
only because the engine's counter runs out. While `dmadone_reg = '0'` no bus write reaches
that counter, so a measure over both machines falls at every edge: the clocks left in the
byte being shifted, those left in the counter, and the bytes left to be stored.
-/

namespace Cineraria.Mmc

open Clocked FixedWidth

/-! ## The engine -/

/-- The clocks until the engine is idle. -/
def Spi.remaining (s : Spi) : Nat :=
  match s.state with
  | .idle => 0
  | .sdo => s.divcount.toNat + 1 + (16 - 2 * s.bitcount) * (s.divrefReg.toNat + 1)
  | .sdi => s.divcount.toNat + 1 + (15 - 2 * s.bitcount) * (s.divrefReg.toNat + 1)
  | .done => s.divcount.toNat + 1

/-- The counters of a transfer are in range. -/
structure Spi.Bounded (s : Spi) : Prop where
  bitcount : s.state = .sdo ∨ s.state = .sdi → s.bitcount ≤ 7
  divcount : s.state ≠ .idle → s.divcount.toNat ≤ s.divrefReg.toNat

theorem Spi.IsReset.bounded {s : Spi} (reset : s.IsReset) : s.Bounded where
  bitcount := by simp [reset.state]
  divcount := by simp [reset.state]

theorem Spi.step_bounded (i : SpiInput) (s : Spi) (bounded : s.Bounded) : (s.step i).Bounded := by
  obtain ⟨bitcount, divcount⟩ := bounded
  have fall : s.state ≠ .idle → s.divcount ≠ 0 → (s.divcount - 1).toNat ≤ s.divrefReg.toNat := by
    intro busy counting
    have := divcount busy
    have := toNat_sub_one counting
    omega
  cases st : s.state <;> rw [st] at bitcount divcount fall <;>
    constructor <;> simp only [Spi.step, Spi.engine, st]
  case idle.bitcount => split <;> split <;> simp [st]
  case idle.divcount => split <;> split <;> simp [st]
  case sdo.bitcount => split <;> simpa [st] using bitcount
  case sdo.divcount =>
    split
    · simp
    · next counting => exact fun _ => fall (by simp) counting
  case sdi.bitcount =>
    have := bitcount (.inr rfl)
    split
    · split
      · simp
      · simp only [true_or, forall_const]
        omega
    · simpa [st] using bitcount
  case sdi.divcount =>
    split
    · simp
    · next counting => exact fun _ => fall (by simp) counting
  case done.bitcount => split <;> simp
  case done.divcount =>
    split
    · simp
    · next counting => exact fun _ => fall (by simp) counting

theorem Spi.Bounded.remaining_le {s : Spi} (bounded : s.Bounded) :
    s.remaining ≤ 17 * (s.divrefReg.toNat + 1) := by
  have divcount := bounded.divcount
  have first : (16 - 2 * s.bitcount) * (s.divrefReg.toNat + 1) ≤ 16 * (s.divrefReg.toNat + 1) :=
    Nat.mul_le_mul_right _ (Nat.sub_le _ _)
  have second : (15 - 2 * s.bitcount) * (s.divrefReg.toNat + 1) ≤ 15 * (s.divrefReg.toNat + 1) :=
    Nat.mul_le_mul_right _ (Nat.sub_le _ _)
  cases st : s.state <;> simp only [Spi.remaining, st] <;> rw [st] at divcount
  case idle => exact Nat.zero_le _
  case sdo | sdi | done =>
    have := divcount (by simp)
    omega

/-- Whatever is written to it, a busy engine is one clock nearer its end at every edge. -/
theorem Spi.Bounded.remaining_step {s : Spi} (bounded : s.Bounded) (busy : s.state ≠ .idle)
    (i : SpiInput) : (s.step i).remaining + 1 = s.remaining := by
  have bitcount := bounded.bitcount
  by_cases zero : s.divcount = 0
  · have spent : s.divcount.toNat = 0 := by
      rw [zero]
      rfl
    cases st : s.state <;> rw [st] at bitcount <;>
      simp only [Spi.remaining, Spi.step, Spi.engine, st, if_pos zero, spent]
    case idle => exact absurd st busy
    case sdo =>
      have bit := bitcount (.inl rfl)
      rw [show 16 - 2 * s.bitcount = (15 - 2 * s.bitcount) + 1 by omega,
        Nat.succ_mul (15 - 2 * s.bitcount)]
      omega
    case sdi =>
      have bit := bitcount (.inr rfl)
      by_cases last : s.bitcount = 7
      · simp only [last, if_true]
        omega
      · rw [show 15 - 2 * s.bitcount = (16 - 2 * (s.bitcount + 1)) + 1 by omega,
          Nat.succ_mul (16 - 2 * (s.bitcount + 1))]
        simp only [last, if_false]
        omega
  · have fall := toNat_sub_one zero
    cases st : s.state <;>
      simp only [Spi.remaining, Spi.step, Spi.engine, st, if_neg zero]
    case idle => exact absurd st busy
    case sdo | sdi | done => omega

/-! ## While the DMA runs -/

/-- A bus clock that leaves the reference count at `c`. -/
def Input.KeepsRefcount (i : Input) (c : BitVec 9) : Prop :=
  (i.dmaregselSig && i.write && i.address.extractLsb' 0 2 == 0) = true →
    i.writedata.setWidth 9 = c

section
variable {s : Mmcdma}

/-- The sequencer writes to register 0 only. -/
theorem writes_running (running : s.dma.dmadoneReg = false) (i : Input) {a : BitVec 2} (other : a ≠ 0) :
    (s.spiInput i).writes a = false := by
  rw [spiInput_running running]
  simp only [SpiInput.writes, beq_eq_false_iff_ne.mpr other.symm, Bool.and_false]

/-- Nothing changes the divider. -/
theorem divref_running (running : s.dma.dmadoneReg = false) (i : Input) :
    (s.step i).spi.divrefReg = s.spi.divrefReg := by
  have unwritten := writes_running running i (show (1 : BitVec 2) ≠ 0 by decide)
  cases st : s.spi.state <;> simp only [Mmcdma.step, Spi.step, Spi.engine, st, unwritten]
  case idle =>
    split
    · split <;> rfl
    · rfl
  case sdo | sdi | done => split <;> rfl

/-- Nothing reloads or stops the counter. -/
theorem frc_running (running : s.dma.dmadoneReg = false) (i : Input) :
    (s.step i).spi.frcReg.toNat = s.spi.frcReg.toNat - 1 :=
  step_frcReg (writes_running running i (by decide)) s.spi

theorem refcount_running {i : Input} (keeps : i.KeepsRefcount s.dma.dmarefcountReg) :
    (s.step i).dma.dmarefcountReg = s.dma.dmarefcountReg := by
  simp only [Mmcdma.step, Dma.step, Dma.busStep]
  split
  · next written => exact keeps written
  · rfl

/-- The state and the count of a busy sequencer after a clock. -/
inductive Dma.Turn (exit zero : Bool) (d : Dma) (state : DmaState) (count : BitVec 9) : Prop
  | asked (before : d.state = .resset) (after : state = .reswait) (same : count = d.dmareadCount)
  | fetched (before : d.state = .readset) (after : state = .readwait) (same : count = d.dmareadCount)
  | waits (before : d.state = .reswait ∨ d.state = .readwait) (waiting : exit = false) (after : state = d.state)
      (same : count = d.dmareadCount)
  | asksAgain (before : d.state = .reswait) (inTime : zero = false) (after : state = .resset)
      (same : count = d.dmareadCount)
  | token (before : d.state = .reswait) (inTime : zero = false) (after : state = .readset)
      (same : count = d.dmareadCount)
  | stored (before : d.state = .readwait) (more : d.dmareadCount ≠ d.dmarefcountReg) (after : state = .readset)
      (counted : count = d.dmareadCount + 1)
  | ends (before : d.state = .reswait ∨ d.state = .readwait) (after : state = .idle) (same : count = d.dmareadCount)

theorem Dma.sequence_turn {d : Dma} (busy : d.state ≠ .idle) (exit zero : Bool) (rxd : BitVec 8) :
    Dma.Turn exit zero d (d.sequence exit zero rxd).state (d.sequence exit zero rxd).dmareadCount := by
  unfold Dma.sequence
  split
  · next st => exact absurd st busy
  · next st => exact .asked st rfl rfl
  · next st =>
      split
      · split
        · next inTime =>
            split
            · exact .token st inTime rfl rfl
            · split
              · exact .asksAgain st inTime rfl rfl
              · exact .ends (.inl st) rfl rfl
        · exact .ends (.inl st) rfl rfl
      · next waiting => exact .waits (.inl st) (eq_false_of_ne_true waiting) rfl rfl
  · next st => exact .fetched st rfl rfl
  · next st =>
      split
      · split
        · exact .ends (.inr st) rfl rfl
        · next more => exact .stored st more rfl rfl
      · next waiting => exact .waits (.inr st) (eq_false_of_ne_true waiting) rfl rfl

theorem turn_running (consistent : s.Consistent) (running : s.dma.dmadoneReg = false) (i : Input) :
    Dma.Turn s.spi.exitReg s.spi.frczeroReg s.dma (s.step i).dma.state (s.step i).dma.dmareadCount := by
  rw [← exitSig_running running i, ← zeroSig_running running i]
  exact Dma.sequence_turn (consistent.busy running) _ _ (s.mmcifrxdSig i)

/-- The clocks until the sequencer sees that the counter has run out. -/
def Mmcdma.timeLeft (s : Mmcdma) : Nat :=
  if s.spi.frczeroReg = true ∧ s.spi.frcReg = 0 then 0 else s.spi.frcReg.toNat + 1

theorem timeLeft_le (s : Mmcdma) : s.timeLeft ≤ s.spi.frcReg.toNat + 1 := by
  rw [Mmcdma.timeLeft]
  split <;> omega

theorem timeLeft_step (running : s.dma.dmadoneReg = false) (i : Input) :
    (s.step i).timeLeft = s.timeLeft - 1 := by
  have counted := frc_running running i
  have flag : (s.step i).spi.frczeroReg = (s.spi.frcReg == 0) := rfl
  have isZero : ∀ x : BitVec 32, x = 0 ↔ x.toNat = 0 := fun x => by
    rw [BitVec.toNat_eq]
    rfl
  simp only [Mmcdma.timeLeft, flag, beq_iff_eq, isZero, counted]
  split <;> split <;> omega

/-- In time the flag is not yet up only while the counter has clocks left. -/
theorem timeLeft_pos (inTime : s.spi.frczeroReg = false) : 0 < s.timeLeft := by
  rw [Mmcdma.timeLeft, inTime, if_neg (by simp)]
  exact Nat.succ_pos _

/-- The clocks until the byte in hand is decided. -/
def Mmcdma.byteLeft (s : Mmcdma) : Nat :=
  match s.dma.state with
  | .idle => 0
  | .resset | .readset => transferTime s.spi.divrefReg + 1
  | .reswait | .readwait => s.spi.remaining + 1

/-- A bound on the clocks until the DMA ends. -/
def Mmcdma.clocksLeft (s : Mmcdma) : Nat :=
  match s.dma.state with
  | .idle => 0
  | .resset | .reswait =>
      s.timeLeft + (if s.timeLeft = 0 then s.byteLeft else transferTime s.spi.divrefReg + 1) +
        (s.dma.dmarefcountReg.toNat + 1) * (transferTime s.spi.divrefReg + 1)
  | .readset | .readwait =>
      s.byteLeft + (s.dma.dmarefcountReg.toNat - s.dma.dmareadCount.toNat) *
        (transferTime s.spi.divrefReg + 1)

/-- What holds of the registers while a DMA runs. The count must not pass the reference count,
with which it is compared for equality. -/
structure Mmcdma.Running (s : Mmcdma) : Prop where
  bounded : s.spi.Bounded
  consistent : s.Consistent
  fresh : s.dma.state = .resset ∨ s.dma.state = .reswait → s.dma.dmareadCount = 0
  count : s.dma.dmareadCount.toNat ≤ s.dma.dmarefcountReg.toNat

/-- A byte that completes below the reference count stays below it. -/
theorem count_succ {count c : BitVec 9} (within : count.toNat ≤ c.toNat) (more : count ≠ c) :
    (count + 1).toNat = count.toNat + 1 ∧ count.toNat < c.toNat := by
  have below : count.toNat < c.toNat := by
    rcases Nat.lt_or_eq_of_le within with below | same
    · exact below
    · exact absurd (BitVec.eq_of_toNat_eq same) more
  have := c.isLt
  refine ⟨?_, below⟩
  rw [BitVec.toNat_add, show (1 : BitVec 9).toNat = 1 from rfl]
  omega

theorem Mmcdma.Running.step (h : s.Running) (running : s.dma.dmadoneReg = false) {i : Input}
    (keeps : i.KeepsRefcount s.dma.dmarefcountReg) : (s.step i).Running := by
  have fresh := h.fresh
  have count := h.count
  refine ⟨Spi.step_bounded _ _ h.bounded, h.consistent.step i, ?_, ?_⟩
  · intro asking
    cases turn_running h.consistent running i with
    | asked before _ same =>
        rw [same]
        exact fresh (.inl before)
    | waits _ _ after same =>
        rw [same]
        rw [after] at asking
        exact fresh asking
    | asksAgain before _ _ same =>
        rw [same]
        exact fresh (.inr before)
    | fetched _ after _ | token _ _ after _ | stored _ _ after _ | ends _ after _ =>
        rw [after] at asking
        exact absurd asking (by decide)
  · rw [refcount_running keeps]
    cases turn_running h.consistent running i with
    | stored _ more _ counted =>
        obtain ⟨succ, below⟩ := count_succ count more
        rw [counted, succ]
        exact below
    | asked _ _ same | fetched _ _ same | waits _ _ _ same | asksAgain _ _ _ same | token _ _ _ same | ends _ _ same =>
        rw [same]
        exact count

/-- A byte that is asked for is decided within the time of a transfer. -/
theorem remaining_after (h : s.Running) (running : s.dma.dmadoneReg = false) (i : Input) :
    (s.step i).spi.remaining < transferTime s.spi.divrefReg := by
  have bound := (Spi.step_bounded (s.spiInput i) s.spi h.bounded).remaining_le
  rw [transferTime, ← divref_running running i]
  exact Nat.lt_succ_of_le bound

/-- A clock of waiting brings the byte nearer. -/
theorem remaining_wait (h : s.Running) (waiting : s.spi.exitReg = false) (i : Input) :
    (s.step i).spi.remaining + 1 = s.spi.remaining := by
  apply h.bounded.remaining_step
  intro idle
  rw [h.consistent.exit, idle] at waiting
  exact absurd waiting (by decide)

/-- There are clocks left while the sequencer waits for a byte. -/
theorem clocksLeft_pos (waits : s.dma.state = .reswait ∨ s.dma.state = .readwait) : 0 < s.clocksLeft := by
  unfold Mmcdma.clocksLeft Mmcdma.byteLeft
  rcases waits with st | st
  · have rest : 0 < (s.dma.dmarefcountReg.toNat + 1) * (transferTime s.spi.divrefReg + 1) :=
      Nat.mul_pos (Nat.succ_pos _) (Nat.succ_pos _)
    simp only [st]
    omega
  · simp only [st]
    omega

/-- Every clock of a running DMA brings its end nearer. -/
theorem Mmcdma.Running.clocksLeft_step (h : s.Running) (running : s.dma.dmadoneReg = false) {i : Input}
    (keeps : i.KeepsRefcount s.dma.dmarefcountReg) : (s.step i).clocksLeft < s.clocksLeft := by
  have refcount := refcount_running keeps
  have divref := divref_running running i
  have time := timeLeft_step running i
  have after := remaining_after h running i
  cases turn_running h.consistent running i with
  | asked before state _ =>
      simp only [Mmcdma.clocksLeft, Mmcdma.byteLeft, before, state, refcount, divref, time]
      split <;> split <;> omega
  | fetched before state same =>
      simp only [Mmcdma.clocksLeft, Mmcdma.byteLeft, before, state, refcount, divref, same]
      omega
  | waits before waiting state same =>
      have nearer := remaining_wait h waiting i
      rcases before with before | before
      · rw [before] at state
        simp only [Mmcdma.clocksLeft, Mmcdma.byteLeft, before, state, refcount, divref, time]
        split <;> split <;> omega
      · rw [before] at state
        simp only [Mmcdma.clocksLeft, Mmcdma.byteLeft, before, state, refcount, divref, same]
        omega
  | asksAgain before inTime state _ =>
      have left := timeLeft_pos inTime
      simp only [Mmcdma.clocksLeft, Mmcdma.byteLeft, before, state, refcount, divref, time]
      split <;> split <;> omega
  | token before inTime state same =>
      -- the time that was left for the token pays for the first byte
      have left := timeLeft_pos inTime
      have all : (s.dma.dmarefcountReg.toNat + 1) * (transferTime s.spi.divrefReg + 1) =
          s.dma.dmarefcountReg.toNat * (transferTime s.spi.divrefReg + 1) + (transferTime s.spi.divrefReg + 1) :=
        Nat.succ_mul ..
      rw [h.fresh (.inr before)] at same
      simp only [Mmcdma.clocksLeft, Mmcdma.byteLeft, before, state, refcount, divref, same, BitVec.ofNat_eq_ofNat,
        BitVec.toNat_ofNat, Nat.zero_mod, Nat.sub_zero, if_neg (Nat.ne_of_gt left)]
      omega
  | stored before more state counted =>
      obtain ⟨succ, below⟩ := count_succ h.count more
      have bytes : s.dma.dmarefcountReg.toNat - s.dma.dmareadCount.toNat =
          (s.dma.dmarefcountReg.toNat - (s.dma.dmareadCount.toNat + 1)) + 1 := by omega
      simp only [Mmcdma.clocksLeft, Mmcdma.byteLeft, before, state, refcount, divref, counted, succ]
      rw [bytes, Nat.succ_mul (s.dma.dmarefcountReg.toNat - (s.dma.dmareadCount.toNat + 1))]
      omega
  | ends before state _ =>
      have none : (s.step i).clocksLeft = 0 := by simp only [Mmcdma.clocksLeft, state]
      rw [none]
      exact clocksLeft_pos before

end

/-! ## The whole transfer -/

/-- The clocks a DMA takes at most: with divider `d`, the counter at `f` and the reference
count `c`. -/
def dmaTime (d : BitVec 8) (f : Nat) (c : BitVec 9) : Nat :=
  f + 1 + (c.toNat + 2) * (transferTime d + 1)

theorem run_bounded (w : Nat → Input) {s : Mmcdma} (reset : s.IsReset) (t : Nat) :
    (run Mmcdma.step w s t).spi.Bounded := by
  rw [run_spi]
  exact run_invariant Spi.step_bounded _ reset.spi.bounded t

/-- The registers in the first clock of a DMA. -/
theorem running_start {i : Input} {s : Mmcdma} (bounded : s.spi.Bounded) (consistent : s.Consistent)
    (idle : s.dma.dmadoneReg = true) (started : (s.step i).dma.dmadoneReg = false) :
    (s.step i).Running ∧ (s.step i).dma.state = .resset := by
  have st := consistent.idle idle
  have begun : (s.step i).dma.state = .resset ∧ (s.step i).dma.dmareadCount = 0 := by
    simp only [Mmcdma.step, Dma.step, Dma.sequence, st] at started ⊢
    split at started
    · next start => simp only [start, if_true, and_self]
    · exact absurd (idle.symm.trans started) (by decide)
  refine ⟨⟨Spi.step_bounded _ _ bounded, consistent.step i, fun _ => begun.2, ?_⟩, begun.1⟩
  rw [begun.2]
  exact Nat.zero_le _

/-- The registers after `n` clocks of a DMA that still runs in the last of them. -/
structure StillRunning (w : Nat → Input) (s : Mmcdma) (n : Nat) : Prop where
  running : (run Mmcdma.step w s n).Running
  refcount : (run Mmcdma.step w s n).dma.dmarefcountReg = s.dma.dmarefcountReg
  divref : (run Mmcdma.step w s n).spi.divrefReg = s.spi.divrefReg
  frc : (run Mmcdma.step w s n).spi.frcReg.toNat = s.spi.frcReg.toNat - n

theorem Mmcdma.Running.still {w : Nat → Input} {s : Mmcdma} (start : s.Running) {n : Nat}
    (busy : ∀ v < n, (run Mmcdma.step w s v).dma.dmadoneReg = false)
    (traffic : ∀ v < n, (w v).KeepsRefcount s.dma.dmarefcountReg) : StillRunning w s n := by
  induction n with
  | zero => exact ⟨start, rfl, rfl, rfl⟩
  | succ n ih =>
      obtain ⟨running, refcount, divref, frc⟩ :=
        ih (fun v before => busy v (by omega)) fun v before => traffic v (by omega)
      have here := busy n (Nat.lt_succ_self n)
      have keeps := traffic n (Nat.lt_succ_self n)
      rw [← refcount] at keeps
      refine ⟨running.step here keeps, ?_, ?_, ?_⟩ <;> rw [run_succ]
      · exact (refcount_running keeps).trans refcount
      · exact (divref_running here _).trans divref
      · rw [frc_running here, frc]
        omega

/-- Clock `e` is the first in which the DMA does not run any more; until then the divider
stays and the counter counts down. -/
structure Returns (w : Nat → Input) (s : Mmcdma) (e : Nat) : Prop where
  busy : ∀ u < e, (run Mmcdma.step w s u).dma.dmadoneReg = false
  state : (run Mmcdma.step w s e).dma.state = .idle
  dmadone : (run Mmcdma.step w s e).dma.dmadoneReg = true
  divref : ∀ u < e, (run Mmcdma.step w s u).spi.divrefReg = s.spi.divrefReg
  frc : ∀ u < e, (run Mmcdma.step w s u).spi.frcReg.toNat = s.spi.frcReg.toNat - u

theorem Mmcdma.Running.returns {w : Nat → Input} {s : Mmcdma} (start : s.Running)
    (first : s.dma.state = .resset)
    (traffic : ∀ u, (∀ v ≤ u, (run Mmcdma.step w s v).dma.dmadoneReg = false) →
      (w u).KeepsRefcount s.dma.dmarefcountReg) :
    ∃ e, 0 < e ∧ e ≤ dmaTime s.spi.divrefReg s.spi.frcReg.toNat s.dma.dmarefcountReg ∧
      Returns w s e := by
  have still : ∀ n, (∀ v < n, (run Mmcdma.step w s v).dma.dmadoneReg = false) →
      StillRunning w s n := fun n busy =>
    start.still busy fun v before => traffic v fun u within => busy u (by omega)
  obtain ⟨e, within, ended, before⟩ := exists_idle
    (fun s => s.dma.dmadoneReg = false) Mmcdma.clocksLeft (w := w) (s := s) fun u busy => by
      obtain ⟨running, refcount, -, -⟩ := still u fun v before => busy v (by omega)
      have keeps := traffic u busy
      rw [← refcount] at keeps
      exact running.clocksLeft_step (busy u (Nat.le_refl u)) keeps
  have done : (run Mmcdma.step w s e).dma.dmadoneReg = true := by
    simpa using ended
  have here := fun u (hu : u < e) => still u fun v hv => before v (by omega)
  refine ⟨e, ?_, ?_, before, ?_, done, fun u hu => (here u hu).divref, fun u hu => (here u hu).frc⟩
  · rcases Nat.eq_zero_or_pos e with rfl | positive
    · exact absurd (first.symm.trans (start.consistent.idle done)) (by decide)
    · exact positive
  · refine Nat.le_trans within ?_
    have time := timeLeft_le s
    have split : (s.dma.dmarefcountReg.toNat + 2) * (transferTime s.spi.divrefReg + 1) =
        (s.dma.dmarefcountReg.toNat + 1) * (transferTime s.spi.divrefReg + 1) +
          (transferTime s.spi.divrefReg + 1) := Nat.succ_mul ..
    simp only [Mmcdma.clocksLeft, Mmcdma.byteLeft, first, dmaTime]
    split <;> omega
  · exact (still e before).running.consistent.idle done

/-- In every run from reset a DMA that starts with clock `t + 1` ends, on every card and under
all traffic that leaves the reference count alone: within a time given by the divider, a bound
`f` of the counter and the reference count in that clock. -/
theorem dma_returns (w : Nat → Input) {s : Mmcdma} (reset : s.IsReset) {t f : Nat}
    (idle : (run Mmcdma.step w s t).dma.dmadoneReg = true)
    (started : (run Mmcdma.step w s (t + 1)).dma.dmadoneReg = false)
    (loaded : (run Mmcdma.step w s (t + 1)).spi.frcReg.toNat ≤ f)
    (traffic : ∀ u, (∀ v ≤ u, (run Mmcdma.step w s (t + 1 + v)).dma.dmadoneReg = false) →
      (w (t + 1 + u)).KeepsRefcount (run Mmcdma.step w s (t + 1)).dma.dmarefcountReg) :
    ∃ e, 0 < e ∧
      e ≤ dmaTime (run Mmcdma.step w s (t + 1)).spi.divrefReg f
        (run Mmcdma.step w s (t + 1)).dma.dmarefcountReg ∧
      Returns (shift w (t + 1)) (run Mmcdma.step w s (t + 1)) e := by
  obtain ⟨start, first⟩ := running_start (run_bounded w reset t) (run_consistent w reset t) idle started
  simp only [run_add Mmcdma.step w s (t + 1)] at traffic
  obtain ⟨e, positive, within, returns⟩ := start.returns (w := shift w (t + 1)) first traffic
  refine ⟨e, positive, Nat.le_trans within ?_, returns⟩
  rw [← run_succ Mmcdma.step w s t, dmaTime, dmaTime]
  omega

/-- A write of a register. -/
def registerWrite (address : BitVec 8) (data : BitVec 32) : Input :=
  { twoBytes 1 with chipselect := true, address := address, write := true, writedata := data }

/-- The bus sets the divider and the counter and starts a DMA of two bytes. The card is busy for a byte, then it sends
the token and the data, whose first bit is 0. -/
def receiving (u : Nat) : Input :=
  if u = 0 then registerWrite 1 0
  else if u = 1 then registerWrite 2 1000
  else { twoBytes (u - 2) with mmcSdi := u != 20 && u != 25 && u != 61 }

/-- The two bytes are received, and the DMA is over within the bound. -/
theorem dma_returns_receiving :
    57 ≤ dmaTime 0 1000 1 ∧
      Returns (shift receiving 4) (run Mmcdma.step receiving Mmcdma.powerOn 4) 57 ∧
      let s := run Mmcdma.step receiving Mmcdma.powerOn 61
      s.dma.dmatimoutReg = false ∧ s.dma.dmadataerrReg = false ∧ s.mem 0 = 0x7f ∧ s.mem 1 = 0xff := by
  have quiet : ∀ u, (receiving (3 + 1 + u)).write = false := by
    intro u
    rw [receiving, if_neg (by omega), if_neg (by omega)]
    exact beq_false_of_ne (by omega)
  obtain ⟨e, -, within, returns⟩ := dma_returns (f := 1000) (t := 3) receiving Mmcdma.powerOn_isReset
    (by decide +kernel) (by decide +kernel) (by decide +kernel) fun u _ written => by
      rw [quiet, Bool.and_false, Bool.false_and] at written
      cases written
  rw [show (run Mmcdma.step receiving Mmcdma.powerOn (3 + 1)).spi.divrefReg = 0 by decide +kernel,
    show (run Mmcdma.step receiving Mmcdma.powerOn (3 + 1)).dma.dmarefcountReg = 1 by decide +kernel] at within
  have running : ∀ u < 57, (run Mmcdma.step receiving Mmcdma.powerOn (4 + u)).dma.dmadoneReg = false := by
    decide +kernel
  have ended : (run Mmcdma.step receiving Mmcdma.powerOn (4 + 57)).dma.dmadoneReg = true := by decide +kernel
  have done := returns.dmadone
  rw [← run_add] at done
  obtain rfl : e = 57 := by
    rcases Nat.lt_trichotomy e 57 with early | here | late
    · exact absurd ((running e early).symm.trans done) (by decide)
    · exact here
    · have busy := returns.busy 57 late
      rw [← run_add] at busy
      exact absurd (busy.symm.trans ended) (by decide)
  refine ⟨within, returns, ?_⟩
  decide +kernel

end Cineraria.Mmc
