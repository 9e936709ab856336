import Cineraria.Mmc.Disk
import Cineraria.Mmc.ReadDma

/-!
# The interface between two transfers

The card interface as the driver sees it when it waits for every transfer: a write that
starts a transfer takes the next byte of the card, a write that starts a read DMA has its
outcome, and the timer has run out when it is looked at. `card_startDma` and `card_transfer`
say that this is what the component does.
-/

namespace Cineraria.Mmc

open RegisterIo Bytes Clocked

/-! ## Cards -/

/-- The bytes that a card sends, one in every transfer, and the pins of its socket.
`expire n` is the number of bytes that a read DMA receives before the timeout counter has run
out, if byte `n` of the card is its first. -/
structure Card where
  stream : Nat → BitVec 8
  expire : Nat → Nat
  mmcCd : Bool
  mmcWp : Bool

/-- The interface while no transfer runs. `pos` is the number of bytes that the card has
sent. -/
structure Interface where
  pos : Nat
  rxd : BitVec 8
  ncs : Bool
  dmarefcount : BitVec 9
  dataerr : Bool
  timout : Bool
  mem : BitVec 9 → BitVec 8

/-- Nothing has been accessed. -/
def Interface.initial : Interface := ⟨0, 0, true, 0, false, false, fun _ => 0⟩

/-- The index of the first of `n` bytes that is not a busy byte, and `n` if all are. -/
def firstResponse (r : Nat → BitVec 8) (n : Nat) : Nat :=
  (List.range n).findIdx fun j => r j != 0xFF

namespace Card

variable (card : Card)

/-- The register 0. -/
def status (s : Interface) : BitVec 32 :=
  0#19 ++ 1#1 ++ BitVec.ofBool card.mmcWp ++ BitVec.ofBool card.mmcCd ++ 1#1 ++
    BitVec.ofBool s.ncs ++ s.rxd

/-- The register 4. -/
def dmaStatus (s : Interface) : BitVec 32 :=
  0#17 ++ 1#1 ++ BitVec.ofBool s.dataerr ++ BitVec.ofBool s.timout ++ 0#3 ++ s.dmarefcount

/-- The word `n` of the buffer. -/
def memWord (s : Interface) (n : Nat) : BitVec 32 := le32 (fun k => s.mem (BitVec.ofNat 9 k)) n

/-- The bytes that the card sends from now on. -/
def ahead (s : Interface) (j : Nat) : BitVec 8 := card.stream (s.pos + j)

/-- A transfer. -/
def transfer (s : Interface) : Interface :=
  { s with pos := s.pos + 1, rxd := card.ahead s 0 }

/-- The byte that decides a DMA. -/
def decisive (s : Interface) : Nat := firstResponse (card.ahead s) (card.expire s.pos)

/-- The outcome of a DMA. -/
def dma (s : Interface) : Outcome :=
  outcome s.dmarefcount (card.ahead s) (fun j => decide (card.expire s.pos ≤ j)) (card.decisive s)

/-- The interface after a DMA. The sequencer selects the card. -/
def startDma (s : Interface) : Interface :=
  let o := card.dma s
  { s with
    pos := s.pos + o.bytes
    rxd := card.ahead s (o.bytes - 1)
    ncs := false
    dataerr := o.dataerr
    timout := o.timout
    mem := o.writes.foldl (fun mem p => Function.update mem p.1 p.2) s.mem }

/-- A register read: the registers that the driver does not read are zero. -/
def read (reg : Nat) (s : Interface) : BitVec 32 × Interface :=
  match reg with
  | 0 => (card.status s, s)
  | 4 => (dmaStatus s, s)
  | reg => (if 128 ≤ reg then memWord s ((reg - 128) % 128) else 0, s)

/-- A register write. -/
def write (reg : Nat) (data : BitVec 32) (s : Interface) : Interface :=
  match reg with
  | 0 =>
      let s := { s with ncs := data.getLsbD 8 }
      if data.getLsbD 9 then s else card.transfer s
  | 4 =>
      let s := { s with dmarefcount := data.setWidth 9 }
      if data.getLsbD 10 then card.startDma s else s
  | _ => s

/-- The device that the driver works on. -/
def device : Device Interface := Device.ofFunctions card.read card.write

end Card

/-! ## Register words -/

section
variable (card : Card) (s : Interface)

theorem status_exit : (card.status s).getLsbD 9 = true := by
  simp only [Card.status, BitVec.getLsbD_append]
  simp

theorem status_rxd : (card.status s &&& 0xff).setWidth 8 = s.rxd := by
  rw [BitVec.setWidth_and, show (0xff : BitVec 32).setWidth 8 = BitVec.allOnes 8 by decide,
    BitVec.and_allOnes]
  apply BitVec.eq_of_getLsbD_eq
  intro i hi
  simp only [Card.status, BitVec.getLsbD_setWidth, BitVec.getLsbD_append, hi, decide_true,
    Bool.true_and, if_true]

theorem status_wp : (card.status s).getLsbD 11 = card.mmcWp := by
  simp only [Card.status, BitVec.getLsbD_append]
  simp

theorem status_cd : (card.status s).getLsbD 10 = card.mmcCd := by
  simp only [Card.status, BitVec.getLsbD_append]
  simp

theorem dmaStatus_done : (Card.dmaStatus s).getLsbD 14 = true := by
  simp only [Card.dmaStatus, BitVec.getLsbD_append]
  simp

/-- The error mask tests the two flags. -/
theorem dmaStatus_errors :
    Card.dmaStatus s &&& (mmcDmadeBitmask ||| mmcDmatoBitmask) ≠ 0 ↔
      s.dataerr = true ∨ s.timout = true := by
  have dataerr : (Card.dmaStatus s).getLsbD 13 = s.dataerr := by
    simp only [Card.dmaStatus, BitVec.getLsbD_append]
    simp
  have timout : (Card.dmaStatus s).getLsbD 12 = s.timout := by
    simp only [Card.dmaStatus, BitVec.getLsbD_append]
    simp
  have first := test_bit (Card.dmaStatus s) (show 13 < 32 by decide)
  have second := test_bit (Card.dmaStatus s) (show 12 < 32 by decide)
  rw [dataerr] at first
  rw [timout] at second
  rw [mmcDmadeBitmask, mmcDmatoBitmask, BitVec.and_or_distrib_left, ← first, ← second]
  change ¬ _ = 0#32 ↔ _
  rw [BitVec.or_eq_zero_iff, not_and_or, bne_iff_ne, bne_iff_ne]
  rfl

end

/-! ## The first response -/

section
variable {r : Nat → BitVec 8} {n : Nat}

theorem firstResponse_le (r : Nat → BitVec 8) (n : Nat) : firstResponse r n ≤ n := by
  have within : firstResponse r n ≤ (List.range n).length := List.findIdx_le_length
  rwa [List.length_range] at within

theorem firstResponse_busy {j : Nat} (before : j < firstResponse r n) : r j = 0xFF := by
  have busy := List.not_of_lt_findIdx before
  simpa using busy

theorem firstResponse_decides (early : firstResponse r n < n) : r (firstResponse r n) ≠ 0xFF := by
  have found := List.findIdx_getElem (w := show firstResponse r n < (List.range n).length by simpa)
  simpa [firstResponse] using found

/-- A byte with which the busy bytes end is the first response. -/
theorem firstResponse_eq {k : Nat} (busy : ∀ j < k, r j = 0xFF) (within : k ≤ n)
    (decides : k = n ∨ r k ≠ 0xFF) : firstResponse r n = k := by
  rcases Nat.lt_trichotomy (firstResponse r n) k with less | same | more
  · exact absurd (busy _ less) (firstResponse_decides (by omega))
  · exact same
  · rcases decides with rfl | response
    · exact absurd more (Nat.not_lt_of_le (firstResponse_le r k))
    · exact absurd (firstResponse_busy more) response

end

/-! ## The component at rest -/

/-- The component `s` is at rest and shows what the interface `i` shows. -/
structure Interface.Shows (i : Interface) (s : Mmcdma) : Prop where
  ready : s.Ready
  rxd : s.spi.rxddata = i.rxd
  ncs : s.spi.ncsReg = i.ncs
  refcount : s.dma.dmarefcountReg = i.dmarefcount
  dataerr : s.dma.dmadataerrReg = i.dataerr
  timout : s.dma.dmatimoutReg = i.timout
  mem : s.mem = i.mem

/-- The select line follows the writes that an idle engine takes. -/
theorem step_ncsReg (i : SpiInput) (s : Spi) :
    (s.step i).ncsReg =
      if s.state = .idle ∧ i.writes 0 = true then i.writedata.getLsbD 8 else s.ncsReg := by
  cases st : s.state <;> simp only [Spi.step, Spi.engine, st]
  case idle =>
      by_cases written : i.writes 0 = true
      · simp only [if_pos written, true_and]
      · simp only [if_neg written, true_and]
        split <;> rfl
  all_goals
    simp only [reduceCtorEq, false_and, if_false]
    split <;> rfl

/-- A clock after which the engine is idle shifts nothing in. -/
theorem step_rxddata {i : SpiInput} {s : Spi} (idle : (s.step i).state = .idle) :
    (s.step i).rxddata = s.rxddata := by
  cases st : s.state <;> simp only [Spi.step, Spi.engine, st] at idle ⊢
  case idle =>
      split
      · split <;> rfl
      · split <;> rfl
  case sdi =>
      split at idle
      · split at idle <;> cases idle
      · cases idle
  all_goals split <;> rfl

section
variable {w : Nat → Input} {s : Mmcdma} {c : BitVec 9}

/-- The reference count stays while the bus does not write. -/
theorem run_refcount (ready : s.Ready) (start : (w 0).StartsDma c)
    (quiet : ∀ u, 0 < u → (w u).quiet) {t : Nat} (positive : 0 < t) :
    (run Mmcdma.step w s t).dma.dmarefcountReg = c := by
  induction t, positive using Nat.le_induction with
  | base =>
      have request := (request_start ready start (quiet 1 Nat.one_pos)).1.refcount
      rw [show (2 : Nat) = 1 + 1 from rfl, run_succ] at request
      have kept := busStep_quiet (quiet 1 Nat.one_pos) (run Mmcdma.step w s 1).dma
      rw [← request]
      simp only [Mmcdma.step, Dma.step, kept]
  | succ t positive ih =>
      rw [run_succ, Mmcdma.step]
      simp only [Dma.step, busStep_quiet (quiet t positive), ih]

/-- The sequencer keeps the card selected. -/
theorem run_ncs (ready : s.Ready) (start : (w 0).StartsDma c) (quiet : ∀ u, 0 < u → (w u).quiet)
    {e : Nat} (low : ∀ u, 2 ≤ u → u < e → (run Mmcdma.step w s u).dma.dmadoneReg = false)
    {t : Nat} (later : 3 ≤ t) (within : t ≤ e) : (run Mmcdma.step w s t).spi.ncsReg = false := by
  induction t, later using Nat.le_induction with
  | base =>
      have request := (request_start ready start (quiet 1 Nat.one_pos)).1
      have asks : ((run Mmcdma.step w s 2).spiInput (w 2)).writes 0 = true := by
        simp [spiInput_running request.dmadone, SpiInput.writes, request.mmcifwr]
      rw [show (3 : Nat) = 2 + 1 from rfl, run_succ, Mmcdma.step]
      simp only
      rw [step_ncsReg, if_pos ⟨request.idle, asks⟩, spiInput_running request.dmadone]
      exact (by decide : (0xFF : BitVec 32).getLsbD 8 = false)
  | succ t later ih =>
      rw [run_succ, Mmcdma.step]
      simp only
      rw [step_ncsReg, spiInput_running (low t (by omega) (by omega)), ih (by omega)]
      split
      · exact (by decide : (0xFF : BitVec 32).getLsbD 8 = false)
      · rfl

end

theorem outcome_bytes_pos (c : BitVec 9) (r : Nat → BitVec 8) (z : Nat → Bool) (k : Nat) :
    0 < (outcome c r z k).bytes := by
  unfold outcome
  split
  · exact Nat.succ_pos k
  · split
    · exact Nat.succ_pos k
    · simp only
      omega

/-- There is a number of bytes after which the timeout counter has run out. -/
theorem exists_expire {w : Nat → Input} {s : Mmcdma} {c : BitVec 9} (start : (w 0).StartsDma c)
    (quiet : ∀ u, 0 < u → (w u).quiet) : ∃ n, ∀ j, dmaZero w s j = decide (n ≤ j) := by
  have exhausted : ∃ n, s.spi.frcReg.toNat < doneAt s.spi.divrefReg n := by
    refine ⟨s.spi.frcReg.toNat, ?_⟩
    have := Nat.le_mul_of_pos_right s.spi.frcReg.toNat
      (show 0 < transferTime s.spi.divrefReg + 1 by omega)
    simp only [doneAt, askedAt]
    omega
  refine ⟨Nat.find exhausted, fun j => ?_⟩
  rw [dmaZero_eq start fun u positive _ => quiet u positive, decide_eq_decide]
  constructor
  · intro early
    exact Nat.find_min' exhausted early
  · intro later
    have first := Nat.find_spec exhausted
    generalize Nat.find exhausted = n at first later
    have order := Nat.mul_le_mul_right (transferTime s.spi.divrefReg + 1) later
    simp only [doneAt, askedAt] at first ⊢
    omega

/-- A read DMA of the component is the DMA of a card that sends the same bytes and lets the
timeout counter run out at the same byte. -/
theorem card_startDma {w : Nat → Input} {s : Mmcdma} {i : Interface} (shows : i.Shows s)
    (start : (w 0).StartsDma i.dmarefcount) (quiet : ∀ u, 0 < u → (w u).quiet) {card : Card}
    (stream : ∀ j, card.ahead i j = dmaByte w s j)
    (expire : ∀ j, dmaZero w s j = decide (card.expire i.pos ≤ j)) :
    Ends w s s.spi.divrefReg (endAt s (card.dma i).bytes) (card.dma i) ∧
    (card.startDma i).Shows (run Mmcdma.step w s (endAt s (card.dma i).bytes)) := by
  have same : card.dma i =
      outcome i.dmarefcount (dmaByte w s) (dmaZero w s) (card.decisive i) := by
    rw [Card.dma, funext stream, funext expire]
  have busy : ∀ j < card.decisive i, dmaZero w s j = false ∧ dmaByte w s j = 0xFF := by
    intro j before
    have within := firstResponse_le (card.ahead i) (card.expire i.pos)
    rw [expire, decide_eq_false_iff_not, ← stream]
    exact ⟨fun late => by rw [Card.decisive] at before; omega, firstResponse_busy before⟩
  have decides : dmaZero w s (card.decisive i) = true ∨ dmaByte w s (card.decisive i) ≠ 0xFF := by
    rcases Nat.lt_or_ge (card.decisive i) (card.expire i.pos) with early | late
    · right
      rw [← stream]
      exact firstResponse_decides early
    · left
      rw [expire, decide_eq_true_eq]
      exact late
  have ends := readDma_ends shows.ready start busy decides fun u positive _ => quiet u positive
  rw [← same] at ends
  obtain ⟨n, bytes⟩ : ∃ n, (card.dma i).bytes = n + 1 :=
    Nat.exists_eq_succ_of_ne_zero (Nat.ne_of_gt (outcome_bytes_pos _ _ _ _))
  have last : endAt s (n + 1) = doneAt s.spi.divrefReg n + 1 := by
    rw [endAt, askedAt_succ, doneAt, Nat.add_assoc]
  refine ⟨ends, ⟨?_, ?_, ?_, ?_, ?_, ?_, ?_⟩⟩
  · exact ⟨shows.ready.consistent.run _ _, ends.state, ends.dmastart, ends.engine⟩
  · have idle := ends.engine
    have rxd := ends.rxd n (by omega)
    rw [bytes, last, run_succ] at idle ⊢
    rw [Mmcdma.step, step_rxddata idle, rxd]
    simp only [Card.startDma, bytes, Nat.add_sub_cancel, stream]
    rfl
  · refine run_ncs shows.ready start quiet ends.low ?_ (Nat.le_refl _)
    rw [bytes, last, doneAt, askedAt, transferTime]
    omega
  · exact run_refcount shows.ready start quiet (by rw [bytes, last]; exact Nat.succ_pos _)
  · exact ends.dataerr
  · exact ends.timout
  · rw [ends.mem, shows.mem]
    rfl

/-- Every read DMA of the component is the DMA of some card. -/
theorem exists_card_startDma {w : Nat → Input} {s : Mmcdma} {i : Interface} (shows : i.Shows s)
    (start : (w 0).StartsDma i.dmarefcount) (quiet : ∀ u, 0 < u → (w u).quiet) :
    ∃ card : Card, (∀ j, card.ahead i j = dmaByte w s j) ∧
      (card.startDma i).Shows (run Mmcdma.step w s (endAt s (card.dma i).bytes)) := by
  obtain ⟨n, expire⟩ := exists_expire start quiet
  refine ⟨⟨fun k => dmaByte w s (k - i.pos), fun _ => n, (w 0).mmcCd, (w 0).mmcWp⟩, ?_, ?_⟩
  · intro j
    simp only [Card.ahead, Nat.add_sub_cancel_left]
  · refine (card_startDma shows start quiet (fun j => ?_) expire).2
    simp only [Card.ahead, Nat.add_sub_cancel_left]

/-! ## A transfer of the component -/

section
variable {w : Nat → Input} {s : Mmcdma}

/-- While no DMA is started nothing changes on the side of the sequencer. -/
theorem run_resting (ready : s.Ready) (unwritten : ∀ u, ((w u).dmaregselSig && (w u).write) = false)
    (t : Nat) :
    (run Mmcdma.step w s t).dma =
      { s.dma with dmareadCount := (run Mmcdma.step w s t).dma.dmareadCount } ∧
    (run Mmcdma.step w s t).mem = s.mem := by
  induction t with
  | zero => exact ⟨rfl, rfl⟩
  | succ t ih =>
      obtain ⟨dma, mem⟩ := ih
      have idle : (run Mmcdma.step w s t).dma.state = .idle := by rw [dma]; exact ready.state
      have start : (run Mmcdma.step w s t).dma.dmastartReg = false := by rw [dma]; exact ready.dmastart
      rw [run_succ, Mmcdma.step]
      constructor
      · simp only [Dma.step, Dma.busStep, Dma.sequence, unwritten, idle, start, Bool.false_and,
          Bool.false_eq_true, if_false, if_true]
        rw [dma]
        simp only [ready.state, ready.dmastart]
      · funext a
        simp [Mmcdma.dmamemwrSig, idle, mem]

/-- Between two DMAs the bus owns the engine. -/
theorem spiInput_done (done : s.dma.dmadoneReg = true) (i : Input) :
    s.spiInput i = ⟨true, i.address.extractLsb' 0 2, i.mmcregselSig && i.write, i.writedata,
      i.mmcSdi, i.mmcCd, i.mmcWp⟩ := by
  simp only [Mmcdma.spiInput, done, if_true]

/-- The bus write that starts a transfer. -/
structure Input.StartsTransfer (i : Input) : Prop where
  select : i.mmcregselSig = true
  write : i.write = true
  address : i.address.extractLsb' 0 2 = 0
  start : i.writedata.getLsbD 9 = false

/-- Neither the write that starts a transfer nor anything after it reaches the sequencer. -/
theorem unwritten_of_start (start : (w 0).StartsTransfer) (quiet : ∀ u, 0 < u → (w u).quiet) (u : Nat) :
    ((w u).dmaregselSig && (w u).write) = false := by
  rcases Nat.eq_zero_or_pos u with rfl | positive
  · have select : (w 0).address.extractLsb' 2 6 = 0 := by
      have chosen := start.select
      simp only [Input.mmcregselSig, Bool.and_eq_true, beq_iff_eq] at chosen
      exact chosen.2
    simp [Input.dmaregselSig, select]
  · have still := quiet u positive
    simp only [Input.quiet] at still
    rw [Input.dmaregselSig, Bool.and_right_comm, still, Bool.false_and]

theorem writes_start (start : (w 0).StartsTransfer) (done : s.dma.dmadoneReg = true) :
    (s.spiInput (w 0)).writes 0 = true := by
  simp [spiInput_done done (w 0), SpiInput.writes, start.select, start.write, start.address]

/-- The select line stays as it was written. -/
theorem ncs_of_start (idle : s.spi.state = .idle) (done : ∀ t, (run Mmcdma.step w s t).dma.dmadoneReg = true)
    (start : (w 0).StartsTransfer) (quiet : ∀ u, 0 < u → (w u).quiet) {t : Nat} (positive : 0 < t) :
    (run Mmcdma.step w s t).spi.ncsReg = (w 0).writedata.getLsbD 8 := by
  have isDone : s.dma.dmadoneReg = true := done 0
  induction t, positive using Nat.le_induction with
  | base =>
      rw [run_succ, run_zero, Mmcdma.step]
      dsimp only
      rw [step_ncsReg, if_pos ⟨idle, writes_start start isDone⟩, spiInput_done isDone]
  | succ t positive ih =>
      have unheard : ((run Mmcdma.step w s t).spiInput (w t)).writes 0 = false := by
        rw [spiInput_done (done t), SpiInput.writes, (quiet t positive).mmcregsel]
        rfl
      rw [run_succ, Mmcdma.step]
      dsimp only
      rw [step_ncsReg, unheard, if_neg fun h => Bool.false_ne_true h.2]
      exact ih

/-- A transfer of the component takes the next byte of a card that sends the same byte. -/
theorem card_transfer {i : Interface} (shows : i.Shows s) (start : (w 0).StartsTransfer)
    (quiet : ∀ u, 0 < u → (w u).quiet) {card : Card}
    (stream : card.ahead i 0 = received w s.spi.divrefReg 0) :
    (card.write 0 (w 0).writedata i).Shows
      (run Mmcdma.step w s (transferTime s.spi.divrefReg)) := by
  have resting := run_resting shows.ready (unwritten_of_start start quiet)
  have done : ∀ t, (run Mmcdma.step w s t).dma.dmadoneReg = true := by
    intro t
    rw [(resting t).1]
    exact shows.ready.consistent.dmadone.trans (by rw [shows.ready.state]; rfl)
  have isDone : s.dma.dmadoneReg = true := done 0
  have starts : (spiWave w s 0).starts = true := by
    rw [spiWave, run_zero, SpiInput.starts, writes_start start isDone, spiInput_done isDone, start.start]
    rfl
  obtain ⟨busy, idle, exit, divref, rxd⟩ := spi_transfer shows.ready.engine starts
  have after : card.write 0 (w 0).writedata i =
      card.transfer { i with ncs := (w 0).writedata.getLsbD 8 } := by
    simp only [Card.write, start.start, Bool.false_eq_true, if_false]
  have dma := (resting (transferTime s.spi.divrefReg)).1
  rw [after]
  refine ⟨⟨shows.ready.consistent.run _ _, ?_, ?_, ?_⟩, ?_, ?_, ?_, ?_, ?_, ?_⟩
  · rw [dma]
    exact shows.ready.state
  · rw [dma]
    exact shows.ready.dmastart
  · rw [run_spi]
    exact idle
  · rw [run_spi, rxd]
    exact stream.symm
  · exact ncs_of_start shows.ready.engine done start quiet (Nat.succ_pos _)
  · rw [dma]
    exact shows.refcount
  · rw [dma]
    exact shows.dataerr
  · rw [dma]
    exact shows.timout
  · rw [(resting _).2]
    exact shows.mem

end

end Cineraria.Mmc
