import Cineraria.Mmc.BufferCopy
import Cineraria.Mmc.Card

/-!
# Data packets

The two builds of `rcvr_datablock` on a card. Both wait for the token; the polled one then
receives the bytes one after another, the other one has them received by the DMA and copies
the buffer. The byte count of the DMA goes through an argument of eight bits that counts
pairs, which is right for sectors only.
-/

namespace Cineraria.Mmc

open RegisterIo Bytes

/-! ## The driver on a card -/

/-- A byte that is clocked while the driver's `mmc_spi_ncs` is `ncs`. -/
def Card.clock (card : Card) (ncs : Ncs) (s : Interface) : Interface :=
  card.transfer { s with ncs := ncs == .selnegete }

/-- The word that starts the transfer of `0xFF`. -/
def recvWord (ncs : Ncs) : BitVec 32 := mmcCommstart ||| ncs.word ||| 0xff

section
variable {card : Card} {v v' : Vars} {s s' : Interface}

@[simp] theorem clock_pos (card : Card) (ncs : Ncs) (s : Interface) :
    (card.clock ncs s).pos = s.pos + 1 := rfl

theorem clocks_pos (card : Card) (ncs : Ncs) (s : Interface) (n : Nat) :
    ((card.clock ncs)^[n] s).pos = s.pos + n := by
  induction n with
  | zero => rfl
  | succ n ih =>
      rw [Function.iterate_succ_apply', clock_pos, ih]
      rfl

theorem ahead_add (card : Card) {s s' : Interface} {n : Nat} (moved : s'.pos = s.pos + n) (j : Nat) :
    card.ahead s' j = card.ahead s (n + j) := by
  rw [Card.ahead, Card.ahead, moved, Nat.add_assoc]

theorem iowr_card {reg : Nat} {data : BitVec 32} {u : Unit} :
    Runs card.device (iowr reg data) v s u v' s' ↔
      v' = v.log [(reg, data)] ∧ s' = card.write reg data s := by
  rw [iowr_runs]
  exact and_congr_right fun _ => eq_comm

theorem iord_card {reg : Nat} {x : BitVec 32} :
    Runs card.device (iord reg) v s x v' s' ↔ v' = v ∧ (x, s') = card.read reg s := by
  rw [iord, runs_iord]
  exact and_congr_right fun _ => eq_comm

theorem iord_dmastatus {x : BitVec 32} :
    Runs card.device (iord mmcregDmastatus) v s x v' s' ↔
      v' = v ∧ x = Card.dmaStatus s ∧ s' = s := by
  rw [iord_card]
  exact and_congr_right fun _ => Prod.ext_iff

/-- The engine is idle whenever it is looked at. -/
theorem waitFor_status {x : BitVec 32} :
    Runs card.device (waitFor mmcregStatus mmcCommexit) v s x v' s' ↔
      v' = v ∧ x = card.status s ∧ s' = s := by
  have met : (card.status s &&& mmcCommexit != 0) = true := by
    rw [mmcCommexit, test_bit _ (by decide), status_exit]
  rw [waitFor, runs_poll, Card.device, polls_ofFunctions met]
  exact and_congr_right fun _ => Prod.ext_iff

/-- The DMA is done whenever it is looked at. -/
theorem waitFor_dmastatus {x : BitVec 32} :
    Runs card.device (waitFor mmcregDmastatus mmcDmadoneBitmask) v s x v' s' ↔
      v' = v ∧ x = Card.dmaStatus s ∧ s' = s := by
  have met : (Card.dmaStatus s &&& mmcDmadoneBitmask != 0) = true := by
    rw [mmcDmadoneBitmask, test_bit _ (by decide), dmaStatus_done]
  rw [waitFor, runs_poll, Card.device, polls_ofFunctions met]
  exact and_congr_right fun _ => Prod.ext_iff

theorem write_recvWord (ncs : Ncs) : card.write mmcregStatus (recvWord ncs) s = card.clock ncs s := by
  have bit9 : (recvWord ncs).getLsbD 9 = false := by cases ncs <;> decide
  have bit8 : (recvWord ncs).getLsbD 8 = (ncs == .selnegete) := by cases ncs <;> decide
  rw [mmcregStatus, Card.write, bit9, bit8]
  rfl

theorem mmcSpiRecvbyte_card {x : BitVec 8} :
    Runs card.device mmcSpiRecvbyte v s x v' s' ↔
      x = card.ahead s 0 ∧ v' = v.log [(mmcregStatus, recvWord v.mmcSpiNcs)] ∧
        s' = card.clock v.mmcSpiNcs s := by
  simp only [mmcSpiRecvbyte, runs_bind, runs_vars, runs_pure, waitFor_status, iowr_card]
  constructor
  · rintro ⟨_, _, _, ⟨rfl, rfl, rfl⟩, _, _, _, ⟨rfl, rfl, rfl⟩, _, _, _, ⟨rfl, rfl⟩, _, _, _,
      ⟨rfl, rfl, rfl⟩, rfl, rfl, rfl⟩
    rw [status_rxd, ← recvWord, write_recvWord]
    exact ⟨rfl, rfl, rfl⟩
  · rintro ⟨rfl, rfl, rfl⟩
    refine ⟨_, _, _, ⟨rfl, rfl, rfl⟩, _, _, _, ⟨rfl, rfl, rfl⟩, (), _, _, ⟨rfl, rfl⟩, _, _, _,
      ⟨rfl, rfl, rfl⟩, ?_⟩
    rw [status_rxd, ← recvWord, write_recvWord]
    exact ⟨rfl, rfl, rfl⟩

/-- The bytes received are the next ones of the card. -/
theorem rcvrBytes_card {n : Nat} {l : List (BitVec 8)} :
    Runs card.device (rcvrBytes n) v s l v' s' ↔
      l = (List.range n).map (card.ahead s) ∧
      v' = v.log (List.replicate n (mmcregStatus, recvWord v.mmcSpiNcs)) ∧
      s' = (card.clock v.mmcSpiNcs)^[n] s := by
  induction n generalizing v s l v' s' with
  | zero =>
      simp only [rcvrBytes, runs_pure, List.range_zero, List.map_nil, List.replicate_zero,
        Function.iterate_zero, id_eq, Vars.log, List.append_nil]
  | succ n ih =>
      simp only [rcvrBytes, runs_bind, runs_pure, mmcSpiRecvbyte_card, ih]
      have bytes : (List.range (n + 1)).map (card.ahead s) =
          card.ahead s 0 :: (List.range n).map (card.ahead (card.clock v.mmcSpiNcs s)) := by
        rw [List.range_succ_eq_map, List.map_cons, List.map_map]
        refine congrArg (_ :: ·) (List.map_congr_left fun j _ => ?_)
        rw [ahead_add card (clock_pos card v.mmcSpiNcs s) j, Nat.add_comm]
        rfl
      constructor
      · rintro ⟨_, _, _, ⟨rfl, rfl, rfl⟩, _, _, _, ⟨rfl, rfl, rfl⟩, rfl, rfl, rfl⟩
        refine ⟨bytes.symm, ?_, rfl⟩
        rw [Vars.log_log, Vars.log_mmcSpiNcs, List.replicate_succ, List.singleton_append]
      · rintro ⟨rfl, rfl, rfl⟩
        refine ⟨_, _, _, ⟨rfl, rfl, rfl⟩, _, _, _, ⟨rfl, rfl, rfl⟩, bytes, ?_, rfl⟩
        rw [Vars.log_log, Vars.log_mmcSpiNcs, List.replicate_succ, List.singleton_append]

end

/-! ## The copy loops -/

section
variable {card : Card} {v v' : Vars} {s s' : Interface}

/-- The byte `k` of the buffer. -/
def Interface.byte (s : Interface) (k : Nat) : BitVec 8 := s.mem (BitVec.ofNat 9 k)

theorem read_readbuff (card : Card) (s : Interface) (n : Nat) :
    ∃ x, card.read (mmcregReadbuff + n) s = (x, s) := by
  unfold Card.read
  split <;> exact ⟨_, rfl⟩

/-- A card's interface shows its buffer, and a read of it changes nothing. -/
theorem card_showsBuffer (card : Card) (s : Interface) : ShowsBuffer card.device Interface.byte (· = s) where
  read := by
    rintro n s x s' within access rfl
    have value : card.read (mmcregReadbuff + n) s = (le32 s.byte n, s) := by
      unfold Card.read mmcregReadbuff
      split
      · omega
      · omega
      · rw [if_pos (Nat.le_add_right 128 n), Nat.add_sub_cancel_left, Nat.mod_eq_of_lt within]
        rfl
    have same : (x, s') = (le32 s.byte n, s) := access.symm.trans value
    obtain ⟨rfl, rfl⟩ := Prod.mk.inj same
    exact ⟨rfl, rfl, rfl⟩

theorem copyBytes_exists (card : Card) (v : Vars) (s : Interface) (n dnum : Nat) (data32 : Option (BitVec 32)) :
    ∃ stored, Runs card.device (copyBytes dnum data32 n) v s stored v s := by
  induction n generalizing dnum data32 with
  | zero => exact ⟨[], runs_pure.mpr ⟨rfl, rfl, rfl⟩⟩
  | succ n ih =>
      rw [copyBytes]
      split
      · obtain ⟨x, read⟩ := read_readbuff card s dnum
        obtain ⟨stored, run⟩ := ih (dnum + 1) (some (x >>> 8))
        exact ⟨_, runs_bind.mpr ⟨x, v, s, iord_card.mpr ⟨rfl, read.symm⟩,
          runs_bind.mpr ⟨_, _, _, run, runs_pure.mpr ⟨rfl, rfl, rfl⟩⟩⟩⟩
      · obtain ⟨stored, run⟩ := ih dnum (data32.map fun x : BitVec 32 => x >>> 8)
        exact ⟨_, runs_bind.mpr ⟨_, _, _, run, runs_pure.mpr ⟨rfl, rfl, rfl⟩⟩⟩

theorem copyWords_exists (card : Card) (v : Vars) (s : Interface) (cycle dnum : Nat) :
    ∃ r, Runs card.device (copyWords dnum cycle) v s r v s := by
  induction dnum, cycle using copyWords.induct with
  | case1 dnum cycle ih =>
      obtain ⟨x, read⟩ := read_readbuff card s dnum
      obtain ⟨r, run⟩ := ih
      rw [copyWords]
      exact ⟨_, runs_bind.mpr ⟨x, v, s, iord_card.mpr ⟨rfl, read.symm⟩,
        runs_bind.mpr ⟨_, _, _, run, runs_pure.mpr ⟨rfl, rfl, rfl⟩⟩⟩⟩
  | case2 dnum cycle small =>
      rw [copyWords.eq_2 _ _ small]
      exact ⟨_, runs_pure.mpr ⟨rfl, rfl, rfl⟩⟩

theorem copyBuffer_exists (card : Card) (v : Vars) (s : Interface) (aligned : Bool) (cycle : Nat) :
    ∃ stored, Runs card.device (copyBuffer aligned cycle) v s stored v s := by
  unfold copyBuffer
  cases aligned with
  | false =>
      obtain ⟨_, run⟩ := copyBytes_exists card v s cycle 0 none
      exact ⟨_, runs_bind.mpr ⟨_, _, _, runs_pure.mpr ⟨rfl, rfl, rfl⟩,
        runs_bind.mpr ⟨_, _, _, run, runs_pure.mpr ⟨rfl, rfl, rfl⟩⟩⟩⟩
  | true =>
      obtain ⟨r, words⟩ := copyWords_exists card v s cycle 0
      obtain ⟨_, run⟩ := copyBytes_exists card v s r.1 r.2.1 none
      exact ⟨_, runs_bind.mpr ⟨_, _, _, words,
        runs_bind.mpr ⟨_, _, _, run, runs_pure.mpr ⟨rfl, rfl, rfl⟩⟩⟩⟩

end

/-! ## The token -/

/-- The `t`-th byte from now on is the token of a data packet: only busy bytes come before. -/
def Card.TokenAt (card : Card) (s : Interface) (t : Nat) : Prop :=
  (∀ j < t, card.ahead s j = 0xFF) ∧ card.ahead s t = 0xFE

section
variable {card : Card} {s : Interface}

theorem decisive_eq {t : Nat} (early : t < card.expire s.pos) (token : card.TokenAt s t) :
    card.decisive s = t :=
  firstResponse_eq token.1 (Nat.le_of_lt early) (.inr (by rw [token.2]; decide))

/-- With a token in time the DMA receives the packet. -/
theorem dma_token {t : Nat} (early : t < card.expire s.pos) (token : card.TokenAt s t) :
    card.dma s = ⟨t + 1 + (s.dmarefcount.toNat + 1),
      (List.range (s.dmarefcount.toNat + 1)).map fun i =>
        (BitVec.ofNat 9 i, card.ahead s (t + 1 + i)), false, false⟩ := by
  rw [Card.dma, decisive_eq early token, outcome, if_neg (by simpa using early),
    if_neg (not_not_intro token.2)]

/-- A DMA without error has had a token in time. -/
theorem exists_token (dataerr : (card.dma s).dataerr = false) (timout : (card.dma s).timout = false) :
    ∃ t < card.expire s.pos, card.TokenAt s t := by
  unfold Card.dma outcome at dataerr timout
  split at timout
  · cases timout
  case isFalse early =>
    rw [if_neg early] at dataerr
    split at dataerr
    · cases dataerr
    case isFalse token =>
      exact ⟨card.decisive s, by simpa using early, fun j before => firstResponse_busy before,
        not_not.mp token⟩

/-- The buffer after writes to the addresses from 0 on. -/
theorem foldl_update_range (mem : BitVec 9 → BitVec 8) (r : Nat → BitVec 8) {n k : Nat}
    (fits : n ≤ 512) (within : k < n) :
    ((List.range n).map fun i => (BitVec.ofNat 9 i, r i)).foldl
      (fun mem p => Function.update mem p.1 p.2) mem (BitVec.ofNat 9 k) = r k := by
  induction n with
  | zero => exact absurd within (Nat.not_lt_zero k)
  | succ n ih =>
      rw [List.range_succ, List.map_append, List.foldl_append]
      simp only [List.map_cons, List.map_nil, List.foldl_cons, List.foldl_nil]
      rcases Nat.lt_succ_iff_lt_or_eq.mp within with before | rfl
      · have other : BitVec.ofNat 9 k ≠ BitVec.ofNat 9 n := by
          intro same
          have := congrArg BitVec.toNat same
          simp only [BitVec.toNat_ofNat] at this
          omega
        rw [Function.update_of_ne other]
        exact ih (by omega) before
      · rw [Function.update_self]

/-- The bytes of the packet are in the buffer. -/
theorem startDma_byte {t k : Nat} (early : t < card.expire s.pos) (token : card.TokenAt s t)
    (within : k < s.dmarefcount.toNat + 1) : (card.startDma s).byte k = card.ahead s (t + 1 + k) := by
  have fits : s.dmarefcount.toNat + 1 ≤ 512 := s.dmarefcount.isLt
  simp only [Interface.byte, Card.startDma, dma_token early token]
  exact foldl_update_range s.mem (fun i => card.ahead s (t + 1 + i)) fits within

end

/-! ## `rcvr_datablock` with the DMA -/

section
variable {card : Card} {v v' : Vars} {s s' : Interface}

/-- The interface after the DMA that `mmc_spi_DmaRecv` starts. -/
def Card.afterDma (card : Card) (wc : BitVec 8) (s : Interface) : Interface :=
  card.startDma { s with dmarefcount := BitVec.ofNat 9 (cycleOf wc - 1) }

/-- The word that starts the DMA. -/
theorem write_dmastart (wc : BitVec 8) :
    card.write mmcregDmastatus (mmcDmastart ||| BitVec.ofNat 32 (cycleOf wc - 1)) s =
      card.afterDma wc s := by
  have fits : cycleOf wc - 1 < 512 := by
    have := cycleOf_pos wc
    have := cycleOf_le wc
    omega
  have start : (mmcDmastart ||| BitVec.ofNat 32 (cycleOf wc - 1)).getLsbD 10 = true := by
    rw [BitVec.getLsbD_or, show mmcDmastart.getLsbD 10 = true by decide, Bool.true_or]
  have count : (mmcDmastart ||| BitVec.ofNat 32 (cycleOf wc - 1)).setWidth 9 =
      BitVec.ofNat 9 (cycleOf wc - 1) := by
    rw [BitVec.setWidth_or, show mmcDmastart.setWidth 9 = 0#9 by decide, BitVec.zero_or,
      BitVec.setWidth_ofNat_of_le (by decide)]
  simp only [Card.write, mmcregDmastatus, start, count, if_true]
  rfl

/-- The register writes of `mmc_spi_DmaRecv`. -/
def dmaWrites (wc : BitVec 8) : List (Nat × BitVec 32) :=
  [(mmcregTimer, mmcTimecount1ms * 100),
    (mmcregDmastatus, mmcDmastart ||| BitVec.ofNat 32 (cycleOf wc - 1))]

theorem mmcSpiDmaRecv_card {wc : BitVec 8} {aligned : Bool} {r : Nat × List (Option (BitVec 8))} :
    Runs card.device (mmcSpiDmaRecv wc aligned) v s r v' s' ↔
      if (card.afterDma wc s).dataerr = true ∨ (card.afterDma wc s).timout = true then
        r = (1, []) ∧ v' = v.log (dmaWrites wc) ∧ s' = card.afterDma wc s
      else ∃ stored, Runs card.device (copyBuffer aligned (cycleOf wc)) (v.log (dmaWrites wc))
        (card.afterDma wc s) stored v' s' ∧ r = (0, stored) := by
  have timer : card.write mmcregTimer (mmcTimecount1ms * 100) s = s := rfl
  simp only [mmcSpiDmaRecv, mmcSpiSetTimer, runs_bind, waitFor_status, waitFor_dmastatus, iowr_card,
    iord_dmastatus, and_assoc, existsAndEq, exists_const, true_and, timer, write_dmastart,
    Vars.log_log, List.cons_append, List.nil_append, ← dmaWrites.eq_def]
  by_cases failed : (card.afterDma wc s).dataerr = true ∨ (card.afterDma wc s).timout = true
  · rw [if_pos ((dmaStatus_errors _).mpr failed), if_pos failed, runs_pure]
  · rw [if_neg (mt (dmaStatus_errors _).mp failed), if_neg failed]
    simp only [runs_bind, runs_pure]
    constructor
    · rintro ⟨stored, _, _, copied, rfl, rfl, rfl⟩
      exact ⟨stored, copied, rfl⟩
    · rintro ⟨stored, copied, rfl⟩
      exact ⟨stored, _, _, copied, rfl, rfl, rfl⟩

theorem refcount_toNat (wc : BitVec 8) :
    (BitVec.ofNat 9 (cycleOf wc - 1)).toNat + 1 = cycleOf wc := by
  have := cycleOf_pos wc
  have := cycleOf_le wc
  rw [BitVec.toNat_ofNat, Nat.mod_eq_of_lt (by omega)]
  omega

/-- A success of the DMA build: the token came in time, as many bytes were stored as the DMA
was asked for, and whole words of them are those of the packet, with two more bytes clocked. -/
theorem rcvrDatablock_ok {aligned : Bool} {btr : Nat} {stored : List (Option (BitVec 8))}
    (ran : Runs card.device (rcvrDatablock aligned btr) v s (true, stored) v' s') :
    ∃ t < card.expire s.pos, card.TokenAt s t ∧
      stored.length = cycleOf (BitVec.ofNat 8 btr) ∧
      (cycleOf (BitVec.ofNat 8 btr) % 4 = 0 →
        stored = ((List.range (cycleOf (BitVec.ofNat 8 btr))).map fun k =>
          some (card.ahead s (t + 1 + k))) ∧
        s'.pos = s.pos + (t + 1) + (cycleOf (BitVec.ofNat 8 btr) + 2)) := by
  obtain ⟨r, v₁, s₁, dma, rest⟩ := runs_bind.mp ran
  rw [mmcSpiDmaRecv_card] at dma
  split at dma
  case isTrue =>
    obtain ⟨rfl, -, -⟩ := dma
    have failed := (runs_pure.mp rest).1
    cases failed
  case isFalse noError =>
    obtain ⟨l, copied, rfl⟩ := dma
    obtain ⟨_, _, _, crc, ended⟩ := runs_bind.mp rest
    obtain ⟨same, rfl, rfl⟩ := runs_pure.mp ended
    obtain rfl : stored = l := (Prod.mk.inj same).2
    rw [not_or, Bool.not_eq_true, Bool.not_eq_true] at noError
    obtain ⟨t, early, token⟩ := exists_token noError.1 noError.2
    have stores := copyBuffer_stored (card_showsBuffer card _) rfl (cycleOf_le _) copied
    obtain ⟨bytes, rfl, -, rfl⟩ := stores
    refine ⟨t, early, token, ?_, fun whole => ?_⟩
    · rw [bytes, copiedBytes_length]
    rw [(copiedBytes_eq_iff _ aligned _).mpr whole] at bytes
    have count := refcount_toNat (BitVec.ofNat 8 btr)
    constructor
    · rw [bytes]
      refine List.map_congr_left fun k hk => ?_
      have within := List.mem_range.mp hk
      rw [← count] at within
      rw [Nat.zero_add, Card.afterDma, startDma_byte early token within]
      rfl
    · rw [rcvrMmc, if_neg (by decide)] at crc
      obtain ⟨-, -, rfl⟩ := rcvrBytes_card.mp crc
      rw [clocks_pos, Card.afterDma, Card.startDma, dma_token early token]
      simp only [count]
      omega

/-- With a token in time the DMA build succeeds. -/
theorem rcvrDatablock_exists (v : Vars) {t : Nat} (early : t < card.expire s.pos) (token : card.TokenAt s t)
    (aligned : Bool) (btr : Nat) :
    ∃ stored v' s', Runs card.device (rcvrDatablock aligned btr) v s (true, stored) v' s' := by
  let asked := { s with dmarefcount := BitVec.ofNat 9 (cycleOf (BitVec.ofNat 8 btr) - 1) }
  have packet := dma_token (s := asked) early token
  have noError : ¬((card.afterDma (BitVec.ofNat 8 btr) s).dataerr = true ∨
      (card.afterDma (BitVec.ofNat 8 btr) s).timout = true) := by
    change ¬((card.dma asked).dataerr = true ∨ (card.dma asked).timout = true)
    simp [packet]
  obtain ⟨stored, copied⟩ := copyBuffer_exists card (v.log (dmaWrites (BitVec.ofNat 8 btr)))
    (card.afterDma (BitVec.ofNat 8 btr) s) aligned (cycleOf (BitVec.ofNat 8 btr))
  have dma := mmcSpiDmaRecv_card.mpr ((if_neg noError).mpr ⟨stored, copied, rfl⟩)
  exact ⟨stored, _, _, runs_bind.mpr ⟨_, _, _, dma,
    runs_bind.mpr ⟨_, _, _, rcvrBytes_card.mpr ⟨rfl, rfl, rfl⟩, runs_pure.mpr ⟨rfl, rfl, rfl⟩⟩⟩⟩

end

/-! ## `rcvr_datablock`, polled -/

section
variable {card : Card} {v v' : Vars} {s s' : Interface}

theorem rcvrByte_card {d : BitVec 8} (ran : Runs card.device rcvrByte v s d v' s') :
    d = card.ahead s 0 ∧ s' = card.clock v.mmcSpiNcs s := by
  obtain ⟨_, _, _, byte, ended⟩ := runs_bind.mp ran
  obtain ⟨rfl, rfl, rfl⟩ := runs_pure.mp ended
  obtain ⟨rfl, rfl, rfl⟩ := rcvrBytes_card.mp byte
  exact ⟨rfl, rfl⟩

theorem mmcSpiWait100us_card {u : Unit} (ran : Runs card.device mmcSpiWait100us v s u v' s') :
    s' = s := by
  obtain ⟨_, _, _, timer, wait⟩ := runs_bind.mp ran
  obtain ⟨-, rfl⟩ := iowr_card.mp timer
  obtain ⟨_, _, _, poll, ended⟩ := runs_bind.mp wait
  obtain ⟨-, -, rfl⟩ := runs_pure.mp ended
  rw [runs_poll, Card.device, polls_ofFunctions (by rfl)] at poll
  exact (Prod.mk.inj poll.2).2

/-- The wait that ends with the token has taken busy bytes and the token. -/
theorem waitToken_card {d x : BitVec 8} {tmr : Nat} (initial : d ≠ 0xFE)
    (ran : Runs card.device (waitToken d tmr) v s x v' s') (found : x = 0xFE) :
    ∃ t, card.TokenAt s t ∧ s'.pos = s.pos + (t + 1) := by
  induction tmr generalizing d v s with
  | zero =>
      obtain ⟨rfl, -, -⟩ := runs_pure.mp ran
      exact absurd found initial
  | succ tmr ih =>
      obtain ⟨d, v₁, s₁, byte, rest⟩ := runs_bind.mp ran
      obtain ⟨rfl, rfl⟩ := rcvrByte_card byte
      split at rest
      · obtain ⟨rfl, -, rfl⟩ := runs_pure.mp rest
        exact ⟨0, ⟨fun j before => absurd before (Nat.not_lt_zero j), found⟩, rfl⟩
      case isFalse busy =>
        obtain ⟨_, _, _, wait, rest⟩ := runs_bind.mp rest
        obtain rfl := mmcSpiWait100us_card wait
        have isBusy := not_not.mp busy
        obtain ⟨t, token, moved⟩ := ih (by rw [isBusy]; decide) rest
        have later := ahead_add card (clock_pos card v.mmcSpiNcs s)
        refine ⟨t + 1, ⟨fun j before => ?_, ?_⟩, ?_⟩
        · rcases j with _ | j
          · exact isBusy
          · rw [Nat.add_comm, ← later]
            exact token.1 j (Nat.lt_of_succ_lt_succ before)
        · rw [Nat.add_comm, ← later]
          exact token.2
        · rw [moved, clock_pos]
          omega

/-- A success of the polled build: exactly the packet is stored, and clocked with its CRC. -/
theorem rcvrDatablockPolled_ok {btr : Nat} (positive : 0 < btr) {stored : List (BitVec 8)}
    (ran : Runs card.device (rcvrDatablockPolled btr) v s (true, stored) v' s') :
    ∃ t, card.TokenAt s t ∧ stored = (List.range btr).map (fun k => card.ahead s (t + 1 + k)) ∧
      s'.pos = s.pos + (t + 1) + (btr + 2) := by
  obtain ⟨d, v₁, s₁, wait, rest⟩ := runs_bind.mp ran
  split at rest
  · cases (runs_pure.mp rest).1
  case isFalse found =>
    obtain ⟨t, token, moved⟩ := waitToken_card (by decide) wait (not_not.mp found)
    obtain ⟨_, _, _, block, rest⟩ := runs_bind.mp rest
    obtain ⟨_, _, _, crc, ended⟩ := runs_bind.mp rest
    obtain ⟨same, rfl, rfl⟩ := runs_pure.mp ended
    rw [rcvrMmc, if_neg (Nat.ne_of_gt positive)] at block
    rw [rcvrMmc, if_neg (by decide)] at crc
    obtain ⟨rfl, rfl, rfl⟩ := rcvrBytes_card.mp block
    obtain ⟨-, -, rfl⟩ := rcvrBytes_card.mp crc
    refine ⟨t, token, ?_, ?_⟩
    · rw [(Prod.mk.inj same).2]
      exact List.map_congr_left fun k _ => ahead_add card moved k
    · rw [clocks_pos, clocks_pos, moved, Nat.add_assoc]

end

/-! ## The two builds -/

/-- What `rcvr_datablock` promises when it succeeds: `btr` bytes are stored, those behind the
token, and `btr + 2` bytes are clocked behind it. -/
def Card.Received (card : Card) (s s' : Interface) (btr : Nat)
    (stored : List (Option (BitVec 8))) : Prop :=
  ∃ t, card.TokenAt s t ∧
    stored = (List.range btr).map (fun k => some (card.ahead s (t + 1 + k))) ∧
    s'.pos = s.pos + (t + 1) + (btr + 2)

/-- Both builds keep the promise in every run from `v` and `s`. -/
def Card.BuildsAgree (card : Card) (v : Vars) (s : Interface) (aligned : Bool) (btr : Nat) : Prop :=
  (∀ stored v' s', Runs card.device (rcvrDatablockPolled btr) v s (true, stored) v' s' →
    card.Received s s' btr (stored.map some)) ∧
  (∀ stored v' s', Runs card.device (rcvrDatablock aligned btr) v s (true, stored) v' s' →
    card.Received s s' btr stored)

/-- The DMA is asked for the right number of bytes for sectors only. -/
theorem cycleOf_eq_iff {btr : Nat} (positive : 0 < btr) :
    cycleOf (BitVec.ofNat 8 btr) = btr ↔ btr = 512 := by
  constructor
  · intro same
    unfold cycleOf at same
    split at same
    · rw [Nat.shiftLeft_eq, BitVec.toNat_ofNat] at same
      omega
    · exact same.symm
  · rintro rfl
    rfl

/-- The polled build keeps the promise. The DMA build does for sectors; for any other byte
count it does only where it fails, because no token comes in time. -/
theorem buildsAgree_iff (card : Card) (v : Vars) (s : Interface) (aligned : Bool) {btr : Nat}
    (positive : 0 < btr) :
    card.BuildsAgree v s aligned btr ↔
      btr = 512 ∨ ¬∃ t < card.expire s.pos, card.TokenAt s t := by
  constructor
  · rintro ⟨-, promise⟩
    by_contra neither
    rw [not_or, not_not] at neither
    obtain ⟨other, t, early, token⟩ := neither
    obtain ⟨stored, v', s', ran⟩ := rcvrDatablock_exists v early token aligned btr
    obtain ⟨_, _, promised, _⟩ := promise stored v' s' ran
    obtain ⟨-, -, -, length, -⟩ := rcvrDatablock_ok ran
    rw [promised, List.length_map, List.length_range] at length
    exact other ((cycleOf_eq_iff positive).mp length.symm)
  · intro condition
    refine ⟨fun stored v' s' ran => ?_, fun stored v' s' ran => ?_⟩
    · obtain ⟨t, token, rfl, moved⟩ := rcvrDatablockPolled_ok positive ran
      exact ⟨t, token, by rw [List.map_map]; rfl, moved⟩
    · obtain ⟨t, early, token, -, whole⟩ := rcvrDatablock_ok ran
      rcases condition with sector | never
      · have count := (cycleOf_eq_iff positive).mpr sector
        rw [count] at whole
        obtain ⟨bytes, moved⟩ := whole (by rw [sector])
        exact ⟨t, token, bytes, moved⟩
      · exact absurd ⟨t, early, token⟩ never

/-- A card that sends a token, then bytes that count up. -/
def countingCard : Card where
  stream n := if n = 0 then 0xFE else BitVec.ofNat 8 n
  expire _ := 1000
  mmcCd := false
  mmcWp := true

theorem countingCard_token : countingCard.TokenAt .initial 0 :=
  ⟨fun _ before => absurd before (Nat.not_lt_zero _), by decide⟩

/-- The builds agree on a sector of the card. -/
theorem buildsAgree_sector : countingCard.BuildsAgree .initial .initial true 512 :=
  (buildsAgree_iff countingCard .initial .initial true (by decide)).mpr (.inl rfl)

/-- A CSD register of 16 bytes takes 32 bytes of the destination and 34 of the card. -/
theorem csd_overruns :
    ¬countingCard.BuildsAgree .initial .initial true 16 ∧
    ∃ stored v' s', Runs countingCard.device (rcvrDatablock true 16) .initial .initial
      (true, stored) v' s' ∧ stored.length = 32 ∧ s'.pos = 35 := by
  have early : 0 < countingCard.expire Interface.initial.pos := by decide
  obtain ⟨stored, v', s', ran⟩ := rcvrDatablock_exists .initial early countingCard_token true 16
  obtain ⟨t, -, token, length, whole⟩ := rcvrDatablock_ok ran
  have first : t = 0 := by
    rcases Nat.eq_zero_or_pos t with zero | later
    · exact zero
    · have busy := token.1 0 later
      exact absurd busy (by decide)
  subst first
  have moved := (whole (by decide)).2
  refine ⟨fun agree => ?_, stored, v', s', ran, length, moved⟩
  obtain ⟨_, _, promised, _⟩ := agree.2 stored v' s' ran
  rw [promised, List.length_map, List.length_range] at length
  exact absurd length (by decide)

end Cineraria.Mmc
