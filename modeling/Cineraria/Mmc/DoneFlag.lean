import Cineraria.Mmc.ReadDma

/-!
# The done flag on the bus

After the write that starts a DMA the done flag is stale for one more clock, and the read data
register shows it one clock late. A read takes three clocks and its data is sampled in the
third, so the status word it delivers is the one of its second clock: by then the flag has
fallen, however soon after the write the read begins.
-/

namespace Cineraria.Mmc

open Clocked

/-! ## The status word of the DMA -/

theorem read0Sig_dmadone (d : Dma) : d.read0Sig.getLsbD 14 = d.dmadoneReg := by
  simp only [Dma.read0Sig, BitVec.getLsbD_append]
  simp

theorem read0Sig_dmadataerr (d : Dma) : d.read0Sig.getLsbD 13 = d.dmadataerrReg := by
  simp only [Dma.read0Sig, BitVec.getLsbD_append]
  simp

theorem read0Sig_dmatimout (d : Dma) : d.read0Sig.getLsbD 12 = d.dmatimoutReg := by
  simp only [Dma.read0Sig, BitVec.getLsbD_append]
  simp

/-- A read of the DMA's status register that begins in clock `r`: two wait states. -/
def ReadsDmastatus (w : Nat → Input) (r : Nat) : Prop :=
  ∀ u, r ≤ u → u ≤ r + 2 → (w u).dmaregselSig = true ∧ (w u).write = false

/-- What the master samples in the third clock of a read. -/
def sampledData (w : Nat → Input) (s : Mmcdma) (r : Nat) : BitVec 32 :=
  (run Mmcdma.step w s (r + 2)).readdaraReg

section
variable {w : Nat → Input} {s : Mmcdma}

/-- The word is the one of the second clock. -/
theorem sampledData_dmastatus {r : Nat} (reads : ReadsDmastatus w r) :
    sampledData w s r = (run Mmcdma.step w s (r + 1)).dma.read0Sig := by
  have select := (reads (r + 1) (by omega) (by omega)).1
  have chosen : (w (r + 1)).chipselect = true ∧ (w (r + 1)).address.extractLsb' 2 6 = 1 := by
    simpa [Input.dmaregselSig] using select
  have mmcregsel : (w (r + 1)).mmcregselSig = false := by
    simp [Input.mmcregselSig, chosen.2]
  have memsel : (w (r + 1)).memselSig = false := by
    have top := congrArg (fun x => x.getLsbD 5) chosen.2
    simp only [BitVec.getLsbD_extractLsb'] at top
    simpa [Input.memselSig] using fun _ => top
  rw [sampledData, run_succ]
  simp [Mmcdma.step, memsel, mmcregsel, select]

/-! ## One DMA -/

/-- Two clocks after the write that starts it the DMA runs, and the flags of the one before it
are cleared. -/
structure Fresh (s : Mmcdma) : Prop where
  dmadone : s.dma.dmadoneReg = false
  dataerr : s.dma.dmadataerrReg = false
  timout : s.dma.dmatimoutReg = false

theorem start_fresh (consistent : s.Consistent) (idle : s.dma.dmadoneReg = true) {i j : Input} {c : BitVec 9}
    (start : i.StartsDma c) : Fresh ((s.step i).step j) := by
  have st := consistent.idle idle
  have written : (i.dmaregselSig && i.write && i.address.extractLsb' 0 2 == 0) = true := by
    simp [start.select, start.write, start.address]
  cases pending : s.dma.dmastartReg with
  | false =>
      have first : (s.step i).dma.state = .idle ∧ (s.step i).dma.dmastartReg = true := by
        simp only [Mmcdma.step, Dma.step, Dma.busStep, Dma.sequence, st, pending, written, start.start,
          Bool.true_and, if_true, Bool.false_eq_true, if_false, and_self]
      refine ⟨?_, ?_, ?_⟩ <;> rw [Mmcdma.step] <;> simp [Dma.step, Dma.sequence, first.1, first.2]
  | true =>
      have first : (s.step i).dma.state = .resset ∧ (s.step i).dma.dmadoneReg = false ∧
          (s.step i).dma.dmadataerrReg = false ∧ (s.step i).dma.dmatimoutReg = false := by
        simp [Mmcdma.step, Dma.step, Dma.sequence, st, pending]
      refine ⟨?_, ?_, ?_⟩ <;> rw [Mmcdma.step] <;>
        simp [Dma.step, Dma.sequence, first.1, first.2.1, first.2.2.1, first.2.2.2]

/-- The error flags keep their values until the next DMA starts. -/
theorem errors_kept {w : Nat → Input} {s : Mmcdma} {e u : Nat}
    (consistent : ∀ t, (run Mmcdma.step w s t).Consistent) (after : e ≤ u)
    (done : ∀ v, e ≤ v → v ≤ u → (run Mmcdma.step w s v).dma.dmadoneReg = true) :
    (run Mmcdma.step w s u).dma.dmadataerrReg = (run Mmcdma.step w s e).dma.dmadataerrReg ∧
    (run Mmcdma.step w s u).dma.dmatimoutReg = (run Mmcdma.step w s e).dma.dmatimoutReg := by
  induction u, after using Nat.le_induction with
  | base => exact ⟨rfl, rfl⟩
  | succ u after ih =>
      have before := ih fun v low high => done v low (by omega)
      have st := (consistent u).idle (done u after (by omega))
      have still := done (u + 1) (by omega) (Nat.le_refl _)
      rw [run_succ] at still ⊢
      rw [← before.1, ← before.2]
      simp only [Mmcdma.step, Dma.step, Dma.sequence, st] at still ⊢
      split at still
      · simp at still
      · next noStart =>
          simp only [if_neg noStart, and_self]

/-- The DMA that the write in clock `t` starts, which ends in clock `e`. -/
structure EndsAt (w : Nat → Input) (s : Mmcdma) (t e : Nat) : Prop where
  fresh : Fresh (run Mmcdma.step w s (t + 2))
  after : t + 2 < e
  busy : ∀ u, t + 2 ≤ u → u < e → (run Mmcdma.step w s u).dma.dmadoneReg = false
  dmadone : (run Mmcdma.step w s e).dma.dmadoneReg = true
  state : (run Mmcdma.step w s e).dma.state = .idle

/-- A read that begins after the write that starts a DMA, in any clock, and delivers the done bit:
that DMA has ended. Any such read until the next one starts delivers its error flags. -/
theorem done_bit_is_fresh (w : Nat → Input) {s : Mmcdma} (reset : s.IsReset) {t r : Nat} {c : BitVec 9}
    (idle : (run Mmcdma.step w s t).dma.dmadoneReg = true) (start : (w t).StartsDma c) (after : t < r)
    (reads : ReadsDmastatus w r) (done : (sampledData w s r).getLsbD 14 = true) :
    ∃ e ≤ r + 1, EndsAt w s t e ∧ ∀ r', e ≤ r' + 1 → ReadsDmastatus w r' →
      (∀ u, e ≤ u → u ≤ r' + 1 → (run Mmcdma.step w s u).dma.dmadoneReg = true) →
      (sampledData w s r').getLsbD 14 = true ∧
      (sampledData w s r').getLsbD 13 = (run Mmcdma.step w s e).dma.dmadataerrReg ∧
      (sampledData w s r').getLsbD 12 = (run Mmcdma.step w s e).dma.dmatimoutReg := by
  have consistent := run_consistent w reset
  have fresh : Fresh (run Mmcdma.step w s (t + 2)) := start_fresh (consistent t) idle start
  rw [sampledData_dmastatus reads, read0Sig_dmadone] at done
  have ended : ∃ n, (run Mmcdma.step w s (t + 2 + n)).dma.dmadoneReg = true :=
    ⟨r - (t + 1), by rwa [show t + 2 + (r - (t + 1)) = r + 1 by omega]⟩
  have first := Nat.find_spec ended
  have before : ∀ n < Nat.find ended, (run Mmcdma.step w s (t + 2 + n)).dma.dmadoneReg = false :=
    fun n hn => by simpa using Nat.find_min ended hn
  have within : Nat.find ended ≤ r - (t + 1) :=
    Nat.find_min' ended (by rwa [show t + 2 + (r - (t + 1)) = r + 1 by omega])
  generalize Nat.find ended = n at first before within
  refine ⟨t + 2 + n, by omega, ⟨fresh, ?_, ?_, first, ?_⟩, ?_⟩
  · rcases Nat.eq_zero_or_pos n with rfl | positive
    · exact absurd (fresh.dmadone.symm.trans first) (by decide)
    · omega
  · intro u low high
    obtain ⟨k, rfl⟩ : ∃ k, u = t + 2 + k := ⟨u - (t + 2), by omega⟩
    exact before k (by omega)
  · exact (consistent _).idle first
  · intro r' late reads' still
    have kept := errors_kept consistent late still
    rw [sampledData_dmastatus reads', read0Sig_dmadone, read0Sig_dmadataerr, read0Sig_dmatimout]
    exact ⟨still _ late (Nat.le_refl _), kept⟩

end

/-- A bus that sets the divider and the counter, starts a DMA of two bytes, and reads the status
from then on, and a card that sends the token and keeps the line high. -/
def pollStatus (u : Nat) : Input where
  chipselect := true
  address := if u = 0 then 1 else if u = 1 then 2 else 4
  write := u ≤ 2
  writedata := if u = 0 then 0 else if u = 1 then 1000 else 0x401
  mmcSdi := u != 20
  mmcCd := false
  mmcWp := true

/-- The read that begins in clock 60 is the first to deliver the done bit. -/
theorem done_bit_is_fresh_poll : ∃ e ≤ 61, EndsAt pollStatus Mmcdma.powerOn 2 e := by
  have reads : ReadsDmastatus pollStatus 60 := fun u low high => by
    simp [pollStatus, Input.dmaregselSig, show u ≠ 0 by omega, show u ≠ 1 by omega,
      show ¬ u ≤ 2 by omega]
  obtain ⟨e, within, ended, -⟩ := done_bit_is_fresh pollStatus Mmcdma.powerOn_isReset (t := 2) (c := 1)
    (by decide) ⟨by decide, rfl, by decide, by decide, by decide⟩ (by decide) reads
    (by decide +kernel)
  exact ⟨e, within, ended⟩

end Cineraria.Mmc
