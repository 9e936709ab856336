import Cineraria.Mmc.Termination

/-!
# Bus traffic does not reach a running DMA

Two runs of the interface with the same start of a DMA and the same card, but with different
traffic on the bus while it runs. Writes to the engine are masked; of the control register
only the reference count takes part in the transfer, and it is not: a write that changes it
moves the end of the transfer. All other traffic leaves no trace in what the DMA does.
-/

namespace Cineraria.Mmc

open Clocked

/-- The card's pins are the same. -/
structure Input.SamePins (i i' : Input) : Prop where
  mmcSdi : i.mmcSdi = i'.mmcSdi
  mmcCd : i.mmcCd = i'.mmcCd
  mmcWp : i.mmcWp = i'.mmcWp

/-- The registers of the sequencer that a DMA in progress reads: not the start flag and not the
interrupt enable. -/
def Dma.inProgress (d : Dma) : Dma := { d with dmastartReg := false, dmairqenaReg := false }

theorem step_inProgress {d : Dma} (busy : d.state ≠ .idle) {i : Input}
    (keeps : i.KeepsRefcount d.dmarefcountReg) (exit zero : Bool) (rxd : BitVec 8) :
    (d.step i exit zero rxd).inProgress = d.inProgress.sequence exit zero rxd := by
  have refcount : (d.busStep i).dmarefcountReg = d.dmarefcountReg := by
    simp only [Dma.busStep]
    split
    · next written => exact keeps written
    · rfl
  simp only [Dma.step, refcount, Dma.inProgress]
  cases st : d.state <;> simp only [Dma.sequence, st]
  case idle => exact absurd st busy
  case reswait =>
    split
    · split
      · split
        · rfl
        · split <;> rfl
      · rfl
    · simp only [st]
  case readwait =>
    split
    · split <;> rfl
    · simp only [st]

/-- Two states that agree on all that a DMA in progress reads. -/
structure Mmcdma.Agree (s s' : Mmcdma) : Prop where
  spi : s.spi = s'.spi
  mem : s.mem = s'.mem
  dma : s.dma.inProgress = s'.dma.inProgress

section
variable {s s' : Mmcdma}

theorem Mmcdma.Agree.state (agree : s.Agree s') : s.dma.state = s'.dma.state :=
  (congrArg Dma.state agree.dma :)

theorem Mmcdma.Agree.readCount (agree : s.Agree s') :
    s.dma.dmareadCount = s'.dma.dmareadCount :=
  (congrArg Dma.dmareadCount agree.dma :)

theorem Mmcdma.Agree.refcount (agree : s.Agree s') :
    s.dma.dmarefcountReg = s'.dma.dmarefcountReg :=
  (congrArg Dma.dmarefcountReg agree.dma :)

theorem Mmcdma.Agree.dmadone (agree : s.Agree s') : s.dma.dmadoneReg = s'.dma.dmadoneReg :=
  (congrArg Dma.dmadoneReg agree.dma :)

/-! ## One clock -/

variable {i i' : Input}

/-- The engine is given the same. -/
theorem Mmcdma.Agree.spiInput (agree : s.Agree s') (running : s.dma.dmadoneReg = false)
    (pins : i.SamePins i') : s.spiInput i = s'.spiInput i' := by
  have mmcifwr : s.dma.mmcifwrReg = s'.dma.mmcifwrReg := (congrArg Dma.mmcifwrReg agree.dma :)
  rw [spiInput_running running, spiInput_running (agree.dmadone.symm.trans running), mmcifwr,
    pins.mmcSdi, pins.mmcCd, pins.mmcWp]

/-- The sequencer is shown the same. -/
theorem Mmcdma.Agree.rddata (agree : s.Agree s') (running : s.dma.dmadoneReg = false)
    (pins : i.SamePins i') : s.mmcifrddataSig i = s'.mmcifrddataSig i' := by
  rw [Mmcdma.mmcifrddataSig, Mmcdma.mmcifrddataSig, agree.spiInput running pins, agree.spi]

theorem Mmcdma.Agree.dmamemwr (agree : s.Agree s') (running : s.dma.dmadoneReg = false)
    (pins : i.SamePins i') : s.dmamemwrSig i = s'.dmamemwrSig i' := by
  rw [Mmcdma.dmamemwrSig, Mmcdma.dmamemwrSig, Mmcdma.mmcifexitSig, Mmcdma.mmcifexitSig,
    agree.rddata running pins, agree.state]

theorem Mmcdma.Agree.clockStart (agree : s.Agree s') (running : s.dma.dmadoneReg = false)
    (pins : i.SamePins i') : clockStart i s = clockStart i' s' := by
  rw [Mmc.clockStart, Mmc.clockStart, agree.spiInput running pins, agree.spi]

theorem Mmcdma.Agree.bufferWrite (agree : s.Agree s') (running : s.dma.dmadoneReg = false)
    (pins : i.SamePins i') : bufferWrite i s = bufferWrite i' s' := by
  rw [Mmc.bufferWrite, Mmc.bufferWrite, agree.dmamemwr running pins, Mmcdma.mmcifrxdSig,
    Mmcdma.mmcifrxdSig, agree.rddata running pins, agree.readCount]

/-- The next states agree, whatever else is on the bus. -/
theorem Mmcdma.Agree.step (agree : s.Agree s') (running : s.dma.dmadoneReg = false)
    (busy : s.dma.state ≠ .idle) (pins : i.SamePins i')
    (keeps : i.KeepsRefcount s.dma.dmarefcountReg)
    (keeps' : i'.KeepsRefcount s.dma.dmarefcountReg) : (s.step i).Agree (s'.step i') := by
  have rddata := agree.rddata running pins
  refine ⟨?_, ?_, ?_⟩
  · simp only [Mmcdma.step, agree.spiInput running pins, agree.spi]
  · simp only [Mmcdma.step, agree.dmamemwr running pins, agree.readCount, Mmcdma.mmcifrxdSig, rddata,
      agree.mem]
  · rw [agree.refcount] at keeps'
    have busy' := busy
    rw [agree.state] at busy'
    simp only [Mmcdma.step, step_inProgress busy keeps, step_inProgress busy' keeps', agree.dma,
      Mmcdma.mmcifexitSig, Mmcdma.mmcifzeroSig, Mmcdma.mmcifrxdSig, rddata]

end

/-! ## The whole transfer -/

/-- What a DMA did up to clock `e`, in two runs. -/
structure SameDma (w w' : Nat → Input) (s : Mmcdma) (e : Nat) : Prop where
  clocked : observed clockStart Mmcdma.step w s e = observed clockStart Mmcdma.step w' s e
  written : observed bufferWrite Mmcdma.step w s e = observed bufferWrite Mmcdma.step w' s e
  agree : (run Mmcdma.step w s e).Agree (run Mmcdma.step w' s e)

/-- The traffic of both runs leaves the reference count of the start alone. -/
theorem Mmcdma.Running.same {w w' : Nat → Input} {s : Mmcdma} (start : s.Running) {e : Nat}
    (busy : ∀ u < e, (Clocked.run Mmcdma.step w s u).dma.dmadoneReg = false)
    (pins : ∀ u < e, (w u).SamePins (w' u))
    (keeps : ∀ u < e, (w u).KeepsRefcount s.dma.dmarefcountReg)
    (keeps' : ∀ u < e, (w' u).KeepsRefcount s.dma.dmarefcountReg) : SameDma w w' s e := by
  induction e with
  | zero => exact ⟨rfl, rfl, rfl, rfl, rfl⟩
  | succ e ih =>
      obtain ⟨clocked, written, agree⟩ := ih (fun u hu => busy u (by omega))
        (fun u hu => pins u (by omega)) (fun u hu => keeps u (by omega))
        fun u hu => keeps' u (by omega)
      have running := busy e (Nat.lt_succ_self e)
      have here := pins e (Nat.lt_succ_self e)
      have still := start.still (n := e) (fun u hu => busy u (by omega)) fun u hu => keeps u (by omega)
      have working := still.running.consistent.busy running
      refine ⟨?_, ?_, ?_⟩
      · rw [observed_succ, observed_succ, clocked, agree.clockStart running here]
      · rw [observed_succ, observed_succ, written, agree.bufferWrite running here]
      · refine agree.step running working here ?_ ?_ <;> rw [still.refcount]
        · exact keeps e (Nat.lt_succ_self e)
        · exact keeps' e (Nat.lt_succ_self e)

/-- Both runs leave the DMA in clock `t + 1 + e`, having clocked and stored the same since reset,
and with the same flags. -/
structure EndAlike (w w' : Nat → Input) (s : Mmcdma) (t e : Nat) : Prop where
  busy : ∀ u < e, (run Mmcdma.step w s (t + 1 + u)).dma.dmadoneReg = false ∧
    (run Mmcdma.step w' s (t + 1 + u)).dma.dmadoneReg = false
  dmadone : (run Mmcdma.step w s (t + 1 + e)).dma.dmadoneReg = true ∧
    (run Mmcdma.step w' s (t + 1 + e)).dma.dmadoneReg = true
  dataerr : (run Mmcdma.step w s (t + 1 + e)).dma.dmadataerrReg =
    (run Mmcdma.step w' s (t + 1 + e)).dma.dmadataerrReg
  timout : (run Mmcdma.step w s (t + 1 + e)).dma.dmatimoutReg =
    (run Mmcdma.step w' s (t + 1 + e)).dma.dmatimoutReg
  clocked : observed clockStart Mmcdma.step w s (t + 1 + e) =
    observed clockStart Mmcdma.step w' s (t + 1 + e)
  written : observed bufferWrite Mmcdma.step w s (t + 1 + e) =
    observed bufferWrite Mmcdma.step w' s (t + 1 + e)
  mem : (run Mmcdma.step w s (t + 1 + e)).mem = (run Mmcdma.step w' s (t + 1 + e)).mem

/-- Two waveforms that are the same up to clock `t`, at the end of which a DMA starts, and in
which the card does the same afterwards, so that the DMA cannot tell the traffic apart unless
it changes the reference count. -/
theorem traffic_isolated (w w' : Nat → Input) {s : Mmcdma} (reset : s.IsReset) {t : Nat}
    (same : ∀ u ≤ t, w u = w' u) (pins : ∀ u, (w u).SamePins (w' u))
    (idle : (run Mmcdma.step w s t).dma.dmadoneReg = true)
    (started : (run Mmcdma.step w s (t + 1)).dma.dmadoneReg = false)
    (traffic : ∀ u, (∀ v ≤ u, (run Mmcdma.step w s (t + 1 + v)).dma.dmadoneReg = false) →
      (w (t + 1 + u)).KeepsRefcount (run Mmcdma.step w s (t + 1)).dma.dmarefcountReg ∧
      (w' (t + 1 + u)).KeepsRefcount (run Mmcdma.step w s (t + 1)).dma.dmarefcountReg) :
    ∃ e, 0 < e ∧ EndAlike w w' s t e := by
  obtain ⟨start, first⟩ := running_start (run_bounded w reset t) (run_consistent w reset t) idle started
  rw [← run_succ Mmcdma.step w s t] at start first
  have common : ∀ u ≤ t + 1, run Mmcdma.step w s u = run Mmcdma.step w' s u := fun u hu =>
    run_congr fun v hv => same v (by omega)
  simp only [run_add Mmcdma.step w s (t + 1)] at traffic
  obtain ⟨e, positive, -, returns⟩ := start.returns (w := shift w (t + 1)) first
    fun u busy => (traffic u busy).1
  have alike : ∀ u ≤ e, SameDma (shift w (t + 1)) (shift w' (t + 1)) (run Mmcdma.step w s (t + 1)) u :=
    fun u hu => start.same (fun v hv => returns.busy v (by omega)) (fun v _ => pins _)
      (fun v hv => (traffic v fun x hx => returns.busy x (by omega)).1)
      fun v hv => (traffic v fun x hx => returns.busy x (by omega)).2
  have here := alike e (Nat.le_refl e)
  have other : ∀ u, run Mmcdma.step w' s (t + 1 + u) =
      run Mmcdma.step (shift w' (t + 1)) (run Mmcdma.step w s (t + 1)) u := fun u => by
    rw [run_add, common (t + 1) (Nat.le_refl _)]
  have noted : ∀ {α : Type} {f : Input → Mmcdma → Option α},
      observed f Mmcdma.step (shift w (t + 1)) (run Mmcdma.step w s (t + 1)) e =
        observed f Mmcdma.step (shift w' (t + 1)) (run Mmcdma.step w s (t + 1)) e →
      observed f Mmcdma.step w s (t + 1 + e) = observed f Mmcdma.step w' s (t + 1 + e) := by
    intro α f later
    have prior : observed f Mmcdma.step w s (t + 1) = observed f Mmcdma.step w' s (t + 1) :=
      observed_congr fun u hu => by rw [common u (by omega), same u (by omega)]
    rw [observed_add (w := w) (t + 1) e, observed_add (w := w') (t + 1) e, later, prior,
      common (t + 1) (Nat.le_refl _)]
  refine ⟨e, positive, ?_, ?_, ?_, ?_, ?_, ?_, ?_⟩
  · intro u hu
    rw [other, run_add, ← (alike u (Nat.le_of_lt hu)).agree.dmadone]
    exact ⟨returns.busy u hu, returns.busy u hu⟩
  · rw [other, run_add, ← here.agree.dmadone]
    exact ⟨returns.dmadone, returns.dmadone⟩
  · rw [other, run_add]
    exact (congrArg Dma.dmadataerrReg here.agree.dma :)
  · rw [other, run_add]
    exact (congrArg Dma.dmatimoutReg here.agree.dma :)
  · exact noted here.clocked
  · exact noted here.written
  · rw [other, run_add, here.agree.mem]

/-- A bus that sets the divider and the counter, starts a DMA of two bytes and then waits, and a
card that sends the token and keeps the line high. -/
def loadAndRead (u : Nat) : Input where
  chipselect := u ≤ 2
  address := if u = 0 then 1 else if u = 1 then 2 else 4
  write := u ≤ 2
  writedata := if u = 0 then 0 else if u = 1 then 1000 else 0x401
  mmcSdi := u != 20
  mmcCd := false
  mmcWp := true

/-- The same, with a write to the engine's divider, and a start for two more bytes, while the
DMA runs. -/
def loadAndWrite (u : Nat) : Input :=
  if u = 10 then ⟨true, 1, true, 0x55, true, false, true⟩
  else if u = 30 then ⟨true, 4, true, 0x8401, true, false, true⟩
  else loadAndRead u

/-- The writes have no effect on the DMA. -/
theorem traffic_isolated_write : ∃ e, 0 < e ∧ EndAlike loadAndRead loadAndWrite Mmcdma.powerOn 3 e := by
  have count : (run Mmcdma.step loadAndRead Mmcdma.powerOn 4).dma.dmarefcountReg = 1 := by decide
  refine traffic_isolated loadAndRead loadAndWrite Mmcdma.powerOn_isReset ?_ ?_ (by decide) (by decide) ?_
  · intro u early
    simp [loadAndWrite, show u ≠ 10 by omega, show u ≠ 30 by omega]
  · intro u
    by_cases divider : u = 10
    · rw [divider]
      exact ⟨rfl, rfl, rfl⟩
    · by_cases again : u = 30
      · rw [again]
        exact ⟨rfl, rfl, rfl⟩
      · rw [loadAndWrite, if_neg divider, if_neg again]
        exact ⟨rfl, rfl, rfl⟩
  · intro u _
    rw [count]
    have quiet : (loadAndRead (4 + u)).KeepsRefcount 1 := fun written => by
      simp [Input.dmaregselSig, loadAndRead, show ¬ 4 + u ≤ 2 by omega] at written
    refine ⟨quiet, ?_⟩
    rw [loadAndWrite]
    split
    · exact fun written => absurd written (by decide)
    · split
      · exact fun _ => rfl
      · exact quiet

/-- The same as `loadAndRead`, with a write of the control register while the DMA runs: the
reference count 0 instead of 1. -/
def loadAndRecount (u : Nat) : Input :=
  if u = 10 then ⟨true, 4, true, 0, true, false, true⟩ else loadAndRead u

/-- A write to the control register while the DMA runs: one byte is stored instead of two, and
the DMA is over sooner. -/
theorem recount_moves_the_end :
    (∀ u, u ≠ 10 → loadAndRecount u = loadAndRead u) ∧
    (∀ u, (loadAndRead u).SamePins (loadAndRecount u)) ∧
    (run Mmcdma.step loadAndRead Mmcdma.powerOn 3).dma.dmadoneReg = true ∧
    (run Mmcdma.step loadAndRead Mmcdma.powerOn 4).dma.dmadoneReg = false ∧
    (run Mmcdma.step loadAndRecount Mmcdma.powerOn 10).dma.dmadoneReg = false ∧
    (run Mmcdma.step loadAndRead Mmcdma.powerOn 61).dma.dmadoneReg = true ∧
    (run Mmcdma.step loadAndRecount Mmcdma.powerOn 61).dma.dmadoneReg = true ∧
    observed bufferWrite Mmcdma.step loadAndRead Mmcdma.powerOn 61 = [(0, 0xFF), (1, 0xFF)] ∧
    observed bufferWrite Mmcdma.step loadAndRecount Mmcdma.powerOn 61 = [(0, 0xFF)] ∧
    (observed clockStart Mmcdma.step loadAndRead Mmcdma.powerOn 61).length = 3 ∧
    (observed clockStart Mmcdma.step loadAndRecount Mmcdma.powerOn 61).length = 2 := by
  refine ⟨fun u other => if_neg other, ?_, by decide +kernel⟩
  intro u
  by_cases recount : u = 10
  · rw [recount]
    exact ⟨rfl, rfl, rfl⟩
  · rw [loadAndRecount, if_neg recount]
    exact ⟨rfl, rfl, rfl⟩

end Cineraria.Mmc
