import Cineraria.Mmc.Paced
import Cineraria.Mmc.WriteProtect

/-!
# The writes that select the card and set the clock

The engine ignores these writes while it shifts a byte. The functions of the driver that receive a byte wait for
its end and those that send one do not, so that every path of the disk layer must receive between a byte that
it sends and the next of these writes. One path does not: after the stop token of `disk_write` comes the write of
`mmc_spi_SetCardDeselect` at once.
-/

namespace Cineraria.Mmc

open RegisterIo Bytes

/-! ## The state between the functions -/

/-- The last write has sent the byte 0xFD. -/
def AfterStopToken (log : List Arrival) : Prop := ∃ last ∈ log.head?, last.Sends 0xFD

/-- Every write that selects the card or sets the clock has landed, but for those after the byte 0xFD. -/
def Heard : List Arrival → Prop
  | [] => True
  | a :: older => (a.Controls → AfterStopToken older ∨ a.Lands) ∧ Heard older

/-- Sequencer and engine are idle. -/
structure Quiet (s : Mmcdma × List Arrival) : Prop where
  ready : s.1.Ready
  heard : Heard s.2

/-- The engine may be busy. -/
structure Open (s : Mmcdma × List Arrival) : Prop where
  owned : s.1.Owned
  heard : Heard s.2

/-- A DMA has been asked for. -/
structure Started (s : Mmcdma × List Arrival) : Prop where
  started : s.1.Started
  heard : Heard s.2

/-- The engine is only busy with the byte 0xFD. -/
structure Closing (s : Mmcdma × List Arrival) : Prop where
  owned : s.1.Owned
  heard : Heard s.2
  idle : s.1.Ready ∨ AfterStopToken s.2

theorem Quiet.open {s : Mmcdma × List Arrival} (quiet : Quiet s) : Open s := ⟨quiet.ready.owned, quiet.heard⟩

theorem Quiet.closing {s : Mmcdma × List Arrival} (quiet : Quiet s) : Closing s :=
  ⟨quiet.ready.owned, quiet.heard, .inl quiet.ready⟩

/-- A write that does not select the card or set the clock has nothing to land for. -/
theorem Heard.other {a : Arrival} {log : List Arrival} (heard : Heard log) (other : ¬ a.Controls) :
    Heard (a :: log) :=
  ⟨fun controls => absurd controls other, heard⟩

section
variable {pins : Pins} {α : Type}

/-- What can follow a byte under way can follow none. -/
theorem calm {m : DriverM α} {after : Mmcdma × List Arrival → Prop}
    (following : Triple (recordedBus pins) Open m after) : Triple (recordedBus pins) Quiet m after :=
  following.weaken (fun _ => Quiet.open) fun _ => id

/-- Nothing under way is no byte other than 0xFD under way. -/
theorem settles {m : DriverM α} {before : Mmcdma × List Arrival → Prop}
    (quiet : Triple (recordedBus pins) before m Quiet) : Triple (recordedBus pins) before m Closing :=
  quiet.weaken (fun _ => id) fun _ => Quiet.closing

/-! ## Register accesses -/

section
variable {reg : Nat} {s s' : Mmcdma × List Arrival} {x : BitVec 32}

/-- What a read keeps of the component it keeps beside the record. -/
theorem read_heard {P : Mmcdma → Prop} (kept : ∀ {i s}, P s → i.quiet → P (s.step i))
    (read : (recordedBus pins).read reg s x s') (holds : P s.1) (heard : Heard s.2) : P s'.1 ∧ Heard s'.2 := by
  refine ⟨read_keeps kept read.1 holds, ?_⟩
  rw [read.2]
  exact heard

theorem read_quiet (read : (recordedBus pins).read reg s x s') (quiet : Quiet s) : Quiet s' := by
  obtain ⟨ready, heard⟩ := read_heard Mmcdma.Ready.quiet read quiet.ready quiet.heard
  exact ⟨ready, heard⟩

theorem read_open (read : (recordedBus pins).read reg s x s') (isOpen : Open s) : Open s' := by
  obtain ⟨owned, heard⟩ := read_heard Mmcdma.Owned.quiet read isOpen.owned isOpen.heard
  exact ⟨owned, heard⟩

theorem read_started (read : (recordedBus pins).read reg s x s') (started : Started s) : Started s' := by
  obtain ⟨asked, heard⟩ := read_heard Mmcdma.Started.quiet read started.started started.heard
  exact ⟨asked, heard⟩

end

theorem iord_quiet (reg : Nat) : Triple (recordedBus pins) Quiet (iord reg) Quiet := .iord read_quiet

/-- A write to the engine that does not start a transfer. -/
theorem iowr_quiet {reg : Nat} {data : BitVec 32} (engine : reg < 4)
    (control : reg = mmcregStatus → data.getLsbD 9 = true) :
    Triple (recordedBus pins) Quiet (iowr reg data) Quiet := by
  refine .bind (.assign _) fun _ => .iowr ?_
  rintro s s' ⟨s₀, i, idles, writes, rfl⟩ quiet
  have ready := idles_keeps Mmcdma.Ready.quiet idles quiet.ready
  obtain ⟨after, lands⟩ := ready.control writes engine control
  exact ⟨after, fun _ => .inr lands, quiet.heard⟩

/-- A write to the status register that comes after the stop token, or to an idle engine. -/
theorem iowr_closing {data : BitVec 32} (control : data.getLsbD 9 = true) :
    Triple (recordedBus pins) Closing (iowr mmcregStatus data) Open := by
  refine .bind (.assign _) fun _ => .iowr ?_
  rintro s s' ⟨s₀, i, idles, writes, rfl⟩ closing
  have owned := idles_keeps Mmcdma.Owned.quiet idles closing.owned
  refine ⟨owned.written writes (by decide), fun _ => ?_, closing.heard⟩
  rcases closing.idle with ready | stopped
  · right
    exact ((idles_keeps Mmcdma.Ready.quiet idles ready).control writes (by decide) fun _ => control).2
  · exact .inl stopped

/-- A write that starts a transfer. -/
theorem iowr_send {data : BitVec 32} (start : data.getLsbD 9 = false) :
    Triple (recordedBus pins) Quiet (iowr mmcregStatus data) fun s =>
      Open s ∧ ∃ last ∈ s.2.head?, last.Sends (data.setWidth 8) := by
  refine .bind (.assign _) fun _ => .iowr ?_
  rintro s s' ⟨s₀, i, idles, writes, rfl⟩ quiet
  have owned := idles_keeps Mmcdma.Owned.quiet idles quiet.ready.owned
  refine ⟨⟨owned.written writes (by decide), quiet.heard.other ?_⟩, _, rfl, rfl, start, rfl⟩
  rintro (⟨-, exit⟩ | wrong)
  · rw [start] at exit
    cases exit
  · cases wrong

/-- The write that starts a DMA. -/
theorem iowr_dmastart {data : BitVec 32} (start : data.getLsbD 10 = true) :
    Triple (recordedBus pins) Quiet (iowr mmcregDmastatus data) Started := by
  refine .bind (.assign _) fun _ => .iowr ?_
  rintro s s' ⟨s₀, i, idles, writes, rfl⟩ quiet
  have ready := idles_keeps Mmcdma.Ready.quiet idles quiet.ready
  refine ⟨.inl (ready.asked writes start), quiet.heard.other ?_⟩
  rintro (⟨wrong, -⟩ | wrong)
  · cases wrong
  · cases wrong

/-- The wait for the end of a transfer. -/
theorem waitFor_exit : Triple (recordedBus pins) Open (waitFor mmcregStatus mmcCommexit) Quiet := by
  refine .poll read_open ?_
  intro s x s' read stop isOpen
  rw [mmcCommexit, test_bit x (by decide)] at stop
  refine ⟨read_exit read.1 stop isOpen.owned, ?_⟩
  rw [read.2]
  exact isOpen.heard

/-- The wait for the end of a DMA. -/
theorem waitFor_dmadone :
    Triple (recordedBus pins) Started (waitFor mmcregDmastatus mmcDmadoneBitmask) Quiet := by
  refine .poll read_started ?_
  intro s x s' read stop started
  rw [mmcDmadoneBitmask, test_bit x (by decide)] at stop
  refine ⟨read_dmadone read.1 stop started.started, ?_⟩
  rw [read.2]
  exact started.heard

/-! ## The functions of the interface -/

theorem selectWord_exit (ncs : Ncs) : (mmcCommexit ||| ncs.word ||| 0xff).getLsbD 9 = true := by
  cases ncs
  all_goals decide

theorem sendWord_start (ncs : Ncs) (data : BitVec 8) :
    (mmcCommstart ||| ncs.word ||| data.setWidth 32).getLsbD 9 = false ∧
      (mmcCommstart ||| ncs.word ||| data.setWidth 32).setWidth 8 = data := by
  have words : ∀ ncs : Ncs, (mmcCommstart ||| ncs.word).getLsbD 9 = false ∧
      (mmcCommstart ||| ncs.word).setWidth 8 = 0#8 := by
    intro ncs
    cases ncs
    all_goals decide
  obtain ⟨bit, byte⟩ := words ncs
  constructor
  · rw [BitVec.getLsbD_or, bit, BitVec.getLsbD_setWidth, BitVec.getLsbD_of_ge data 9 (by decide)]
    rfl
  · rw [BitVec.setWidth_or, byte, BitVec.zero_or, BitVec.setWidth_setWidth_of_le data (by decide),
      BitVec.setWidth_eq]

theorem mmcSpiSetCardSelect_quiet : Triple (recordedBus pins) Quiet mmcSpiSetCardSelect Quiet :=
  .bind (.assign _) fun _ => .bind .vars fun _ => iowr_quiet (by decide) fun _ => selectWord_exit _

theorem mmcSpiSetCardDeselect_quiet : Triple (recordedBus pins) Quiet mmcSpiSetCardDeselect Quiet :=
  .bind (.assign _) fun _ => .bind .vars fun _ => iowr_quiet (by decide) fun _ => selectWord_exit _

theorem mmcSpiSetCardDeselect_closing : Triple (recordedBus pins) Closing mmcSpiSetCardDeselect Open :=
  .bind (.assign _) fun _ => .bind .vars fun _ => iowr_closing (selectWord_exit _)

/-- The byte is still under way when the function returns. -/
theorem mmcSpiSendbyte_sends (data : BitVec 8) :
    Triple (recordedBus pins) Open (mmcSpiSendbyte data) fun s =>
      Open s ∧ ∃ last ∈ s.2.head?, last.Sends data := by
  refine .bind waitFor_exit fun _ => .bind .vars fun v => ?_
  have word := sendWord_start v.mmcSpiNcs data
  refine (iowr_send word.1).weaken (fun _ => id) ?_
  rintro s ⟨isOpen, last, here, sends⟩
  rw [word.2] at sends
  exact ⟨isOpen, last, here, sends⟩

theorem mmcSpiSendbyte_open (data : BitVec 8) : Triple (recordedBus pins) Open (mmcSpiSendbyte data) Open :=
  (mmcSpiSendbyte_sends data).weaken (fun _ => id) fun _ => And.left

/-- The byte has come when the function returns. -/
theorem mmcSpiRecvbyte_quiet : Triple (recordedBus pins) Open mmcSpiRecvbyte Quiet := by
  refine .bind waitFor_exit fun _ => .bind .vars fun v => .bind ?_ fun _ =>
    .bind waitFor_exit fun _ => .pure _
  exact (iowr_send (sendWord_start v.mmcSpiNcs 0xff).1).weaken (fun _ => id) fun _ => And.left

theorem waitTimer_quiet : Triple (recordedBus pins) Quiet waitTimer Quiet :=
  .bind (.poll read_quiet fun read _ => read_quiet read) fun _ => .pure _

theorem mmcSpiSetTimer_quiet (timeout : BitVec 32) :
    Triple (recordedBus pins) Quiet (mmcSpiSetTimer timeout) Quiet :=
  iowr_quiet (by decide) fun wrong => absurd wrong (by decide)

theorem mmcSpiWait100us_quiet : Triple (recordedBus pins) Quiet mmcSpiWait100us Quiet :=
  .bind (iowr_quiet (by decide) fun wrong => absurd wrong (by decide)) fun _ => waitTimer_quiet

theorem mmcSpiSetIdentClock_quiet : Triple (recordedBus pins) Quiet mmcSpiSetIdentClock Quiet :=
  iowr_quiet (by decide) fun wrong => absurd wrong (by decide)

theorem mmcSpiSetTransClock_quiet : Triple (recordedBus pins) Quiet mmcSpiSetTransClock Quiet :=
  iowr_quiet (by decide) fun wrong => absurd wrong (by decide)

theorem mmcSpiCheckCardDetect_quiet : Triple (recordedBus pins) Quiet mmcSpiCheckCardDetect Quiet :=
  .bind (iord_quiet _) fun _ => .pure _

theorem mmcSpiCheckWritePortect_quiet : Triple (recordedBus pins) Quiet mmcSpiCheckWritePortect Quiet :=
  .bind mmcSpiCheckCardDetect_quiet fun _ => .ite (.bind (iord_quiet _) fun _ => .pure _) (.pure _)

theorem mmcSpiInitSocket_quiet : Triple (recordedBus pins) Open mmcSpiInitSocket Quiet :=
  .bind waitFor_exit fun _ => .bind mmcSpiSetCardDeselect_quiet fun _ => mmcSpiSetIdentClock_quiet

theorem copyWords_quiet (dnum cycle : Nat) :
    Triple (recordedBus pins) Quiet (copyWords dnum cycle) Quiet := by
  fun_induction copyWords dnum cycle with
  | case1 dnum cycle ih =>
      exact .bind (iord_quiet _) fun _ => .bind ih fun _ => .pure _
  | case2 => exact .pure _

theorem copyBytes_quiet (dnum : Nat) (data32 : Option (BitVec 32)) (cycle : Nat) :
    Triple (recordedBus pins) Quiet (copyBytes dnum data32 cycle) Quiet := by
  induction cycle generalizing dnum data32 with
  | zero => exact .pure _
  | succ cycle ih =>
      exact .ite (.bind (iord_quiet _) fun _ => .bind (ih _ _) fun _ => .pure _)
        (.bind (ih _ _) fun _ => .pure _)

theorem copyBuffer_quiet (aligned : Bool) (cycle : Nat) :
    Triple (recordedBus pins) Quiet (copyBuffer aligned cycle) Quiet := by
  have rest (r : Nat × Nat × List (Option (BitVec 8))) :
      Triple (recordedBus pins) Quiet (do
        let bytes ← copyBytes r.2.1 none r.1
        return r.2.2 ++ bytes) Quiet :=
    .bind (copyBytes_quiet _ _ _) fun _ => .pure _
  exact .ite (.bind (copyWords_quiet _ _) rest) (.bind (.pure _) rest)

theorem mmcSpiDmaRecv_quiet (wc : BitVec 8) (aligned : Bool) :
    Triple (recordedBus pins) Open (mmcSpiDmaRecv wc aligned) Quiet := by
  have start : (mmcDmastart ||| BitVec.ofNat 32 (cycleOf wc - 1)).getLsbD 10 = true := by
    rw [BitVec.getLsbD_or, Bool.or_eq_true]
    left
    decide
  refine .bind waitFor_exit fun _ => .bind (mmcSpiSetTimer_quiet _) fun _ => .bind (iowr_dmastart start) fun _ =>
    .bind waitFor_dmadone fun _ => .bind (iord_quiet _) fun _ => .ite (.pure _) ?_
  exact .bind (copyBuffer_quiet _ _) fun _ => .pure _

/-! ## The disk layer -/

theorem xmitMmc_open (buff : List (BitVec 8)) : Triple (recordedBus pins) Open (xmitMmc buff) Open := by
  induction buff with
  | nil => exact .pure _
  | cons d buff ih => exact .bind (mmcSpiSendbyte_open d) fun _ => ih

theorem rcvrBytes_quiet (bc : Nat) : Triple (recordedBus pins) Quiet (rcvrBytes bc) Quiet := by
  induction bc with
  | zero => exact .pure _
  | succ bc ih =>
      exact .bind (calm mmcSpiRecvbyte_quiet) fun _ => .bind ih fun _ => .pure _

/-- At least one byte is received, whatever is under way before. -/
theorem rcvrMmc_quiet (bc : Nat) : Triple (recordedBus pins) Open (rcvrMmc bc) Quiet := by
  have some (n : Nat) : Triple (recordedBus pins) Open (rcvrBytes (n + 1)) Quiet :=
    .bind mmcSpiRecvbyte_quiet fun _ => .bind (rcvrBytes_quiet n) fun _ => .pure _
  unfold rcvrMmc
  split
  · exact some 4294967295
  · next positive =>
      obtain ⟨n, rfl⟩ := Nat.exists_eq_succ_of_ne_zero positive
      exact some n

theorem rcvrByte_quiet : Triple (recordedBus pins) Open rcvrByte Quiet :=
  .bind (rcvrMmc_quiet 1) fun _ => .pure _

theorem waitReady_quiet : Triple (recordedBus pins) Quiet waitReady Quiet := by
  have loop (tmr : Nat) : Triple (recordedBus pins) Quiet (waitReadyLoop tmr) Quiet := by
    induction tmr with
    | zero => exact .pure _
    | succ tmr ih =>
        exact .bind (calm rcvrByte_quiet) fun _ => .ite (.pure _) (.bind mmcSpiWait100us_quiet fun _ => ih)
  exact loop 5000

theorem deselect_closing : Triple (recordedBus pins) Closing deselect Quiet :=
  .bind mmcSpiSetCardDeselect_closing fun _ => .bind rcvrByte_quiet fun _ => .pure _

theorem deselect_quiet : Triple (recordedBus pins) Quiet deselect Quiet :=
  deselect_closing.weaken (fun _ => Quiet.closing) fun _ => id

theorem select_quiet : Triple (recordedBus pins) Quiet select Quiet :=
  .bind mmcSpiSetCardSelect_quiet fun _ => .bind (calm rcvrByte_quiet) fun _ => .bind waitReady_quiet fun _ =>
    .ite (.pure _) (.bind deselect_quiet fun _ => .pure _)

theorem rcvrDatablock_quiet (aligned : Bool) (btr : Nat) :
    Triple (recordedBus pins) Quiet (rcvrDatablock aligned btr) Quiet := by
  have recv : Triple (recordedBus pins) Quiet (mmcSpiDmaRecv (BitVec.ofNat 8 btr) aligned) Quiet :=
    calm (mmcSpiDmaRecv_quiet _ aligned)
  exact .bind recv fun _ => .ite (.pure _) (.bind (calm (rcvrMmc_quiet 2)) fun _ => .pure _)

/-- After every token but the stop token the answer of the card is received. -/
theorem xmitDatablock_quiet (buff : List (BitVec 8)) {token : BitVec 8} (data : token ≠ 0xFD) :
    Triple (recordedBus pins) Quiet (xmitDatablock buff token) Quiet := by
  refine .bind waitReady_quiet fun _ => .ite (.pure _) ?_
  simp only [if_pos data]
  exact .bind (calm (xmitMmc_open [token])) fun _ => .bind (xmitMmc_open buff) fun _ =>
    .bind (rcvrMmc_quiet 2) fun _ => .bind (calm rcvrByte_quiet) fun _ => .ite (.pure _) (.pure _)

/-- After the stop token nothing is received. -/
theorem xmitDatablock_stop (buff : List (BitVec 8)) :
    Triple (recordedBus pins) Quiet (xmitDatablock buff 0xFD) Closing := by
  refine .bind waitReady_quiet fun _ => .ite (settles (.pure _)) ?_
  simp only [ne_eq, not_true_eq_false, if_false]
  have sends : Triple (recordedBus pins) Quiet (xmitMmc [0xFD]) fun s =>
      Open s ∧ ∃ last ∈ s.2.head?, last.Sends 0xFD :=
    .bind (calm (mmcSpiSendbyte_sends 0xFD)) fun _ => .pure _
  refine (Triple.bind sends fun _ => .pure _).weaken (fun _ => id) ?_
  rintro s ⟨isOpen, stopped⟩
  exact ⟨isOpen.owned, isOpen.heard, .inr stopped⟩

theorem response_quiet (n : Nat) : Triple (recordedBus pins) Open (response n) Quiet := by
  induction n with
  | zero => exact rcvrByte_quiet
  | succ n ih =>
      exact .bind rcvrByte_quiet fun _ => .ite (calm ih) (.pure _)

theorem sendPacket_quiet (cmd : BitVec 8) (arg : BitVec 32) :
    Triple (recordedBus pins) Quiet (sendPacket cmd arg) Quiet := by
  refine .bind deselect_quiet fun _ => .bind select_quiet fun _ => .ite (.pure _) ?_
  refine .bind (calm (xmitMmc_open _)) fun _ => ?_
  exact .ite (.bind rcvrByte_quiet fun _ => calm (response_quiet 9)) (response_quiet 9)

theorem sendCmd_quiet (cmd : BitVec 8) (arg : BitVec 32) :
    Triple (recordedBus pins) Quiet (sendCmd cmd arg) Quiet :=
  .ite (.bind (sendPacket_quiet _ _) fun _ => .ite (.pure _) (sendPacket_quiet _ _)) (sendPacket_quiet _ _)

theorem cardStatus_quiet (s : BitVec 8) : Triple (recordedBus pins) Quiet (cardStatus s) Quiet := by
  refine .bind mmcSpiCheckWritePortect_quiet fun _ => .ite (.pure _) ?_
  exact .bind (sendCmd_quiet _ _) fun _ => .bind (calm (rcvrMmc_quiet 4)) fun _ =>
    .bind mmcSpiSetCardDeselect_quiet fun _ => .pure _

theorem diskStatus_quiet (drv : BitVec 8) : Triple (recordedBus pins) Quiet (diskStatus drv) Quiet := by
  have noDisk : Triple (recordedBus pins) Quiet (noDisk drv) Quiet :=
    .ite (.pure _) (.bind mmcSpiCheckCardDetect_quiet fun _ => .pure _)
  refine .bind .vars fun _ => .bind ?_ fun _ => .bind (.assign _) fun _ => .pure _
  exact .bind noDisk fun _ => .ite (.pure _) (cardStatus_quiet _)

theorem waitInitialized_quiet (arg : BitVec 32) (tmr : Nat) :
    Triple (recordedBus pins) Quiet (waitInitialized arg tmr) Quiet := by
  induction tmr with
  | zero => exact .pure _
  | succ tmr ih =>
      exact .bind (sendCmd_quiet _ _) fun _ => .ite (.pure _)
        (.bind (mmcSpiSetTimer_quiet 1) fun _ => .bind waitTimer_quiet fun _ => ih)

theorem identify_quiet : Triple (recordedBus pins) Quiet identify Quiet := by
  refine .bind (sendCmd_quiet _ _) fun _ => .ite (.pure _) (.bind (sendCmd_quiet _ _) fun _ => .ite ?_ ?_)
  · refine .bind (calm (rcvrMmc_quiet 4)) fun _ => .ite (.pure _) (.bind (waitInitialized_quiet _ _) fun _ =>
      .ite (.pure _) (.bind (sendCmd_quiet _ _) fun _ => .ite (.pure _) ?_))
    exact .bind (calm (rcvrMmc_quiet 4)) fun _ => .pure _
  · refine .bind (sendCmd_quiet _ _) fun _ => .bind (waitInitialized_quiet _ _) fun _ => .ite (.pure _) ?_
    exact .bind (sendCmd_quiet _ _) fun _ => .ite (.pure _) (.pure _)

theorem diskInitialize_quiet (drv : BitVec 8) :
    Triple (recordedBus pins) Quiet (diskInitialize drv) Quiet := by
  refine .bind (calm mmcSpiInitSocket_quiet) fun _ => .bind (diskStatus_quiet drv) fun _ => .ite (.pure _) ?_
  refine .bind mmcSpiSetCardDeselect_quiet fun _ => .bind (rcvrBytes_quiet 10) fun _ =>
    .bind identify_quiet fun _ => .bind (.assign _) fun _ => .bind (.assign _) fun _ => .bind deselect_quiet fun _ => ?_
  exact .ite (.bind mmcSpiSetTransClock_quiet fun _ => .pure _) (.pure _)

theorem cardAddress_quiet (sector : BitVec 32) : Triple (recordedBus pins) Quiet (cardAddress sector) Quiet :=
  .bind .vars fun _ => .pure _

theorem readBlocks_quiet (aligned : Bool) (count : Nat) :
    Triple (recordedBus pins) Quiet (readBlocks aligned count) Quiet := by
  induction count with
  | zero => exact .pure _
  | succ count ih =>
      exact .bind (rcvrDatablock_quiet aligned 512) fun _ => .ite (.pure _) (.bind ih fun _ => .pure _)

theorem readSectors_quiet (aligned : Bool) (sector : BitVec 32) (count : BitVec 8) :
    Triple (recordedBus pins) Quiet (readSectors aligned sector count) Quiet := by
  refine .ite (.bind (sendCmd_quiet _ _) fun _ => .ite (.pure _) ?_)
    (.bind (sendCmd_quiet _ _) fun _ => .ite (.pure _) ?_)
  · exact .bind (rcvrDatablock_quiet _ _) fun _ => .pure _
  · exact .bind (readBlocks_quiet _ _) fun _ => .bind (sendCmd_quiet _ _) fun _ => .pure _

theorem diskRead_quiet (drv : BitVec 8) (aligned : Bool) (sector : BitVec 32) (count : BitVec 8) :
    Triple (recordedBus pins) Quiet (diskRead drv aligned sector count) Quiet := by
  refine .bind (diskStatus_quiet drv) fun _ => .ite (.pure _) (.ite (.pure _) ?_)
  exact .bind (cardAddress_quiet _) fun _ => .bind (readSectors_quiet _ _ _) fun _ =>
    .bind deselect_quiet fun _ => .pure _

theorem writeBlocks_quiet (buff : Nat → BitVec 8) (i count : Nat) :
    Triple (recordedBus pins) Quiet (writeBlocks buff i count) Quiet := by
  induction count generalizing i with
  | zero => exact .pure _
  | succ count ih =>
      exact .bind (xmitDatablock_quiet _ (by decide)) fun _ => .ite (.pure _) (ih (i + 1))

/-- The one function that may return while a byte is under way, which is then the stop token. -/
theorem writeSectors_closing (buff : Nat → BitVec 8) (sector : BitVec 32) (count : BitVec 8) :
    Triple (recordedBus pins) Quiet (writeSectors buff sector count) Closing := by
  have multiple : Triple (recordedBus pins) Quiet (do
      if (← sendCmd cmd25 sector) ≠ 0 then return count.toNat
      let left ← writeBlocks buff 0 count.toNat
      return if ← xmitDatablock [] 0xFD then left else 1) Closing :=
    .bind (sendCmd_quiet _ _) fun _ => .ite (settles (.pure _)) (.bind (writeBlocks_quiet _ _ _) fun _ =>
      .bind (xmitDatablock_stop _) fun _ => .pure _)
  refine .ite (settles ?_) (.bind .vars fun _ => ?_)
  · exact .bind (sendCmd_quiet _ _) fun _ => .ite (.pure _)
      (.bind (xmitDatablock_quiet _ (by decide)) fun _ => .pure _)
  · exact .ite (.bind (sendCmd_quiet _ _) fun _ => multiple) multiple

theorem diskWrite_quiet (drv : BitVec 8) (buff : Nat → BitVec 8) (sector : BitVec 32) (count : BitVec 8) :
    Triple (recordedBus pins) Quiet (diskWrite drv buff sector count) Quiet := by
  refine .bind (diskStatus_quiet drv) fun _ => .ite (.pure _) (.ite (.pure _) (.ite (.pure _) ?_))
  exact .bind (cardAddress_quiet _) fun _ => .bind (writeSectors_closing _ _ _) fun _ =>
    .bind deselect_closing fun _ => .pure _

theorem ioctl_quiet (ctrl : BitVec 8) (csdAligned : Bool) :
    Triple (recordedBus pins) Quiet (ioctl ctrl csdAligned) Quiet := by
  refine .ite (.bind select_quiet fun _ => .ite (.pure _) (.bind deselect_quiet fun _ => .pure _)) (.ite ?_ ?_)
  · exact .bind (sendCmd_quiet _ _) fun _ => .ite (.pure _) (.bind (rcvrDatablock_quiet _ _) fun _ =>
      .ite (.pure _) (.pure _))
  · exact .ite (.pure _) (.pure _)

theorem diskIoctl_quiet (drv ctrl : BitVec 8) (csdAligned : Bool) :
    Triple (recordedBus pins) Quiet (diskIoctl drv ctrl csdAligned) Quiet :=
  .bind (diskStatus_quiet drv) fun _ => .ite (.pure _) (.bind (ioctl_quiet _ _) fun _ =>
    .bind deselect_quiet fun _ => .pure _)

end

/-! ## Runs of the disk layer -/

/-- A call of one of the five disk functions. -/
inductive DiskCall where
  | start (drv : BitVec 8)
  | call (c : Call)

def DiskCall.exec : DiskCall → DriverM Unit
  | .start drv => do let _ ← diskInitialize drv
  | .call c => do let _ ← c.exec

/-- One call after another. -/
def diskCalls : List DiskCall → DriverM Unit
  | [] => return
  | c :: calls => do
      c.exec
      diskCalls calls

section
variable {pins : Pins}

theorem diskCall_quiet (c : DiskCall) : Triple (recordedBus pins) Quiet c.exec Quiet := by
  cases c with
  | start drv => exact .bind (diskInitialize_quiet drv) fun _ => .pure _
  | call c =>
      refine .bind ?_ fun _ => .pure _
      cases c with
      | status drv => exact .bind (diskStatus_quiet drv) fun _ => .pure _
      | read drv aligned sector count => exact .bind (diskRead_quiet _ _ _ _) fun _ => .pure _
      | write drv buff sector count => exact .bind (diskWrite_quiet _ _ _ _) fun _ => .pure _
      | ioctl drv ctrl csdAligned => exact .bind (diskIoctl_quiet _ _ _) fun _ => .pure _

theorem diskCalls_quiet (calls : List DiskCall) : Triple (recordedBus pins) Quiet (diskCalls calls) Quiet := by
  induction calls with
  | nil => exact .pure _
  | cons c calls ih => exact .bind (diskCall_quiet c) fun _ => ih

/-- Every write of a record. -/
theorem Heard.arrival {newer older : List Arrival} {a : Arrival} (heard : Heard (newer ++ a :: older))
    (controls : a.Controls) : AfterStopToken older ∨ a.Lands := by
  induction newer with
  | nil => exact heard.1 controls
  | cons b newer ih => exact ih heard.2

/-- The level of the pin. -/
def Ncs.level : Ncs → Bool
  | .selassert => false
  | .selnegete => true

/-- What a function that selects or deselects the card leaves: the variable, and one write for the level of the
variable, after which the component is as the function leaves it. -/
structure Selects (ncs : Ncs) (v : Vars) (s s' : Mmcdma × List Arrival) : Prop where
  mmcSpiNcs : v.mmcSpiNcs = ncs
  arrival : ∃ a, s'.2 = a :: s.2 ∧ s'.1 = a.after ∧ a.Controls ∧ a.reg = mmcregStatus ∧
    a.data.getLsbD 8 = ncs.level

theorem selectWord_level (ncs : Ncs) : (mmcCommexit ||| ncs.word ||| 0xff).getLsbD 8 = ncs.level := by
  cases ncs
  all_goals decide

section
variable {v v' : Vars} {s s' : Mmcdma × List Arrival} {u : Unit}

theorem selects_of_write {ncs : Ncs} (same : v.mmcSpiNcs = ncs)
    (write : (recordedBus pins).write mmcregStatus (mmcCommexit ||| ncs.word ||| 0xff) s s') :
    Selects ncs v s s' := by
  obtain ⟨s₀, i, -, -, rfl⟩ := write
  exact ⟨same, _, rfl, rfl, .inl ⟨rfl, selectWord_exit ncs⟩, rfl, selectWord_level ncs⟩

theorem mmcSpiSetCardSelect_selects (ran : Runs (recordedBus pins) mmcSpiSetCardSelect v s u v' s') :
    Selects .selassert v' s s' := by
  simp only [mmcSpiSetCardSelect, runs_bind, runs_assign, runs_vars, iowr_runs] at ran
  obtain ⟨_, _, _, ⟨rfl, rfl⟩, _, _, _, ⟨rfl, rfl, rfl⟩, rfl, write⟩ := ran
  exact selects_of_write rfl write

theorem mmcSpiSetCardDeselect_selects (ran : Runs (recordedBus pins) mmcSpiSetCardDeselect v s u v' s') :
    Selects .selnegete v' s s' := by
  simp only [mmcSpiSetCardDeselect, runs_bind, runs_assign, runs_vars, iowr_runs] at ran
  obtain ⟨_, _, _, ⟨rfl, rfl⟩, _, _, _, ⟨rfl, rfl, rfl⟩, rfl, write⟩ := ran
  exact selects_of_write rfl write

end

end

/-! ## A write of two sectors -/

/-- A card in the socket with the pin for the write protection low. -/
def writablePins : Pins := ⟨false, false⟩

/-- The component some clocks after reset, when the card has been seen. -/
def socketReset : Mmcdma := Clocked.run Mmcdma.step (waits writablePins fun _ => true) Mmcdma.powerOn 4

/-- The bytes of a card that is initialised as an SD card of version 2 and accepts two sectors. -/
def acceptsSectors (n : Nat) : BitVec 8 :=
  if n ∈ [19, 29, 32, 43] then 0x01
  else if n = 33 then 0xAA
  else if n ∈ [53, 63, 78, 92, 102, 112] then 0x00
  else if n ∈ [629, 1146] then 0x05
  else 0xFF

def startThenWrite : List DiskCall := [.start 0, .call (.write 0 (fun _ => 0) 0 2)]

/-- On a fast CPU the write that deselects the card comes while the stop token is shifted out. -/
theorem startThenWrite_runs :
    ∃ v s log, Runs (recordedBus writablePins) (diskCalls startThenWrite) .initial (socketReset, []) ()
        v (s, log) ∧
      ∃ a ∈ log, a.Controls ∧ a.before.spi.state ≠ .idle ∧ a.after.spi.ncsReg ≠ a.data.getLsbD 8 := by
  have shows : Paced.initial.Shows writablePins (socketReset, []) :=
    .ofStands
      ⟨⟨⟨run_consistent _ Mmcdma.powerOn_isReset 4, rfl, rfl⟩, ⟨rfl, rfl, rfl, rfl⟩, rfl, rfl, rfl⟩, rfl, rfl⟩ rfl
      fun wrong => absurd wrong Bool.false_ne_true
  have missed : ((diskCalls startThenWrite .initial).attempt (Paced.read acceptsSectors writablePins)
      Paced.write Paced.initial).map (fun r => r.2.missed) = some true := by
    decide +kernel
  obtain ⟨⟨⟨u, v⟩, p⟩, attempt, found⟩ := Option.map_eq_some_iff.mp missed
  obtain ⟨⟨s, log⟩, exec, shows'⟩ := (paced_simulates acceptsSectors writablePins).exec attempt shows
  exact ⟨v, s, log, exec, shows'.missed found⟩

/-! ## The writes of every run -/

/-- In every run of the disk functions, each write that selects the card or sets the clock comes to an idle engine
and does what it is for, unless the write before it has sent the stop token. Where it lands, the select line has
the level of `mmc_spi_ncs` when the function returns. -/
theorem control_writes_land {pins : Pins} {s s' : Mmcdma} (ready : s.Ready) {calls : List DiskCall} {v v' : Vars}
    {log : List Arrival} (ran : Runs (recordedBus pins) (diskCalls calls) v (s, []) () v' (s', log)) :
    (∀ newer a older, log = newer ++ a :: older → a.Controls → AfterStopToken older ∨ a.Lands) ∧
    ∀ (v₁ v₂ : Vars) (s₁ s₂ : Mmcdma × List Arrival),
      (Runs (recordedBus pins) mmcSpiSetCardSelect v₁ s₁ () v₂ s₂ → Selects .selassert v₂ s₁ s₂) ∧
      (Runs (recordedBus pins) mmcSpiSetCardDeselect v₁ s₁ () v₂ s₂ → Selects .selnegete v₂ s₁ s₂) := by
  constructor
  · intro newer a older same controls
    have start : Quiet (s, []) := ⟨ready, trivial⟩
    have heard := ((diskCalls_quiet calls).runs ran start).heard
    dsimp only at heard
    rw [same] at heard
    exact heard.arrival controls
  · intro v₁ v₂ s₁ s₂
    exact ⟨mmcSpiSetCardSelect_selects, mmcSpiSetCardDeselect_selects⟩

theorem control_writes_land_two_sectors :
    ∃ v s log, Runs (recordedBus writablePins) (diskCalls startThenWrite) .initial (socketReset, []) ()
        v (s, log) ∧
      ∀ newer a older, log = newer ++ a :: older → a.Controls → AfterStopToken older ∨ a.Lands := by
  obtain ⟨v, s, log, ran, -⟩ := startThenWrite_runs
  have idle : socketReset.spi.state = .idle := rfl
  have ready : socketReset.Ready := ⟨run_consistent _ Mmcdma.powerOn_isReset 4, rfl, rfl, idle⟩
  exact ⟨v, s, log, ran, (control_writes_land ready ran).1⟩

/-- After the stop token of a write of two sectors the card stays selected when `mmc_spi_SetCardDeselect`
returns. -/
theorem deselect_missed :
    Mmcdma.powerOn.IsReset ∧ Idles writablePins Mmcdma.powerOn socketReset ∧
    ∃ v s log, Runs (recordedBus writablePins) (diskCalls startThenWrite) .initial (socketReset, []) ()
        v (s, log) ∧
      ∃ a ∈ log, a.Controls ∧ a.before.spi.state ≠ .idle ∧ a.after.spi.ncsReg ≠ a.data.getLsbD 8 :=
  ⟨Mmcdma.powerOn_isReset, idles_waits _ _ 4, startThenWrite_runs⟩

end Cineraria.Mmc
