import Cineraria.Mmc.Bus
import Cineraria.Mmc.Card

/-!
# The write-protect switch

The level of the pin passes a synchroniser, a bit of the status register, a test of the
driver, the disk status and a check of `disk_write`. The pin is low for a protected card and
the test of the driver takes a high level for one, so all calls after it have it wrong.
-/

namespace Cineraria.Mmc

open RegisterIo Bytes

/-! ## The disk status between calls -/

section
open Driver

/-- The functions below the disk functions leave `Stat` alone. -/
abbrev KeepsStat {α : Type} (m : DriverM α) : Prop := Keeps Vars.stat m

theorem iowr_keeps (reg : Nat) (data : BitVec 32) : KeepsStat (iowr reg data) :=
  .bind (.assign fun _ => rfl) fun _ => .iowr reg data

theorem waitFor_keeps (reg : Nat) (mask : BitVec 32) : KeepsStat (waitFor reg mask) := .poll reg _

theorem mmcSpiSetCardSelect_keeps : KeepsStat mmcSpiSetCardSelect :=
  .bind (.assign fun _ => rfl) fun _ => .bind .vars fun _ => iowr_keeps _ _

theorem mmcSpiSetCardDeselect_keeps : KeepsStat mmcSpiSetCardDeselect :=
  .bind (.assign fun _ => rfl) fun _ => .bind .vars fun _ => iowr_keeps _ _

theorem mmcSpiSendbyte_keeps (data : BitVec 8) : KeepsStat (mmcSpiSendbyte data) :=
  .bind (waitFor_keeps _ _) fun _ => .bind .vars fun _ => iowr_keeps _ _

theorem mmcSpiRecvbyte_keeps : KeepsStat mmcSpiRecvbyte :=
  .bind (waitFor_keeps _ _) fun _ => .bind .vars fun _ => .bind (iowr_keeps _ _) fun _ =>
    .bind (waitFor_keeps _ _) fun _ => .pure _

theorem mmcSpiWait100us_keeps : KeepsStat mmcSpiWait100us :=
  .bind (iowr_keeps _ _) fun _ => .bind (.poll _ _) fun _ => .pure _

theorem xmitMmc_keeps (buff : List (BitVec 8)) : KeepsStat (xmitMmc buff) := by
  induction buff with
  | nil => exact .pure _
  | cons d buff ih => exact .bind (mmcSpiSendbyte_keeps d) fun _ => ih

theorem rcvrBytes_keeps (bc : Nat) : KeepsStat (rcvrBytes bc) := by
  induction bc with
  | zero => exact .pure _
  | succ bc ih => exact .bind mmcSpiRecvbyte_keeps fun _ => .bind ih fun _ => .pure _

theorem rcvrMmc_keeps (bc : Nat) : KeepsStat (rcvrMmc bc) := rcvrBytes_keeps _

theorem rcvrByte_keeps : KeepsStat rcvrByte := .bind (rcvrMmc_keeps 1) fun _ => .pure _

theorem waitReady_keeps : KeepsStat waitReady := by
  have loop : ∀ tmr, KeepsStat (waitReadyLoop tmr) := by
    intro tmr
    induction tmr with
    | zero => exact .pure _
    | succ tmr ih =>
        exact .bind rcvrByte_keeps fun _ => .ite (.pure _)
          (.bind mmcSpiWait100us_keeps fun _ => ih)
  exact loop 5000

theorem deselect_keeps : KeepsStat deselect :=
  .bind mmcSpiSetCardDeselect_keeps fun _ => .bind rcvrByte_keeps fun _ => .pure _

theorem select_keeps : KeepsStat select :=
  .bind mmcSpiSetCardSelect_keeps fun _ => .bind rcvrByte_keeps fun _ =>
    .bind waitReady_keeps fun _ => .ite (.pure _) (.bind deselect_keeps fun _ => .pure _)

theorem response_keeps (n : Nat) : KeepsStat (response n) := by
  induction n with
  | zero => exact rcvrByte_keeps
  | succ n ih => exact .bind rcvrByte_keeps fun _ => .ite ih (.pure _)

theorem sendPacket_keeps (cmd : BitVec 8) (arg : BitVec 32) : KeepsStat (sendPacket cmd arg) := by
  unfold sendPacket
  refine .bind deselect_keeps fun _ => .bind select_keeps fun _ => .ite (.pure _) ?_
  refine .bind (xmitMmc_keeps _) fun _ => ?_
  exact .ite (.bind rcvrByte_keeps fun _ => response_keeps 9) (response_keeps 9)

theorem sendCmd_keeps (cmd : BitVec 8) (arg : BitVec 32) : KeepsStat (sendCmd cmd arg) := by
  unfold sendCmd
  refine .ite (.bind (sendPacket_keeps _ _) fun n => ?_) (sendPacket_keeps _ _)
  exact .ite (.pure _) (sendPacket_keeps _ _)

theorem xmitDatablock_keeps (buff : List (BitVec 8)) (token : BitVec 8) :
    KeepsStat (xmitDatablock buff token) := by
  unfold xmitDatablock
  refine .bind waitReady_keeps fun _ => .ite (.pure _) (.bind (xmitMmc_keeps _) fun _ => ?_)
  refine .ite (.bind (xmitMmc_keeps _) fun _ => .bind (rcvrMmc_keeps 2) fun _ =>
    .bind rcvrByte_keeps fun _ => .ite (.pure _) (.pure _)) (.pure _)

theorem writeBlocks_keeps (buff : Nat → BitVec 8) (i count : Nat) :
    KeepsStat (writeBlocks buff i count) := by
  induction count generalizing i with
  | zero => exact .pure _
  | succ count ih =>
      exact .bind (xmitDatablock_keeps _ _) fun _ => .ite (.pure _) (ih (i + 1))

theorem cardAddress_keeps (sector : BitVec 32) : KeepsStat (cardAddress sector) :=
  .bind .vars fun _ => .pure _

theorem writeSectors_keeps (buff : Nat → BitVec 8) (sector : BitVec 32) (count : BitVec 8) :
    KeepsStat (writeSectors buff sector count) := by
  have multiple : KeepsStat (do
      if (← sendCmd cmd25 sector) ≠ 0 then return count.toNat
      let left ← writeBlocks buff 0 count.toNat
      return if ← xmitDatablock [] 0xFD then left else 1) :=
    .bind (sendCmd_keeps _ _) fun _ => .ite (.pure _) (.bind (writeBlocks_keeps _ _ _) fun _ =>
      .bind (xmitDatablock_keeps _ _) fun _ => .pure _)
  unfold writeSectors
  refine .ite (.bind (sendCmd_keeps _ _) fun _ => .ite (.pure _) ?_) (.bind .vars fun _ => ?_)
  · exact .bind (xmitDatablock_keeps _ _) fun _ => .pure _
  · exact .ite (.bind (sendCmd_keeps _ _) fun _ => multiple) multiple

end

/-! ## From the pin to the disk status -/

section
variable {σ : Type} {dev : Device σ} {pins : Pins} {Inv : σ → Prop} {v v' : Vars} {s s' : σ}

theorem mmcSpiCheckCardDetect_runs (shows : ShowsPins dev pins Inv) (inv : Inv s) {b : Bool}
    (ran : Runs dev mmcSpiCheckCardDetect v s b v' s') : b = !pins.mmcCd ∧ v' = v ∧ Inv s' := by
  obtain ⟨x, _, _, access, ended⟩ := runs_bind.mp ran
  obtain ⟨rfl, rfl, rfl⟩ := runs_pure.mp ended
  obtain ⟨rfl, read⟩ := runs_iord.mp access
  refine ⟨?_, rfl, shows.read read⟩
  rw [← (shows.status read inv).2, ← test_bit x (show 10 < 32 by decide), bne, Bool.not_not]
  rfl

/-- The driver takes a high level of the pin for a protected card. -/
theorem mmcSpiCheckWritePortect_runs (shows : ShowsPins dev pins Inv) (inserted : pins.mmcCd = false)
    (inv : Inv s) {b : Bool} (ran : Runs dev mmcSpiCheckWritePortect v s b v' s') :
    b = pins.mmcWp ∧ v' = v ∧ Inv s' := by
  obtain ⟨detect, _, _, check, rest⟩ := runs_bind.mp ran
  obtain ⟨rfl, rfl, inv⟩ := mmcSpiCheckCardDetect_runs shows inv check
  rw [inserted, Bool.not_false, if_pos rfl] at rest
  obtain ⟨x, _, _, access, ended⟩ := runs_bind.mp rest
  obtain ⟨rfl, rfl, rfl⟩ := runs_pure.mp ended
  obtain ⟨rfl, read⟩ := runs_iord.mp access
  refine ⟨?_, rfl, shows.read read⟩
  rw [← (shows.status read inv).1, ← test_bit x (show 11 < 32 by decide)]
  rfl

/-- What `disk_status` returns is the new `Stat`. -/
theorem diskStatus_stat {drv r : BitVec 8} (ran : Runs dev (diskStatus drv) v s r v' s') :
    v'.stat = r := by
  simp only [diskStatus, runs_bind, runs_assign, runs_pure] at ran
  obtain ⟨_, _, _, -, _, _, _, -, _, _, _, ⟨rfl, -⟩, rfl, rfl, -⟩ := ran
  rfl

/-- Another drive than 0 is not there. -/
theorem diskStatus_noDrive {drv r : BitVec 8} (other : drv ≠ 0)
    (ran : Runs dev (diskStatus drv) v s r v' s') : r = staNodisk ||| staNoinit := by
  simp only [diskStatus, driveStatus, noDisk, if_pos other, runs_bind, runs_pure] at ran
  obtain ⟨_, _, _, -, _, _, _, ⟨_, _, _, ⟨rfl, -⟩, check⟩, _, _, _, -, rfl, -, -⟩ := ran
  exact (runs_pure.mp check).1

/-- With a card in the socket the protect bit is the level of the pin, and a card that was not
initialised still is not. -/
theorem cardStatus_runs (shows : ShowsPins dev pins Inv) (inserted : pins.mmcCd = false)
    (inv : Inv s) {stat r : BitVec 8} (ran : Runs dev (cardStatus stat) v s r v' s') :
    (r &&& staProtect ≠ 0 ↔ pins.mmcWp = true) ∧ (stat &&& staNoinit ≠ 0 → r &&& staNoinit ≠ 0) := by
  obtain ⟨wp, _, _, check, rest⟩ := runs_bind.mp ran
  obtain ⟨rfl, -, -⟩ := mmcSpiCheckWritePortect_runs shows inserted inv check
  have protects : ∀ (wp : Bool) (stat : BitVec 8),
      ((if wp then stat &&& ~~~staNodisk ||| staProtect
        else stat &&& ~~~staNodisk &&& ~~~staProtect) &&& staProtect ≠ 0 ↔ wp = true) ∧
      ((if wp then stat &&& ~~~staNodisk ||| staProtect
        else stat &&& ~~~staNodisk &&& ~~~staProtect) &&& staNoinit = stat &&& staNoinit) := by
    decide
  have noinit : ∀ stat : BitVec 8, (stat ||| staNoinit) &&& staProtect = stat &&& staProtect ∧
    (stat ||| staNoinit) &&& staNoinit ≠ 0 := by decide
  obtain ⟨protect, same⟩ := protects pins.mmcWp stat
  dsimp only at rest
  generalize (if pins.mmcWp = true then stat &&& ~~~staNodisk ||| staProtect
    else stat &&& ~~~staNodisk &&& ~~~staProtect) = new at protect same rest
  split at rest
  · obtain ⟨rfl, -, -⟩ := runs_pure.mp rest
    exact ⟨protect, fun was => by rwa [same]⟩
  · simp only [runs_bind, runs_pure] at rest
    obtain ⟨n, _, _, -, _, _, _, -, _, _, _, -, rfl, -, -⟩ := rest
    split
    · rw [(noinit _).1]
      exact ⟨protect, fun _ => (noinit _).2⟩
    · exact ⟨protect, fun was => by rwa [same]⟩

theorem diskStatus_runs (shows : ShowsPins dev pins Inv) (inserted : pins.mmcCd = false)
    (inv : Inv s) {r : BitVec 8} (ran : Runs dev (diskStatus 0) v s r v' s') :
    (r &&& staProtect ≠ 0 ↔ pins.mmcWp = true) ∧
    (v.stat &&& staNoinit ≠ 0 → r &&& staNoinit ≠ 0) := by
  simp only [diskStatus, driveStatus, noDisk, runs_bind, runs_vars, runs_pure, if_neg (not_not_intro rfl)] at ran
  obtain ⟨_, _, _, ⟨rfl, rfl, rfl⟩, _, _, _, ⟨_, _, _, ⟨_, _, _, detect, rfl, rfl, rfl⟩, check⟩,
    _, _, _, -, rfl, -, -⟩ := ran
  obtain ⟨rfl, rfl, inv⟩ := mmcSpiCheckCardDetect_runs shows inv detect
  rw [inserted, if_neg (by decide)] at check
  exact cardStatus_runs shows inserted inv check

/-- `disk_write` answers what its status check says, and leaves `Stat` as the check set it. -/
theorem diskWrite_runs {drv : BitVec 8} {buff : Nat → BitVec 8} {sector : BitVec 32}
    {count : BitVec 8} {r : Dresult} (ran : Runs dev (diskWrite drv buff sector count) v s r v' s') :
    ∃ stat v₁ s₁, Runs dev (diskStatus drv) v s stat v₁ s₁ ∧ v'.stat = stat ∧
      (stat &&& staNoinit ≠ 0 → r = .resNotrdy) ∧
      (stat &&& staNoinit = 0 → r ≠ .resNotrdy ∧ (r = .resWrprt ↔ stat &&& staProtect ≠ 0)) := by
  obtain ⟨stat, v₁, s₁, check, rest⟩ := runs_bind.mp ran
  have checked := diskStatus_stat check
  refine ⟨stat, v₁, s₁, check, ?_⟩
  split at rest
  case isTrue noinit =>
    obtain ⟨rfl, rfl, -⟩ := runs_pure.mp rest
    exact ⟨checked, fun _ => rfl, fun init => absurd init noinit⟩
  case isFalse init =>
    split at rest
    case isTrue protect =>
      obtain ⟨rfl, rfl, -⟩ := runs_pure.mp rest
      exact ⟨checked, fun noinit => absurd noinit init, fun _ => ⟨by simp, iff_of_true rfl protect⟩⟩
    case isFalse writable =>
      split at rest
      · obtain ⟨rfl, rfl, -⟩ := runs_pure.mp rest
        exact ⟨checked, fun noinit => absurd noinit init, fun _ => ⟨by simp, by simpa using writable⟩⟩
      · simp only [runs_bind, runs_pure] at rest
        obtain ⟨_, _, _, address, left, _, _, transfer, _, _, _, release, rfl, rfl, -⟩ := rest
        refine ⟨?_, fun noinit => absurd noinit init, fun _ => ⟨?_, ?_⟩⟩
        · rw [deselect_keeps.runs release, (writeSectors_keeps _ _ _).runs transfer,
            (cardAddress_keeps _).runs address, checked]
        · split <;> simp
        · split <;> simpa using writable

end

/-! ## Runs of the disk layer -/

/-- A call of a disk function. -/
inductive Call where
  | status (drv : BitVec 8)
  | read (drv : BitVec 8) (aligned : Bool) (sector : BitVec 32) (count : BitVec 8)
  | write (drv : BitVec 8) (buff : Nat → BitVec 8) (sector : BitVec 32) (count : BitVec 8)
  | ioctl (drv ctrl : BitVec 8) (csdAligned : Bool)

/-- What a call returns. -/
inductive Answer where
  | status (s : BitVec 8)
  | result (res : Dresult)
  deriving DecidableEq, Repr

def Call.exec : Call → DriverM Answer
  | .status drv => do return .status (← diskStatus drv)
  | .read drv aligned sector count => do return .result (← diskRead drv aligned sector count).1
  | .write drv buff sector count => do return .result (← diskWrite drv buff sector count)
  | .ioctl drv ctrl csdAligned => do return .result (← diskIoctl drv ctrl csdAligned).1

/-- A call that has returned, with the static variables before and after it. -/
structure Entry where
  call : Call
  answer : Answer
  before : Vars
  after : Vars

/-- One call after another. -/
def session : List Call → DriverM (List Entry)
  | [] => return []
  | call :: calls => do
      let before ← Driver.vars
      let answer ← call.exec
      let after ← Driver.vars
      let log ← session calls
      return ⟨call, answer, before, after⟩ :: log

/-- `disk_initialize`, then the calls. -/
def diskSession (calls : List Call) : DriverM (BitVec 8 × List Entry) := do
  let s ← diskInitialize 0
  let log ← session calls
  return (s, log)

/-- The call has started to send a write command to the card. -/
def Entry.SendsWrite (e : Entry) : Prop :=
  ∃ w ∈ e.after.iowrs.drop e.before.iowrs.length,
    w.1 = mmcregStatus ∧ w.2.getLsbD 9 = false ∧
      (w.2.setWidth 8 = 0x40 ||| cmd24 ∨ w.2.setWidth 8 = 0x40 ||| cmd25)

instance (e : Entry) : Decidable e.SendsWrite := inferInstanceAs (Decidable (∃ _ ∈ _, _))

/-- What the pin demands of a call. High: the card is not protected, and nothing says so. Low:
it is, and a write to an initialised card is refused before a command is sent. -/
def Entry.Meets (wp : Bool) (e : Entry) : Prop :=
  match wp, e.call, e.answer with
  | true, _, .status s => s &&& staProtect = 0
  | true, .write .., .result res => res ≠ .resWrprt
  | false, .write .., answer =>
      e.after.stat &&& staNoinit = 0 → answer = .result .resWrprt ∧ ¬e.SendsWrite
  | _, _, _ => True

instance : (wp : Bool) → (e : Entry) → Decidable (e.Meets wp)
  | true, ⟨_, .status s, _, _⟩ => inferInstanceAs (Decidable (s &&& staProtect = 0))
  | true, ⟨.write .., .result res, _, _⟩ => inferInstanceAs (Decidable (res ≠ .resWrprt))
  | false, ⟨.write .., _, _, _⟩ => inferInstanceAs (Decidable (_ → _ ∧ ¬Entry.SendsWrite _))
  | true, ⟨.status _, .result _, _, _⟩ | true, ⟨.read .., .result _, _, _⟩
  | true, ⟨.ioctl .., .result _, _, _⟩ | false, ⟨.status _, _, _, _⟩
  | false, ⟨.read .., _, _, _⟩ | false, ⟨.ioctl .., _, _, _⟩ => .isTrue trivial

/-- The calls that do not come to the test of the pin's level, or not to its use: not a write
to a drive that is initialised, nor a question for the status while the pin is high. -/
def Entry.Spared (wp : Bool) (e : Entry) : Prop :=
  match e.call with
  | .status drv => wp = true → drv ≠ 0
  | .write drv _ _ _ => drv ≠ 0 ∨ e.before.stat &&& staNoinit ≠ 0
  | _ => True

section
variable {σ : Type} {dev : Device σ} {pins : Pins} {Inv : σ → Prop} {v v' : Vars} {s s' : σ}

theorem ShowsPins.runs (shows : ShowsPins dev pins Inv) (inv : Inv s) {α : Type} {m : DriverM α}
    {a : α} (ran : Runs dev m v s a v' s') : Inv s' :=
  ran.invariant (fun read _ => shows.read read) shows.write inv

/-- After its first wait the driver sees the pins. -/
theorem diskInitialize_settles (shows : ShowsPins dev pins Inv) {drv r : BitVec 8}
    (ran : Runs dev (diskInitialize drv) v s r v' s') : Inv s' := by
  obtain ⟨_, v₁, s₁, socket, rest⟩ := runs_bind.mp ran
  obtain ⟨_, _, _, wait, others⟩ := runs_bind.mp socket
  obtain ⟨-, polls⟩ := runs_poll.mp wait
  obtain ⟨_, read⟩ := polls.last
  exact shows.runs (shows.runs (shows.read read) others) rest

/-- Every call of a session is a run that starts while the pins are seen. -/
theorem session_entry (shows : ShowsPins dev pins Inv) (inv : Inv s) {calls : List Call}
    {log : List Entry} (ran : Runs dev (session calls) v s log v' s') :
    ∀ e ∈ log, ∃ s₁ s₂, Inv s₁ ∧ Runs dev e.call.exec e.before s₁ e.answer e.after s₂ := by
  induction calls generalizing v s log with
  | nil =>
      obtain ⟨rfl, -, -⟩ := runs_pure.mp ran
      intro e member
      cases member
  | cons call calls ih =>
      simp only [session, runs_bind, runs_vars, runs_pure] at ran
      obtain ⟨_, _, _, ⟨rfl, rfl, rfl⟩, answer, after, s₁, exec, _, _, _, ⟨rfl, rfl, rfl⟩,
        log, _, _, rest, rfl, rfl, rfl⟩ := ran
      intro e member
      rcases List.mem_cons.mp member with rfl | later
      · exact ⟨_, _, inv, exec⟩
      · exact ih (shows.runs inv exec) rest e later

/-- A write with a status check that found no initialised card answers that. -/
theorem write_notReady (shows : ShowsPins dev pins Inv) (inserted : pins.mmcCd = false)
    (inv : Inv s) {drv : BitVec 8} {buff : Nat → BitVec 8} {sector : BitVec 32} {count : BitVec 8}
    {res : Dresult} (ran : Runs dev (diskWrite drv buff sector count) v s res v' s')
    (spared : drv ≠ 0 ∨ v.stat &&& staNoinit ≠ 0) :
    res = .resNotrdy ∧ v'.stat &&& staNoinit ≠ 0 := by
  obtain ⟨stat, v₁, s₁, check, same, notReady, -⟩ := diskWrite_runs ran
  have noinit : stat &&& staNoinit ≠ 0 := by
    by_cases drive : drv = 0
    · subst drive
      exact (diskStatus_runs shows inserted inv check).2 (spared.resolve_left (not_not_intro rfl))
    · rw [diskStatus_noDrive drive check]
      decide
  exact ⟨notReady noinit, by rwa [same]⟩

/-- A spared call does what the pin demands. -/
theorem spared_meets (shows : ShowsPins dev pins Inv) (inserted : pins.mmcCd = false) (inv : Inv s)
    {e : Entry} (ran : Runs dev e.call.exec e.before s e.answer e.after s')
    (spared : e.Spared pins.mmcWp) : e.Meets pins.mmcWp := by
  obtain ⟨call, answer, before, after⟩ := e
  cases call with
  | status drv =>
      simp only [Call.exec, runs_bind, runs_pure] at ran
      obtain ⟨r, _, _, check, rfl, -, -⟩ := ran
      cases wp : pins.mmcWp with
      | false => trivial
      | true =>
          change r &&& staProtect = 0
          rw [diskStatus_noDrive (spared wp) check]
          decide
  | write drv buff sector count =>
      simp only [Call.exec, runs_bind, runs_pure] at ran
      obtain ⟨res, _, _, write, rfl, rfl, -⟩ := ran
      obtain ⟨rfl, noinit⟩ := write_notReady shows inserted inv write spared
      cases pins.mmcWp with
      | false => exact fun init => absurd init noinit
      | true => exact Dresult.noConfusion
  | read drv aligned sector count =>
      simp only [Call.exec, runs_bind, runs_pure] at ran
      obtain ⟨r, _, _, -, rfl, -, -⟩ := ran
      cases pins.mmcWp <;> trivial
  | ioctl drv ctrl csdAligned =>
      simp only [Call.exec, runs_bind, runs_pure] at ran
      obtain ⟨r, _, _, -, rfl, -, -⟩ := ran
      cases pins.mmcWp <;> trivial

/-- Any other call does not, unless it finds that the card is not ready. -/
theorem unspared_breaks (shows : ShowsPins dev pins Inv) (inserted : pins.mmcCd = false)
    (inv : Inv s) {e : Entry} (ran : Runs dev e.call.exec e.before s e.answer e.after s')
    (unspared : ¬e.Spared pins.mmcWp) (ready : e.answer ≠ .result .resNotrdy) :
    ¬e.Meets pins.mmcWp := by
  obtain ⟨call, answer, before, after⟩ := e
  cases call with
  | status drv =>
      simp only [Call.exec, runs_bind, runs_pure] at ran
      obtain ⟨r, _, _, check, rfl, -, -⟩ := ran
      obtain ⟨high, rfl⟩ : pins.mmcWp = true ∧ drv = 0 := by
        simpa [Entry.Spared] using unspared
      have protect := (diskStatus_runs shows inserted inv check).1.mpr high
      rw [high]
      exact protect
  | write drv buff sector count =>
      simp only [Call.exec, runs_bind, runs_pure] at ran
      obtain ⟨res, _, _, write, rfl, rfl, -⟩ := ran
      obtain ⟨stat, v₁, s₁, check, same, notReady, answered⟩ := diskWrite_runs write
      obtain ⟨rfl, -⟩ : drv = 0 ∧ before.stat &&& staNoinit = 0 := by
        simpa [Entry.Spared, not_or] using unspared
      have protect := (diskStatus_runs shows inserted inv check).1
      have init : stat &&& staNoinit = 0 := by
        by_contra noinit
        exact ready (congrArg Answer.result (notReady noinit))
      have refused := (answered init).2
      cases wp : pins.mmcWp with
      | false =>
          intro meets
          rw [wp] at protect
          obtain ⟨answer, -⟩ := meets (by rw [same, init])
          exact absurd (protect.mp (refused.mp (Answer.result.inj answer))) Bool.false_ne_true
      | true =>
          intro meets
          exact meets (refused.mpr (protect.mpr wp))
  | read drv aligned sector count => exact absurd trivial unspared
  | ioctl drv ctrl csdAligned => exact absurd trivial unspared

/-- The protection over a session: a session of spared calls does what the pin demands. A call
that is not spared never does, unless the card is not ready. -/
theorem protection_inverted (shows : ShowsPins dev pins Inv) (inserted : pins.mmcCd = false)
    {calls : List Call} {r : BitVec 8} {log : List Entry}
    (ran : Runs dev (diskSession calls) v s (r, log) v' s') :
    ((∀ e ∈ log, e.Spared pins.mmcWp) → ∀ e ∈ log, e.Meets pins.mmcWp) ∧
    ∀ e ∈ log, ¬e.Spared pins.mmcWp → e.answer ≠ .result .resNotrdy → ¬e.Meets pins.mmcWp := by
  simp only [diskSession, runs_bind, runs_pure] at ran
  obtain ⟨_, _, _, init, _, _, _, calls, same, rfl, rfl⟩ := ran
  obtain ⟨rfl, rfl⟩ := Prod.mk.inj same
  have entry := session_entry shows (diskInitialize_settles shows init) calls
  constructor
  · intro spared e member
    obtain ⟨s₁, s₂, inv, exec⟩ := entry e member
    exact spared_meets shows inserted inv exec (spared e member)
  · intro e member
    obtain ⟨s₁, s₂, inv, exec⟩ := entry e member
    exact unspared_breaks shows inserted inv exec

end

/-! ## Cards -/

theorem card_showsPins (card : Card) :
    ShowsPins card.device ⟨card.mmcCd, card.mmcWp⟩ fun _ => True where
  read _ := trivial
  write _ _ := trivial
  status read _ := by
    obtain ⟨rfl, -⟩ := Prod.mk.inj read
    exact ⟨status_wp card _, status_cd card _⟩

/-- A card that answers as an SD card of version 2 does when it is initialised, and later
reports once more that it is; in its socket, with the pin at the level `wp`. -/
def sdCard (wp : Bool) : Card where
  stream n :=
    if n ∈ [19, 29, 32, 43] then 0x01
    else if n = 33 then 0xAA
    else if n ∈ [53, 63, 78, 92] then 0x00
    else 0xFF
  expire _ := 0
  mmcCd := false
  mmcWp := wp

/-- The calls of the runs below. -/
def statusThenWrite : List Call := [.status 0, .write 0 (fun _ => 0) 0 1]

/-- Every session after a successful `disk_initialize` does what the pin demands. -/
def FollowsPin {σ : Type} (dev : Device σ) (pins : Pins) : Prop :=
  ∀ calls v s r log v' s', Runs dev (diskSession calls) v s (r, log) v' s' →
    r &&& staNoinit = 0 → ∀ e ∈ log, e.Meets pins.mmcWp

/-- The session on the card: `disk_initialize` succeeds, and neither call does what the pin
demands. -/
theorem sdCard_breaks (wp : Bool) :
    ∃ r log v s, Runs (sdCard wp).device (diskSession statusThenWrite) .initial .initial
        (r, log) v s ∧ r &&& staNoinit = 0 ∧ (∃ e ∈ log, ¬e.Meets wp) ∧
        ∀ e ∈ log, e.answer ≠ .result .resNotrdy := by
  obtain ⟨⟨r, log⟩, v, s, ran, same⟩ := exists_runs_of_eval (sdCard wp).read (sdCard wp).write
    (m := diskSession statusThenWrite) (v := .initial) (s := .initial)
    (f := fun p => decide (p.1 &&& staNoinit = 0 ∧ (∃ e ∈ p.2, ¬e.Meets wp) ∧
      ∀ e ∈ p.2, e.answer ≠ .result .resNotrdy))
    (b := true) (by cases wp <;> decide +kernel)
  exact ⟨r, log, v, s, ran, of_decide_eq_true same⟩

/-- The protection does not follow the pin, whatever its level. -/
theorem pin_not_followed :
    ¬FollowsPin (sdCard true).device ⟨false, true⟩ ∧
    ¬FollowsPin (sdCard false).device ⟨false, false⟩ := by
  constructor
  · intro follows
    obtain ⟨r, log, v, s, ran, success, ⟨e, member, breaks⟩, -⟩ := sdCard_breaks true
    exact breaks (follows _ _ _ _ _ _ _ ran success e member)
  · intro follows
    obtain ⟨r, log, v, s, ran, success, ⟨e, member, breaks⟩, -⟩ := sdCard_breaks false
    exact breaks (follows _ _ _ _ _ _ _ ran success e member)

/-- On the card some call is not spared. -/
theorem protection_inverted_sdCard :
    ∃ r log v s, Runs (sdCard true).device (diskSession statusThenWrite) .initial .initial
        (r, log) v s ∧ ∃ e ∈ log, ¬e.Spared true ∧ ¬e.Meets true := by
  obtain ⟨r, log, v, s, ran, success, ⟨e, member, breaks⟩, ready⟩ := sdCard_breaks true
  have session := protection_inverted (card_showsPins (sdCard true)) rfl ran
  by_cases spared : ∀ e ∈ log, e.Spared true
  · exact absurd (session.1 spared e member) breaks
  · simp only [not_forall] at spared
    obtain ⟨e, member, unspared⟩ := spared
    exact ⟨r, log, v, s, ran, e, member, unspared, session.2 e member unspared (ready e member)⟩

/-! ## The core -/

/-- The pins of the socket as `cineraria_top` ties them. -/
def topPins : Pins := ⟨false, true⟩

/-- In the core no write ever gets to a card: each is refused, or the card is not ready. -/
theorem top_refuses_writes {calls : List Call} {v v' : Vars} {s s' : Mmcdma} {r : BitVec 8}
    {log : List Entry} (ran : Runs (busDevice topPins) (diskSession calls) v s (r, log) v' s')
    {e : Entry} (member : e ∈ log) {drv : BitVec 8} {buff : Nat → BitVec 8} {sector : BitVec 32}
    {count : BitVec 8} (write : e.call = .write drv buff sector count) :
    e.answer = .result .resNotrdy ∨ e.answer = .result .resWrprt := by
  simp only [diskSession, runs_bind, runs_pure] at ran
  obtain ⟨_, _, _, init, _, _, _, session, same, -, -⟩ := ran
  obtain ⟨-, rfl⟩ := Prod.mk.inj same
  have shows := busDevice_showsPins topPins
  obtain ⟨s₁, s₂, inv, exec⟩ := session_entry shows (diskInitialize_settles shows init) session e member
  rw [write] at exec
  simp only [Call.exec, runs_bind, runs_pure] at exec
  obtain ⟨res, _, _, ran, answer, -, -⟩ := exec
  obtain ⟨stat, _, _, check, -, notReady, answered⟩ := diskWrite_runs ran
  rw [answer]
  by_cases init : stat &&& staNoinit = 0
  · right
    by_cases drive : drv = 0
    · subst drive
      rw [(answered init).2.mpr ((diskStatus_runs shows rfl inv check).1.mpr rfl)]
    · rw [diskStatus_noDrive drive check] at init
      exact absurd init (by decide)
  · left
    rw [notReady init]

end Cineraria.Mmc
