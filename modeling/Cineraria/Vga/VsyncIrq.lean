import Cineraria.Lib.Run
import Cineraria.Vga.Registers

/-!
# The vertical sync interrupt

The driver's updates of the status register take two bus accesses, and the synchronisation may
come between them. The register process lets an edge win over a write in the same clock. But an
edge between a read and its write-back is erased, when what was read had the flag clear:
`nd_GsVgaScanOn` and `nd_GsVgaScanOff` write the flag back as they read it.
-/

namespace Cineraria.Vga

open Run

/-- An update that has read the status and not written it back yet. `disturbed` says that an
edge came in the clock of the read or since. -/
structure Pending where
  update : Update
  status : BitVec 32
  disturbed : Bool
  deriving DecidableEq, Repr

/-- What the processor does on the bus in a clock. -/
inductive Access where
  | none
  | read (update : Update)
  | writeBack (k : Nat)
  deriving DecidableEq, Repr

/-- A clock. -/
structure Clock where
  vsync : Bool
  overrun : Bool
  access : Access
  deriving DecidableEq, Repr

/-- The registers, the updates under way, and the variables of the handler. -/
structure Vsync where
  regs : S1
  pending : List Pending
  ndGsVgaVsyncCount : BitVec 32
  ndGsVgaVsyncFlag : BitVec 32
  deriving DecidableEq, Repr

/-- The update that is written back. -/
def Vsync.written (e : Clock) (s : Vsync) : Option Pending :=
  match e.access with
  | .writeBack k => s.pending[k]?
  | _ => none

/-- The signals of the slave port. A read has no effect on the registers. -/
def Vsync.input (e : Clock) (s : Vsync) : S1Input where
  address := 0
  write := (s.written e).isSome
  writedata := ((s.written e).map fun r => r.update.writeBack r.status).getD 0
  vsync := e.vsync
  overrun := e.overrun

/-- The updates under way after a clock. -/
def Vsync.nextPending (e : Clock) (s : Vsync) : List Pending :=
  match e.access with
  | .none => s.pending
  | .read update => ⟨update, s.regs.readdata0, false⟩ :: s.pending
  | .writeBack k => s.pending.eraseIdx k

/-- One clock. The handler counts when it has written the register back. -/
def Vsync.step (e : Clock) (s : Vsync) : Vsync :=
  let handled := (s.written e).any fun r => r.update == .vsyncIsr
  { regs := s.regs.step (s.input e)
    pending := (s.nextPending e).map fun r =>
      { r with disturbed := r.disturbed || s.regs.vsyncEdge }
    ndGsVgaVsyncCount :=
      if handled && s.ndGsVgaVsyncCount != 0 then s.ndGsVgaVsyncCount - 1 else s.ndGsVgaVsyncCount
    ndGsVgaVsyncFlag := if handled then 1 else s.ndGsVgaVsyncFlag }

/-- No update is under way. -/
def Vsync.start (regs : S1) (count flag : BitVec 32) : Vsync where
  regs := regs
  pending := []
  ndGsVgaVsyncCount := count
  ndGsVgaVsyncFlag := flag

/-! ## What is lost -/

/-- In this clock no interrupt is lost: an edge sets the flag, and if the flag is cleared, then by
a run of the handler that began after the last edge. -/
structure Kept (e : Clock) (s : Vsync) : Prop where
  set : s.regs.vsyncEdge = true → (s.step e).regs.vsirqReg = true
  cleared : s.regs.vsirqReg = true → (s.step e).regs.vsirqReg = false →
    ∃ r, s.written e = some r ∧ r.update = .vsyncIsr ∧ r.disturbed = false

/-- If this clock writes an update back while the flag is set, without a coinciding edge, then no
edge came since its read, or it is not the handler and has read the flag as set. -/
def Undisturbed (e : Clock) (s : Vsync) : Prop :=
  ∀ r, s.written e = some r → s.regs.vsirqReg = true → s.regs.vsyncEdge = false →
    r.disturbed = false ∨ (r.update ≠ .vsyncIsr ∧ r.status.getLsbD 14 = true)

/-- An update that no edge has disturbed has read the flag as it is now. -/
def Fresh (s : Vsync) : Prop :=
  ∀ r ∈ s.pending, r.disturbed = false → s.regs.vsirqReg = true → r.status.getLsbD 14 = true

section
variable {e : Clock} {s : Vsync}

/-- The flag after a clock. -/
theorem step_vsirqReg (e : Clock) (s : Vsync) :
    (s.step e).regs.vsirqReg =
      if s.regs.vsyncEdge then true
      else if (s.written e).any (fun r => !(r.update.writeBack r.status).getLsbD 14) then false
      else s.regs.vsirqReg := by
  cases written : s.written e <;>
    simp [Vsync.step, S1.step, S1Input.writes, Vsync.input, written]

theorem written_mem {r : Pending} (written : s.written e = some r) : r ∈ s.pending := by
  rw [Vsync.written] at written
  split at written
  · exact List.mem_of_getElem? written
  · exact absurd written (by simp)

theorem fresh_step (e : Clock) (s : Vsync) (fresh : Fresh s) : Fresh (s.step e) := by
  intro r mem undisturbed set
  obtain ⟨r', mem', rfl⟩ := List.mem_map.mp mem
  obtain ⟨quiet, noEdge⟩ : r'.disturbed = false ∧ s.regs.vsyncEdge = false := by
    simpa using undisturbed
  rw [step_vsirqReg, noEdge] at set
  have before : s.regs.vsirqReg = true := by
    by_contra clear
    simp [clear] at set
  have read : r'.status.getLsbD 14 = true := by
    rw [Vsync.nextPending] at mem'
    split at mem'
    · exact fresh r' mem' quiet before
    · rcases List.mem_cons.mp mem' with rfl | earlier
      · rw [readdata0_vsirq, before]
      · exact fresh r' earlier quiet before
    · exact fresh r' (List.mem_of_mem_eraseIdx mem') quiet before
  exact read

/-- The flag is cleared exactly by a write-back of the handler, or of a status that was read with
the flag clear, in a clock without an edge. -/
theorem step_cleared (set : s.regs.vsirqReg = true) :
    (s.step e).regs.vsirqReg = false ↔ s.regs.vsyncEdge = false ∧
      ∃ r, s.written e = some r ∧ (r.update = .vsyncIsr ∨ r.status.getLsbD 14 = false) := by
  rw [step_vsirqReg, set]
  cases written : s.written e with
  | none => simp
  | some r =>
      simp only [Option.any_some, writeBack_vsirq, Option.some.injEq, exists_eq_left']
      cases s.regs.vsyncEdge <;> cases r.status.getLsbD 14 <;> cases r.update <;> decide

/-- The interrupt is enabled or not, and every update under way will write it back so. -/
structure InMode (enabled : Bool) (s : Vsync) : Prop where
  regs : s.regs.vsirqenaReg = enabled
  pending : ∀ r ∈ s.pending, r.status.getLsbD 15 = enabled

/-- None of these updates changes the mode. -/
theorem inMode_step {enabled : Bool} (e : Clock) (s : Vsync) (h : InMode enabled s) :
    InMode enabled (s.step e) := by
  constructor
  · cases written : s.written e with
    | none =>
        simp only [Vsync.step, S1.step, S1Input.writes, Vsync.input, written]
        exact h.regs
    | some r =>
        have back := h.pending r (written_mem written)
        simp only [Vsync.step, S1.step, S1Input.writes, Vsync.input, written]
        exact (writeBack_vsirqena r.update r.status).trans back
  · intro r mem
    obtain ⟨r', mem', rfl⟩ := List.mem_map.mp mem
    have before : r'.status.getLsbD 15 = enabled := by
      rw [Vsync.nextPending] at mem'
      split at mem'
      · exact h.pending r' mem'
      · rcases List.mem_cons.mp mem' with rfl | earlier
        · rw [readdata0_vsirqena, h.regs]
        · exact h.pending r' earlier
      · exact h.pending r' (List.mem_of_mem_eraseIdx mem')
    exact before

/-- The interrupt is enabled, and every update under way will write it back enabled. -/
structure Enabled (s : Vsync) : Prop where
  enabled : s.regs.vsirqenaReg = true
  pending : ∀ r ∈ s.pending, r.status.getLsbD 15 = true

theorem enabled_step (e : Clock) (s : Vsync) (h : Enabled s) : Enabled (s.step e) := by
  obtain ⟨regs, pending⟩ := inMode_step e s ⟨h.enabled, h.pending⟩
  exact ⟨regs, pending⟩

/-- No interrupt is lost in a clock exactly if it meets the condition. -/
theorem kept_iff_undisturbed (fresh : Fresh s) : Kept e s ↔ Undisturbed e s := by
  constructor
  · rintro ⟨-, cleared⟩ r written set noEdge
    by_cases erases : r.update = .vsyncIsr ∨ r.status.getLsbD 14 = false
    · obtain ⟨r', written', -, quiet⟩ := cleared set
        ((step_cleared set).mpr ⟨noEdge, r, written, erases⟩)
      rw [written] at written'
      cases written'
      exact .inl quiet
    · rw [not_or, Bool.not_eq_false] at erases
      exact .inr erases
  · intro undisturbed
    constructor
    · intro edge
      rw [step_vsirqReg, if_pos edge]
    · intro set clear
      obtain ⟨noEdge, r, written, erases⟩ := (step_cleared set).mp clear
      rcases undisturbed r written set noEdge with quiet | ⟨other, read⟩
      · have read := fresh r (written_mem written) quiet set
        rcases erases with handler | unread
        · exact ⟨r, written, handler, quiet⟩
        · exact absurd (read.symm.trans unread) (by decide)
      · rcases erases with handler | unread
        · exact absurd handler other
        · exact absurd (read.symm.trans unread) (by decide)

end

/-- No order of these updates masks the interrupt. -/
theorem run_enabled {regs : S1} (enabled : regs.vsirqenaReg = true) (count flag : BitVec 32)
    (es : List Clock) :
    EveryState Vsync.step (fun s => s.regs.vsirqenaReg = true) (.start regs count flag) es := by
  have start : Enabled (.start regs count flag) := ⟨enabled, by simp [Vsync.start]⟩
  exact everyState_of_invariant enabled_step (fun _ h => h.enabled) start es

/-- Whatever the order of edges, reads and write-backs: no interrupt is lost in a run exactly if
every clock of it meets the condition. -/
theorem kept_iff (regs : S1) (count flag : BitVec 32) (es : List Clock) :
    EveryStep Vsync.step Kept (.start regs count flag) es ↔
      EveryStep Vsync.step Undisturbed (.start regs count flag) es :=
  everyStep_congr Fresh fresh_step (fun _ _ fresh => kept_iff_undisturbed fresh)
    (fun _ mem => absurd mem (by simp [Vsync.start])) es

/-- The scan is switched on while a vertical sync pulse begins: the edge comes in the clock after
the read. -/
def scanOnAtVsync : List Clock :=
  [⟨true, false, .none⟩, ⟨true, false, .read .scanOn⟩, ⟨true, false, .none⟩,
    ⟨true, false, .writeBack 0⟩]

/-- The write-back of `nd_GsVgaScanOn` clears the flag, with the interrupt enabled and no run of the
handler. -/
theorem scanOn_erases_edge :
    let s := Vsync.start { S1.reset with vsirqenaReg := true } 0 0
    (exec Vsync.step s (scanOnAtVsync.take 2)).regs.vsyncEdge = true ∧
    (exec Vsync.step s (scanOnAtVsync.take 3)).regs.irq = true ∧
    (exec Vsync.step s scanOnAtVsync).regs.irq = false ∧
    ¬ EveryStep Vsync.step Kept s scanOnAtVsync := by
  refine ⟨by decide, by decide, by decide, fun kept => ?_⟩
  obtain ⟨-, -, -, last, -⟩ := kept
  obtain ⟨r, written, handler, -⟩ := last.cleared (by decide) (by decide)
  cases written
  exact absurd handler (by decide)

end Cineraria.Vga
