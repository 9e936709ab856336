import Cineraria.Lib.Bytes
import Cineraria.Lib.FixedWidth
import Cineraria.Vga.VsyncIrq

/-!
# The count of vertical syncs

`nd_GsVgaVsync_setcount` and `nd_GsVgaVsync_getcount` choose between two countdowns: with the interrupt
enabled the handler lowers a variable of 32 bits, otherwise `vga_component` lowers a register of eight. Both
count every event down to zero, but the register takes the lower byte of the count only, and the variable is
lowered by the handler, which has to run once for every event (`getcount_setcount_iff`).
-/

namespace Cineraria.Vga

open Run FixedWidth

/-! ## The functions -/

/-- `readdata_2_sig` -/
def S1.readdata2 (s : S1) : BitVec 32 := 0#24 ++ s.vsynccounterReg

/-- `vga_vsyncirq_enable` -/
def vgaVsyncirqEnable : BitVec 32 := 1#32 <<< 15

/-- `nd_GsVgaVsync_getcount` -/
def ndGsVgaVsyncGetcount (s : Vsync) : BitVec 32 :=
  if s.regs.readdata0 &&& vgaVsyncirqEnable != 0 then s.ndGsVgaVsyncCount else s.regs.readdata2

/-- `nd_GsVgaVsync_setcount`, with the two flags of the video side in the clock of the write. -/
def ndGsVgaVsyncSetcount (vsync overrun : Bool) (count : BitVec 32) (s : Vsync) : Vsync :=
  if s.regs.readdata0 &&& vgaVsyncirqEnable != 0 then { s with ndGsVgaVsyncCount := count }
  else { s with regs := s.regs.step ⟨2, true, count, vsync, overrun⟩ }

/-- Both functions test the interrupt enable. -/
theorem test_enable (s : S1) : (s.readdata0 &&& vgaVsyncirqEnable != 0) = s.vsirqenaReg := by
  rw [vgaVsyncirqEnable, Bytes.test_bit _ (by decide), readdata0_vsirqena]

/-! ## The two countdowns -/

/-- The handler is written back in this clock. -/
def Vsync.handles (e : Clock) (s : Vsync) : Bool := (s.written e).any fun r => r.update == .vsyncIsr

/-- The vertical syncs of a run. -/
def Vsync.syncs (s : Vsync) (es : List Clock) : Nat := occurrences Vsync.step (fun _ s => s.regs.vsyncEdge) s es

/-- The runs of the handler that end in a run. -/
def Vsync.handled (s : Vsync) (es : List Clock) : Nat := occurrences Vsync.step Vsync.handles s es

/-- A clock lowers the register at a vertical sync. -/
theorem step_vsynccounterReg (e : Clock) (s : Vsync) :
    (s.step e).regs.vsynccounterReg.toNat = s.regs.vsynccounterReg.toNat - s.regs.vsyncEdge.toNat := by
  have kept : (s.step e).regs.vsynccounterReg =
      if s.regs.vsyncEdge && s.regs.vsynccounterReg != 0 then s.regs.vsynccounterReg - 1
      else s.regs.vsynccounterReg := by
    simp [Vsync.step, S1.step, S1Input.writes, Vsync.input]
  rw [kept]
  cases s.regs.vsyncEdge with
  | false => rfl
  | true =>
      by_cases zero : s.regs.vsynccounterReg = 0
      · rw [zero]
        rfl
      · have lowered := toNat_sub_one zero
        simp only [Bool.true_and, bne_iff_ne, ne_eq, zero, not_false_eq_true, if_true, Bool.toNat_true]
        omega

/-- A clock lowers the variable when the handler ends. -/
theorem step_ndGsVgaVsyncCount (e : Clock) (s : Vsync) :
    (s.step e).ndGsVgaVsyncCount.toNat = s.ndGsVgaVsyncCount.toNat - (s.handles e).toNat := by
  have kept : (s.step e).ndGsVgaVsyncCount =
      if s.handles e && s.ndGsVgaVsyncCount != 0 then s.ndGsVgaVsyncCount - 1 else s.ndGsVgaVsyncCount := rfl
  rw [kept]
  cases s.handles e with
  | false => rfl
  | true =>
      by_cases zero : s.ndGsVgaVsyncCount = 0
      · rw [zero]
        rfl
      · have lowered := toNat_sub_one zero
        simp only [Bool.true_and, bne_iff_ne, ne_eq, zero, not_false_eq_true, if_true, Bool.toNat_true]
        omega

theorem exec_vsynccounterReg (s : Vsync) (es : List Clock) :
    (exec Vsync.step s es).regs.vsynccounterReg.toNat = s.regs.vsynccounterReg.toNat - s.syncs es :=
  exec_countdown (fun s : Vsync => s.regs.vsynccounterReg.toNat) step_vsynccounterReg es

theorem exec_ndGsVgaVsyncCount (s : Vsync) (es : List Clock) :
    (exec Vsync.step s es).ndGsVgaVsyncCount.toNat = s.ndGsVgaVsyncCount.toNat - s.handled es :=
  exec_countdown (fun s : Vsync => s.ndGsVgaVsyncCount.toNat) step_ndGsVgaVsyncCount es

/-! ## One run of the handler for each event -/

/-- No interrupt is lost in this clock; an event finds the one before it served, and the handler
ends while its event is waiting. -/
structure Served (e : Clock) (s : Vsync) : Prop where
  kept : Kept e s
  free : s.regs.vsyncEdge = true → s.regs.vsirqReg = false
  handler : s.handles e = true → s.regs.vsirqReg = true ∧ s.regs.vsyncEdge = false

/-- An event raises the flag, and the handler that it calls lowers it. -/
theorem vsirqReg_balance {e : Clock} {s : Vsync} (served : Served e s) :
    (s.step e).regs.vsirqReg.toNat + (s.handles e).toNat =
      s.regs.vsirqReg.toNat + s.regs.vsyncEdge.toNat := by
  obtain ⟨kept, free, handler⟩ := served
  cases edge : s.regs.vsyncEdge with
  | true =>
      have noHandler : s.handles e = false := by
        by_contra ends
        exact absurd (handler (Bool.not_eq_false _ ▸ ends)).2 (by rw [edge]; decide)
      rw [kept.set edge, free edge, noHandler]
      rfl
  | false =>
      cases ends : s.handles e with
      | true =>
          have set := (handler ends).1
          obtain ⟨r, written, isr⟩ : ∃ r, s.written e = some r ∧ r.update = .vsyncIsr := by
            simpa [Vsync.handles, Option.any_eq_true] using ends
          have cleared := (step_cleared set).mpr ⟨edge, r, written, .inl isr⟩
          rw [set, cleared]
          rfl
      | false =>
          have same : (s.step e).regs.vsirqReg = s.regs.vsirqReg := by
            cases set : s.regs.vsirqReg with
            | false => rw [step_vsirqReg, edge, set]; simp
            | true =>
                by_contra clear
                obtain ⟨r, written, isr, -⟩ := kept.cleared set (Bool.not_eq_true _ ▸ clear)
                simp [Vsync.handles, written, isr] at ends
          rw [same]

/-- Over a run the handler ends once for every event, up to one that waits. -/
theorem handled_balance {s : Vsync} {es : List Clock} (served : EveryStep Vsync.step Served s es) :
    (exec Vsync.step s es).regs.vsirqReg.toNat + s.handled es = s.regs.vsirqReg.toNat + s.syncs es := by
  induction es generalizing s with
  | nil => rfl
  | cons e es ih =>
      have here := vsirqReg_balance served.1
      have later := ih served.2
      simp only [Vsync.handled, Vsync.syncs, occurrences, exec] at later ⊢
      omega

/-- With no event waiting before and after a run, the handler ended as often as there were events. -/
theorem handled_eq_syncs {s : Vsync} {es : List Clock} (served : EveryStep Vsync.step Served s es)
    (before : s.regs.vsirqReg = false) (after : (exec Vsync.step s es).regs.vsirqReg = false) :
    s.handled es = s.syncs es := by
  have balance := handled_balance served
  rw [before, after] at balance
  omega

/-! ## Setting and reading the count -/

/-- Setting the count changes neither the mode nor the updates under way. -/
theorem inMode_setcount (vsync overrun : Bool) (count : BitVec 32) {enabled : Bool} {s : Vsync}
    (h : InMode enabled s) : InMode enabled (ndGsVgaVsyncSetcount vsync overrun count s) := by
  rw [ndGsVgaVsyncSetcount]
  split
  · exact ⟨h.regs, h.pending⟩
  · exact ⟨h.regs, h.pending⟩

theorem inMode_exec {enabled : Bool} {s : Vsync} (h : InMode enabled s) (es : List Clock) :
    InMode enabled (exec Vsync.step s es) := by
  induction es generalizing s with
  | nil => exact h
  | cons e es ih => exact ih (inMode_step e s h)

section
variable {vsync overrun : Bool} {count : BitVec 32} {s : Vsync} {es : List Clock}

/-- With the interrupt enabled the count is the variable. -/
theorem getcount_enabled (h : InMode true s) :
    (ndGsVgaVsyncGetcount (exec Vsync.step (ndGsVgaVsyncSetcount vsync overrun count s) es)).toNat =
      count.toNat - (ndGsVgaVsyncSetcount vsync overrun count s).handled es := by
  have later := (inMode_exec (inMode_setcount vsync overrun count h) es).regs
  have set : (ndGsVgaVsyncSetcount vsync overrun count s).ndGsVgaVsyncCount = count := by
    rw [ndGsVgaVsyncSetcount, test_enable, h.regs]
    rfl
  rw [ndGsVgaVsyncGetcount, test_enable, later, if_pos rfl, exec_ndGsVgaVsyncCount, set]

/-- Otherwise it is the register, which has taken the lower byte. -/
theorem getcount_disabled (h : InMode false s) :
    (ndGsVgaVsyncGetcount (exec Vsync.step (ndGsVgaVsyncSetcount vsync overrun count s) es)).toNat =
      count.toNat % 256 - (ndGsVgaVsyncSetcount vsync overrun count s).syncs es := by
  have later := (inMode_exec (inMode_setcount vsync overrun count h) es).regs
  have set : (ndGsVgaVsyncSetcount vsync overrun count s).regs.vsynccounterReg = count.setWidth 8 := by
    rw [ndGsVgaVsyncSetcount, test_enable, h.regs]
    rfl
  have zeros : (0#24).toNat = 0 := rfl
  rw [ndGsVgaVsyncGetcount, test_enable, later, if_neg Bool.false_ne_true, S1.readdata2, toNat_append_add, zeros,
    exec_vsynccounterReg, set, BitVec.toNat_setWidth]
  omega

end

/-- The count that is read at the end of a run is lowered by one for every vertical sync. -/
def CountsDown (count : BitVec 32) (s : Vsync) (es : List Clock) : Prop :=
  (ndGsVgaVsyncGetcount (exec Vsync.step s es)).toNat = count.toNat - s.syncs es

/-- Every event of a run is served, and none is waiting when it begins and when it ends. -/
structure AllServed (s : Vsync) (es : List Clock) : Prop where
  steps : EveryStep Vsync.step Served s es
  before : s.regs.vsirqReg = false
  after : (exec Vsync.step s es).regs.vsirqReg = false

/-- After a count has been set, whatever the run. Without the interrupt the events are counted down exactly if the
count fits the register, or would be used up anyway. With it they are if every one is served and none is waiting;
exactly if the handler ended as often as there were events, or the count is used up by both. -/
theorem getcount_setcount_iff (vsync overrun : Bool) (count : BitVec 32) (s : Vsync) (es : List Clock)
    (settled : s.pending = []) :
    let begun := ndGsVgaVsyncSetcount vsync overrun count s
    (s.regs.vsirqenaReg = false → (CountsDown count begun es ↔ count.toNat < 256 ∨ count.toNat ≤ begun.syncs es)) ∧
      (s.regs.vsirqenaReg = true →
        (AllServed begun es → CountsDown count begun es) ∧
        (CountsDown count begun es ↔
          begun.handled es = begun.syncs es ∨ count.toNat ≤ begun.handled es ∧ count.toNat ≤ begun.syncs es)) := by
  intro begun
  have mode : InMode s.regs.vsirqenaReg s := ⟨rfl, by simp [settled]⟩
  constructor
  · intro disabled
    rw [disabled] at mode
    have counted : (ndGsVgaVsyncGetcount (exec Vsync.step begun es)).toNat = count.toNat % 256 - begun.syncs es :=
      getcount_disabled mode
    rw [CountsDown, counted]
    omega
  · intro enabled
    rw [enabled] at mode
    have exact : CountsDown count begun es ↔
        begun.handled es = begun.syncs es ∨ count.toNat ≤ begun.handled es ∧ count.toNat ≤ begun.syncs es := by
      have counted : (ndGsVgaVsyncGetcount (exec Vsync.step begun es)).toNat = count.toNat - begun.handled es :=
        getcount_enabled mode
      rw [CountsDown, counted]
      omega
    refine ⟨fun served => exact.mpr (.inl ?_), exact⟩
    exact handled_eq_syncs served.steps served.before served.after

/-- Two pulses of the sync in six clocks, with no access of the processor. -/
def twoSyncs : List Clock :=
  [⟨true, false, .none⟩, ⟨false, false, .none⟩, ⟨true, false, .none⟩, ⟨false, false, .none⟩,
    ⟨false, false, .none⟩, ⟨false, false, .none⟩]

/-- The same with the handler, which reads and writes back the status after each of them. -/
def twoServed : List Clock :=
  [⟨true, false, .none⟩, ⟨false, false, .none⟩, ⟨false, false, .none⟩, ⟨false, false, .none⟩,
    ⟨false, false, .read .vsyncIsr⟩, ⟨true, false, .writeBack 0⟩, ⟨false, false, .none⟩, ⟨false, false, .none⟩,
    ⟨false, false, .none⟩, ⟨false, false, .read .vsyncIsr⟩, ⟨false, false, .writeBack 0⟩]

instance (e : Clock) (s : Vsync) : Decidable (Kept e s) :=
  decidable_of_iff ((s.regs.vsyncEdge = true → (s.step e).regs.vsirqReg = true) ∧
      (s.regs.vsirqReg = true → (s.step e).regs.vsirqReg = false →
        (s.written e).any (fun r => r.update == .vsyncIsr && !r.disturbed) = true))
    (by
      have isr : (s.written e).any (fun r => r.update == .vsyncIsr && !r.disturbed) = true ↔
          ∃ r, s.written e = some r ∧ r.update = .vsyncIsr ∧ r.disturbed = false := by
        simp [Option.any_eq_true]
      rw [isr]
      exact ⟨fun h => ⟨h.1, h.2⟩, fun h => ⟨h.set, h.cleared⟩⟩)

instance (e : Clock) (s : Vsync) : Decidable (Served e s) :=
  decidable_of_iff (Kept e s ∧ (s.regs.vsyncEdge = true → s.regs.vsirqReg = false) ∧
      (s.handles e = true → s.regs.vsirqReg = true ∧ s.regs.vsyncEdge = false))
    ⟨fun h => ⟨h.1, h.2.1, h.2.2⟩, fun h => ⟨h.kept, h.free, h.handler⟩⟩

/-- Two events, from 255 with the register, and from 300 with the handler. -/
theorem getcount_setcount_iff_twoSyncs :
    (ndGsVgaVsyncGetcount (exec Vsync.step
      (ndGsVgaVsyncSetcount false false 255 (.start S1.reset 0 0)) twoSyncs)).toNat = 253 ∧
    (ndGsVgaVsyncGetcount (exec Vsync.step
      (ndGsVgaVsyncSetcount false false 300 (.start { S1.reset with vsirqenaReg := true } 0 0)) twoServed)).toNat =
        298 := by
  constructor
  · exact ((getcount_setcount_iff false false 255 (.start S1.reset 0 0) twoSyncs rfl).1 rfl).mpr (.inl (by decide))
  · exact ((getcount_setcount_iff false false 300 (.start { S1.reset with vsirqenaReg := true } 0 0) twoServed rfl).2
      rfl).1 ⟨by decide, by decide, by decide⟩

/-- The smallest count that the register does not take, read back at once without the interrupt. -/
theorem getcount_setcount_256 :
    ndGsVgaVsyncGetcount (ndGsVgaVsyncSetcount false false 256 (.start S1.reset 0 0)) = 0 ∧
    ¬ (∀ (count : BitVec 32) (s : Vsync) (es : List Clock), s.pending = [] →
      (s.regs.vsirqenaReg = true → AllServed (ndGsVgaVsyncSetcount false false count s) es) →
      CountsDown count (ndGsVgaVsyncSetcount false false count s) es) := by
  refine ⟨by decide, fun claimed => ?_⟩
  have counts := claimed 256 (.start S1.reset 0 0) [] rfl (fun enabled => absurd enabled (by decide))
  rw [CountsDown] at counts
  exact absurd counts (by decide)

end Cineraria.Vga
