import Cineraria.Lib.Pool
import Cineraria.Mmcfs.AccessMode

/-!
# The slots of the file table

Every slot of `dev_mmcfs_table` is on the free stack or belongs to one open descriptor.
No run gives a slot to two descriptors. A slot is lost when `f_close` fails:
`dev_mmcfs_close` returns before it puts the slot back, and the HAL releases the
descriptor all the same.
-/

namespace Cineraria.Mmcfs

open Pool Run

variable {Fil : Type}

/-- The slots on the free stack, from the bottom. -/
def Driver.freeSlots (d : Driver Fil) : List Nat :=
  (List.range d.devMmcfsFdNum).map d.devMmcfsFd

/-- The descriptor `file` is open and its file object is in `slot`. -/
def HasSlot (s : State Fil) (file slot : Nat) : Prop :=
  (s.altFdList file).dev = some .mmcfs ∧ (s.altFdList file).priv = some slot

/-- The free slots and those of the open descriptors are a partition of the table. -/
structure Partition (s : State Fil) : Prop extends Separate s.driver.freeSlots (HasSlot s) where
  within : ∀ slot ∈ s.driver.freeSlots, slot < MMCFS_FD_MAXNUM
  complete : Complete (· < MMCFS_FD_MAXNUM) s.driver.freeSlots (HasSlot s)

/-- The condition on a step: the `f_close` it makes succeeds. -/
def ClosesOk : Call Fil → Session Fil → Prop
  | .open _ _, _ => True
  | .close file fClose, s => (s.hal.altFdList file).dev = some .mmcfs → fClose = .ok

/-! ## The stack -/

theorem freeSlots_push (d : Driver Fil) (slot : Nat) :
    Driver.freeSlots { d with
      devMmcfsFd := Function.update d.devMmcfsFd d.devMmcfsFdNum slot
      devMmcfsFdNum := d.devMmcfsFdNum + 1 } = d.freeSlots ++ [slot] := by
  have below : (List.range d.devMmcfsFdNum).map
      (Function.update d.devMmcfsFd d.devMmcfsFdNum slot) = d.freeSlots := by
    refine List.map_congr_left fun i hi => Function.update_of_ne ?_ _ _
    have := List.mem_range.mp hi
    omega
  simp only [Driver.freeSlots, List.range_succ, List.map_append, List.map_cons, List.map_nil,
    Function.update_self]
  rw [below]
  rfl

theorem freeSlots_pop {d : Driver Fil} (some : d.devMmcfsFdNum ≠ 0) (table : Nat → Fil) :
    d.freeSlots = Driver.freeSlots { d with
      devMmcfsFdNum := d.devMmcfsFdNum - 1, devMmcfsTable := table } ++ [d.topSlot] := by
  obtain ⟨n, num⟩ : ∃ n, d.devMmcfsFdNum = n + 1 := ⟨d.devMmcfsFdNum - 1, by omega⟩
  simp [Driver.freeSlots, Driver.topSlot, num, List.range_succ]

/-- The loop of `mmcfs_setup` stacks every slot once. -/
theorem freeSlots_mmcfsSetup (table : Nat → Fil) :
    (mmcfsSetup table).freeSlots = List.range MMCFS_FD_MAXNUM := rfl

/-! ## What one call does -/

/-- What is known of every session: no slot is in two places, and the descriptor of an open
file names its slot in both of its fields. -/
structure Bookkept (s : Session Fil) : Prop
    extends Separate s.hal.driver.freeSlots (HasSlot s.hal) where
  standard : ∀ i ≤ 2, (s.hal.altFdList i).dev = some .jtagUart
  within : ∀ slot ∈ s.hal.driver.freeSlots, slot < MMCFS_FD_MAXNUM
  opened : ∀ file, (s.hal.altFdList file).dev = some .mmcfs →
    ∃ slot < MMCFS_FD_MAXNUM, s.hal.altFdList file = openedFd slot

theorem hasSlot_openedFd {s : State Fil} {file slot : Nat} (opened : s.altFdList file = openedFd slot)
    {slot' : Nat} : HasSlot s file slot' ↔ slot' = slot := by
  rw [HasSlot, opened]
  simp [openedFd, eq_comm]

theorem toNat_ofNat_slot {slot : Nat} (within : slot < MMCFS_FD_MAXNUM) :
    (BitVec.ofNat 32 slot).toNat = slot := by
  rw [BitVec.toNat_ofNat]
  simp only [MMCFS_FD_MAXNUM] at within
  omega

theorem Bookkept.start (table : Nat → Fil) : Bookkept (Session.start table) := by
  have closed : ∀ file, (((Session.start table).hal).altFdList file).dev ≠ some .mmcfs := by
    intro file
    simp only [Session.start, Mmcfs.start]
    split_ifs <;> simp
  refine ⟨⟨?_, ?_, ?_⟩, (Consistent.start table).standard, ?_, ?_⟩
  · change (mmcfsSetup table).freeSlots.Nodup
    rw [freeSlots_mmcfsSetup]
    exact List.nodup_range
  · exact fun file slot has => absurd has.1 (closed file)
  · exact fun file _ slot has => absurd has.1 (closed file)
  · exact fun slot free => List.mem_range.mp free
  · exact fun file isOpen => absurd isOpen (closed file)

/-- A call that opened the descriptor `index` on the top slot. -/
structure Opened (s s' : Session Fil) (index : Nat) : Prop where
  high : 2 < index
  free : (s.hal.altFdList index).dev = none
  pop : s.hal.driver.freeSlots = s'.hal.driver.freeSlots ++ [s.hal.driver.topSlot]
  list : s'.hal.altFdList =
    Function.update s.hal.altFdList index (openedFd s.hal.driver.topSlot)

/-- A call that closed the descriptor `file`; `stack` is the stack it left. -/
structure Closed (s s' : Session Fil) (file slot : Nat) (stack : List Nat) : Prop where
  high : 2 < file
  opened : s.hal.altFdList file = openedFd slot
  within : slot < MMCFS_FD_MAXNUM
  gone : (s'.hal.altFdList file).dev = none
  kept : ∀ i ≠ file, s'.hal.altFdList i = s.hal.altFdList i
  stack : s'.hal.driver.freeSlots = stack

/-- A call that opened and closed nothing. -/
structure Unchanged (s s' : Session Fil) : Prop where
  stack : s'.hal.driver.freeSlots = s.hal.driver.freeSlots
  kept : ∀ i, if (s.hal.altFdList i).dev = none then (s'.hal.altFdList i).dev = none
    else s'.hal.altFdList i = s.hal.altFdList i

/-- An `open` takes the first free slot with an entry, or changes nothing. -/
theorem open_slots_cases (flags : BitVec 32) (fOpen : BitVec 8 → FResult × Fil) (s : Session Fil) (h : Bookkept s) :
    (∃ index, Opened s (Session.step (.open flags fOpen) s) index) ∨
      Unchanged s (Session.step (.open flags fOpen) s) := by
  have standard : ∀ i ≤ 2, (s.hal.altFdList i).dev ≠ none := by
    intro i low free
    simp [h.standard i low] at free
  rcases altOpen_cases fOpen flags s.hal standard with
    ⟨granted, index, -, fsobj, free, result⟩ | ⟨-, e, hal, result, driver, kept⟩
  · refine .inl ⟨index, ?_, free, ?_, ?_⟩
    · by_contra low
      exact standard index (by omega) free
    · simp only [Session.step, result]
      exact freeSlots_pop granted.2.1 _
    · simp only [Session.step, result]
  · refine .inr ⟨?_, ?_⟩
    · simp only [Session.step, result, driver]
    · simp only [Session.step, result]
      exact kept

/-- A `close` of a file of this device frees its entry, and its slot as well if `f_close` succeeds. -/
theorem close_slots_cases (file : Nat) (fClose : FResult) {s : Session Fil} (h : Bookkept s)
    (isOpen : (s.hal.altFdList file).dev = some .mmcfs) :
    ∃ slot,
      ClosesOk (.close file fClose) s ∧
        Closed s (Session.step (.close file fClose) s) file slot (s.hal.driver.freeSlots ++ [slot]) ∨
      ¬ ClosesOk (.close file fClose) s ∧
        Closed s (Session.step (.close file fClose) s) file slot s.hal.driver.freeSlots := by
  obtain ⟨slot, within, opened⟩ := h.opened file isOpen
  have high : 2 < file := by
    by_contra low
    simp [h.standard file (by omega)] at isOpen
  have kept : ∀ i ≠ file, (Session.step (.close file fClose) s).hal.altFdList i =
      s.hal.altFdList i := by
    intro i other
    simp only [Session.step, if_pos isOpen]
    exact altClose_altFdList fClose file s.hal i other
  have gone : ((Session.step (.close file fClose) s).hal.altFdList file).dev = none := by
    simp [Session.step, if_pos isOpen, altClose, altReleaseFd, high]
  refine ⟨slot, ?_⟩
  cases fClose with
  | ok =>
      refine .inl ⟨fun _ => rfl, high, opened, within, gone, kept, ?_⟩
      have fdFlags : (s.hal.altFdList file).fdFlags.toNat = slot := by
        rw [opened]
        exact toNat_ofNat_slot within
      rw [← fdFlags, ← freeSlots_push]
      simp [Session.step, isOpen, altClose, altReleaseFd, high, devMmcfsClose]
  | failed =>
      refine .inr ⟨?_, high, opened, within, gone, kept, ?_⟩
      · intro met
        cases met isOpen
      · simp [Session.step, isOpen, altClose, altReleaseFd, high, devMmcfsClose]

/-- What a call can do to the descriptors and to the stack. -/
theorem step_slots_cases (call : Call Fil) (s : Session Fil) (h : Bookkept s) :
    (ClosesOk call s ∧ ∃ index, Opened s (Session.step call s) index) ∨
    (∃ file slot, ClosesOk call s ∧
        Closed s (Session.step call s) file slot (s.hal.driver.freeSlots ++ [slot]) ∨
      ¬ ClosesOk call s ∧ Closed s (Session.step call s) file slot s.hal.driver.freeSlots) ∨
    (ClosesOk call s ∧ Unchanged s (Session.step call s)) := by
  cases call with
  | «open» flags fOpen =>
      rcases open_slots_cases flags fOpen s h with opened | unchanged
      · exact .inl ⟨trivial, opened⟩
      · exact .inr (.inr ⟨trivial, unchanged⟩)
  | close file fClose =>
      by_cases isOpen : (s.hal.altFdList file).dev = some .mmcfs
      · exact .inr (.inl ⟨file, close_slots_cases file fClose h isOpen⟩)
      · have idle : Session.step (.close file fClose) s = s := by
          simp only [Session.step, if_neg isOpen]
        rw [idle]
        refine .inr (.inr ⟨fun met => absurd met isOpen, rfl, ?_⟩)
        intro i
        split_ifs with free
        · exact free
        · rfl

section
variable {s s' : Session Fil}

theorem Opened.hasSlot {index : Nat} (h : Opened s s' index) :
    HasSlot s'.hal = granted index s.hal.driver.topSlot (HasSlot s.hal) := by
  funext file slot
  by_cases same : file = index
  · simp [HasSlot, granted, h.list, same, openedFd, eq_comm]
  · simp [HasSlot, granted, h.list, same]

theorem Closed.hasSlot {file slot : Nat} {stack : List Nat} (h : Closed s s' file slot stack) :
    HasSlot s'.hal = released file (HasSlot s.hal) := by
  funext i slot'
  by_cases same : i = file
  · simp [HasSlot, released, h.gone, same]
  · simp [HasSlot, released, h.kept i same, same]

theorem Unchanged.hasSlot (h : Unchanged s s') : HasSlot s'.hal = HasSlot s.hal := by
  funext i slot
  have kept := h.kept i
  split_ifs at kept with free
  · simp [HasSlot, free, kept]
  · simp [HasSlot, kept]

theorem Unchanged.of_inUse (h : Unchanged s s') {i : Nat} {dev : AltDev}
    (inUse : (s'.hal.altFdList i).dev = some dev) : s'.hal.altFdList i = s.hal.altFdList i := by
  have kept := h.kept i
  split_ifs at kept
  · rw [kept] at inUse
    cases inUse
  · exact kept

theorem Opened.bookkept {index : Nat} (opens : Opened s s' index) (h : Bookkept s) : Bookkept s' := by
  have sep := h.toSeparate
  rw [opens.pop] at sep
  refine ⟨?_, ?_, ?_, ?_⟩
  · rw [opens.hasSlot]
    exact sep.grant
  · intro i low
    have high := opens.high
    rw [opens.list, Function.update_of_ne (by omega)]
    exact h.standard i low
  · intro slot still
    apply h.within slot
    rw [opens.pop]
    exact List.mem_append_left _ still
  · intro file isOpen
    by_cases same : file = index
    · refine ⟨s.hal.driver.topSlot, h.within _ ?_, ?_⟩
      · rw [opens.pop]
        simp
      · rw [opens.list, same, Function.update_self]
    · rw [opens.list, Function.update_of_ne same] at isOpen ⊢
      exact h.opened file isOpen

/-- Whatever slots the stack keeps, they must not be in use. -/
theorem Closed.bookkept {file slot : Nat} {stack : List Nat} (closed : Closed s s' file slot stack) (h : Bookkept s)
    (sep : Separate stack (released file (HasSlot s.hal))) (within : ∀ slot ∈ stack, slot < MMCFS_FD_MAXNUM) :
    Bookkept s' := by
  have other : ∀ {i : Nat} {dev}, (s'.hal.altFdList i).dev = some dev → i ≠ file := by
    rintro i dev inUse rfl
    rw [closed.gone] at inUse
    cases inUse
  refine ⟨?_, ?_, ?_, ?_⟩
  · rw [closed.stack, closed.hasSlot]
    exact sep
  · intro i low
    have high := closed.high
    rw [closed.kept i (by omega)]
    exact h.standard i low
  · rw [closed.stack]
    exact within
  · intro i isOpen
    have different := other isOpen
    rw [closed.kept i different] at isOpen ⊢
    exact h.opened i isOpen

theorem Unchanged.bookkept (unchanged : Unchanged s s') (h : Bookkept s) : Bookkept s' := by
  refine ⟨?_, ?_, ?_, ?_⟩
  · rw [unchanged.stack, unchanged.hasSlot]
    exact h.toSeparate
  · intro i low
    have kept := unchanged.kept i
    rw [if_neg (by rw [h.standard i low]; simp)] at kept
    rw [kept]
    exact h.standard i low
  · rw [unchanged.stack]
    exact h.within
  · intro i isOpen
    have same := unchanged.of_inUse isOpen
    rw [same] at isOpen ⊢
    exact h.opened i isOpen

end

/-! ## Runs -/

theorem step_bookkept (call : Call Fil) (s : Session Fil) (h : Bookkept s) :
    Bookkept (Session.step call s) := by
  rcases step_slots_cases call s h with ⟨-, index, opens⟩ | ⟨file, slot, ⟨-, push⟩ | ⟨-, lost⟩⟩ | ⟨-, unchanged⟩
  · exact opens.bookkept h
  · apply push.bookkept h
    · exact h.toSeparate.release ((hasSlot_openedFd push.opened).mpr rfl)
    · intro slot' listed
      rw [List.mem_append, List.mem_singleton] at listed
      rcases listed with still | rfl
      · exact h.within slot' still
      · exact push.within
  · exact lost.bookkept h h.toSeparate.drop h.within
  · exact unchanged.bookkept h

/-- One call leads from a partition to a partition exactly if its `f_close`, if it makes
one, succeeds. -/
theorem step_partition_iff (call : Call Fil) (s : Session Fil) (h : Bookkept s)
    (partition : Partition s.hal) : Partition (Session.step call s).hal ↔ ClosesOk call s := by
  have kept := step_bookkept call s h
  have complete := partition.complete
  have result : Partition (Session.step call s).hal ↔
      Complete (· < MMCFS_FD_MAXNUM) (Session.step call s).hal.driver.freeSlots
        (HasSlot (Session.step call s).hal) :=
    ⟨fun p => p.complete, fun c => ⟨kept.toSeparate, kept.within, c⟩⟩
  rw [result]
  rcases step_slots_cases call s h with
    ⟨met, index, opens⟩ | ⟨file, slot, ⟨met, push⟩ | ⟨notMet, lost⟩⟩ | ⟨met, unchanged⟩
  · refine iff_of_true ?_ met
    rw [opens.pop] at complete
    rw [opens.hasSlot]
    apply complete.grant
    intro slot has
    have := has.1
    rw [opens.free] at this
    cases this
  · refine iff_of_true ?_ met
    rw [push.stack, push.hasSlot]
    exact complete.release fun slot' has => (hasSlot_openedFd push.opened).mp has
  · refine iff_of_false ?_ notMet
    rw [lost.stack, lost.hasSlot]
    exact h.toSeparate.drop_not_complete ((hasSlot_openedFd lost.opened).mpr rfl) lost.within
  · refine iff_of_true ?_ met
    rw [unchanged.stack, unchanged.hasSlot]
    exact complete

theorem Partition.start (table : Nat → Fil) : Partition (Session.start table).hal where
  toSeparate := (Bookkept.start table).toSeparate
  within := (Bookkept.start table).within
  complete := fun _ within => .inl (List.mem_range.mpr within)

/-- No run of `open()` and `close()` calls, whatever FatFs answers, has a slot in two places:
none is given to two open files. -/
theorem run_separate (table : Nat → Fil) (calls : List (Call Fil)) :
    EveryState Session.step (fun s => Separate s.hal.driver.freeSlots (HasSlot s.hal))
      (Session.start table) calls :=
  everyState_of_invariant step_bookkept (fun _ h => h.toSeparate) (Bookkept.start table) calls

/-- In a run of `open()` and `close()` calls after `mmcfs_setup`, the free slots and those of
the open descriptors are always a partition of the table if and only if every `f_close`
succeeds. -/
theorem partition_iff_closesOk (table : Nat → Fil) (calls : List (Call Fil)) :
    EveryState Session.step (fun s => Partition s.hal) (Session.start table) calls ↔
      EveryStep Session.step ClosesOk (Session.start table) calls :=
  everyState_iff_everyStep step_bookkept step_partition_iff (Bookkept.start table)
    (Partition.start table) calls

/-- A file is opened and closed, but FatFs cannot write it back: slot 15 is neither free nor
open any more. -/
theorem failed_close_loses_slot :
    ¬ EveryState Session.step (fun s => Partition s.hal) (Session.start fun _ => ())
        [openForReading, .close 3 .failed] ∧
    15 ∉ (exec Session.step (Session.start fun _ => ())
        [openForReading, .close 3 .failed]).hal.driver.freeSlots ∧
    ((exec Session.step (Session.start fun _ => ())
        [openForReading, .close 3 .failed]).hal.altFdList 3).dev = none := by
  have lost : 15 ∉ (exec Session.step (Session.start fun _ => ())
      [openForReading, .close 3 .failed]).hal.driver.freeSlots := by decide
  refine ⟨?_, lost, by decide⟩
  rintro ⟨-, opened, last⟩
  have met := (step_partition_iff (.close 3 .failed) _
    (step_bookkept openForReading _ (Bookkept.start fun _ => ())) opened).mp last
  cases met rfl

end Cineraria.Mmcfs
