import Cineraria.Lib.Run
import Cineraria.Mmcfs.Driver

/-!
# The access mode of an open file

The driver stores its slot number in `fd_flags`, where `ALT_READ` and `ALT_WRITE` look
for the access mode. `slot % 4` then plays the part of the mode, whatever was passed to
`open()`. The exact condition for a run of `open()` and `close()` calls to keep reads and
writes working is one on the slots it is handed (`agrees_iff_slotsFit`).
-/

namespace Cineraria.Mmcfs

open Run

/-- Opened for reading. -/
def Readable (flags : BitVec 32) : Prop := flags &&& O_ACCMODE = O_RDONLY ∨ flags &&& O_ACCMODE = O_RDWR

/-- Opened for writing. -/
def Writable (flags : BitVec 32) : Prop := flags &&& O_ACCMODE = O_WRONLY ∨ flags &&& O_ACCMODE = O_RDWR

instance (flags : BitVec 32) : Decidable (Readable flags) := inferInstanceAs (Decidable (_ ∨ _))
instance (flags : BitVec 32) : Decidable (Writable flags) := inferInstanceAs (Decidable (_ ∨ _))

/-- A call of the program, with what FatFs answers. -/
inductive Call (Fil : Type) where
  | open (flags : BitVec 32) (fOpen : BitVec 8 → FResult × Fil)
  | close (file : Nat) (fClose : FResult)

/-- The two layers, and for each descriptor that is open the flags its `open()` was given. -/
structure Session (Fil : Type) where
  hal : State Fil
  mode : Nat → Option (BitVec 32)

variable {Fil : Type}

/-- One call. `close()` is only ever made on an open `mmcfs:` descriptor: on any other it
would not reach the driver. -/
def Session.step : Call Fil → Session Fil → Session Fil
  | .open flags fOpen, s =>
      match altOpen fOpen flags s.hal with
      | (.ok index, hal) => { hal := hal, mode := Function.update s.mode index (some flags) }
      | (.error _, hal) => { s with hal := hal }
  | .close file fClose, s =>
      if (s.hal.altFdList file).dev = some .mmcfs then
        { hal := (altClose fClose file s.hal).2, mode := Function.update s.mode file none }
      else s

/-- No file is open after `mmcfs_setup`. -/
def Session.start (table : Nat → Fil) : Session Fil where
  hal := Mmcfs.start table
  mode := fun _ => none

/-- Every open descriptor can be used the way it was opened. -/
def Agrees (s : Session Fil) : Prop :=
  ∀ file flags, s.mode file = some flags →
    (Readable flags → altRead file s.hal = .driver .mmcfs) ∧
    (Writable flags → altWrite file s.hal = .driver .mmcfs)

/-- The low bits of a number do not read as the opposite of the access mode. -/
def Fits (flags number : BitVec 32) : Prop :=
  (Readable flags → number &&& O_ACCMODE ≠ O_WRONLY) ∧
  (Writable flags → number &&& O_ACCMODE ≠ O_RDONLY)

/-- The condition on a step: an `open()` that is granted gets a slot that fits its mode. -/
def SlotFits : Call Fil → Session Fil → Prop
  | .open flags fOpen, s =>
      Granted fOpen flags s.hal → Fits flags (BitVec.ofNat 32 s.hal.driver.topSlot)
  | .close _ _, _ => True

/-! ## What one call does -/

/-- What is known of every session: the standard descriptors stay where they are, and an
open descriptor refers to the driver. -/
structure Consistent (s : Session Fil) : Prop where
  standard : ∀ i ≤ 2, (s.hal.altFdList i).dev = some .jtagUart
  isOpen : ∀ file flags, s.mode file = some flags → (s.hal.altFdList file).dev = some .mmcfs

theorem Consistent.start (table : Nat → Fil) : Consistent (Session.start table) where
  standard i hi := by
    simp only [Session.start, Mmcfs.start]
    split_ifs <;> rfl
  isOpen _ _ h := by simp [Session.start] at h

theorem Consistent.ne_none {s : Session Fil} (h : Consistent s) :
    ∀ i ≤ 2, (s.hal.altFdList i).dev ≠ none := by
  intro i hi none
  simp [h.standard i hi] at none

theorem altRead_eq_driver {hal : State Fil} {file : Nat}
    (dev : (hal.altFdList file).dev = some .mmcfs) :
    altRead file hal = .driver .mmcfs ↔ (hal.altFdList file).fdFlags &&& O_ACCMODE ≠ O_WRONLY := by
  simp only [altRead, Int.toNat_natCast, dev, Option.elim]
  split_ifs
  · omega
  · simp_all
  · simp_all

theorem altWrite_eq_driver {hal : State Fil} {file : Nat}
    (dev : (hal.altFdList file).dev = some .mmcfs) :
    altWrite file hal = .driver .mmcfs ↔ (hal.altFdList file).fdFlags &&& O_ACCMODE ≠ O_RDONLY := by
  simp only [altWrite, Int.toNat_natCast, dev, Option.elim]
  split_ifs
  · omega
  · simp_all
  · simp_all

/-- The open descriptors work exactly if their `fd_flags` fit the modes they were opened
with. -/
theorem Consistent.agrees_iff {s : Session Fil} (h : Consistent s) :
    Agrees s ↔ ∀ file flags, s.mode file = some flags →
      Fits flags (s.hal.altFdList file).fdFlags := by
  unfold Agrees Fits
  refine forall_congr' fun file => forall_congr' fun flags => forall_congr' fun isOpen => ?_
  rw [altRead_eq_driver (h.isOpen file flags isOpen), altWrite_eq_driver (h.isOpen file flags isOpen)]

/-- What `close()` leaves of the pool: everything but the closed descriptor. -/
theorem altClose_altFdList (fClose : FResult) (file : Nat) (s : State Fil) (i : Nat) (other : i ≠ file) :
    (altClose fClose file s).2.altFdList i = s.altFdList i := by
  simp only [altClose, altReleaseFd]
  split_ifs <;> simp [other]

theorem step_open_cases (flags : BitVec 32) (fOpen : BitVec 8 → FResult × Fil) (s : Session Fil)
    (h : Consistent s) :
    (Granted fOpen flags s.hal ∧ ∃ index d, (s.hal.altFdList index).dev = none ∧
      Session.step (.open flags fOpen) s =
        { hal := { altFdList := Function.update s.hal.altFdList index (openedFd s.hal.driver.topSlot)
                   driver := d }
          mode := Function.update s.mode index (some flags) }) ∨
    (¬ Granted fOpen flags s.hal ∧ ∃ hal, Session.step (.open flags fOpen) s = { s with hal := hal } ∧
      ∀ i, (s.hal.altFdList i).dev ≠ none → hal.altFdList i = s.hal.altFdList i) := by
  simp only [Session.step]
  rcases altOpen_cases fOpen flags s.hal h.ne_none with
    ⟨granted, index, -, fsobj, free, result⟩ | ⟨refused, e, hal, result, -, kept⟩
  · exact .inl ⟨granted, index, _, free, by rw [result]⟩
  · refine .inr ⟨refused, hal, by rw [result], fun i inUse => ?_⟩
    have := kept i
    rwa [if_neg inUse] at this

theorem step_consistent (call : Call Fil) (s : Session Fil) (h : Consistent s) :
    Consistent (Session.step call s) := by
  cases call with
  | «open» flags fOpen =>
      rcases step_open_cases flags fOpen s h with ⟨-, index, d, free, next⟩ | ⟨-, hal, next, kept⟩
      · have notStandard : ∀ i ≤ 2, i ≠ index := by
          rintro i hi rfl
          exact h.ne_none i hi free
        rw [next]
        constructor
        · intro i hi
          simp [notStandard i hi, h.standard i hi]
        · intro file flags' isOpen
          by_cases same : file = index
          · simp [same, openedFd]
          · simp only [Function.update_of_ne same] at isOpen ⊢
            exact h.isOpen file flags' isOpen
      · rw [next]
        constructor
        · intro i hi
          dsimp only
          rw [kept i (h.ne_none i hi), h.standard i hi]
        · intro file flags' isOpen
          have dev := h.isOpen file flags' isOpen
          dsimp only
          rw [kept file (by rw [dev]; simp), dev]
  | close file fClose =>
      simp only [Session.step]
      split_ifs with isOpen
      · have notStandard : ∀ i ≤ 2, i ≠ file := by
          rintro i hi rfl
          simp [h.standard i hi] at isOpen
        constructor
        · intro i hi
          rw [altClose_altFdList _ _ _ _ (notStandard i hi), h.standard i hi]
        · intro other flags stillOpen
          by_cases same : other = file
          · simp [same] at stillOpen
          · simp only [Function.update_of_ne same] at stillOpen
            rw [altClose_altFdList _ _ _ _ same, h.isOpen other flags stillOpen]
      · exact h

/-- One call leads from a session that agrees to one that agrees exactly if the slot it
hands out, if any, fits. -/
theorem step_agrees_iff (call : Call Fil) (s : Session Fil) (h : Consistent s) (agrees : Agrees s) :
    Agrees (Session.step call s) ↔ SlotFits call s := by
  rw [(step_consistent call s h).agrees_iff]
  have fits := h.agrees_iff.mp agrees
  cases call with
  | «open» flags fOpen =>
      rcases step_open_cases flags fOpen s h with ⟨granted, index, d, -, next⟩ | ⟨refused, hal, next, kept⟩
      · rw [next]
        constructor
        · intro all _
          simpa [openedFd] using all index flags (by simp)
        · intro slotFits file flags' isOpen
          by_cases same : file = index
          · subst same
            have passed : flags = flags' := by simpa using isOpen
            subst passed
            simpa [openedFd] using slotFits granted
          · simp only [Function.update_of_ne same] at isOpen ⊢
            exact fits file flags' isOpen
      · rw [next]
        refine iff_of_true (fun file flags' isOpen => ?_) fun granted => absurd granted refused
        dsimp only
        rw [kept file (by rw [h.isOpen file flags' isOpen]; simp)]
        exact fits file flags' isOpen
  | close file fClose =>
      refine iff_of_true (fun other flags stillOpen => ?_) trivial
      simp only [Session.step] at stillOpen ⊢
      split_ifs at stillOpen ⊢
      · by_cases same : other = file
        · simp [same] at stillOpen
        · simp only [Function.update_of_ne same] at stillOpen
          rw [altClose_altFdList _ _ _ _ same]
          exact fits other flags stillOpen
      · exact fits other flags stillOpen

/-- In a run of `open()` and `close()` calls after `mmcfs_setup`, every open descriptor can
always be used the way it was opened if and only if every granted `open()` was handed a
slot whose low bits fit its access mode. -/
theorem agrees_iff_slotsFit (table : Nat → Fil) (calls : List (Call Fil)) :
    EveryState Session.step Agrees (Session.start table) calls ↔
      EveryStep Session.step SlotFits (Session.start table) calls :=
  everyState_iff_everyStep step_consistent step_agrees_iff (Consistent.start table)
    (fun file flags isOpen => by simp [Session.start] at isOpen) calls

/-- An `open()` for reading that FatFs grants. -/
def openForReading : Call Unit := .open O_RDONLY fun _ => (.ok, ())

/-- The third file opened for reading gets slot 13, whose low bits say write-only: `read()`
on its descriptor, 5, is refused with `EACCES`. -/
theorem third_open_not_readable :
    ¬ EveryState Session.step Agrees (Session.start fun _ => ())
        [openForReading, openForReading, openForReading] ∧
    altRead 5 (exec Session.step (Session.start fun _ => ())
        [openForReading, openForReading, openForReading]).hal = .refused .eacces := by
  have refused : altRead 5 (exec Session.step (Session.start fun _ => ())
      [openForReading, openForReading, openForReading]).hal = .refused .eacces := by decide
  refine ⟨fun all => ?_, refused⟩
  obtain ⟨-, -, -, last⟩ := all
  have readable := (last 5 O_RDONLY rfl).1 (.inl rfl)
  cases refused.symm.trans readable

end Cineraria.Mmcfs
