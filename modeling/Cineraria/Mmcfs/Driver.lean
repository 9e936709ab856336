import Mathlib.Logic.Function.Basic
import Mathlib.Tactic.Common

/-!
# The file descriptors of the HAL and the `mmcfs:` driver

`cineraria_wavplay_bsp/HAL/src/alt_open.c`, `alt_close.c`, `alt_read.c`, `alt_write.c`,
`alt_get_fd.c`, `alt_release_fd.c` over `mmcfs/mmcfs.c`. The two layers share the
structure `alt_fd`: the HAL puts the open flags into `fd_flags` and the driver puts its
slot number there.

FatFs is met through its results: an event carries the `FRESULT` of the one `f_open` or
`f_close` it makes, and the file object that `f_open` filled in. `Fil` is the type of
these objects.
-/

namespace Cineraria.Mmcfs

/-! ## Constants -/

/-- The error numbers used by the two layers. -/
inductive Errno where
  | enoent | eio | eacces | enodev | einval | enfile | emfile | ebadfd
  deriving DecidableEq, Repr

def O_RDONLY : BitVec 32 := 0
def O_WRONLY : BitVec 32 := 1
def O_RDWR : BitVec 32 := 2
def O_ACCMODE : BitVec 32 := 3
def O_APPEND : BitVec 32 := 8
def O_CREAT : BitVec 32 := 0x200

/-- `ALT_FD_EXCL | ALT_FD_DEV` -/
def ALT_FD_FLAGS_MASK : BitVec 32 := 0xc0000000

def ALT_MAX_FD : Nat := 32
def MMCFS_FD_MAXNUM : Nat := 16

def FA_READ : BitVec 8 := 0x01
def FA_WRITE : BitVec 8 := 0x02
def FA_OPEN_EXISTING : BitVec 8 := 0x00
def FA_CREATE_ALWAYS : BitVec 8 := 0x08
def FA_OPEN_ALWAYS : BitVec 8 := 0x10

/-- The result of a FatFs call, as far as the driver looks at it: `FR_OK` or not. -/
inductive FResult where
  | ok | failed
  deriving DecidableEq, Repr

/-! ## State -/

/-- The devices a descriptor can refer to. -/
inductive AltDev where
  | jtagUart | mmcfs
  deriving DecidableEq, Repr

/-- `alt_fd`; `priv` is the slot its pointer into `dev_mmcfs_table` names. -/
structure AltFd where
  dev : Option AltDev
  priv : Option Nat
  fdFlags : BitVec 32
  deriving DecidableEq, Repr

/-- The static variables of `mmcfs.c`: the stack of free slots and the file objects. -/
structure Driver (Fil : Type) where
  devMmcfsFdNum : Nat
  devMmcfsFd : Nat → Nat
  devMmcfsTable : Nat → Fil

/-- The descriptor pool and the driver. -/
structure State (Fil : Type) where
  altFdList : Nat → AltFd
  driver : Driver Fil

variable {Fil : Type}

/-! ## The driver -/

/-- The access mode `dev_mmcfs_open` hands to `f_open`. -/
def fatfsMode (flags : BitVec 32) : Option (BitVec 8) :=
  if flags &&& 3 = O_RDONLY then some (FA_OPEN_EXISTING ||| FA_READ)
  else if flags &&& 3 = O_WRONLY then
    if flags &&& O_APPEND ≠ 0 then some (FA_OPEN_ALWAYS ||| FA_WRITE)
    else some (FA_CREATE_ALWAYS ||| FA_WRITE)
  else if flags &&& 3 = O_RDWR then
    if flags &&& O_APPEND ≠ 0 then some (FA_OPEN_ALWAYS ||| FA_READ ||| FA_WRITE)
    else if flags &&& O_CREAT ≠ 0 then some (FA_CREATE_ALWAYS ||| FA_READ ||| FA_WRITE)
    else some (FA_OPEN_EXISTING ||| FA_READ ||| FA_WRITE)
  else none

/-- `dev_mmcfs_open`; `fOpen` is `f_open` on the rest of the name, for each mode. -/
def devMmcfsOpen (fOpen : BitVec 8 → FResult × Fil) (fd : AltFd) (flags : BitVec 32)
    (d : Driver Fil) : Except Errno Nat × AltFd × Driver Fil :=
  if d.devMmcfsFdNum = 0 then (.error .enfile, fd, d)
  else
    match fatfsMode flags with
    | none => (.error .einval, fd, d)
    | some mode =>
        match fOpen mode with
        | (.failed, _) => (.error .enoent, fd, d)
        | (.ok, fsobj) =>
            let num := d.devMmcfsFdNum - 1
            let fdNum := d.devMmcfsFd num
            (.ok fdNum,
              { fd with priv := some fdNum, fdFlags := BitVec.ofNat 32 fdNum },
              { d with
                devMmcfsFdNum := num
                devMmcfsTable := Function.update d.devMmcfsTable fdNum fsobj })

/-- `dev_mmcfs_close`; `fClose` is the result of `f_close`. The slot number comes back
from `fd_flags`. -/
def devMmcfsClose (fClose : FResult) (fd : AltFd) (d : Driver Fil) :
    Except Errno Unit × AltFd × Driver Fil :=
  match fClose with
  | .failed => (.error .eio, fd, d)
  | .ok =>
      (.ok (), { fd with priv := none, fdFlags := -1 },
        { d with
          devMmcfsFd := Function.update d.devMmcfsFd d.devMmcfsFdNum fd.fdFlags.toNat
          devMmcfsFdNum := d.devMmcfsFdNum + 1 })

/-- `mmcfs_setup`: the loop stacks the slots in order. -/
def mmcfsSetup (table : Nat → Fil) : Driver Fil :=
  (List.range MMCFS_FD_MAXNUM).foldl
    (fun d _ =>
      { d with
        devMmcfsFd := Function.update d.devMmcfsFd d.devMmcfsFdNum d.devMmcfsFdNum
        devMmcfsFdNum := d.devMmcfsFdNum + 1 })
    { devMmcfsFdNum := 0, devMmcfsFd := fun _ => 0, devMmcfsTable := table }

/-! ## The HAL -/

/-- `alt_get_fd`: the first free descriptor of the pool, now referring to `dev`. -/
def altGetFd (dev : AltDev) (s : State Fil) : Except Errno Nat × State Fil :=
  match (List.range ALT_MAX_FD).find? fun i => (s.altFdList i).dev.isNone with
  | none => (.error .emfile, s)
  | some i =>
      (.ok i, { s with
        altFdList := Function.update s.altFdList i { s.altFdList i with dev := some dev } })

/-- `alt_release_fd`: the three standard descriptors are never released. -/
def altReleaseFd (fd : Nat) (s : State Fil) : State Fil :=
  if fd > 2 then
    { s with
      altFdList := Function.update s.altFdList fd
        { s.altFdList fd with fdFlags := 0, dev := none } }
  else s

/-- `open()` on a name that belongs to the `mmcfs:` file system. -/
def altOpen (fOpen : BitVec 8 → FResult × Fil) (flags : BitVec 32) (s : State Fil) :
    Except Errno Nat × State Fil :=
  match altGetFd .mmcfs s with
  | (.error e, s) => (.error e, s)
  | (.ok index, s) =>
      let fd := { s.altFdList index with fdFlags := flags &&& ~~~ALT_FD_FLAGS_MASK }
      match devMmcfsOpen fOpen fd flags s.driver with
      | (status, fd, d) =>
          let s := { s with altFdList := Function.update s.altFdList index fd, driver := d }
          match status with
          | .error e => (.error e, altReleaseFd index s)
          | .ok _ => (.ok index, s)

/-- `close()` on an `mmcfs:` descriptor: the descriptor is released whether or not the
driver could close the file. -/
def altClose (fClose : FResult) (file : Nat) (s : State Fil) : Except Errno Unit × State Fil :=
  match devMmcfsClose fClose (s.altFdList file) s.driver with
  | (rval, fd, d) =>
      (rval, altReleaseFd file
        { s with altFdList := Function.update s.altFdList file fd, driver := d })

/-- What `read()` or `write()` does with a request: vector it to the driver of a device,
or refuse it. A descriptor that refers to no device is not checked for: its driver is
called through a null pointer. -/
inductive Vectored where
  | driver (dev : AltDev)
  | refused (e : Errno)
  | nullDev
  deriving DecidableEq, Repr

/-- `ALT_READ`: both devices provide a `read` function. -/
def altRead (file : Int) (s : State Fil) : Vectored :=
  if file < 0 then .refused .ebadfd
  else
    let fd := s.altFdList file.toNat
    if fd.fdFlags &&& O_ACCMODE ≠ O_WRONLY then fd.dev.elim .nullDev .driver
    else .refused .eacces

/-- `ALT_WRITE`: both devices provide a `write` function. -/
def altWrite (file : Int) (s : State Fil) : Vectored :=
  if file < 0 then .refused .ebadfd
  else
    let fd := s.altFdList file.toNat
    if fd.fdFlags &&& O_ACCMODE ≠ O_RDONLY then fd.dev.elim .nullDev .driver
    else .refused .eacces

/-- The descriptor pool when `main` has called `mmcfs_setup`: the three standard
descriptors refer to the console, the others are free. -/
def start (table : Nat → Fil) : State Fil where
  altFdList i :=
    if i = 0 then ⟨some .jtagUart, none, O_RDONLY⟩
    else if i ≤ 2 then ⟨some .jtagUart, none, O_WRONLY⟩
    else ⟨none, none, 0⟩
  driver := mmcfsSetup table

/-! ## What the calls can do -/

/-- The driver can open the file: a free slot, an access mode that exists, and a file
FatFs opens. -/
def DriverOpens (fOpen : BitVec 8 → FResult × Fil) (flags : BitVec 32) (d : Driver Fil) : Prop :=
  d.devMmcfsFdNum ≠ 0 ∧ ∃ mode, fatfsMode flags = some mode ∧ (fOpen mode).1 = .ok

/-- The slot on top of the stack, the next one to be handed out. -/
def Driver.topSlot (d : Driver Fil) : Nat := d.devMmcfsFd (d.devMmcfsFdNum - 1)

theorem devMmcfsOpen_cases (fOpen : BitVec 8 → FResult × Fil) (fd : AltFd) (flags : BitVec 32)
    (d : Driver Fil) :
    (DriverOpens fOpen flags d ∧ ∃ fsobj, devMmcfsOpen fOpen fd flags d =
      (.ok d.topSlot,
        { fd with priv := some d.topSlot, fdFlags := BitVec.ofNat 32 d.topSlot },
        { d with
          devMmcfsFdNum := d.devMmcfsFdNum - 1
          devMmcfsTable := Function.update d.devMmcfsTable d.topSlot fsobj })) ∨
    (¬ DriverOpens fOpen flags d ∧ ∃ e, devMmcfsOpen fOpen fd flags d = (.error e, fd, d)) := by
  unfold devMmcfsOpen DriverOpens
  by_cases empty : d.devMmcfsFdNum = 0
  · exact .inr ⟨fun h => h.1 empty, .enfile, if_pos empty⟩
  · rw [if_neg empty]
    cases hmode : fatfsMode flags with
    | none => exact .inr ⟨by simp, .einval, rfl⟩
    | some mode =>
        cases hopen : fOpen mode with
        | mk res fsobj =>
            cases res with
            | failed => exact .inr ⟨by simp [hopen], .enoent, by simp [hopen]⟩
            | ok => exact .inl ⟨⟨empty, mode, rfl, by simp [hopen]⟩, fsobj, by simp [hopen, Driver.topSlot]⟩

/-- `alt_get_fd` takes a free descriptor, or there is none. -/
theorem altGetFd_cases (dev : AltDev) (s : State Fil) :
    (∃ i < ALT_MAX_FD, (s.altFdList i).dev = none ∧
      altGetFd dev s = (.ok i, { s with
        altFdList := Function.update s.altFdList i { s.altFdList i with dev := some dev } })) ∨
    ((∀ i < ALT_MAX_FD, (s.altFdList i).dev ≠ none) ∧ altGetFd dev s = (.error .emfile, s)) := by
  unfold altGetFd
  cases found : (List.range ALT_MAX_FD).find? fun i => (s.altFdList i).dev.isNone with
  | none =>
      refine .inr ⟨fun i hi none => ?_, rfl⟩
      have := List.find?_eq_none.mp found i (List.mem_range.mpr hi)
      simp [none] at this
  | some i =>
      have free := List.find?_some found
      have within := List.mem_range.mp (List.mem_of_find?_eq_some found)
      exact .inl ⟨i, within, by simpa using free, rfl⟩

/-- `open()` is granted: there is a free descriptor and the driver can open the file. -/
def Granted (fOpen : BitVec 8 → FResult × Fil) (flags : BitVec 32) (s : State Fil) : Prop :=
  (∃ i < ALT_MAX_FD, (s.altFdList i).dev = none) ∧ DriverOpens fOpen flags s.driver

/-- The descriptor of a file just opened: the slot number is where the flags were. -/
def openedFd (slot : Nat) : AltFd := ⟨some .mmcfs, some slot, BitVec.ofNat 32 slot⟩

/-- A granted `open()` takes the top slot and a free descriptor; a refused one leaves the
driver and every descriptor in use as they were. -/
theorem altOpen_cases (fOpen : BitVec 8 → FResult × Fil) (flags : BitVec 32) (s : State Fil)
    (standard : ∀ i ≤ 2, (s.altFdList i).dev ≠ none) :
    (Granted fOpen flags s ∧ ∃ index < ALT_MAX_FD, ∃ fsobj, (s.altFdList index).dev = none ∧
      altOpen fOpen flags s = (.ok index,
        { altFdList := Function.update s.altFdList index (openedFd s.driver.topSlot)
          driver := { s.driver with
            devMmcfsFdNum := s.driver.devMmcfsFdNum - 1
            devMmcfsTable := Function.update s.driver.devMmcfsTable s.driver.topSlot fsobj } })) ∨
    (¬ Granted fOpen flags s ∧ ∃ e hal, altOpen fOpen flags s = (.error e, hal) ∧
      hal.driver = s.driver ∧
      ∀ i, if (s.altFdList i).dev = none then (hal.altFdList i).dev = none
        else hal.altFdList i = s.altFdList i) := by
  unfold altOpen Granted
  rcases altGetFd_cases .mmcfs s with ⟨i, within, free, got⟩ | ⟨full, got⟩
  · rw [got]
    dsimp only
    rcases devMmcfsOpen_cases fOpen { (Function.update s.altFdList i
        { s.altFdList i with dev := some .mmcfs }) i with
        fdFlags := flags &&& ~~~ALT_FD_FLAGS_MASK } flags s.driver with
      ⟨opens, fsobj, result⟩ | ⟨refused, e, result⟩
    · refine .inl ⟨⟨⟨i, within, free⟩, opens⟩, i, within, fsobj, free, ?_⟩
      rw [result]
      simp [openedFd]
    · refine .inr ⟨fun h => refused h.2, e, _, by rw [result], ?_, fun j => ?_⟩
      · simp only [altReleaseFd]
        split_ifs <;> rfl
      · have high : i > 2 := by
          by_contra low
          exact standard i (by omega) free
        by_cases same : j = i
        · subst same
          simp [altReleaseFd, high, free]
        · split_ifs with h <;> simp [altReleaseFd, high, same, h]
  · refine .inr ⟨fun h => ?_, .emfile, s, by rw [got], rfl, fun i => ?_⟩
    · obtain ⟨i, within, free⟩ := h.1
      exact full i within free
    · split_ifs with h
      · exact h
      · rfl

end Cineraria.Mmcfs
