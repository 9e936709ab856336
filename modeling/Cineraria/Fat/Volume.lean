import Mathlib.Algebra.Group.Nat.Defs
import Mathlib.Tactic.Common

/-!
# A mounted FAT volume

`fatfs/ff.h`: the file system object, in two parts. `Volume` is what mounting finds on the disk and
nothing changes until the next mount. It carries what `chk_mounted` has checked: the regions of the
volume follow each other, and the FAT has room for all its entries. It also carries three conditions of
a well-formed volume that `chk_mounted` does not check. `Fatfs` is what the functions change: the sector
window, the allocation counters, and the drive below.
-/

namespace Cineraria.Fat

/-- `FRESULT`: the results of the functions modelled here. -/
inductive FResult where
  | ok | diskErr | intErr | notReady | noFile | noPath | invalidName | denied | exist | writeProtected
  | invalidObject | noFilesystem
  deriving DecidableEq, Repr

/-- `fs_type` -/
inductive FsType where
  | fat12 | fat16 | fat32
  deriving DecidableEq, Repr

/-- A sector. -/
abbrev Sector := Fin 512 → BitVec 8

/-- `SS(fs)` -/
def SS : Nat := 512

/-- `SZ_DIR` -/
def SZ_DIR : Nat := 32

/-- An offset in a sector. -/
def ofs (k : Nat) : Fin 512 := Fin.ofNat 512 k

@[simp] theorem ofs_val (k : Nat) : (ofs k).val = k % 512 := rfl

theorem ofs_inj {j k : Nat} : ofs j = ofs k ↔ j % 512 = k % 512 := by
  simp [Fin.ext_iff]

/-- The bits of an entry and the bits from one entry to the next. -/
def FsType.width : FsType → Nat
  | .fat12 => 12
  | .fat16 => 16
  | .fat32 => 28

def FsType.stride : FsType → Nat
  | .fat12 => 12
  | .fat16 => 16
  | .fat32 => 32

/-- The constant part of `FATFS`. -/
structure Volume where
  fsType : FsType
  csize : Nat
  nFats : Nat
  nRootdir : Nat
  nFatent : Nat
  fsize : Nat
  fatbase : Nat
  dirbase : Nat
  database : Nat
  fsiSector : Nat
  /-- A cluster is a power of two of sectors. -/
  csize_pow : ∃ k, csize = 2 ^ k
  csize_byte : csize < 256
  nFats_range : nFats = 1 ∨ nFats = 2
  /-- The volume has a cluster. -/
  nFatent_gt : 2 < nFatent
  /-- The marks of the last cluster are no cluster numbers. For FAT32 this is not checked. -/
  nFatent_lt : nFatent < 2 ^ fsType.width - 8
  fat_fits : fsType.stride * nFatent ≤ 4096 * fsize
  fatbase_pos : 0 < fatbase
  /-- Not checked: the FSInfo sector, which FAT32 has, is in the reserved area. -/
  fsi_before : fsiSector < fatbase
  rootdir_aligned : 16 ∣ nRootdir
  database_eq : database = fatbase + nFats * fsize + nRootdir / 16
  /-- Not checked: the sectors have numbers of 32 bits. -/
  database_end : database + (nFatent - 2) * csize ≤ 2 ^ 32
  dirbase_eq : fsType ≠ .fat32 → dirbase = fatbase + nFats * fsize
  nRootdir_iff : fsType = .fat32 ↔ nRootdir = 0

section
variable (v : Volume)

theorem Volume.csize_pos : 0 < v.csize := by
  obtain ⟨k, hk⟩ := v.csize_pow
  exact hk ▸ Nat.two_pow_pos k

/-- The smallest of volumes: six clusters of a sector, two copies of the FAT, a root directory of a sector. -/
def tiny : Volume where
  fsType := .fat12
  csize := 1
  nFats := 2
  nRootdir := 16
  nFatent := 8
  fsize := 1
  fatbase := 1
  dirbase := 3
  database := 4
  fsiSector := 0
  csize_pow := ⟨0, rfl⟩
  csize_byte := by decide
  nFats_range := .inr rfl
  nFatent_gt := by decide
  nFatent_lt := by decide
  fat_fits := by decide
  fatbase_pos := Nat.one_pos
  fsi_before := Nat.one_pos
  rootdir_aligned := by decide
  database_eq := rfl
  database_end := by decide
  dirbase_eq _ := rfl
  nRootdir_iff := by decide

/-- The mask of the source is a remainder. -/
theorem Volume.and_mask (n : Nat) : n &&& (v.csize - 1) = n % v.csize := by
  obtain ⟨k, hk⟩ := v.csize_pow
  rw [hk, Nat.and_two_pow_sub_one_eq_mod]

/-- The sectors that hold the volume: all from the FAT on but the copies of the FAT. -/
def Volume.Primary (i : Nat) : Prop :=
  v.fatbase ≤ i ∧ (i < v.fatbase + v.fsize ∨ v.fatbase + v.nFats * v.fsize ≤ i)

/-- `clust2sect` -/
def clust2sect (clst : Nat) : Nat :=
  if clst < 2 ∨ v.nFatent - 2 ≤ clst - 2 then 0 else (clst - 2) * v.csize + v.database

end

/-! ## The drive -/

/-- The sectors of the drive, and how many operations it has been given. -/
structure Drive where
  sectors : Nat → Sector
  ops : Nat

/-- Which operations fail, by their number. A write that fails leaves anything in its sectors. -/
abbrev Faults := Nat → Option (Nat → Sector)

/-- Some operation fails. -/
def Faults.Some (faults : Faults) : Prop := ∃ k, faults k ≠ none

theorem Faults.some_of {faults : Faults} {k : Nat} {left : Nat → Sector} (h : faults k = some left) : faults.Some :=
  ⟨k, by simp [h]⟩

theorem Faults.not_some {faults : Faults} (healthy : ∀ k, faults k = none) : ¬faults.Some :=
  fun ⟨k, fails⟩ => fails (healthy k)

/-- The sectors from one on are replaced. -/
def Drive.put (d : Drive) (sector count : Nat) (buff : Nat → Sector) : Drive where
  sectors i := if sector ≤ i ∧ i < sector + count then buff (i - sector) else d.sectors i
  ops := d.ops + 1

/-- `disk_read`, of one sector. One that fails leaves the buffer as it is. -/
def diskRead (faults : Faults) (sector : Nat) (d : Drive) : Option Sector × Drive :=
  (if (faults d.ops).isNone then some (d.sectors sector) else none, { d with ops := d.ops + 1 })

/-- `disk_write`: whether it returns `RES_OK`. -/
def diskWrite (faults : Faults) (buff : Nat → Sector) (sector count : Nat) (d : Drive) : Bool × Drive :=
  match faults d.ops with
  | none => (true, d.put sector count buff)
  | some left => (false, d.put sector count left)

/-- `disk_ioctl` with `CTRL_SYNC` -/
def diskSync (faults : Faults) (d : Drive) : Bool × Drive :=
  ((faults d.ops).isNone, { d with ops := d.ops + 1 })

theorem Drive.put_one (d : Drive) (sector : Nat) (buff : Nat → Sector) :
    (d.put sector 1 buff).sectors = Function.update d.sectors sector (buff 0) := by
  funext i
  by_cases h : i = sector
  · subst h; simp [put]
  · rw [Function.update_of_ne h]
    exact if_neg (by omega)

end Cineraria.Fat
