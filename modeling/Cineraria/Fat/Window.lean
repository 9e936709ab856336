import Cineraria.Lib.Run
import Cineraria.Lib.WriteBack
import Cineraria.Fat.Volume

/-!
# The sector window

`move_window` and `sync` of `fatfs/ff.c`. The window is one line of a write-back cache over the drive.
`Fatfs.view` is the volume as the functions above the window see it: an operation of the drive that
fails may ruin a sector of the drive, but none of the view.
-/

namespace Cineraria.Fat

open WriteBack

/-- The part of `FATFS` that changes, with the drive. A count of free clusters of `0xFFFFFFFF` is unknown. -/
structure Fatfs where
  drive : Drive
  winsect : Nat
  win : Sector
  wflag : Bool
  lastClust : BitVec 32
  freeClust : BitVec 32
  fsiFlag : Bool

def Fatfs.line (fs : Fatfs) : Line Nat Sector := ⟨fs.winsect, fs.win, fs.wflag⟩

/-- The sectors as they are behind the window. -/
def Fatfs.view (fs : Fatfs) : Nat → Sector := WriteBack.view fs.drive.sectors fs.line

section
variable (faults : Faults) (v : Volume)

/-- The loop of `move_window` that writes the window to the copies of the FAT. Their errors are not looked at. -/
def reflect (win : Sector) : Nat → Nat → Drive → Drive
  | 0, _, d => d
  | nf + 1, wsect, d =>
      reflect win nf (wsect + v.fsize) (diskWrite faults (fun _ => win) (wsect + v.fsize) 1 d).2

/-- `move_window`, the part under `_FS_READONLY`: a dirty window is written back. -/
def writeBack (fs : Fatfs) : Bool × Fatfs :=
  if fs.wflag then
    match diskWrite faults (fun _ => fs.win) fs.winsect 1 fs.drive with
    | (false, d) => (false, { fs with drive := d })
    | (true, d) =>
        (true,
          { fs with
            wflag := false
            drive := if fs.winsect < v.fatbase + v.fsize
              then reflect faults v fs.win (v.nFats - 1) fs.winsect d else d })
  else (true, fs)

/-- `move_window`. Moving to sector 0 only writes back. -/
def moveWindow (sector : Nat) (fs : Fatfs) : FResult × Fatfs :=
  if fs.winsect = sector then (.ok, fs)
  else
    match writeBack faults v fs with
    | (false, fs) => (.diskErr, fs)
    | (true, fs) =>
        if sector = 0 then (.ok, fs)
        else
          match diskRead faults sector fs.drive with
          | (none, d) => (.diskErr, { fs with drive := d })
          | (some win, d) => (.ok, { fs with drive := d, win := win, winsect := sector })

/-- `ST_WORD` and `ST_DWORD` at a place in the window. -/
def stWord (win : Sector) (k : Nat) (w : BitVec 16) : Sector :=
  Function.update (Function.update win (ofs k) (w.setWidth 8)) (ofs (k + 1)) ((w >>> 8).setWidth 8)

def stDword (win : Sector) (k : Nat) (w : BitVec 32) : Sector :=
  stWord (stWord win k (w.setWidth 16)) (k + 2) ((w >>> 16).setWidth 16)

/-- `LD_WORD` and `LD_DWORD` -/
def ldWord (win : Sector) (k : Nat) : BitVec 16 := win (ofs (k + 1)) ++ win (ofs k)

def ldDword (win : Sector) (k : Nat) : BitVec 32 := ldWord win (k + 2) ++ ldWord win k

/-- The FSInfo sector that `sync` makes. -/
def fsInfo (freeClust lastClust : BitVec 32) : Sector :=
  stDword (stDword (stDword (stDword (stWord (fun _ => 0) 510 0xAA55) 0 0x41615252) 484 0x61417272)
    488 freeClust) 492 lastClust

/-- `sync`, the update of the FSInfo sector. Its error is not looked at. -/
def updateInfo (fs : Fatfs) : Fatfs :=
  if v.fsType = .fat32 ∧ fs.fsiFlag then
    let win := fsInfo fs.freeClust fs.lastClust
    { fs with
      winsect := 0
      win := win
      drive := (diskWrite faults (fun _ => win) v.fsiSector 1 fs.drive).2
      fsiFlag := false }
  else fs

/-- `sync` -/
def sync (fs : Fatfs) : FResult × Fatfs :=
  match moveWindow faults v 0 fs with
  | (.ok, fs) =>
      let fs := updateInfo faults v fs
      match diskSync faults fs.drive with
      | (true, d) => (.ok, { fs with drive := d })
      | (false, d) => (.diskErr, { fs with drive := d })
  | (res, fs) => (res, fs)

end

/-! ## What a move does -/

section
variable {faults : Faults} {v : Volume} {fs fs' : Fatfs}

/-- The window is invalid, or it shows a sector of the volume; a clean one is a copy. -/
structure Fatfs.WindowOk (v : Volume) (fs : Fatfs) : Prop where
  place : fs.winsect = 0 ∨ v.Primary fs.winsect
  dirty : fs.wflag = true → fs.winsect ≠ 0
  copy : fs.wflag = false → fs.winsect ≠ 0 → fs.drive.sectors fs.winsect = fs.win

/-- A drive of zeros with the window on its first sector, and how many clusters are free is not known. -/
def blank : Fatfs where
  drive := ⟨fun _ _ => 0, 0⟩
  winsect := 1
  win := fun _ => 0
  wflag := false
  lastClust := 0
  freeClust := 0xFFFFFFFF
  fsiFlag := false

theorem blank_windowOk : blank.WindowOk tiny :=
  ⟨.inr (by unfold Volume.Primary; decide), by decide, fun _ _ => rfl⟩

/-- The view of the volume and the counters are left as they were. -/
structure Unchanged (v : Volume) (fs fs' : Fatfs) : Prop where
  windowOk : fs'.WindowOk v
  view : ∀ i, v.Primary i → fs'.view i = fs.view i
  lastClust : fs'.lastClust = fs.lastClust
  freeClust : fs'.freeClust = fs.freeClust
  fsiFlag : fs'.fsiFlag = fs.fsiFlag

theorem Unchanged.refl (ok : fs.WindowOk v) : Unchanged v fs fs := ⟨ok, fun _ _ => rfl, rfl, rfl, rfl⟩

theorem Unchanged.trans {fs'' : Fatfs} (a : Unchanged v fs fs') (b : Unchanged v fs' fs'') : Unchanged v fs fs'' :=
  ⟨b.windowOk, fun i hi => (b.view i hi).trans (a.view i hi), b.lastClust.trans a.lastClust,
    b.freeClust.trans a.freeClust, b.fsiFlag.trans a.fsiFlag⟩

theorem Volume.Primary.pos {i : Nat} (primary : v.Primary i) : i ≠ 0 := by
  have := v.fatbase_pos
  have := primary.1
  omega

/-- What the window shows is the view of its sector. -/
theorem Fatfs.WindowOk.view_winsect (ok : fs.WindowOk v) (valid : fs.winsect ≠ 0) : fs.view fs.winsect = fs.win :=
  WriteBack.view_tag (l := fs.line) fun clean => ok.copy clean valid

theorem Fatfs.view_clean (clean : fs.wflag = false) : fs.view = fs.drive.sectors :=
  WriteBack.view_of_clean (l := fs.line) clean

theorem reflect_sectors (win : Sector) {i : Nat} :
    ∀ (nf wsect : Nat) (d : Drive), (∀ k, 1 ≤ k → k ≤ nf → i ≠ wsect + k * v.fsize) →
      (reflect faults v win nf wsect d).sectors i = d.sectors i := by
  intro nf
  induction nf with
  | zero => intro _ _ _; rfl
  | succ nf ih =>
    intro wsect d away
    have first : i ≠ wsect + v.fsize := by simpa using away 1 (Nat.le_refl 1) (by omega)
    have write : (diskWrite faults (fun _ => win) (wsect + v.fsize) 1 d).2.sectors i = d.sectors i := by
      cases h : faults d.ops <;> simp [diskWrite, h, Drive.put_one, first]
    rw [reflect, ih, write]
    intro k lo hi
    have := away (k + 1) (by omega) (by omega)
    rw [Nat.succ_mul] at this
    omega

/-- The copies of a sector of the FAT are not in the view. -/
theorem not_copy {i wsect k : Nat} (primary : v.Primary i) (lo : v.fatbase ≤ wsect)
    (hi : wsect < v.fatbase + v.fsize) (one : 1 ≤ k) (copies : k ≤ v.nFats - 1) : i ≠ wsect + k * v.fsize := by
  rintro rfl
  have below : (k + 1) * v.fsize ≤ v.nFats * v.fsize := Nat.mul_le_mul_right _ (by have := v.nFats_range; omega)
  have above : 1 * v.fsize ≤ k * v.fsize := Nat.mul_le_mul_right _ one
  rw [Nat.succ_mul] at below
  rcases primary.2 with h | h <;> omega

theorem writeBack_spec (ok : fs.WindowOk v) {done : Bool} (h : writeBack faults v fs = (done, fs')) :
    Unchanged v fs fs' ∧ (done = true → fs'.wflag = false) ∧ (done = false → faults.Some) := by
  cases hw : fs.wflag with
  | false =>
    obtain ⟨rfl, rfl⟩ : true = done ∧ fs = fs' := by simpa [writeBack, hw] using h
    exact ⟨Unchanged.refl ok, fun _ => hw, by simp⟩
  | true =>
    have valid := ok.dirty hw
    have place : v.Primary fs.winsect := ok.place.resolve_left valid
    cases hf : faults fs.drive.ops with
    | some left =>
      -- The window stays dirty, and hides what has become of its sector.
      obtain ⟨rfl, rfl⟩ :
          false = done ∧ { fs with drive := fs.drive.put fs.winsect 1 left } = fs' := by
        simpa [writeBack, hw, diskWrite, hf] using h
      refine ⟨⟨⟨ok.place, ok.dirty, fun clean => by simp [hw] at clean⟩, fun i _ => ?_, rfl, rfl, rfl⟩,
        by simp, fun _ => Faults.some_of hf⟩
      simp only [Fatfs.view, Drive.put_one]
      exact congrFun (view_update_tag (l := fs.line) hw (left 0)) i
    | none =>
      obtain ⟨rfl, rfl⟩ :
          true = done ∧
            { fs with
              wflag := false
              drive := if fs.winsect < v.fatbase + v.fsize
                then reflect faults v fs.win (v.nFats - 1) fs.winsect (fs.drive.put fs.winsect 1 fun _ => fs.win)
                else fs.drive.put fs.winsect 1 fun _ => fs.win } = fs' := by
        simpa [writeBack, hw, diskWrite, hf] using h
      have written : ∀ i, v.Primary i →
          (if fs.winsect < v.fatbase + v.fsize
            then reflect faults v fs.win (v.nFats - 1) fs.winsect (fs.drive.put fs.winsect 1 fun _ => fs.win)
            else fs.drive.put fs.winsect 1 fun _ => fs.win).sectors i =
          Function.update fs.drive.sectors fs.winsect fs.win i := by
        intro i primary
        split
        · next inFat =>
          rw [reflect_sectors fs.win _ _ _ fun k one copies => not_copy primary place.1 inFat one copies,
            Drive.put_one]
        · rw [Drive.put_one]
      refine ⟨⟨⟨ok.place, by simp, fun _ _ => by simp [written _ place]⟩, fun i primary => ?_, rfl, rfl, rfl⟩,
        fun _ => rfl, by simp⟩
      rw [Fatfs.view_clean rfl, written i primary]
      exact (congrFun (view_writeBack (l := fs.line) hw) i).symm

/-- `move_window`: it succeeds and shows the sector, or an operation of the drive has failed. -/
theorem moveWindow_spec {sector : Nat} {res : FResult} (ok : fs.WindowOk v)
    (place : sector = 0 ∨ v.Primary sector) (h : moveWindow faults v sector fs = (res, fs')) :
    Unchanged v fs fs' ∧
      (res = .diskErr ∧ faults.Some ∨
        res = .ok ∧ (sector = 0 → fs'.wflag = false) ∧
          (sector ≠ 0 → fs'.winsect = sector ∧ fs'.win = fs.view sector)) := by
  by_cases same : fs.winsect = sector
  · obtain ⟨rfl, rfl⟩ : FResult.ok = res ∧ fs = fs' := by simpa [moveWindow, same] using h
    refine ⟨Unchanged.refl ok, .inr ⟨rfl, fun zero => ?_, fun nonzero => ?_⟩⟩
    · cases hw : fs.wflag with
      | false => rfl
      | true => exact absurd (same.trans zero) (ok.dirty hw)
    · exact ⟨same, by rw [← same, ok.view_winsect (same ▸ nonzero)]⟩
  · simp only [moveWindow, same, if_false] at h
    cases hb : writeBack faults v fs with
    | mk done fs1 =>
      obtain ⟨kept, clean, faulty⟩ := writeBack_spec ok hb
      cases done with
      | false =>
        obtain ⟨rfl, rfl⟩ : FResult.diskErr = res ∧ fs1 = fs' := by simpa [hb] using h
        exact ⟨kept, .inl ⟨rfl, faulty rfl⟩⟩
      | true =>
        by_cases zero : sector = 0
        · obtain ⟨rfl, rfl⟩ : FResult.ok = res ∧ fs1 = fs' := by simpa [hb, zero] using h
          exact ⟨kept, .inr ⟨rfl, fun _ => clean rfl, fun nonzero => absurd zero nonzero⟩⟩
        · have primary := place.resolve_left zero
          have seen : fs1.drive.sectors sector = fs.view sector := by
            rw [← kept.view sector primary, Fatfs.view_clean (clean rfl)]
          cases hf : faults fs1.drive.ops with
          | some left =>
            obtain ⟨rfl, rfl⟩ : FResult.diskErr = res ∧
                { fs1 with drive := { fs1.drive with ops := fs1.drive.ops + 1 } } = fs' := by
              simpa [hb, zero, diskRead, hf] using h
            exact ⟨kept.trans ⟨⟨kept.windowOk.place, kept.windowOk.dirty, kept.windowOk.copy⟩,
              fun _ _ => rfl, rfl, rfl, rfl⟩, .inl ⟨rfl, Faults.some_of hf⟩⟩
          | none =>
            obtain ⟨rfl, rfl⟩ : FResult.ok = res ∧
                { fs1 with
                  drive := { fs1.drive with ops := fs1.drive.ops + 1 }
                  win := fs1.drive.sectors sector
                  winsect := sector } = fs' := by
              simpa [hb, zero, diskRead, hf] using h
            refine ⟨kept.trans ⟨⟨.inr primary, fun _ => zero, fun _ _ => rfl⟩, fun i hi => ?_, rfl, rfl, rfl⟩,
              .inr ⟨rfl, fun h => absurd h zero, fun _ => ⟨rfl, seen⟩⟩⟩
            simp [Fatfs.view, Fatfs.line, WriteBack.view, clean rfl]

/-- After a move the window is where it was or where it was to go. -/
theorem moveWindow_winsect {sector : Nat} {res : FResult} (h : moveWindow faults v sector fs = (res, fs')) :
    fs'.winsect = fs.winsect ∨ fs'.winsect = sector := by
  have back : ∀ done fs1, writeBack faults v fs = (done, fs1) → fs1.winsect = fs.winsect := by
    intro done fs1 hb
    unfold writeBack at hb
    split at hb
    · split at hb <;> cases hb <;> rfl
    · cases hb
      rfl
  unfold moveWindow at h
  split at h
  · cases h
    exact .inl rfl
  · cases hb : writeBack faults v fs with
    | mk done fs1 =>
      rw [hb] at h
      have same := back done fs1 hb
      cases done with
      | false =>
        cases h
        exact .inl same
      | true =>
        simp only at h
        split at h
        · cases h
          exact .inl same
        · cases hr : diskRead faults sector fs1.drive with
          | mk got d => cases got <;> simp only [hr] at h <;> cases h <;> simp [same]

/-- The FSInfo sector lies before the FAT. -/
theorem updateInfo_spec (faults : Faults) (ok : fs.WindowOk v) (clean : fs.wflag = false) :
    (updateInfo faults v fs).WindowOk v ∧ (updateInfo faults v fs).wflag = false ∧
      (∀ i, v.fatbase ≤ i → (updateInfo faults v fs).drive.sectors i = fs.drive.sectors i) ∧
      (updateInfo faults v fs).lastClust = fs.lastClust ∧ (updateInfo faults v fs).freeClust = fs.freeClust := by
  unfold updateInfo
  split
  · refine ⟨⟨.inl rfl, fun dirty => absurd (clean.symm.trans dirty) (by simp), fun _ valid => absurd rfl valid⟩,
      clean, fun i behind => ?_, rfl, rfl⟩
    have other : i ≠ v.fsiSector := by have := v.fsi_before; omega
    cases hf : faults fs.drive.ops <;> simp [diskWrite, hf, Drive.put_one, other]
  · exact ⟨ok, clean, fun _ _ => rfl, rfl, rfl⟩

/-- `sync`: it succeeds and the drive holds the view, or an operation of the drive has failed. -/
theorem sync_spec {res : FResult} (ok : fs.WindowOk v) (h : sync faults v fs = (res, fs')) :
    fs'.WindowOk v ∧ (∀ i, v.Primary i → fs'.view i = fs.view i) ∧ fs'.lastClust = fs.lastClust ∧
      fs'.freeClust = fs.freeClust ∧ (res = .diskErr ∧ faults.Some ∨ res = .ok ∧ fs'.wflag = false) := by
  cases hm : moveWindow faults v 0 fs with
  | mk res1 fs1 =>
    obtain ⟨kept, ⟨rfl, faulty⟩ | ⟨rfl, clean, -⟩⟩ := moveWindow_spec ok (.inl rfl) hm
    · obtain ⟨rfl, rfl⟩ : FResult.diskErr = res ∧ fs1 = fs' := by simpa [sync, hm] using h
      exact ⟨kept.windowOk, kept.view, kept.lastClust, kept.freeClust, .inl ⟨rfl, faulty⟩⟩
    · have clean := clean rfl
      obtain ⟨ok2, clean2, same, last, free⟩ := updateInfo_spec faults kept.windowOk clean
      have after : fs' = { updateInfo faults v fs1 with
          drive := { (updateInfo faults v fs1).drive with ops := (updateInfo faults v fs1).drive.ops + 1 } } ∧
          (res = .diskErr ∧ faults.Some ∨ res = .ok) := by
        simp only [sync, hm, diskSync] at h
        cases hf : faults (updateInfo faults v fs1).drive.ops with
        | none => simp [hf] at h; simp [← h.1, ← h.2]
        | some left => simp [hf] at h; exact ⟨h.2.symm, .inl ⟨h.1.symm, Faults.some_of hf⟩⟩
      obtain ⟨rfl, result⟩ := after
      refine ⟨⟨ok2.place, ok2.dirty, ok2.copy⟩, fun i primary => ?_, last.trans kept.lastClust,
        free.trans kept.freeClust, result.imp_right fun ok => ⟨ok, clean2⟩⟩
      change (updateInfo faults v fs1).view i = fs.view i
      rw [Fatfs.view_clean clean2, ← kept.view i primary, Fatfs.view_clean clean]
      exact same i primary.1

/-- On a drive without faults a move succeeds. -/
theorem moveWindow_healthy (healthy : ∀ k, faults k = none) (v : Volume) (sector : Nat) (fs : Fatfs) :
    (moveWindow faults v sector fs).1 = .ok := by
  have write : (writeBack faults v fs).1 = true := by
    cases hw : fs.wflag <;> simp [writeBack, hw, diskWrite, healthy]
  by_cases same : fs.winsect = sector
  · simp [moveWindow, same]
  · cases hb : writeBack faults v fs with
    | mk done fs1 =>
      obtain rfl : done = true := by simpa [hb] using write
      rw [moveWindow, if_neg same, hb]
      by_cases zero : sector = 0 <;> simp [zero, diskRead, healthy]

end

end Cineraria.Fat
