import Cineraria.Fat.Window

/-!
# Runs of the sector window

What the functions above the window do to it: they move it, store bytes into it after a move, and
synchronise it. The volume behind the window is an array of sectors, whatever the drive does.
-/

namespace Cineraria.Fat

open Run

/-- An access to the window. -/
inductive Access where
  | move (sector : Nat)
  | store (k : Fin 512) (b : BitVec 8)
  | sync

/-- The file system object, and the array of sectors it stands for. -/
structure Shadowed where
  fs : Fatfs
  plain : Nat → Sector

section
variable (faults : Faults) (v : Volume)

/-- One access. A byte that is stored marks the window as dirty. -/
def access : Access → Shadowed → Shadowed
  | .move sector, x => { x with fs := (moveWindow faults v sector x.fs).2 }
  | .store k b, x =>
      { fs := { x.fs with win := Function.update x.fs.win k b, wflag := true }
        plain := Function.update x.plain x.fs.winsect (Function.update (x.plain x.fs.winsect) k b) }
  | .sync, x => { x with fs := (sync faults v x.fs).2 }

/-- The window is moved to sectors of the volume, and a byte is stored in a window that shows one. -/
def Access.Proper : Access → Shadowed → Prop
  | .move sector, _ => sector = 0 ∨ v.Primary sector
  | .store _ _, x => x.fs.winsect ≠ 0
  | .sync, _ => True

/-- The window and the drive stand for the array. -/
structure Shadowed.Ok (x : Shadowed) : Prop where
  windowOk : x.fs.WindowOk v
  view : ∀ i, v.Primary i → x.fs.view i = x.plain i

/-- Every copy of the FAT on the drive is the first one. -/
def Mirrored (sectors : Nat → Sector) : Prop :=
  ∀ k < v.nFats, ∀ i < v.fsize, sectors (v.fatbase + k * v.fsize + i) = sectors (v.fatbase + i)

end

section
variable {faults : Faults} {v : Volume} {x : Shadowed}

/-- Bytes put into the window. -/
theorem Fatfs.view_store (fs : Fatfs) (win : Sector) :
    ({ fs with win := win, wflag := true } : Fatfs).view = Function.update fs.view fs.winsect win :=
  WriteBack.view_modify fs.drive.sectors fs.line win

theorem Fatfs.WindowOk.store {fs : Fatfs} (ok : fs.WindowOk v) (valid : fs.winsect ≠ 0) (win : Sector) :
    ({ fs with win := win, wflag := true } : Fatfs).WindowOk v :=
  ⟨ok.place, fun _ => valid, by simp⟩

theorem access_ok (ok : x.Ok v) (e : Access) (proper : e.Proper v x) : (access faults v e x).Ok v := by
  cases e with
  | move sector =>
    obtain ⟨kept, -⟩ := moveWindow_spec ok.windowOk proper (Prod.eta (moveWindow faults v sector x.fs)).symm
    exact ⟨kept.windowOk, fun i primary => (kept.view i primary).trans (ok.view i primary)⟩
  | store k b =>
    have shown : x.plain x.fs.winsect = x.fs.win := by
      rw [← ok.view _ (ok.windowOk.place.resolve_left proper), ok.windowOk.view_winsect proper]
    refine ⟨ok.windowOk.store proper _, fun i primary => ?_⟩
    simp only [access]
    rw [Fatfs.view_store, shown]
    by_cases h : i = x.fs.winsect
    · subst h; simp
    · simp [h, ok.view i primary]
  | sync =>
    obtain ⟨windowOk, view, -⟩ := sync_spec ok.windowOk (Prod.eta (sync faults v x.fs)).symm
    exact ⟨windowOk, fun i primary => (view i primary).trans (ok.view i primary)⟩

/-- The window is transparent: in every state of a run, whichever operations of the drive have failed, a
move that succeeds shows the sector of the array, and once `sync` succeeds the drive holds the array. -/
theorem window_transparent (ok : x.Ok v) {es : List Access}
    (proper : EveryStep (access faults v) (Access.Proper v) x es) :
    EveryState (access faults v)
      (fun s =>
        (∀ sector fs', v.Primary sector → moveWindow faults v sector s.fs = (.ok, fs') →
          fs'.winsect = sector ∧ fs'.win = s.plain sector) ∧
        ∀ fs', sync faults v s.fs = (.ok, fs') → ∀ i, v.Primary i → fs'.drive.sectors i = s.plain i)
      x es := by
  refine everyState_of_everyStep (fun e s (ok : s.Ok v) proper => access_ok ok e proper) (fun s ok => ?_) ok proper
  refine ⟨fun sector fs' primary moved => ?_, fun fs' synced i primary => ?_⟩
  · obtain ⟨-, ⟨⟨⟩, -⟩ | ⟨-, -, shown⟩⟩ := moveWindow_spec ok.windowOk (.inr primary) moved
    rw [← ok.view sector primary]
    exact shown primary.pos
  · obtain ⟨-, view, -, -, ⟨⟨⟩, -⟩ | ⟨-, clean⟩⟩ := sync_spec ok.windowOk synced
    rw [← ok.view i primary, ← view i primary, Fatfs.view_clean clean]

/-- The drive fails once, while a sector is written back. -/
theorem window_transparent_once :
    EveryState (access (fun k => if k = 1 then some fun _ _ => 0xFF else none) tiny)
      (fun s =>
        (∀ sector fs', tiny.Primary sector →
          moveWindow (fun k => if k = 1 then some fun _ _ => 0xFF else none) tiny sector s.fs = (.ok, fs') →
            fs'.winsect = sector ∧ fs'.win = s.plain sector) ∧
        ∀ fs', sync (fun k => if k = 1 then some fun _ _ => 0xFF else none) tiny s.fs = (.ok, fs') →
          ∀ i, tiny.Primary i → fs'.drive.sectors i = s.plain i)
      ⟨blank, fun _ _ => 0⟩ [.move 4, .store 7 0x2A, .move 5, .sync] :=
  window_transparent ⟨blank_windowOk, fun i _ => by rw [Fatfs.view_clean rfl]; rfl⟩
    ⟨.inr (by unfold Volume.Primary; decide), (by decide : (4 : Nat) ≠ 0), .inr (by unfold Volume.Primary; decide), trivial, trivial⟩

/-! ## The copies of the FAT -/

theorem Volume.fsize_pos (v : Volume) : 0 < v.fsize := by
  have fits := v.fat_fits
  have entries := v.nFatent_gt
  by_contra none
  have : v.fsType.stride * v.nFatent = 0 := by rw [show v.fsize = 0 by omega] at fits; omega
  cases h : v.fsType <;> simp [h, FsType.stride] at this <;> omega

/-- Writing a sector that is not in the FAT or one of its copies. -/
theorem Mirrored.update {sectors : Nat → Sector} (m : Mirrored v sectors) {i : Nat} (win : Sector)
    (away : i < v.fatbase ∨ v.fatbase + v.nFats * v.fsize ≤ i) : Mirrored v (Function.update sectors i win) := by
  intro k hk j hj
  have inFat : (k + 1) * v.fsize ≤ v.nFats * v.fsize := Nat.mul_le_mul_right _ hk
  have first : 1 * v.fsize ≤ v.nFats * v.fsize := Nat.mul_le_mul_right _ (by omega)
  rw [Nat.succ_mul] at inFat
  rw [Function.update_of_ne (by omega), Function.update_of_ne (by omega)]
  exact m k hk j hj

/-- Writing a sector of the FAT and of its copy. -/
theorem writeBack_mirrored (healthy : ∀ k, faults k = none) {fs : Fatfs} (ok : fs.WindowOk v)
    (m : Mirrored v fs.drive.sectors) : Mirrored v (writeBack faults v fs).2.drive.sectors := by
  cases hw : fs.wflag with
  | false => simpa [writeBack, hw] using m
  | true =>
    have place : v.Primary fs.winsect := ok.place.resolve_left (ok.dirty hw)
    simp only [writeBack, hw, if_true, diskWrite, healthy]
    by_cases inFat : fs.winsect < v.fatbase + v.fsize
    · rcases v.nFats_range with one | two
      · intro k hk i _
        obtain rfl : k = 0 := by omega
        simp
      · simp only [inFat, if_true, two, reflect, diskWrite, healthy, Drive.put_one]
        intro k hk i hi
        have lower := place.1
        obtain rfl | rfl : k = 0 ∨ k = 1 := by omega
        · simp
        · have old := m 1 (by omega) i hi
          by_cases here : v.fatbase + i = fs.winsect
          · have there : v.fatbase + 1 * v.fsize + i = fs.winsect + v.fsize := by omega
            have apart : fs.winsect ≠ fs.winsect + v.fsize := by have := v.fsize_pos; omega
            rw [there, here, Function.update_self, Function.update_of_ne apart, Function.update_self]
          · rw [Function.update_of_ne (by omega), Function.update_of_ne (by omega),
              Function.update_of_ne (by omega), Function.update_of_ne here]
            exact old
    · simp only [inFat, if_false, Drive.put_one]
      exact m.update _ (.inr (place.2.resolve_left inFat))

theorem moveWindow_mirrored (healthy : ∀ k, faults k = none) {fs : Fatfs} (ok : fs.WindowOk v)
    (m : Mirrored v fs.drive.sectors) (sector : Nat) :
    Mirrored v (moveWindow faults v sector fs).2.drive.sectors := by
  have written := writeBack_mirrored healthy ok m
  by_cases same : fs.winsect = sector
  · simpa [moveWindow, same] using m
  · rw [moveWindow, if_neg same]
    cases hb : writeBack faults v fs with
    | mk done fs1 =>
      rw [hb] at written
      cases done with
      | false => exact written
      | true => by_cases zero : sector = 0 <;> simpa [zero, diskRead, healthy] using written

theorem sync_mirrored (healthy : ∀ k, faults k = none) {fs : Fatfs} (ok : fs.WindowOk v)
    (m : Mirrored v fs.drive.sectors) : Mirrored v (sync faults v fs).2.drive.sectors := by
  have moved := moveWindow_mirrored healthy ok m 0
  have succeeded := moveWindow_healthy healthy v 0 fs
  cases hm : moveWindow faults v 0 fs with
  | mk res fs1 =>
    obtain rfl : res = .ok := by simpa [hm] using succeeded
    have info : Mirrored v (updateInfo faults v fs1).drive.sectors := by
      rw [hm] at moved
      unfold updateInfo
      split
      · simp only [diskWrite, healthy, Drive.put_one]
        exact moved.update _ (.inl v.fsi_before)
      · exact moved
    simpa [sync, hm, diskSync, healthy] using info

theorem access_mirrored (healthy : ∀ k, faults k = none) (ok : x.Ok v) (m : Mirrored v x.fs.drive.sectors)
    (e : Access) : Mirrored v (access faults v e x).fs.drive.sectors := by
  cases e with
  | move sector => exact moveWindow_mirrored healthy ok.windowOk m sector
  | store k b => exact m
  | sync => exact sync_mirrored healthy ok.windowOk m

theorem sync_copies (healthy : ∀ k, faults k = none) (ok : x.Ok v) (m : Mirrored v x.fs.drive.sectors) :
    ∀ k < v.nFats, ∀ i < v.fsize,
      (sync faults v x.fs).2.drive.sectors (v.fatbase + k * v.fsize + i) = x.plain (v.fatbase + i) := by
  intro k hk i hi
  have primary : v.Primary (v.fatbase + i) := ⟨by omega, .inl (by omega)⟩
  have mirrored := sync_mirrored healthy ok.windowOk m k hk i hi
  cases hs : sync faults v x.fs with
  | mk res fs1 =>
    rw [hs] at mirrored
    obtain ⟨-, view, -, -, ⟨-, faulty⟩ | ⟨-, clean⟩⟩ := sync_spec ok.windowOk hs
    · exact absurd faulty (Faults.not_some healthy)
    · rw [mirrored, ← ok.view _ primary, ← view _ primary, Fatfs.view_clean clean]

/-- On a drive without faults the copies of the FAT stay equal, if they are so at the start, and they are the FAT of
the array as soon as `sync` is through, in every state of a run. -/
theorem copies_mirrored (healthy : ∀ k, faults k = none) (ok : x.Ok v) (m : Mirrored v x.fs.drive.sectors)
    {es : List Access} (proper : EveryStep (access faults v) (Access.Proper v) x es) :
    EveryState (access faults v)
      (fun s => Mirrored v s.fs.drive.sectors ∧ ∀ k < v.nFats, ∀ i < v.fsize,
        (sync faults v s.fs).2.drive.sectors (v.fatbase + k * v.fsize + i) = s.plain (v.fatbase + i))
      x es :=
  everyState_of_everyStep
    (fun e s (inv : s.Ok v ∧ Mirrored v s.fs.drive.sectors) proper =>
      ⟨access_ok inv.1 e proper, access_mirrored healthy inv.1 inv.2 e⟩)
    (fun _ inv => ⟨inv.2, sync_copies healthy inv.1 inv.2⟩) ⟨ok, m⟩ proper

theorem copies_mirrored_tiny :
    EveryState (access (fun _ => none) tiny)
      (fun s => Mirrored tiny s.fs.drive.sectors ∧ ∀ k < 2, ∀ i < 1,
        (sync (fun _ => none) tiny s.fs).2.drive.sectors (1 + k * 1 + i) = s.plain (1 + i))
      ⟨blank, fun _ _ => 0⟩ [.store 3 0xFF, .move 4, .sync] :=
  copies_mirrored (fun _ => rfl) ⟨blank_windowOk, fun i _ => by rw [Fatfs.view_clean rfl]; rfl⟩ (fun _ _ _ _ => rfl)
    ⟨(by decide : (1 : Nat) ≠ 0), .inr (by unfold Volume.Primary; decide), trivial, trivial⟩

end

end Cineraria.Fat
