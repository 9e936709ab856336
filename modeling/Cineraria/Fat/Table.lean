import Cineraria.Lib.BitField
import Cineraria.Fat.WindowRuns

/-!
# The entries of the FAT

`get_fat` and `put_fat` of `fatfs/ff.c`. On the disk the FAT is a stream of bits, 12, 16 or 32 of them
for an entry; in FAT12 an entry lies across two bytes, and now and then across two sectors.
-/

namespace Cineraria.Fat

open BitField

section
variable (faults : Faults) (v : Volume)

/-- The bytes of the FAT. -/
def fatBytes (view : Nat → Sector) (k : Nat) : BitVec 8 :=
  if k < 512 * v.fsize then view (v.fatbase + k / 512) (ofs k) else 0

/-- The table of the links. -/
def table (view : Nat → Sector) (clst : Nat) : Nat :=
  entry (fatBytes v view) v.fsType.stride v.fsType.width clst

/-- `get_fat`: `0xFFFFFFFF` for a disk error, 1 for a cluster out of range. -/
def getFat (clst : Nat) (fs : Fatfs) : BitVec 32 × Fatfs :=
  if clst < 2 ∨ v.nFatent ≤ clst then (1, fs)
  else
    match v.fsType with
    | .fat12 =>
        let bc := clst + clst / 2
        match moveWindow faults v (v.fatbase + bc / SS) fs with
        | (.ok, fs) =>
            let low := fs.win (ofs bc)
            match moveWindow faults v (v.fatbase + (bc + 1) / SS) fs with
            | (.ok, fs) =>
                let wc : BitVec 16 := fs.win (ofs (bc + 1)) ++ low
                ((if clst % 2 = 1 then wc >>> 4 else wc &&& 0xFFF).setWidth 32, fs)
            | (_, fs) => (0xFFFFFFFF, fs)
        | (_, fs) => (0xFFFFFFFF, fs)
    | .fat16 =>
        match moveWindow faults v (v.fatbase + clst / (SS / 2)) fs with
        | (.ok, fs) => ((ldWord fs.win (clst * 2)).setWidth 32, fs)
        | (_, fs) => (0xFFFFFFFF, fs)
    | .fat32 =>
        match moveWindow faults v (v.fatbase + clst / (SS / 4)) fs with
        | (.ok, fs) => (ldDword fs.win (clst * 4) &&& 0x0FFFFFFF, fs)
        | (_, fs) => (0xFFFFFFFF, fs)

/-- The window with another byte in it. -/
def Fatfs.setByte (fs : Fatfs) (k : Nat) (b : BitVec 8) : Fatfs :=
  { fs with win := Function.update fs.win (ofs k) b, wflag := true }

/-- `ST_WORD` and `ST_DWORD` into the window. -/
def Fatfs.stWord (fs : Fatfs) (k : Nat) (w : BitVec 16) : Fatfs :=
  (fs.setByte k (w.setWidth 8)).setByte (k + 1) ((w >>> 8).setWidth 8)

def Fatfs.stDword (fs : Fatfs) (k : Nat) (w : BitVec 32) : Fatfs :=
  (fs.stWord k (w.setWidth 16)).stWord (k + 2) ((w >>> 16).setWidth 16)

/-- `put_fat`. The window is marked as dirty also when it could not be moved. -/
def putFat (clst : Nat) (val : BitVec 32) (fs : Fatfs) : FResult × Fatfs :=
  if clst < 2 ∨ v.nFatent ≤ clst then (.intErr, fs)
  else
    match v.fsType with
    | .fat12 =>
        let bc := clst + clst / 2
        match moveWindow faults v (v.fatbase + bc / SS) fs with
        | (.ok, fs) =>
            let old := fs.win (ofs bc)
            let fs := fs.setByte bc
              (if clst % 2 = 1 then (old &&& 0x0F) ||| (val.setWidth 8 <<< 4) else val.setWidth 8)
            match moveWindow faults v (v.fatbase + (bc + 1) / SS) fs with
            | (.ok, fs) =>
                let old := fs.win (ofs (bc + 1))
                (.ok, fs.setByte (bc + 1)
                  (if clst % 2 = 1 then (val >>> 4).setWidth 8
                    else (old &&& 0xF0) ||| ((val >>> 8).setWidth 8 &&& 0x0F)))
            | (res, fs) => (res, { fs with wflag := true })
        | (res, fs) => (res, { fs with wflag := true })
    | .fat16 =>
        match moveWindow faults v (v.fatbase + clst / (SS / 2)) fs with
        | (.ok, fs) => (.ok, fs.stWord (clst * 2) (val.setWidth 16))
        | (res, fs) => (res, { fs with wflag := true })
    | .fat32 =>
        match moveWindow faults v (v.fatbase + clst / (SS / 4)) fs with
        | (.ok, fs) =>
            let val := val ||| (ldDword fs.win (clst * 4) &&& 0xF0000000)
            (.ok, fs.stDword (clst * 4) val)
        | (res, fs) => (res, { fs with wflag := true })

end

/-! ## The FAT in the view -/

section
variable {faults : Faults} {v : Volume} {fs fs' : Fatfs}

/-- The window shows a sector of the FAT. -/
def Fatfs.AtFat (v : Volume) (fs : Fatfs) : Prop := v.fatbase ≤ fs.winsect ∧ fs.winsect < v.fatbase + v.fsize

theorem Fatfs.AtFat.valid (onFat : fs.AtFat v) : fs.winsect ≠ 0 := by
  have := v.fatbase_pos
  have := onFat.1
  omega

/-- The FAT has been read: nothing has changed, and the window has not been moved or shows the FAT. -/
structure FatRead (v : Volume) (fs fs' : Fatfs) : Prop extends Unchanged v fs fs' where
  window : fs'.winsect = fs.winsect ∨ fs'.AtFat v

theorem FatRead.refl (ok : fs.WindowOk v) : FatRead v fs fs := ⟨Unchanged.refl ok, .inl rfl⟩

theorem window_trans {fs'' : Fatfs} (a : fs'.winsect = fs.winsect ∨ fs'.AtFat v)
    (b : fs''.winsect = fs'.winsect ∨ fs''.AtFat v) : fs''.winsect = fs.winsect ∨ fs''.AtFat v := by
  rcases b with same | moved
  · rcases a with same' | onFat
    · exact .inl (same.trans same')
    · exact .inr (by rwa [Fatfs.AtFat, same])
  · exact .inr moved

theorem FatRead.trans {fs'' : Fatfs} (a : FatRead v fs fs') (b : FatRead v fs' fs'') : FatRead v fs fs'' :=
  ⟨a.toUnchanged.trans b.toUnchanged, window_trans a.window b.window⟩

theorem FatRead.atFat (same : FatRead v fs fs') (onFat : fs.AtFat v) : fs'.AtFat v := by
  rcases same.window with stays | moved
  · rwa [Fatfs.AtFat, stays]
  · exact moved

theorem Volume.primary_fat {k : Nat} (within : k < 512 * v.fsize) : v.Primary (v.fatbase + k / 512) :=
  ⟨by omega, .inl (by omega)⟩

theorem Unchanged.fatBytes (same : Unchanged v fs fs') : fatBytes v fs'.view = fatBytes v fs.view := by
  funext k
  simp only [Fat.fatBytes]
  split
  · next within => rw [same.view _ (Volume.primary_fat within)]
  · rfl

/-- The window on the sector of a byte of the FAT. -/
theorem moveWindow_fat {k : Nat} {res : FResult} (ok : fs.WindowOk v) (within : k < 512 * v.fsize)
    (h : moveWindow faults v (v.fatbase + k / SS) fs = (res, fs')) :
    FatRead v fs fs' ∧
      (res = .diskErr ∧ faults.Some ∨
        res = .ok ∧ fs'.winsect = v.fatbase + k / 512 ∧
          ∀ j, j / 512 = k / 512 → fs'.win (ofs j) = fatBytes v fs.view j) := by
  have primary := Volume.primary_fat within
  obtain ⟨same, failed | ⟨done, -, shown⟩⟩ := moveWindow_spec ok (.inr primary) h
  · have window := (moveWindow_winsect h).imp_right fun moved => show fs'.AtFat v by
      rw [Fatfs.AtFat, moved]
      unfold SS
      omega
    exact ⟨⟨same, window⟩, .inl failed⟩
  · obtain ⟨sect, win⟩ := shown primary.pos
    have window : fs'.AtFat v := by
      rw [Fatfs.AtFat, sect]
      omega
    refine ⟨⟨same, .inr window⟩, .inr ⟨done, sect, fun j hj => ?_⟩⟩
    rw [win, fatBytes, if_pos (by omega), hj]

/-- A byte of the FAT stored in the window. -/
theorem fatBytes_setByte {k : Nat} (ok : fs.WindowOk v) (within : k < 512 * v.fsize)
    (here : fs.winsect = v.fatbase + k / 512) (b : BitVec 8) :
    fatBytes v (fs.setByte k b).view = Function.update (fatBytes v fs.view) k b := by
  have valid : fs.winsect ≠ 0 := here ▸ (Volume.primary_fat within).pos
  funext j
  simp only [fatBytes, Fatfs.setByte, Fatfs.view_store]
  by_cases same : j = k
  · subst same
    simp [within, here]
  · rw [Function.update_of_ne same, fatBytes]
    by_cases sector : j / 512 = k / 512
    · rw [sector, ← here, Function.update_self, Function.update_of_ne, ok.view_winsect valid]
      simp only [ne_eq, ofs_inj]
      omega
    · rw [Function.update_of_ne (by omega)]

/-- An entry lies in the FAT. -/
theorem Volume.entry_fits {clst : Nat} (inRange : clst < v.nFatent) :
    v.fsType.stride * clst + v.fsType.stride ≤ 4096 * v.fsize := by
  have fits := v.fat_fits
  have := Nat.mul_le_mul_left v.fsType.stride (show clst + 1 ≤ v.nFatent from inRange)
  rw [Nat.mul_succ] at this
  omega

/-! ## Reading an entry -/

theorem entry12 (mem : Nat → BitVec 8) (clst : Nat) :
    ((if clst % 2 = 1 then (mem (clst + clst / 2 + 1) ++ mem (clst + clst / 2) : BitVec 16) >>> 4
      else (mem (clst + clst / 2 + 1) ++ mem (clst + clst / 2) : BitVec 16) &&& 0xFFF).setWidth 32).toNat =
    entry mem 12 12 clst := by
  rw [append_eq_field]
  have bits : ((if clst % 2 = 1 then field mem (8 * (clst + clst / 2)) 16 >>> 4
      else field mem (8 * (clst + clst / 2)) 16 &&& 0xFFF).setWidth 32) = (field mem (12 * clst) 12).setWidth 32 := by
    apply BitVec.eq_of_getLsbD_eq
    intro j hj
    simp only [BitVec.getLsbD_setWidth, getLsbD_field]
    by_cases odd : clst % 2 = 1
    · rw [if_pos odd, BitVec.getLsbD_ushiftRight, getLsbD_field,
        show 8 * (clst + clst / 2) + (4 + j) = 12 * clst + j by omega]
      simp [show 4 + j < 16 ↔ j < 12 by omega]
    · rw [if_neg odd, BitVec.getLsbD_and, getLsbD_field, show (0xFFF : BitVec 16) = BitVec.ofNat 16 (2 ^ 12 - 1) from rfl,
        getLsbD_mask, show 8 * (clst + clst / 2) = 12 * clst by omega]
      by_cases low : j < 12
      · simp [low, show j < 16 by omega]
      · simp [low]
  rw [bits, entry, BitVec.toNat_setWidth_of_le (by omega)]

theorem entry16 (mem : Nat → BitVec 8) (clst : Nat) :
    ((mem (clst * 2 + 1) ++ mem (clst * 2) : BitVec 16).setWidth 32).toNat = entry mem 16 16 clst := by
  rw [append_eq_field, BitVec.toNat_setWidth_of_le (by omega), entry, show 8 * (clst * 2) = 16 * clst by omega]

theorem dword_eq_field (mem : Nat → BitVec 8) (k : Nat) :
    (mem (k + 2 + 1) ++ mem (k + 2) ++ (mem (k + 1) ++ mem k) : BitVec 32) = field mem (8 * k) 32 := by
  rw [append_eq_field, append_eq_field, show 8 * (k + 2) = 8 * k + 16 by omega]
  exact append_field mem (8 * k) 16 16

theorem entry32 (mem : Nat → BitVec 8) (clst : Nat) :
    (field mem (32 * clst) 32 &&& 0x0FFFFFFF).toNat = entry mem 32 28 clst := by
  have bits : field mem (32 * clst) 32 &&& 0x0FFFFFFF = (field mem (32 * clst) 28).setWidth 32 := by
    apply BitVec.eq_of_getLsbD_eq
    intro j hj
    rw [BitVec.getLsbD_and, getLsbD_field, show (0x0FFFFFFF : BitVec 32) = BitVec.ofNat 32 (2 ^ 28 - 1) from rfl,
      getLsbD_mask, BitVec.getLsbD_setWidth, getLsbD_field]
    by_cases low : j < 28 <;> simp [low, hj]
  rw [bits, BitVec.toNat_setWidth_of_le (by omega), entry]

/-- `get_fat`: a disk error, a cluster out of range, or the link. What is behind the window stays. -/
theorem getFat_spec {clst : Nat} {val : BitVec 32} (ok : fs.WindowOk v)
    (h : getFat faults v clst fs = (val, fs')) :
    FatRead v fs fs' ∧
      (val = 0xFFFFFFFF ∧ faults.Some ∨ val = 1 ∧ (clst < 2 ∨ v.nFatent ≤ clst) ∨
        val.toNat = table v fs.view clst ∧ 2 ≤ clst ∧ clst < v.nFatent ∧ fs'.AtFat v) := by
  by_cases range : clst < 2 ∨ v.nFatent ≤ clst
  · rw [getFat, if_pos range] at h
    obtain ⟨rfl, rfl⟩ := Prod.mk.inj h
    exact ⟨FatRead.refl ok, .inr (.inl ⟨rfl, range⟩)⟩
  have lo : 2 ≤ clst := by omega
  have hi : clst < v.nFatent := by omega
  have fits := Volume.entry_fits hi
  rw [getFat, if_neg range] at h
  cases ht : v.fsType with
  | fat12 =>
    simp only [ht, FsType.stride] at h fits
    cases h1 : moveWindow faults v (v.fatbase + (clst + clst / 2) / SS) fs with
    | mk res1 fs1 =>
      obtain ⟨same1, ⟨rfl, faulty⟩ | ⟨rfl, sect1, byte1⟩⟩ := moveWindow_fat ok (by omega) h1
      · obtain ⟨rfl, rfl⟩ : 0xFFFFFFFF = val ∧ fs1 = fs' := by simpa [h1] using h
        exact ⟨same1, .inl ⟨rfl, faulty⟩⟩
      have atFat : fs1.AtFat v := by rw [Fatfs.AtFat, sect1]; omega
      cases h2 : moveWindow faults v (v.fatbase + (clst + clst / 2 + 1) / SS) fs1 with
      | mk res2 fs2 =>
        obtain ⟨same2, ⟨rfl, faulty⟩ | ⟨rfl, -, byte2⟩⟩ := moveWindow_fat same1.windowOk (by omega) h2
        · obtain ⟨rfl, rfl⟩ : 0xFFFFFFFF = val ∧ fs2 = fs' := by simpa [h1, h2] using h
          exact ⟨same1.trans same2, .inl ⟨rfl, faulty⟩⟩
        simp only [h1, h2, byte1 _ rfl, byte2 _ rfl, same1.fatBytes, Prod.mk.injEq] at h
        obtain ⟨rfl, rfl⟩ := h
        refine ⟨same1.trans same2, .inr (.inr ⟨?_, lo, hi, same2.atFat atFat⟩)⟩
        rw [table, ht]
        exact entry12 _ clst
  | fat16 =>
    simp only [ht, FsType.stride] at h fits
    cases h1 : moveWindow faults v (v.fatbase + clst / (SS / 2)) fs with
    | mk res1 fs1 =>
      have sector : clst / (SS / 2) = clst * 2 / SS := by simp only [SS]; omega
      rw [sector] at h h1
      obtain ⟨same1, ⟨rfl, faulty⟩ | ⟨rfl, sect1, byte1⟩⟩ := moveWindow_fat ok (by omega) h1
      · obtain ⟨rfl, rfl⟩ : 0xFFFFFFFF = val ∧ fs1 = fs' := by simpa [h1] using h
        exact ⟨same1, .inl ⟨rfl, faulty⟩⟩
      have atFat : fs1.AtFat v := by rw [Fatfs.AtFat, sect1]; omega
      simp only [h1, ldWord, byte1 _ rfl, byte1 (clst * 2 + 1) (by omega), Prod.mk.injEq] at h
      obtain ⟨rfl, rfl⟩ := h
      refine ⟨same1, .inr (.inr ⟨?_, lo, hi, atFat⟩)⟩
      rw [table, ht]
      exact entry16 _ clst
  | fat32 =>
    simp only [ht, FsType.stride] at h fits
    cases h1 : moveWindow faults v (v.fatbase + clst / (SS / 4)) fs with
    | mk res1 fs1 =>
      have sector : clst / (SS / 4) = clst * 4 / SS := by simp only [SS]; omega
      rw [sector] at h h1
      obtain ⟨same1, ⟨rfl, faulty⟩ | ⟨rfl, sect1, byte1⟩⟩ := moveWindow_fat ok (by omega) h1
      · obtain ⟨rfl, rfl⟩ : 0xFFFFFFFF = val ∧ fs1 = fs' := by simpa [h1] using h
        exact ⟨same1, .inl ⟨rfl, faulty⟩⟩
      have atFat : fs1.AtFat v := by rw [Fatfs.AtFat, sect1]; omega
      simp only [h1, ldDword, ldWord, byte1 _ rfl, byte1 (clst * 4 + 1) (by omega),
        byte1 (clst * 4 + 2) (by omega), byte1 (clst * 4 + 2 + 1) (by omega), dword_eq_field, Prod.mk.injEq] at h
      obtain ⟨rfl, rfl⟩ := h
      refine ⟨same1, .inr (.inr ⟨?_, lo, hi, atFat⟩)⟩
      rw [table, ht, show 8 * (clst * 4) = 32 * clst by omega]
      exact entry32 _ clst

/-! ## Writing an entry -/

/-- FAT12, the first byte: of an odd entry the low half byte lies in it, of an even one the low byte. -/
theorem put12_low (mem : Nat → BitVec 8) {clst : Nat} (val : BitVec 32) (odd : clst % 2 = 1) :
    Put mem (Function.update mem (clst + clst / 2)
      ((mem (clst + clst / 2) &&& 0x0F) ||| (val.setWidth 8 <<< 4))) (12 * clst) (val.setWidth 4) := by
  have mask : ∀ j (h : j < 8), (0x0F#8)[j] = decide (j < 4) := by decide
  rw [show 12 * clst = 8 * (clst + clst / 2) + 4 by omega]
  refine put_byte (by omega) fun j hj => ?_
  by_cases mine : 4 ≤ j
  · simp [mask, hj, mine, show ¬j < 4 by omega, show j - 4 < 4 by omega]
  · simp [mask, hj, mine, show j < 4 by omega]

theorem put12_low_even (mem : Nat → BitVec 8) {clst : Nat} (val : BitVec 32) (even : ¬clst % 2 = 1) :
    Put mem (Function.update mem (clst + clst / 2) (val.setWidth 8)) (12 * clst) (val.setWidth 8) := by
  rw [show 12 * clst = 8 * (clst + clst / 2) by omega]
  exact put_byte_whole mem _ _

/-- The second byte holds the rest. -/
theorem put12_high (mem : Nat → BitVec 8) {clst : Nat} (val : BitVec 32) (odd : clst % 2 = 1) :
    Put mem (Function.update mem (clst + clst / 2 + 1) ((val >>> 4).setWidth 8)) (12 * clst + 4)
      ((val >>> 4).setWidth 8) := by
  rw [show 12 * clst + 4 = 8 * (clst + clst / 2 + 1) by omega]
  exact put_byte_whole mem _ _

theorem put12_high_even (mem : Nat → BitVec 8) {clst : Nat} (val : BitVec 32) (even : ¬clst % 2 = 1) :
    Put mem (Function.update mem (clst + clst / 2 + 1)
      ((mem (clst + clst / 2 + 1) &&& 0xF0) ||| ((val >>> 8).setWidth 8 &&& 0x0F))) (12 * clst + 8)
      ((val >>> 8).setWidth 4) := by
  have low : ∀ j (h : j < 8), (0x0F#8)[j] = decide (j < 4) := by decide
  have high : ∀ j (h : j < 8), (0xF0#8)[j] = decide (4 ≤ j) := by decide
  rw [show 12 * clst + 8 = 8 * (clst + clst / 2 + 1) + 0 by omega]
  refine put_byte (by omega) fun j hj => ?_
  by_cases mine : j < 4
  · simp [low, high, hj, mine, show ¬4 ≤ j by omega]
  · simp [low, high, hj, mine, show 4 ≤ j by omega]

theorem put12 (mem : Nat → BitVec 8) (clst : Nat) (val : BitVec 32) :
    Put mem
      (Function.update
        (Function.update mem (clst + clst / 2)
          (if clst % 2 = 1 then (mem (clst + clst / 2) &&& 0x0F) ||| (val.setWidth 8 <<< 4) else val.setWidth 8))
        (clst + clst / 2 + 1)
        (if clst % 2 = 1 then (val >>> 4).setWidth 8
          else (mem (clst + clst / 2 + 1) &&& 0xF0) ||| ((val >>> 8).setWidth 8 &&& 0x0F)))
      (12 * clst) (val.setWidth 12) := by
  by_cases odd : clst % 2 = 1
  · simp only [odd, if_true]
    have both := (put12_low mem val odd).append (put12_high _ val odd)
    rwa [setWidth_split] at both
  · simp only [odd, if_false]
    have high := put12_high_even (Function.update mem (clst + clst / 2) (val.setWidth 8)) val odd
    rw [Function.update_of_ne (by omega)] at high
    have both := (put12_low_even mem val odd).append high
    rwa [setWidth_split] at both

/-- The first byte alone touches no other entry. -/
theorem entry12_low (mem : Nat → BitVec 8) {clst d : Nat} (val : BitVec 32) (ne : d ≠ clst) :
    entry (Function.update mem (clst + clst / 2)
      (if clst % 2 = 1 then (mem (clst + clst / 2) &&& 0x0F) ||| (val.setWidth 8 <<< 4) else val.setWidth 8))
      12 12 d = entry mem 12 12 d := by
  by_cases odd : clst % 2 = 1
  · simp only [odd, if_true, entry]
    rw [(put12_low mem val odd).field_apart (by omega)]
  · simp only [odd, if_false, entry]
    rw [(put12_low_even mem val odd).field_apart (by omega)]

theorem put16 (mem : Nat → BitVec 8) (k : Nat) (val : BitVec 16) :
    Put mem (Function.update (Function.update mem k (val.setWidth 8)) (k + 1) ((val >>> 8).setWidth 8)) (8 * k)
      val := by
  have both := (put_byte_whole mem k (val.setWidth 8)).append (put_byte_whole _ (k + 1) ((val >>> 8).setWidth 8))
  rwa [setWidth_split, BitVec.setWidth_eq] at both

theorem put32 (mem : Nat → BitVec 8) (k : Nat) (val : BitVec 32) :
    Put mem
      (Function.update
        (Function.update
          (Function.update (Function.update mem k ((val.setWidth 16).setWidth 8)) (k + 1)
            ((val.setWidth 16 >>> 8).setWidth 8))
          (k + 2) (((val >>> 16).setWidth 16).setWidth 8))
        (k + 2 + 1) (((val >>> 16).setWidth 16 >>> 8).setWidth 8))
      (8 * k) val := by
  have both := (put16 mem k (val.setWidth 16)).append (put16 _ (k + 2) ((val >>> 16).setWidth 16))
  rwa [setWidth_split, BitVec.setWidth_eq] at both

/-- What `put_fat` stores over an entry: the bits of the value, and in FAT32 the four high bits that were there
besides. -/
def FsType.stored (t : FsType) (old val : BitVec 32) : BitVec t.stride :=
  (if t = .fat32 then val ||| (old &&& 0xF0000000) else val).setWidth t.stride

/-- The bits of an entry are those of the value. -/
theorem FsType.stored_bit (t : FsType) (old val : BitVec 32) {j : Nat} (hj : j < t.width) :
    (t.stored old val).getLsbD j = val.getLsbD j := by
  have mask : ∀ j, (0xF0000000 : BitVec 32).getLsbD j = (decide (j < 32) && !decide (j < 28)) := by
    intro j
    rw [show (0xF0000000 : BitVec 32) = ~~~BitVec.ofNat 32 (2 ^ 28 - 1) from rfl, BitVec.getLsbD_not, getLsbD_mask]
    cases decide (j < 32) <;> simp
  have inside : j < t.stride := by
    cases t <;> simp only [FsType.width, FsType.stride] at hj ⊢ <;> omega
  rw [FsType.stored, BitVec.getLsbD_setWidth, decide_eq_true inside, Bool.true_and]
  split
  · next is =>
    subst is
    have low : j < 28 := hj
    rw [BitVec.getLsbD_or, BitVec.getLsbD_and, mask]
    simp [low]
  · rfl

theorem FsType.stored_low (t : FsType) (old val : BitVec 32) :
    ((t.stored old val).setWidth t.width).toNat = val.toNat % 2 ^ t.width := by
  rw [← BitVec.toNat_setWidth]
  refine congrArg BitVec.toNat (BitVec.eq_of_getLsbD_eq fun j hj => ?_)
  rw [BitVec.getLsbD_setWidth, BitVec.getLsbD_setWidth, t.stored_bit old val hj]

/-- The bits of FAT32 that are in no entry. -/
theorem FsType.stored_high (t : FsType) (old val : BitVec 32) {j : Nat} (above : t.width ≤ j) (inside : j < t.stride) :
    (t.stored old val).getLsbD j = (val.getLsbD j || old.getLsbD j) := by
  have mask : ∀ j < 32, 28 ≤ j → (0xF0000000 : BitVec 32).getLsbD j = true := by decide
  cases t with
  | fat12 => exact absurd inside (Nat.not_lt.mpr above)
  | fat16 => exact absurd inside (Nat.not_lt.mpr above)
  | fat32 =>
    rw [FsType.stored, if_pos rfl, BitVec.getLsbD_setWidth, decide_eq_true inside, Bool.true_and, BitVec.getLsbD_or,
      BitVec.getLsbD_and, mask j inside above, Bool.and_true]

/-- Only the FAT has changed in the view, and the window shows a sector of it. -/
structure FatChanged (v : Volume) (fs fs' : Fatfs) : Prop where
  windowOk : fs'.WindowOk v
  atFat : fs'.AtFat v
  outside : ∀ i, v.Primary i → v.fatbase + v.fsize ≤ i → fs'.view i = fs.view i
  lastClust : fs'.lastClust = fs.lastClust
  freeClust : fs'.freeClust = fs.freeClust
  fsiFlag : fs'.fsiFlag = fs.fsiFlag

theorem Unchanged.fatChanged (same : Unchanged v fs fs') (onFat : fs'.AtFat v) : FatChanged v fs fs' :=
  ⟨same.windowOk, onFat, fun i primary _ => same.view i primary, same.lastClust, same.freeClust, same.fsiFlag⟩

theorem FatChanged.trans {fs'' : Fatfs} (a : FatChanged v fs fs') (b : FatChanged v fs' fs'') : FatChanged v fs fs'' :=
  ⟨b.windowOk, b.atFat, fun i primary far => (b.outside i primary far).trans (a.outside i primary far),
    b.lastClust.trans a.lastClust, b.freeClust.trans a.freeClust, b.fsiFlag.trans a.fsiFlag⟩

/-- A window that shows a sector may be marked as dirty. -/
theorem Unchanged.markDirty (same : Unchanged v fs fs') (valid : fs'.winsect ≠ 0) :
    Unchanged v fs { fs' with wflag := true } := by
  refine same.trans ⟨same.windowOk.store valid fs'.win, fun i _ => ?_, rfl, rfl, rfl⟩
  have shown := Fatfs.view_store fs' fs'.win
  rw [← same.windowOk.view_winsect valid, Function.update_eq_self] at shown
  exact congrFun (by simpa [same.windowOk.view_winsect valid] using shown) i

theorem setByte_spec {k : Nat} (ok : fs.WindowOk v) (within : k < 512 * v.fsize)
    (here : fs.winsect = v.fatbase + k / 512) (b : BitVec 8) :
    FatChanged v fs (fs.setByte k b) ∧
      fatBytes v (fs.setByte k b).view = Function.update (fatBytes v fs.view) k b := by
  have valid : fs.winsect ≠ 0 := here ▸ (Volume.primary_fat within).pos
  have atFat : (fs.setByte k b).AtFat v := by
    change v.fatbase ≤ fs.winsect ∧ fs.winsect < v.fatbase + v.fsize
    omega
  refine ⟨⟨ok.store valid _, atFat, fun i _ far => ?_, rfl, rfl, rfl⟩, fatBytes_setByte ok within here b⟩
  rw [Fatfs.setByte, Fatfs.view_store, Function.update_of_ne (by omega)]

/-- Two bytes in one sector. -/
theorem stWord_spec {k : Nat} (ok : fs.WindowOk v) (within : k + 1 < 512 * v.fsize)
    (here : fs.winsect = v.fatbase + k / 512) (sector : (k + 1) / 512 = k / 512) (w : BitVec 16) :
    FatChanged v fs (fs.stWord k w) ∧
      fatBytes v (fs.stWord k w).view =
        Function.update (Function.update (fatBytes v fs.view) k (w.setWidth 8)) (k + 1) ((w >>> 8).setWidth 8) := by
  obtain ⟨first, mem1⟩ := setByte_spec ok (show k < 512 * v.fsize by omega) here (w.setWidth 8)
  obtain ⟨second, mem2⟩ := setByte_spec first.windowOk within (here.trans (by rw [sector])) ((w >>> 8).setWidth 8)
  exact ⟨first.trans second, by rw [Fatfs.stWord, mem2, mem1]⟩

/-- What `put_fat` comes to: the entry is written; or an operation of the drive has failed, and then only
the entry may have changed, and in FAT16 and FAT32 not even that; or the cluster is out of range. -/
inductive PutFat (faults : Faults) (v : Volume) (clst : Nat) (val : BitVec 32) (fs fs' : Fatfs) : FResult → Prop
  | done (range : 2 ≤ clst ∧ clst < v.nFatent)
      (put : Put (fatBytes v fs.view) (fatBytes v fs'.view) (v.fsType.stride * clst)
        (v.fsType.stored (field (fatBytes v fs.view) (v.fsType.stride * clst) 32) val)) :
      PutFat faults v clst val fs fs' .ok
  | failed (faulty : faults.Some) (others : ∀ d ≠ clst, table v fs'.view d = table v fs.view d)
      (whole : v.fsType ≠ .fat12 → fatBytes v fs'.view = fatBytes v fs.view) :
      PutFat faults v clst val fs fs' .diskErr
  | range (out : clst < 2 ∨ v.nFatent ≤ clst) (same : fatBytes v fs'.view = fatBytes v fs.view) :
      PutFat faults v clst val fs fs' .intErr

theorem FsType.width_le_stride (t : FsType) : t.width ≤ t.stride := by
  cases t <;> decide

/-- A window that could not be moved. -/
theorem PutFat.stuck {clst : Nat} {val : BitVec 32} (same : Unchanged v fs fs') (faulty : faults.Some) :
    PutFat faults v clst val fs fs' .diskErr :=
  .failed faulty (fun d _ => by simp only [table, same.fatBytes]) fun _ => same.fatBytes

section
variable {clst : Nat} {val : BitVec 32} {res : FResult}

theorem putFat12_spec (ok : fs.WindowOk v) (onFat : res = .ok ∨ fs.AtFat v) (ht : v.fsType = .fat12)
    (range : 2 ≤ clst ∧ clst < v.nFatent) (h : putFat faults v clst val fs = (res, fs')) :
    FatChanged v fs fs' ∧ PutFat faults v clst val fs fs' res := by
  have fits := Volume.entry_fits range.2
  rw [putFat, if_neg (by omega)] at h
  simp only [ht, FsType.stride] at h fits
  cases h1 : moveWindow faults v (v.fatbase + (clst + clst / 2) / SS) fs with
  | mk res1 fs1 =>
    obtain ⟨same1, ⟨rfl, faulty⟩ | ⟨rfl, sect1, byte1⟩⟩ := moveWindow_fat ok (by omega) h1
    · obtain ⟨rfl, rfl⟩ : FResult.diskErr = res ∧ { fs1 with wflag := true } = fs' := by simpa [h1] using h
      have onFat := same1.atFat (onFat.resolve_left (by simp))
      have dirty := same1.markDirty onFat.valid
      exact ⟨dirty.fatChanged onFat, .stuck dirty faulty⟩
    have inside : clst + clst / 2 < 512 * v.fsize := by omega
    have atFat1 : fs1.AtFat v := by rw [Fatfs.AtFat, sect1]; omega
    obtain ⟨set1, mem1⟩ := setByte_spec same1.windowOk inside sect1
      (if clst % 2 = 1 then (fatBytes v fs.view (clst + clst / 2) &&& 0x0F) ||| (val.setWidth 8 <<< 4)
        else val.setWidth 8)
    rw [same1.fatBytes] at mem1
    simp only [h1, byte1 _ rfl] at h
    have changed1 := (same1.fatChanged atFat1).trans set1
    generalize fs1.setByte (clst + clst / 2) _ = fs2 at h set1 mem1 changed1
    cases h2 : moveWindow faults v (v.fatbase + (clst + clst / 2 + 1) / SS) fs2 with
    | mk res2 fs3 =>
      obtain ⟨same2, ⟨rfl, faulty⟩ | ⟨rfl, sect2, byte2⟩⟩ := moveWindow_fat set1.windowOk (by omega) h2
      · obtain ⟨rfl, rfl⟩ : FResult.diskErr = res ∧ { fs3 with wflag := true } = fs' := by simpa [h2] using h
        have dirty := same2.markDirty (same2.atFat set1.atFat).valid
        refine ⟨changed1.trans (dirty.fatChanged (same2.atFat set1.atFat)),
          .failed faulty (fun d ne => ?_) fun other => absurd ht other⟩
        simp only [table, ht, FsType.stride, FsType.width, dirty.fatBytes, mem1]
        exact entry12_low _ val ne
      · have second : fatBytes v fs2.view (clst + clst / 2 + 1) = fatBytes v fs.view (clst + clst / 2 + 1) := by
          rw [mem1, Function.update_of_ne (by omega)]
        simp only [h2, byte2 _ rfl, second, Prod.mk.injEq] at h
        obtain ⟨rfl, rfl⟩ := h
        obtain ⟨set2, mem2⟩ := setByte_spec same2.windowOk (by omega) sect2
          (if clst % 2 = 1 then (val >>> 4).setWidth 8
            else (fatBytes v fs.view (clst + clst / 2 + 1) &&& 0xF0) ||| ((val >>> 8).setWidth 8 &&& 0x0F))
        refine ⟨changed1.trans ((same2.fatChanged (same2.atFat set1.atFat)).trans set2), .done range ?_⟩
        rw [mem2, same2.fatBytes, mem1, ht]
        exact put12 _ clst val

theorem putFat16_spec (ok : fs.WindowOk v) (onFat : res = .ok ∨ fs.AtFat v) (ht : v.fsType = .fat16)
    (range : 2 ≤ clst ∧ clst < v.nFatent) (h : putFat faults v clst val fs = (res, fs')) :
    FatChanged v fs fs' ∧ PutFat faults v clst val fs fs' res := by
  have fits := Volume.entry_fits range.2
  have sector : clst / (SS / 2) = clst * 2 / SS := by simp only [SS]; omega
  rw [putFat, if_neg (by omega)] at h
  simp only [ht, FsType.stride, sector] at h fits
  cases h1 : moveWindow faults v (v.fatbase + clst * 2 / SS) fs with
  | mk res1 fs1 =>
    obtain ⟨same1, ⟨rfl, faulty⟩ | ⟨rfl, sect1, -⟩⟩ := moveWindow_fat ok (by omega) h1
    · obtain ⟨rfl, rfl⟩ : FResult.diskErr = res ∧ { fs1 with wflag := true } = fs' := by simpa [h1] using h
      have onFat := same1.atFat (onFat.resolve_left (by simp))
      have dirty := same1.markDirty onFat.valid
      exact ⟨dirty.fatChanged onFat, .stuck dirty faulty⟩
    have atFat1 : fs1.AtFat v := by rw [Fatfs.AtFat, sect1]; omega
    simp only [h1, Prod.mk.injEq] at h
    obtain ⟨rfl, rfl⟩ := h
    obtain ⟨set, mem⟩ := stWord_spec same1.windowOk (by omega) sect1 (by omega) (val.setWidth 16)
    refine ⟨(same1.fatChanged atFat1).trans set, .done range ?_⟩
    have put := put16 (fatBytes v fs.view) (clst * 2) (val.setWidth 16)
    rw [ht, mem, same1.fatBytes]
    rwa [show 8 * (clst * 2) = 16 * clst by omega] at put

theorem putFat32_spec (ok : fs.WindowOk v) (onFat : res = .ok ∨ fs.AtFat v) (ht : v.fsType = .fat32)
    (range : 2 ≤ clst ∧ clst < v.nFatent)
    (h : putFat faults v clst val fs = (res, fs')) :
    FatChanged v fs fs' ∧ PutFat faults v clst val fs fs' res := by
  have fits := Volume.entry_fits range.2
  have sector : clst / (SS / 4) = clst * 4 / SS := by simp only [SS]; omega
  rw [putFat, if_neg (by omega)] at h
  simp only [ht, FsType.stride, sector] at h fits
  cases h1 : moveWindow faults v (v.fatbase + clst * 4 / SS) fs with
  | mk res1 fs1 =>
    obtain ⟨same1, ⟨rfl, faulty⟩ | ⟨rfl, sect1, byte1⟩⟩ := moveWindow_fat ok (by omega) h1
    · obtain ⟨rfl, rfl⟩ : FResult.diskErr = res ∧ { fs1 with wflag := true } = fs' := by simpa [h1] using h
      have onFat := same1.atFat (onFat.resolve_left (by simp))
      have dirty := same1.markDirty onFat.valid
      exact ⟨dirty.fatChanged onFat, .stuck dirty faulty⟩
    have atFat1 : fs1.AtFat v := by rw [Fatfs.AtFat, sect1]; omega
    simp only [h1, ldDword, ldWord, byte1 _ rfl, byte1 (clst * 4 + 1) (by omega), byte1 (clst * 4 + 2) (by omega),
      byte1 (clst * 4 + 2 + 1) (by omega), dword_eq_field, Prod.mk.injEq] at h
    obtain ⟨rfl, rfl⟩ := h
    generalize hw : val ||| (field (fatBytes v fs.view) (8 * (clst * 4)) 32 &&& 0xF0000000) = w
    obtain ⟨set1, mem1⟩ := stWord_spec same1.windowOk (by omega) sect1 (by omega) (w.setWidth 16)
    obtain ⟨set2, mem2⟩ := stWord_spec set1.windowOk (show clst * 4 + 2 + 1 < 512 * v.fsize by omega)
      (sect1.trans (by omega)) (by omega) ((w >>> 16).setWidth 16)
    refine ⟨(same1.fatChanged atFat1).trans (set1.trans set2), .done range ?_⟩
    have put := put32 (fatBytes v fs.view) (clst * 4) w
    rw [ht, Fatfs.stDword, mem2, mem1, same1.fatBytes]
    rw [show 8 * (clst * 4) = 32 * clst by omega] at put hw
    have stored : FsType.fat32.stored (field (fatBytes v fs.view) (32 * clst) 32) val = w := by
      rw [FsType.stored, if_pos rfl, hw]
      exact BitVec.setWidth_eq w
    exact stored ▸ put

/-- `put_fat`, when it succeeds or the window shows the FAT already. -/
theorem putFat_spec (ok : fs.WindowOk v) (onFat : res = .ok ∨ fs.AtFat v)
    (h : putFat faults v clst val fs = (res, fs')) :
    FatChanged v fs fs' ∧ PutFat faults v clst val fs fs' res := by
  by_cases out : clst < 2 ∨ v.nFatent ≤ clst
  · rw [putFat, if_pos out] at h
    obtain ⟨rfl, rfl⟩ := Prod.mk.inj h
    exact ⟨(Unchanged.refl ok).fatChanged (onFat.resolve_left (by simp)), .range out rfl⟩
  have range : 2 ≤ clst ∧ clst < v.nFatent := by omega
  cases ht : v.fsType with
  | fat12 => exact putFat12_spec ok onFat ht range h
  | fat16 => exact putFat16_spec ok onFat ht range h
  | fat32 => exact putFat32_spec ok onFat ht range h

/-- The links after a successful `put_fat`. -/
theorem PutFat.table_eq (put : PutFat faults v clst val fs fs' .ok) :
    table v fs'.view = Function.update (table v fs.view) clst (val.toNat % 2 ^ v.fsType.width) := by
  cases put with
  | done range put =>
    funext d
    by_cases here : d = clst
    · subst here
      rw [Function.update_self, table, entry_put_self put v.fsType.width_le_stride, FsType.stored_low]
    · rw [Function.update_of_ne here]
      exact entry_put_ne put (Nat.le_refl _) v.fsType.width_le_stride here

/-- `put_fat` and `get_fat` are a table, wherever the window is: after an entry has been put, reading it gives the bits
of the value that the entry has, every other entry reads as before, and no bit of the volume has changed but those of the
entry; in FAT32 the value is added to the four bits that are in no entry. -/
theorem putFat_getFat (ok : fs.WindowOk v) (h : putFat faults v clst val fs = (.ok, fs')) :
    (∀ r fs1, getFat faults v clst fs' = (r, fs1) →
        r = 0xFFFFFFFF ∧ faults.Some ∨ r.toNat = val.toNat % 2 ^ v.fsType.width) ∧
      (∀ d ≠ clst, table v fs'.view d = table v fs.view d ∧
        ∀ r r' fs1 fs2, getFat faults v d fs = (r, fs1) → getFat faults v d fs' = (r', fs2) → r ≠ 0xFFFFFFFF →
          r' ≠ 0xFFFFFFFF → r' = r) ∧
      (∀ i, bit (fatBytes v fs'.view) i =
        if v.fsType.stride * clst ≤ i ∧ i < v.fsType.stride * clst + v.fsType.width
        then val.getLsbD (i - v.fsType.stride * clst)
        else if v.fsType.stride * clst ≤ i ∧ i < v.fsType.stride * clst + v.fsType.stride
        then val.getLsbD (i - v.fsType.stride * clst) || bit (fatBytes v fs.view) i
        else bit (fatBytes v fs.view) i) ∧
      ∀ i, v.Primary i → v.fatbase + v.fsize ≤ i → fs'.view i = fs.view i := by
  obtain ⟨changed, put⟩ := putFat_spec ok (.inl rfl) h
  have entries := put.table_eq
  obtain ⟨range, bits⟩ : (2 ≤ clst ∧ clst < v.nFatent) ∧ Put (fatBytes v fs.view) (fatBytes v fs'.view)
      (v.fsType.stride * clst) (v.fsType.stored (field (fatBytes v fs.view) (v.fsType.stride * clst) 32) val) := by
    cases put with
    | done range bits => exact ⟨range, bits⟩
  have others : ∀ d ≠ clst, table v fs'.view d = table v fs.view d := fun d ne => by
    rw [entries, Function.update_of_ne ne]
  refine ⟨fun r fs1 read => ?_, fun d ne => ⟨others d ne, fun r r' fs1 fs2 before after good good' => ?_⟩, fun i => ?_,
    changed.outside⟩
  · obtain ⟨-, failed | ⟨-, out⟩ | ⟨is, -⟩⟩ := getFat_spec changed.windowOk read
    · exact .inl failed
    · omega
    · rw [is, entries, Function.update_self]
      exact .inr rfl
  · obtain ⟨-, ⟨failed, -⟩ | ⟨none, out⟩ | ⟨read, lo, hi, -⟩⟩ := getFat_spec ok before
    · exact absurd failed good
    · obtain ⟨-, ⟨failed, -⟩ | ⟨none', -⟩ | ⟨-, lo, hi, -⟩⟩ := getFat_spec changed.windowOk after
      · exact absurd failed good'
      · rw [none', none]
      · omega
    · obtain ⟨-, ⟨failed, -⟩ | ⟨none', out⟩ | ⟨read', -, -, -⟩⟩ := getFat_spec changed.windowOk after
      · exact absurd failed good'
      · omega
      · exact BitVec.eq_of_toNat_eq (by rw [read', read, others d ne])
  · rw [bits]
    have fits := v.fsType.width_le_stride
    by_cases inside : v.fsType.stride * clst ≤ i ∧ i < v.fsType.stride * clst + v.fsType.stride
    · rw [if_pos inside, if_pos inside]
      by_cases low : v.fsType.stride * clst ≤ i ∧ i < v.fsType.stride * clst + v.fsType.width
      · rw [if_pos low, FsType.stored_bit _ _ _ (by omega)]
      · have place : v.fsType.stride * clst + (i - v.fsType.stride * clst) = i := by omega
        have here : i - v.fsType.stride * clst < 32 := by
          have most : v.fsType.stride ≤ 32 := by cases v.fsType <;> decide
          omega
        rw [if_neg low, FsType.stored_high _ _ _ (by omega) (by omega), getLsbD_field, place, decide_eq_true here,
          Bool.true_and]
    · rw [if_neg inside, if_neg inside, if_neg (by omega)]

/-- A volume of 398 clusters, on which the entry of cluster 341 lies across two sectors of the FAT. -/
def split : Volume :=
  { tiny with
    nFatent := 400
    fsize := 2
    dirbase := 5
    database := 6
    nFatent_gt := by decide
    nFatent_lt := by decide
    fat_fits := by decide
    database_eq := rfl
    database_end := by decide
    dirbase_eq := fun _ => rfl }

/-- It has just been mounted: the window shows nothing. -/
def mounted : Fatfs := { blank with winsect := 0 }

theorem putFat_getFat_split :
    (putFat (fun _ => none) split 341 0xABC mounted).1 = .ok ∧
      let fs' := (putFat (fun _ => none) split 341 0xABC mounted).2
      (getFat (fun _ => none) split 341 fs').1.toNat = 0xABC ∧
        (∀ d ≠ 341, table split fs'.view d = table split mounted.view d) ∧
        fs'.view 1 511 = 0xC0 ∧ fs'.view 2 0 = 0xAB ∧ ∀ i, split.Primary i → 3 ≤ i → fs'.view i = mounted.view i := by
  have done : (putFat (fun _ => none) split 341 0xABC mounted).1 = .ok := by decide
  have ok : mounted.WindowOk split := ⟨.inl rfl, by decide, fun _ shown => absurd rfl shown⟩
  obtain ⟨back, others, -, outside⟩ := putFat_getFat ok (Prod.ext done rfl)
  refine ⟨done, ?_, fun d ne => (others d ne).1, by decide, by decide, outside⟩
  exact (back _ _ rfl).resolve_left fun failed => Faults.not_some (fun _ => rfl) failed.2

end

end

end Cineraria.Fat
