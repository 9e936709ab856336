import Cineraria.Lib.Tiling
import Cineraria.Fat.Content
import Cineraria.Fat.Lfn

/-!
# Directories

`dir_sdi`, `dir_next`, `dir_find`, `dir_read`, `get_fileinfo` and `f_readdir` of `fatfs/ff.c`. A directory object walks
over the entries of a table, which lies in the sectors of the static root directory or in the clusters of a chain. The
pointer to the current entry is its offset in the window.
-/

namespace Cineraria.Fat

open Tiling

def AM_MASK : BitVec 8 := 0x3F

def AM_VOL : BitVec 8 := 0x08

/-- The mark of a deleted entry. -/
def DDE : BitVec 8 := 0xE5

def NS_LOSS : BitVec 8 := 0x01

/-- `fn`: a short name in the form of an entry, and its status. -/
structure Fn where
  name : Nat → BitVec 8
  ns : BitVec 8

/-- The directory object. -/
structure Dir where
  index : Nat
  sclust : Nat
  clust : Nat
  sect : Nat
  dir : Nat
  fn : Fn
  lfn : Option (Nat → BitVec 16)
  lfnIdx : Nat

/-- The entry at a place in the window. -/
def dirEntry (win : Sector) (k : Nat) : Entry := fun i => win (ofs (k + i))

/-- The entry that the directory object points to. -/
def Dir.entry (dj : Dir) (fs : Fatfs) : Entry := dirEntry fs.win dj.dir

section
variable (faults : Faults) (v : Volume)

/-! ## `dir_sdi` -/

/-- Entries of a sector, and of a cluster. -/
def perSect : Nat := SS / SZ_DIR

def perClust : Nat := perSect * v.csize

/-- The loop of `dir_sdi`, which takes as many turns as clusters are passed. -/
def sdiLoop : Nat → Nat → Fatfs → Except FResult Nat × Fatfs
  | 0, clst, fs => (.ok clst, fs)
  | turns + 1, clst, fs =>
      match getFat faults v clst fs with
      | (cs, fs) =>
          if cs = 0xFFFFFFFF then (.error .diskErr, fs)
          else if cs.toNat < 2 ∨ v.nFatent ≤ cs.toNat then (.error .intErr, fs)
          else sdiLoop turns cs.toNat fs

/-- `dir_sdi` -/
def dirSdi (idx : Nat) (fs : Fatfs) (dj : Dir) : FResult × Fatfs × Dir :=
  let dj := { dj with index := idx }
  if dj.sclust = 1 ∨ v.nFatent ≤ dj.sclust then (.intErr, fs, dj)
  else
    let clst := if dj.sclust = 0 ∧ v.fsType = .fat32 then v.dirbase else dj.sclust
    if clst = 0 then
      let dj := { dj with clust := 0 }
      if v.nRootdir ≤ idx then (.intErr, fs, dj)
      else (.ok, fs, { dj with sect := v.dirbase + idx / perSect, dir := idx % perSect * SZ_DIR })
    else
      match sdiLoop faults v (idx / perClust v) clst fs with
      | (.error res, fs) => (res, fs, dj)
      | (.ok clst, fs) =>
          (.ok, fs,
            { dj with
              clust := clst
              sect := clust2sect v clst + idx % perClust v / perSect
              dir := idx % perClust v % perSect * SZ_DIR })

/-! ## `dir_next` -/

/-- The loop of `dir_next` that fills the new cluster with zeros. -/
def fillLoop : Nat → Fatfs → FResult × Fatfs
  | 0, fs => (.ok, fs)
  | c + 1, fs =>
      match moveWindow faults v 0 { fs with wflag := true } with
      | (.ok, fs) => fillLoop c { fs with winsect := fs.winsect + 1 }
      | (_, fs) => (.diskErr, fs)

/-- `dir_next`, the clean-up of the stretched table. -/
def cleanUp (clst : Nat) (fs : Fatfs) : FResult × Fatfs :=
  match moveWindow faults v 0 fs with
  | (.ok, fs) =>
      match fillLoop faults v v.csize { fs with win := fun _ => 0, winsect := clust2sect v clst } with
      | (.ok, fs) => (.ok, { fs with winsect := fs.winsect - v.csize })
      | (res, fs) => (res, fs)
  | (_, fs) => (.diskErr, fs)

/-- `dir_next`, the stretching of the table. -/
def stretch (clust : Nat) (fs : Fatfs) : Except FResult Nat × Fatfs :=
  match createChain faults v clust fs with
  | (clst, fs) =>
      if clst = 0 then (.error .denied, fs)
      else if clst = 1 then (.error .intErr, fs)
      else if clst = 0xFFFFFFFF then (.error .diskErr, fs)
      else
        match cleanUp faults v clst fs with
        | (.ok, fs) => (.ok clst, fs)
        | (res, fs) => (.error res, fs)

/-- `dir_next`, the next cluster. -/
def nextClust (stretches : Bool) (clust : Nat) (fs : Fatfs) : Except FResult Nat × Fatfs :=
  match getFat faults v clust fs with
  | (cs, fs) =>
      if cs.toNat ≤ 1 then (.error .intErr, fs)
      else if cs = 0xFFFFFFFF then (.error .diskErr, fs)
      else if v.nFatent ≤ cs.toNat then
        if stretches then stretch faults v clust fs else (.error .noFile, fs)
      else (.ok cs.toNat, fs)

/-- `dir_next` -/
def dirNext (stretches : Bool) (fs : Fatfs) (dj : Dir) : FResult × Fatfs × Dir :=
  let i := (dj.index + 1) % 65536
  if i = 0 ∨ dj.sect = 0 then (.noFile, fs, dj)
  else
    let arrive (dj : Dir) : Dir := { dj with index := i, dir := i % perSect * SZ_DIR }
    if i % perSect = 0 then
      let dj := { dj with sect := dj.sect + 1 }
      if dj.clust = 0 then
        if v.nRootdir ≤ i then (.noFile, fs, dj) else (.ok, fs, arrive dj)
      else if i / perSect &&& (v.csize - 1) = 0 then
        match nextClust faults v stretches dj.clust fs with
        | (.error res, fs) => (res, fs, dj)
        | (.ok clst, fs) => (.ok, fs, arrive { dj with clust := clst, sect := clust2sect v clst })
      else (.ok, fs, arrive dj)
    else (.ok, fs, arrive dj)

end

/-! ## `dir_find` and `dir_read` -/

/-- The progress in a sequence of LFN entries, and where it has begun. -/
structure Sequence where
  ord : BitVec 8
  sum : BitVec 8
  lfnIdx : Nat

/-- An LFN entry, as far as its order and its sum go. -/
def Sequence.enter (s : Sequence) (index : Nat) (dir : Entry) : Sequence × BitVec 8 :=
  let c := dir (eofs LDIR_Ord)
  if c &&& LLE ≠ 0 then
    (⟨c &&& ~~~LLE, dir (eofs LDIR_Chksum), index⟩, c &&& ~~~LLE)
  else (s, c)

/-- An entry without valid data. -/
def NoData (dir : Entry) : Prop :=
  dir (eofs DIR_Name) = DDE ∨
    dir (eofs DIR_Attr) &&& AM_MASK &&& AM_VOL ≠ 0 ∧ dir (eofs DIR_Attr) &&& AM_MASK ≠ AM_LFN

instance (dir : Entry) : Decidable (NoData dir) := inferInstanceAs (Decidable (_ ∨ _))

/-- The short name in an entry. -/
def SameName (dir : Entry) (name : Nat → BitVec 8) : Prop := ∀ k < 11, dir (eofs k) = name k

instance (dir : Entry) (name : Nat → BitVec 8) : Decidable (SameName dir name) :=
  inferInstanceAs (Decidable (∀ k < 11, _))

section
variable (wtoupper : BitVec 16 → BitVec 16)

/-- The body of the loop of `dir_find`. -/
def findLook (fn : Fn) (lfn : Option (Nat → BitVec 16)) (index : Nat) (dir : Entry) (s : Sequence) : Look Sequence :=
  if dir (eofs DIR_Name) = 0 then .ended
  else if NoData dir then .miss { s with ord := 0xFF }
  else if dir (eofs DIR_Attr) &&& AM_MASK = AM_LFN then
    match lfn with
    | none => .miss s
    | some lfnbuf =>
        let (s, c) := s.enter index dir
        .miss { s with
          ord := if c = s.ord ∧ s.sum = dir (eofs LDIR_Chksum) ∧ cmpLfn wtoupper lfnbuf dir then s.ord - 1 else 0xFF }
  else if s.ord = 0 ∧ s.sum = sumSfn dir then .hit s
  else
    let s := { s with ord := 0xFF, lfnIdx := 0xFFFF }
    if fn.ns &&& NS_LOSS = 0 ∧ SameName dir fn.name then .hit s else .miss s

end

/-- The progress after a part that `pick_lfn` has picked or not. -/
def Sequence.pick (s : Sequence) (r : Bool × (Nat → BitVec 16)) : Sequence × (Nat → BitVec 16) :=
  ({ s with ord := if r.1 then s.ord - 1 else 0xFF }, r.2)

/-- The body of the loop of `dir_read`, which stores the long name in the buffer. -/
def readLook (index : Nat) (dir : Entry) : Sequence × (Nat → BitVec 16) → Look (Sequence × (Nat → BitVec 16))
  | (s, lfnbuf) =>
      if dir (eofs DIR_Name) = 0 then .ended
      else if NoData dir ∨ dir (eofs DIR_Name) = 0x2E then .miss ({ s with ord := 0xFF }, lfnbuf)
      else if dir (eofs DIR_Attr) &&& AM_MASK = AM_LFN then
        let (s, c) := s.enter index dir
        if c = s.ord ∧ s.sum = dir (eofs LDIR_Chksum) then .miss (s.pick (pickLfn lfnbuf dir))
        else .miss ({ s with ord := 0xFF }, lfnbuf)
      else if s.ord ≠ 0 ∨ s.sum ≠ sumSfn dir then .hit ({ s with lfnIdx := 0xFFFF }, lfnbuf)
      else .hit (s, lfnbuf)

section
variable (faults : Faults) (v : Volume)

/-- The loop of `dir_find` and `dir_read`, by its body; `keep` is what the directory object is told of the state. The
index ends the loop after 65536 turns at the latest. -/
def scanLoop {σ : Type} (look : Nat → Entry → σ → Look σ) (keep : σ → Dir → Dir) :
    Nat → σ → Fatfs → Dir → FResult × Fatfs × Dir
  | 0, _, fs, dj => (.noFile, fs, dj)
  | turns + 1, s, fs, dj =>
      match moveWindow faults v dj.sect fs with
      | (.ok, fs) =>
          match look dj.index (dj.entry fs) s with
          | .ended => (.noFile, fs, dj)
          | .hit s => (.ok, fs, keep s dj)
          | .miss s =>
              match dirNext faults v false fs (keep s dj) with
              | (.ok, fs, dj) => scanLoop look keep turns s fs dj
              | (res, fs, dj) => (res, fs, dj)
      | (res, fs) => (res, fs, dj)

/-- `dir_find` -/
def dirFind (wtoupper : BitVec 16 → BitVec 16) (fs : Fatfs) (dj : Dir) : FResult × Fatfs × Dir :=
  match dirSdi faults v 0 fs dj with
  | (.ok, fs, dj) =>
      scanLoop faults v (findLook wtoupper dj.fn dj.lfn) (fun s dj => { dj with lfnIdx := s.lfnIdx }) 65536
        ⟨0xFF, 0xFF, dj.lfnIdx⟩ fs dj
  | (res, fs, dj) => (res, fs, dj)

/-- `dir_read`, the end: the directory object is marked if nothing has been read. -/
def endRead : FResult × Fatfs × Dir → FResult × Fatfs × Dir
  | (.ok, fs, dj) => (.ok, fs, dj)
  | (res, fs, dj) => (res, fs, { dj with sect := 0 })

/-- `dir_read`, with the buffer for the long name. -/
def dirRead (lfnbuf : Nat → BitVec 16) (fs : Fatfs) (dj : Dir) : FResult × Fatfs × Dir :=
  if dj.sect = 0 then (.noFile, fs, dj)
  else
    endRead (scanLoop faults v readLook (fun s dj => { dj with lfnIdx := s.1.lfnIdx, lfn := some s.2 }) 65536
      (⟨0xFF, 0xFF, dj.lfnIdx⟩, lfnbuf) fs dj)

end

/-! ## `f_readdir` -/

def NDDE : BitVec 8 := 0x05

def NS_BODY : BitVec 8 := 0x08

def NS_EXT : BitVec 8 := 0x10

def DIR_NTres : Nat := 12

def DIR_WrtDate : Nat := 24

/-- The file information, with its strings. A buffer of size 0 for the long name is none. -/
structure Filinfo where
  fsize : BitVec 32
  fdate : BitVec 16
  ftime : BitVec 16
  fattrib : BitVec 8
  fname : List (BitVec 8)
  lfname : List (BitVec 8)
  lfsize : Nat
  deriving DecidableEq

/-- A letter of a short name, in lower case if the flag for its half of the name is set. -/
def lowered (flag c : BitVec 8) : BitVec 8 := if flag ≠ 0 ∧ 0x41 ≤ c ∧ c ≤ 0x5A then c + 0x20 else c

/-- Characters of a short name up to the first blank. -/
def sfnChars (dir : Entry) (first count : Nat) : List (BitVec 8) :=
  ((List.range count).map fun i => dir (eofs (first + i))).takeWhile fun c => c ≠ 0x20

/-- The short name that `get_fileinfo` copies. -/
def sfnName (dir : Entry) : List (BitVec 8) :=
  let nt := dir (eofs DIR_NTres)
  (sfnChars dir 0 8).map (fun c => lowered (nt &&& NS_BODY) (if c = NDDE then DDE else c)) ++
    if dir (eofs 8) ≠ 0x20 then 0x2E :: (sfnChars dir 8 3).map (lowered (nt &&& NS_EXT)) else []

section
variable (oem : BitVec 16 → BitVec 16)

/-- The loop of `get_fileinfo` over a long name, with `ff_convert` to the code page as `oem`. The string that has been
stored is dropped when a character has no code or the buffer ends. -/
def lfnLoop (lfsize : Nat) (lfn : Nat → BitVec 16) : Nat → Nat → List (BitVec 8) → List (BitVec 8)
  | 0, _, _ => []
  | turns + 1, k, tp =>
      if lfn k = 0 then tp
      else
        let w := oem (lfn k)
        if w = 0 then []
        else
          let tp := if 0x100 ≤ w then tp ++ [(w >>> 8).setWidth 8] else tp
          if lfsize - 1 ≤ tp.length then [] else lfnLoop lfsize lfn turns (k + 1) (tp ++ [w.setWidth 8])

/-- `get_fileinfo`. The buffer of a long name has room for `MAX_LFN` characters and the end. -/
def getFileinfo (fs : Fatfs) (dj : Dir) (fno : Filinfo) : Filinfo :=
  let fno :=
    if dj.sect = 0 then { fno with fname := [] }
    else
      let dir := dj.entry fs
      { fno with
        fsize := dirWord dir (DIR_FileSize + 2) ++ dirWord dir DIR_FileSize
        fdate := dirWord dir DIR_WrtDate
        ftime := dirWord dir DIR_WrtTime
        fattrib := dir (eofs DIR_Attr)
        fname := sfnName dir }
  if fno.lfsize = 0 then fno
  else
    { fno with
      lfname :=
        match if dj.sect = 0 ∨ dj.lfnIdx = 0xFFFF then none else dj.lfn with
        | none => []
        | some lfn => lfnLoop oem fno.lfsize lfn (MAX_LFN + 1) 0 [] }

section
variable (faults : Faults) (v : Volume)

/-- `f_readdir` of a valid directory object, with its buffer for the long name. -/
def fReaddir (lfnbuf : Nat → BitVec 16) (fs : Fatfs) (dj : Dir) (fno : Filinfo) : FResult × Filinfo × Fatfs × Dir :=
  match dirRead faults v lfnbuf fs dj with
  | (res, fs, dj) =>
      let dj := if res = .noFile then { dj with sect := 0 } else dj
      if res = .noFile ∨ res = .ok then
        match dirNext faults v false fs dj with
        | (.noFile, fs', dj') => (.ok, getFileinfo oem fs dj fno, fs', { dj' with sect := 0 })
        | (res, fs', dj') => (res, getFileinfo oem fs dj fno, fs', dj')
      else (res, fno, fs, dj)

end

end

end Cineraria.Fat
