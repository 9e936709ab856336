import Cineraria.Mmcfs.FatFs
import Cineraria.Fat.Chains

/-!
# Files on the sectors of a volume

`f_read`, `f_write`, `f_lseek`, `f_sync` and `f_open` of `fatfs/ff.c`, with the chains of the FAT, the sector buffer of the
file object and the transfers of whole sectors that go round it. The file object is valid and its volume mounted,
as `validate` has found.
-/

namespace Cineraria.Fat

/-- The file object. `FA__DIRTY` is kept apart from the other flags. -/
structure Fil where
  flag : BitVec 8
  dirty : Bool
  fsize : Nat
  fptr : Nat
  sclust : Nat
  clust : Nat
  dsect : Nat
  buf : Sector
  dirSect : Nat
  dirPtr : Nat

open FatFs (FA_ERROR FA_WRITTEN)
open Mmcfs (FA_READ FA_WRITE FA_CREATE_ALWAYS FA_OPEN_ALWAYS)

/-- `ABORT` -/
def Fil.abort (fp : Fil) : Fil := { fp with flag := fp.flag ||| FA_ERROR }

/-- The bytes of some sectors. -/
def toBytes (sectors : Nat → Sector) (n : Nat) : List (BitVec 8) :=
  (List.range n).map fun k => sectors (k / SS) (ofs k)

/-- A sector of some bytes. -/
def toSector (bytes : List (BitVec 8)) (k : Nat) : Sector := fun o => bytes.getD (SS * k + o) 0

/-- `disk_read`, of several sectors. -/
def diskReads (faults : Faults) (sector : Nat) (d : Drive) : Option (Nat → Sector) × Drive :=
  (if (faults d.ops).isNone then some fun k => d.sectors (sector + k) else none, { d with ops := d.ops + 1 })

section
variable (faults : Faults) (v : Volume)

/-- The sector in the cluster. -/
def csect (fptr : Nat) : Nat := fptr / SS &&& (v.csize - 1)

/-- Sectors that are transferred directly, clipped at the end of the cluster. -/
def clipped (fptr n : Nat) : Nat :=
  let cc := n / SS
  if csect v fptr + cc > v.csize then v.csize - csect v fptr else cc

/-- Writing back the sector buffer, if it is dirty. -/
def flushBuf (fs : Fatfs) (fp : Fil) : FResult × Fatfs × Fil :=
  if fp.dirty then
    match diskWrite faults (fun _ => fp.buf) fp.dsect 1 fs.drive with
    | (true, d) => (.ok, { fs with drive := d }, { fp with dirty := false })
    | (false, d) => (.diskErr, { fs with drive := d }, fp)
  else (.ok, fs, fp)

/-- Filling the sector buffer. -/
def fillBuf (sect : Nat) (fs : Fatfs) (fp : Fil) : FResult × Fatfs × Fil :=
  match diskRead faults sect fs.drive with
  | (some buf, d) => (.ok, { fs with drive := d }, { fp with buf := buf, dsect := sect })
  | (none, d) => (.diskErr, { fs with drive := d }, fp)

/-! ## `f_read` -/

/-- The cluster at the beginning of which the file pointer is. -/
def readCluster (fs : Fatfs) (fp : Fil) : FResult × Fatfs × Fil :=
  match if fp.fptr = 0 then (fp.sclust, fs)
    else match getFat faults v fp.clust fs with | (clst, fs) => (clst.toNat, fs) with
  | (clst, fs) =>
      if clst < 2 then (.intErr, fs, fp)
      else if clst = 0xFFFFFFFF then (.diskErr, fs, fp)
      else (.ok, fs, { fp with clust := clst })

/-- The sector at the beginning of which the file pointer is; 0 if there is none. -/
def currentSector (fp : Fil) : Nat :=
  let sect := clust2sect v fp.clust
  if sect = 0 then 0 else sect + csect v fp.fptr

/-- Whole sectors are read directly. One that is in the sector buffer and has been changed there is taken from it. -/
def readDirect (btr sect : Nat) (fs : Fatfs) (fp : Fil) : FResult × List (BitVec 8) × Fatfs × Fil :=
  let cc := clipped v fp.fptr btr
  match diskReads faults sect fs.drive with
  | (none, d) => (.diskErr, [], { fs with drive := d }, fp)
  | (some got, d) =>
      let got := if fp.dirty ∧ sect ≤ fp.dsect ∧ fp.dsect < sect + cc
        then Function.update got (fp.dsect - sect) fp.buf else got
      (.ok, toBytes got (SS * cc), { fs with drive := d }, { fp with fptr := fp.fptr + SS * cc })

/-- A part of a sector is read from the sector buffer. -/
def readPart (btr : Nat) (fs : Fatfs) (fp : Fil) : FResult × List (BitVec 8) × Fatfs × Fil :=
  let rcnt := min (SS - fp.fptr % SS) btr
  (.ok, (List.range rcnt).map fun k => fp.buf (ofs (fp.fptr + k)), fs, { fp with fptr := fp.fptr + rcnt })

/-- The sector buffer is made to hold a sector. -/
def loadBuf (sect : Nat) (fs : Fatfs) (fp : Fil) : FResult × Fatfs × Fil :=
  if fp.dsect = sect then (.ok, fs, fp)
  else
    match flushBuf faults fs fp with
    | (.ok, fs, fp) => fillBuf faults sect fs fp
    | (res, fs, fp) => (res, fs, fp)

/-- One turn of the loop of `f_read`. -/
def readTurn (btr : Nat) (fs : Fatfs) (fp : Fil) : FResult × List (BitVec 8) × Fatfs × Fil :=
  if fp.fptr % SS = 0 then
    match if csect v fp.fptr = 0 then readCluster faults v fs fp else (.ok, fs, fp) with
    | (.ok, fs, fp) =>
        let sect := currentSector v fp
        if sect = 0 then (.intErr, [], fs, fp)
        else if btr / SS ≠ 0 then readDirect faults v btr sect fs fp
        else
          match loadBuf faults sect fs fp with
          | (.ok, fs, fp) => readPart btr fs fp
          | (res, fs, fp) => (res, [], fs, fp)
    | (res, fs, fp) => (res, [], fs, fp)
  else readPart btr fs fp

/-- The loop. A turn that does not abort reads at least a byte. -/
def readLoop : Nat → Nat → Fatfs → Fil → FResult × List (BitVec 8) × Fatfs × Fil
  | 0, _, fs, fp => (.ok, [], fs, fp)
  | turns + 1, btr, fs, fp =>
      if btr = 0 then (.ok, [], fs, fp)
      else
        match readTurn faults v btr fs fp with
        | (.ok, bytes, fs, fp) =>
            match readLoop turns (btr - bytes.length) fs fp with
            | (res, rest, fs, fp) => (res, bytes ++ rest, fs, fp)
        | (res, _, fs, fp) => (res, [], fs, fp.abort)

/-- `f_read`: the bytes that are read. -/
def fRead (btr : Nat) (fs : Fatfs) (fp : Fil) : FResult × List (BitVec 8) × Fatfs × Fil :=
  if fp.flag &&& FA_ERROR ≠ 0 then (.intErr, [], fs, fp)
  else if fp.flag &&& FA_READ = 0 then (.denied, [], fs, fp)
  else
    let btr := min btr (fp.fsize - fp.fptr)
    readLoop faults v btr btr fs fp

/-! ## `f_write` -/

/-- The cluster at the beginning of which the file pointer is, stretching the chain; whether the disk is full. -/
def writeCluster (fs : Fatfs) (fp : Fil) : FResult × Bool × Fatfs × Fil :=
  match
    if fp.fptr = 0 then
      if fp.sclust = 0 then
        match createChain faults v 0 fs with | (clst, fs) => (clst, fs, { fp with sclust := clst })
      else (fp.sclust, fs, fp)
    else match createChain faults v fp.clust fs with | (clst, fs) => (clst, fs, fp) with
  | (clst, fs, fp) =>
      if clst = 0 then (.ok, true, fs, fp)
      else if clst = 1 then (.intErr, false, fs, fp)
      else if clst = 0xFFFFFFFF then (.diskErr, false, fs, fp)
      else (.ok, false, fs, { fp with clust := clst })

/-- Whole sectors are written directly. The sector buffer gets the one that it holds. -/
def writeDirect (wbuff : List (BitVec 8)) (sect : Nat) (fs : Fatfs) (fp : Fil) : FResult × Nat × Fatfs × Fil :=
  let cc := clipped v fp.fptr wbuff.length
  match diskWrite faults (toSector wbuff) sect cc fs.drive with
  | (false, d) => (.diskErr, 0, { fs with drive := d }, fp)
  | (true, d) =>
      let fp := { fp with fptr := fp.fptr + SS * cc }
      (.ok, SS * cc, { fs with drive := d },
        if sect ≤ fp.dsect ∧ fp.dsect < sect + cc
        then { fp with buf := toSector wbuff (fp.dsect - sect), dirty := false } else fp)

/-- A part of a sector is put into the sector buffer. -/
def writePart (wbuff : List (BitVec 8)) (fs : Fatfs) (fp : Fil) : FResult × Nat × Fatfs × Fil :=
  let wcnt := min (SS - fp.fptr % SS) wbuff.length
  let buf := fun o : Fin 512 =>
    if fp.fptr % SS ≤ o ∧ o < fp.fptr % SS + wcnt then wbuff.getD (o - fp.fptr % SS) 0 else fp.buf o
  (.ok, wcnt, fs, { fp with buf := buf, dirty := true, fptr := fp.fptr + wcnt })

/-- The sector buffer is made to hold a sector that is going to be changed. Beyond the end of the file
nothing is read. -/
def takeBuf (sect : Nat) (fs : Fatfs) (fp : Fil) : FResult × Fatfs × Fil :=
  if fp.dsect ≠ sect ∧ fp.fptr < fp.fsize then fillBuf faults sect fs fp
  else (.ok, fs, { fp with dsect := sect })

/-- One turn of the loop of `f_write`: the bytes that it writes, none when the disk is full. -/
def writeTurn (wbuff : List (BitVec 8)) (fs : Fatfs) (fp : Fil) : FResult × Nat × Fatfs × Fil :=
  if fp.fptr % SS = 0 then
    match if csect v fp.fptr = 0 then writeCluster faults v fs fp else (.ok, false, fs, fp) with
    | (.ok, full, fs, fp) =>
        if full then (.ok, 0, fs, fp)
        else
          match flushBuf faults fs fp with
          | (.ok, fs, fp) =>
              let sect := currentSector v fp
              if sect = 0 then (.intErr, 0, fs, fp)
              else if wbuff.length / SS ≠ 0 then writeDirect faults v wbuff sect fs fp
              else
                match takeBuf faults sect fs fp with
                | (.ok, fs, fp) => writePart wbuff fs fp
                | (res, fs, fp) => (res, 0, fs, fp)
          | (res, fs, fp) => (res, 0, fs, fp)
    | (res, _, fs, fp) => (res, 0, fs, fp)
  else writePart wbuff fs fp

/-- The loop, and how many bytes it has written. -/
def writeLoop : Nat → List (BitVec 8) → Fatfs → Fil → FResult × Nat × Fatfs × Fil
  | 0, _, fs, fp => (.ok, 0, fs, fp)
  | turns + 1, wbuff, fs, fp =>
      if wbuff = [] then (.ok, 0, fs, fp)
      else
        match writeTurn faults v wbuff fs fp with
        | (.ok, wcnt, fs, fp) =>
            if wcnt = 0 then (.ok, 0, fs, fp)
            else
              match writeLoop turns (wbuff.drop wcnt) fs fp with
              | (res, more, fs, fp) => (res, wcnt + more, fs, fp)
        | (res, _, fs, fp) => (res, 0, fs, fp.abort)

/-- `f_write`: the number of bytes written. A file cannot reach 4 GB. -/
def fWrite (wbuff : List (BitVec 8)) (fs : Fatfs) (fp : Fil) : FResult × Nat × Fatfs × Fil :=
  if fp.flag &&& FA_ERROR ≠ 0 then (.intErr, 0, fs, fp)
  else if fp.flag &&& FA_WRITE = 0 then (.denied, 0, fs, fp)
  else
    let wbuff := if (fp.fsize + wbuff.length) % 2 ^ 32 < fp.fsize then [] else wbuff
    match writeLoop faults v wbuff.length wbuff fs fp with
    | (.ok, bw, fs, fp) =>
        (.ok, bw, fs, { fp with fsize := max fp.fsize fp.fptr, flag := fp.flag ||| FA_WRITTEN })
    | (res, bw, fs, fp) => (res, bw, fs, fp)

/-! ## `f_lseek` -/

/-- The cluster that the walk begins in, and what is left of the offset. The mask of the source is a multiple of
the bytes of a cluster. -/
def seekStart (ofs : Nat) (fs : Fatfs) (fp : Fil) : FResult × Nat × Nat × Fatfs × Fil :=
  let bcs := v.csize * SS
  let ifptr := fp.fptr
  if 0 < ifptr ∧ (ofs - 1) / bcs ≥ (ifptr - 1) / bcs then
    let fptr := (ifptr - 1) / bcs * bcs
    (.ok, fp.clust, ofs - fptr, fs, { fp with fptr := fptr })
  else if fp.sclust = 0 then
    match createChain faults v 0 fs with
    | (clst, fs) =>
        if clst = 1 then (.intErr, clst, ofs, fs, { fp with fptr := 0 })
        else if clst = 0xFFFFFFFF then (.diskErr, clst, ofs, fs, { fp with fptr := 0 })
        else (.ok, clst, ofs, fs, { fp with fptr := 0, sclust := clst, clust := clst })
  else (.ok, fp.sclust, ofs, fs, { fp with fptr := 0, clust := fp.sclust })

/-- The loop that follows the chain, and stretches it in write mode. -/
def followLoop : Nat → Nat → Nat → Fatfs → Fil → FResult × Nat × Nat × Fatfs × Fil
  | 0, clst, ofs, fs, fp => (.ok, clst, ofs, fs, fp)
  | turns + 1, clst, ofs, fs, fp =>
      let bcs := v.csize * SS
      if ofs > bcs then
        match if fp.flag &&& FA_WRITE ≠ 0 then createChain faults v clst fs
          else match getFat faults v clst fs with | (clst, fs) => (clst.toNat, fs) with
        | (clst, fs) =>
            if fp.flag &&& FA_WRITE ≠ 0 ∧ clst = 0 then (.ok, clst, bcs, fs, fp)
            else if clst = 0xFFFFFFFF then (.diskErr, clst, ofs, fs, fp)
            else if clst ≤ 1 ∨ v.nFatent ≤ clst then (.intErr, clst, ofs, fs, fp)
            else followLoop turns clst (ofs - bcs) fs { fp with clust := clst, fptr := fp.fptr + bcs }
      else (.ok, clst, ofs, fs, fp)

/-- The sector of the file pointer, if the pointer is inside it, or else 0. -/
def seekSector (clst ofs : Nat) : FResult × Nat :=
  if ofs % SS ≠ 0 then
    let nsect := clust2sect v clst
    if nsect = 0 then (.intErr, 0) else (.ok, nsect + ofs / SS)
  else (.ok, 0)

/-- The walk to an offset that is already clipped, and the sector there. -/
def seekWalk (ofs : Nat) (fs : Fatfs) (fp : Fil) : FResult × Nat × Fatfs × Fil :=
  if ofs = 0 then (.ok, 0, fs, { fp with fptr := 0 })
  else
    match seekStart faults v ofs fs fp with
    | (.ok, clst, ofs, fs, fp) =>
        if clst = 0 then (.ok, 0, fs, fp)
        else
          match followLoop faults v ofs clst ofs fs fp with
          | (.ok, clst, ofs, fs, fp) =>
              match seekSector v clst ofs with
              | (res, nsect) => (res, nsect, fs, { fp with fptr := fp.fptr + ofs })
          | (res, _, _, fs, fp) => (res, 0, fs, fp)
    | (res, _, _, fs, fp) => (res, 0, fs, fp)

/-- `f_lseek`. A file that may not be written is not stretched. -/
def fLseek (ofs : Nat) (fs : Fatfs) (fp : Fil) : FResult × Fatfs × Fil :=
  if fp.flag &&& FA_ERROR ≠ 0 then (.intErr, fs, fp)
  else
    let ofs := if ofs > fp.fsize ∧ fp.flag &&& FA_WRITE = 0 then fp.fsize else ofs
    match seekWalk faults v ofs fs fp with
    | (.ok, nsect, fs, fp) =>
        match if fp.fptr % SS ≠ 0 then loadBuf faults nsect fs fp else (.ok, fs, fp) with
        | (.ok, fs, fp) =>
            (.ok, fs,
              if fp.fptr > fp.fsize then { fp with fsize := fp.fptr, flag := fp.flag ||| FA_WRITTEN } else fp)
        | (res, fs, fp) => (res, fs, fp.abort)
    | (res, _, fs, fp) => (res, fs, fp.abort)

/-! ## `f_sync` -/

def AM_ARC : BitVec 8 := 0x20

/-- `get_fattime`: there is no clock. -/
def getFattime : BitVec 32 := (BitVec.ofNat 32 (2011 - 1980) <<< 25) ||| (2 <<< 21) ||| (25 <<< 16)

def DIR_Attr : Nat := 11

def DIR_FstClusHI : Nat := 20

def DIR_WrtTime : Nat := 22

def DIR_FstClusLO : Nat := 26

def DIR_FileSize : Nat := 28

/-- `LD_CLUST` and `ST_CLUST` -/
def ldClust (win : Sector) (dir : Nat) : BitVec 32 :=
  ((ldWord win (dir + DIR_FstClusHI)).setWidth 32 <<< 16) ||| (ldWord win (dir + DIR_FstClusLO)).setWidth 32

def stClust (win : Sector) (dir : Nat) (cl : BitVec 32) : Sector :=
  stWord (stWord win (dir + DIR_FstClusLO) (cl.setWidth 16)) (dir + DIR_FstClusHI) ((cl >>> 16).setWidth 16)

/-- The directory entry that `f_sync` makes. -/
def syncEntry (fsize sclust dir : Nat) (win : Sector) : Sector :=
  let win := Function.update win (ofs (dir + DIR_Attr)) (win (ofs (dir + DIR_Attr)) ||| AM_ARC)
  let win := stDword win (dir + DIR_FileSize) (BitVec.ofNat 32 fsize)
  let win := stClust win dir (BitVec.ofNat 32 sclust)
  stDword win (dir + DIR_WrtTime) getFattime

/-- `f_sync` -/
def fSync (fs : Fatfs) (fp : Fil) : FResult × Fatfs × Fil :=
  if fp.flag &&& FA_WRITTEN ≠ 0 then
    match flushBuf faults fs fp with
    | (.ok, fs, fp) =>
        match moveWindow faults v fp.dirSect fs with
        | (.ok, fs) =>
            match sync faults v { fs with win := syncEntry fp.fsize fp.sclust fp.dirPtr fs.win, wflag := true } with
            | (res, fs) => (res, fs, { fp with flag := fp.flag &&& ~~~FA_WRITTEN })
        | (res, fs) => (res, fs, fp)
    | (res, fs, fp) => (res, fs, fp)
  else (.ok, fs, fp)

/-- `f_close`: the file object is given up if its result is `FR_OK`. -/
def fClose (fs : Fatfs) (fp : Fil) : FResult × Fatfs × Fil := fSync faults v fs fp

/-! ## `f_open` -/

def AM_RDO : BitVec 8 := 0x01

def AM_DIR : BitVec 8 := 0x10

def DIR_CrtTime : Nat := 14

/-- The file object for the entry in the window. Nothing is said of the fields that are not set. -/
def opened (mode : BitVec 8) (dir : Nat) (fs : Fatfs) (fp : Fil) : Fil :=
  { fp with
    flag := mode
    dirty := false
    fsize := (ldDword fs.win (dir + DIR_FileSize)).toNat
    fptr := 0
    sclust := (ldClust fs.win dir).toNat
    dsect := 0
    dirSect := fs.winsect
    dirPtr := dir }

/-- The entry of a file that has been truncated. -/
def emptyEntry (dir : Nat) (win : Sector) : Sector :=
  let win := stDword win (dir + DIR_CrtTime) getFattime
  let win := Function.update win (ofs (dir + DIR_Attr)) 0
  let win := stDword win (dir + DIR_FileSize) 0
  stClust win dir 0

/-- `f_open`, the truncation of a file. -/
def truncate (dir : Nat) (fs : Fatfs) : FResult × Fatfs :=
  let cl := ldClust fs.win dir
  let fs := { fs with win := emptyEntry dir fs.win, wflag := true }
  if cl ≠ 0 then
    let dw := fs.winsect
    match removeChain faults v cl.toNat fs with
    | (.ok, fs) => moveWindow faults v dw { fs with lastClust := cl - 1 }
    | (res, fs) => (res, fs)
  else (.ok, fs)

/-- `f_open`, the end: the file object is set if there has been no error. -/
def setFil (mode : BitVec 8) (dir : Nat) (fp : Fil) : FResult × Fatfs → FResult × Fatfs × Fil
  | (.ok, fs) => (.ok, fs, opened mode dir fs fp)
  | (res, fs) => (res, fs, fp)

/-- `f_open` on an entry that has been found: the window shows it. -/
def fOpen (mode : BitVec 8) (dir : Nat) (fs : Fatfs) (fp : Fil) : FResult × Fatfs × Fil :=
  let mode := mode &&& (FA_READ ||| FA_WRITE ||| FA_CREATE_ALWAYS ||| FA_OPEN_ALWAYS ||| FatFs.FA_CREATE_NEW)
  let attr := fs.win (ofs (dir + DIR_Attr))
  if mode &&& (FA_CREATE_ALWAYS ||| FA_OPEN_ALWAYS ||| FatFs.FA_CREATE_NEW) ≠ 0 then
    if attr &&& (AM_RDO ||| AM_DIR) ≠ 0 then (.denied, fs, fp)
    else if mode &&& FatFs.FA_CREATE_NEW ≠ 0 then (.exist, fs, fp)
    else if mode &&& FA_CREATE_ALWAYS ≠ 0 then setFil (mode ||| FA_WRITTEN) dir fp (truncate faults v dir fs)
    else setFil mode dir fp (.ok, fs)
  else if attr &&& AM_DIR ≠ 0 then (.noFile, fs, fp)
  else if mode &&& FA_WRITE ≠ 0 ∧ attr &&& AM_RDO ≠ 0 then (.denied, fs, fp)
  else setFil mode dir fp (.ok, fs)

end

end Cineraria.Fat
