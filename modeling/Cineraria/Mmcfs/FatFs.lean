import Mathlib.Tactic.Ring
import Mathlib.Tactic.SplitIfs
import Cineraria.Mmcfs.Driver

/-!
# A file object of FatFs

`fatfs/ff.c`: opening a file that exists, writing, and moving the file pointer, on a disk without
errors. A chain of clusters is known by its length, and a cluster of the file by its number in
the chain. `bytes` is what the clusters of the file hold, by the offset in the file and together
with the sector buffer; beyond the chain it is what the clusters hold that will be linked there.
-/

namespace Cineraria.FatFs

open Mmcfs

def FA_CREATE_NEW : BitVec 8 := 0x04

/-- `FA__WRITTEN` -/
def FA_WRITTEN : BitVec 8 := 0x20

/-- `FA__ERROR` -/
def FA_ERROR : BitVec 8 := 0x80

/-- The size of a sector. -/
def SS : Nat := 512

/-- The file system object: the sectors of a cluster, and the free clusters. -/
structure Volume where
  csize : Nat
  free : Nat
  csize_pos : 0 < csize

/-- The bytes of a cluster. -/
def Volume.bcs (fs : Volume) : Nat := fs.csize * SS

/-- The file object. `clusters` is the length of the chain that begins with `sclust`. -/
structure Fil where
  flag : BitVec 8
  fsize : BitVec 32
  fptr : BitVec 32
  clusters : Nat
  clust : Nat
  bytes : Nat → BitVec 8

/-- The directory entry of a file that exists. -/
structure Entry where
  readOnly : Bool
  fsize : BitVec 32
  clusters : Nat
  bytes : Nat → BitVec 8

/-- The content of a file. -/
def content (fsize : BitVec 32) (bytes : Nat → BitVec 8) : List (BitVec 8) :=
  (List.range fsize.toNat).map bytes

/-- The bytes after `data` has been put at an offset. -/
def store (ofs : Nat) (data : List (BitVec 8)) (bytes : Nat → BitVec 8) : Nat → BitVec 8 :=
  fun o => if ofs ≤ o ∧ o < ofs + data.length then data.getD (o - ofs) 0 else bytes o

/-- `create_chain`: cluster number `next` of the file is followed if the chain has it, or else a free
one is linked. -/
def createChain (next : Nat) (fs : Volume) (fp : Fil) : Option (Volume × Fil) :=
  if next < fp.clusters then some (fs, fp)
  else if fs.free = 0 then none
  else some ({ fs with free := fs.free - 1 }, { fp with clusters := fp.clusters + 1 })

/-! ## `f_open` -/

/-- `f_open` on a file that exists. -/
def fOpen (file : Entry) (mode : BitVec 8) : FResult × Fil :=
  let mode := mode &&& (FA_READ ||| FA_WRITE ||| FA_CREATE_ALWAYS ||| FA_OPEN_ALWAYS ||| FA_CREATE_NEW)
  let cleared : Fil := ⟨0, 0, 0, 0, 0, file.bytes⟩
  if mode &&& (FA_CREATE_ALWAYS ||| FA_OPEN_ALWAYS ||| FA_CREATE_NEW) ≠ 0 then
    if file.readOnly then (.failed, cleared)
    else if mode &&& FA_CREATE_NEW ≠ 0 then (.failed, cleared)
    else if mode &&& FA_CREATE_ALWAYS ≠ 0 then (.ok, { cleared with flag := mode ||| FA_WRITTEN })
    else (.ok, ⟨mode, file.fsize, 0, file.clusters, 0, file.bytes⟩)
  else if mode &&& FA_WRITE ≠ 0 ∧ file.readOnly = true then (.failed, cleared)
  else (.ok, ⟨mode, file.fsize, 0, file.clusters, 0, file.bytes⟩)

/-! ## `f_write` -/

/-- The cluster of the file pointer: at its beginning the chain is followed or stretched. -/
def writeCluster (fs : Volume) (fp : Fil) : Option (Volume × Fil) :=
  let ptr := fp.fptr.toNat
  if ptr % SS = 0 ∧ ptr / SS % fs.csize = 0 then
    let next := if ptr = 0 then 0 else fp.clust + 1
    (createChain next fs fp).map fun (fs, fp) => (fs, { fp with clust := next })
  else some (fs, fp)

/-- The bytes that one turn of the loop writes: whole sectors up to the end of the cluster, or a part
of one sector. `csize` is a power of two, so that the mask of the source is a remainder. -/
def writeCount (csize ptr btw : Nat) : Nat :=
  let csect := ptr / SS % csize
  let cc := btw / SS
  if ptr % SS = 0 ∧ 0 < cc then SS * (if csect + cc > csize then csize - csect else cc)
  else min (SS - ptr % SS) btw

/-- One turn of the loop, if a cluster can be had: what is left to write. -/
def writeTurn (wbuff : List (BitVec 8)) (fs : Volume) (fp : Fil) :
    Option (List (BitVec 8) × Volume × Fil) :=
  (writeCluster fs fp).map fun (fs, fp) =>
    let wcnt := writeCount fs.csize fp.fptr.toNat wbuff.length
    (wbuff.drop wcnt, fs,
      { fp with
        bytes := store fp.fptr.toNat (wbuff.take wcnt) fp.bytes
        fptr := fp.fptr + BitVec.ofNat 32 wcnt })

/-- The loop. A turn writes at least a byte. -/
def writeLoop : Nat → List (BitVec 8) → Volume → Fil → List (BitVec 8) × Volume × Fil
  | 0, wbuff, fs, fp => (wbuff, fs, fp)
  | turns + 1, wbuff, fs, fp =>
      if wbuff = [] then (wbuff, fs, fp)
      else
        match writeTurn wbuff fs fp with
        | none => (wbuff, fs, fp)
        | some (rest, fs, fp) => writeLoop turns rest fs fp

/-- `f_write`: its result, and the number of bytes written. -/
def fWrite (buff : List (BitVec 8)) (fs : Volume) (fp : Fil) : FResult × Nat × Volume × Fil :=
  if fp.flag &&& FA_ERROR ≠ 0 then (.failed, 0, fs, fp)
  else if fp.flag &&& FA_WRITE = 0 then (.failed, 0, fs, fp)
  else
    -- The size of a file cannot reach 4 GB.
    let wbuff := if fp.fsize + BitVec.ofNat 32 buff.length < fp.fsize then [] else buff
    match writeLoop wbuff.length wbuff fs fp with
    | (rest, fs, fp) =>
        (.ok, wbuff.length - rest.length, fs,
          { fp with
            fsize := if fp.fptr > fp.fsize then fp.fptr else fp.fsize
            flag := fp.flag ||| FA_WRITTEN })

/-! ## `f_lseek` -/

/-- The loop that follows the chain from the current cluster, and what is left of the offset. A file that
cannot be stretched must have a chain that is long enough. -/
def followLoop : Nat → Nat → Volume → Fil → FResult × Nat × Volume × Fil
  | 0, ofs, fs, fp => (.ok, ofs, fs, fp)
  | turns + 1, ofs, fs, fp =>
      if ofs > fs.bcs then
        if fp.flag &&& FA_WRITE ≠ 0 then
          match createChain (fp.clust + 1) fs fp with
          | none => (.ok, fs.bcs, fs, fp)
          | some (fs, fp) =>
              followLoop turns (ofs - fs.bcs) fs
                { fp with clust := fp.clust + 1, fptr := fp.fptr + BitVec.ofNat 32 fs.bcs }
        else if fp.clust + 1 < fp.clusters then
          followLoop turns (ofs - fs.bcs) fs
            { fp with clust := fp.clust + 1, fptr := fp.fptr + BitVec.ofNat 32 fs.bcs }
        else (.failed, ofs, fs, fp)
      else (.ok, ofs, fs, fp)

/-- Where the walk begins: in the current cluster if the offset is not before it, or else in the first
one. No cluster can be had for the first when the disk is full. -/
def seekStart (ofs ifptr : Nat) (fs : Volume) (fp : Fil) : Option (Nat × Volume × Fil) :=
  if 0 < ifptr ∧ (ofs - 1) / fs.bcs ≥ (ifptr - 1) / fs.bcs then
    let fptr := (ifptr - 1) / fs.bcs * fs.bcs
    some (ofs - fptr, fs, { fp with fptr := BitVec.ofNat 32 fptr })
  else
    (createChain 0 fs fp).map fun (fs, fp) => (ofs, fs, { fp with fptr := 0, clust := 0 })

/-- The walk to an offset that is already clipped. -/
def seekWalk (ofs : BitVec 32) (fs : Volume) (fp : Fil) : FResult × Volume × Fil :=
  if ofs = 0 then (.ok, fs, { fp with fptr := 0 })
  else
    match seekStart ofs.toNat fp.fptr.toNat fs fp with
    | none => (.ok, fs, { fp with fptr := 0, clust := 0 })
    | some (rest, fs, fp) =>
        match followLoop rest rest fs fp with
        | (.failed, _, fs, fp) => (.failed, fs, { fp with flag := fp.flag ||| FA_ERROR })
        | (.ok, rest, fs, fp) => (.ok, fs, { fp with fptr := fp.fptr + BitVec.ofNat 32 rest })

/-- `f_lseek` -/
def fLseek (ofs : BitVec 32) (fs : Volume) (fp : Fil) : FResult × Volume × Fil :=
  if fp.flag &&& FA_ERROR ≠ 0 then (.failed, fs, fp)
  else
    let ofs := if ofs > fp.fsize ∧ fp.flag &&& FA_WRITE = 0 then fp.fsize else ofs
    match seekWalk ofs fs fp with
    | (.failed, fs, fp) => (.failed, fs, fp)
    | (.ok, fs, fp) =>
        (.ok, fs,
          if fp.fptr > fp.fsize then { fp with fsize := fp.fptr, flag := fp.flag ||| FA_WRITTEN } else fp)

/-! ## The chain -/

theorem Volume.bcs_pos (fs : Volume) : 0 < fs.bcs := Nat.mul_pos fs.csize_pos (by decide)

/-- The volume after a chain of `old` clusters has become one of `new`. -/
def Volume.stretched (fs : Volume) (old new : Nat) : Volume := { fs with free := fs.free - (new - old) }

theorem createChain_eq (next : Nat) (fs : Volume) (fp : Fil) (within : next ≤ fp.clusters) :
    createChain next fs fp =
      if next < fp.clusters ∨ fs.free ≠ 0 then
        some (fs.stretched fp.clusters (max fp.clusters (next + 1)),
          { fp with clusters := max fp.clusters (next + 1) })
      else none := by
  unfold createChain
  by_cases linked : next < fp.clusters
  · have same : max fp.clusters (next + 1) = fp.clusters := max_eq_left linked
    rw [if_pos linked, if_pos (.inl linked), same, Volume.stretched, Nat.sub_self, Nat.sub_zero]
  · have one : max fp.clusters (next + 1) = fp.clusters + 1 := by omega
    rw [if_neg linked, one, Volume.stretched, Nat.add_sub_cancel_left]
    by_cases full : fs.free = 0
    · rw [if_pos full, if_neg]
      rintro (before | room)
      · exact linked before
      · exact room full
    · rw [if_neg full, if_pos (.inr full)]

/-- What holds of a file object inside the functions: the chain covers the file and the file pointer,
and the current cluster is that of the byte before the file pointer. -/
structure Fil.Placed (fs : Volume) (fp : Fil) : Prop where
  reached : fp.fptr.toNat ≤ fp.clusters * fs.bcs
  covered : fp.fsize.toNat ≤ fp.clusters * fs.bcs
  current : 0 < fp.fptr.toNat → fp.clust = (fp.fptr.toNat - 1) / fs.bcs

/-- What holds of a file object between the calls. -/
structure Fil.Ok (fs : Volume) (fp : Fil) : Prop where
  placed : fp.Placed fs
  inside : fp.fptr.toNat ≤ fp.fsize.toNat
  healthy : fp.flag &&& FA_ERROR = 0

/-- The chain of a directory entry covers the file. -/
def Entry.Ok (fs : Volume) (file : Entry) : Prop := file.fsize.toNat ≤ file.clusters * fs.bcs

/-- A file that is opened is at its beginning. -/
theorem fOpen_ok {fs : Volume} {file : Entry} (ok : file.Ok fs) {mode : BitVec 8} {fp : Fil}
    (opened : fOpen file mode = (.ok, fp)) : fp.Ok fs := by
  have healthy : ∀ mode : BitVec 8,
      (mode &&& (FA_READ ||| FA_WRITE ||| FA_CREATE_ALWAYS ||| FA_OPEN_ALWAYS ||| FA_CREATE_NEW)) &&& FA_ERROR =
        0 := by
    intro mode
    rw [BitVec.and_assoc]
    exact BitVec.and_zero
  have beginning (flag : BitVec 8) (healthy : flag &&& FA_ERROR = 0) :
      Fil.Ok fs ⟨flag, file.fsize, 0, file.clusters, 0, file.bytes⟩ :=
    ⟨⟨Nat.zero_le _, ok, fun some => absurd some (Nat.lt_irrefl 0)⟩, Nat.zero_le _, healthy⟩
  have empty (flag : BitVec 8) (healthy : flag &&& FA_ERROR = 0) : Fil.Ok fs ⟨flag, 0, 0, 0, 0, file.bytes⟩ :=
    ⟨⟨Nat.zero_le _, Nat.zero_le _, fun some => absurd some (Nat.lt_irrefl 0)⟩, Nat.zero_le _, healthy⟩
  unfold fOpen at opened
  dsimp only at opened
  split_ifs at opened
  all_goals cases opened
  · apply empty
    rw [BitVec.and_or_distrib_right, healthy]
    rfl
  all_goals exact beginning _ (healthy mode)

/-! ## Writing -/

section
variable {fs : Volume} {fp : Fil}

theorem sector_split (csize ptr : Nat) :
    ptr % (csize * SS) = ptr % SS + SS * (ptr / SS % csize) := by
  rw [Nat.mul_comm, Nat.mod_mul]

/-- Between the boundaries the current cluster is that of the file pointer. -/
theorem Fil.Placed.clust_eq (placed : fp.Placed fs) (between : fp.fptr.toNat % fs.bcs ≠ 0) :
    fp.clust = fp.fptr.toNat / fs.bcs ∧ fp.fptr.toNat / fs.bcs < fp.clusters := by
  have positive := fs.bcs_pos
  have split := Nat.div_add_mod fp.fptr.toNat fs.bcs
  have below := Nat.mod_lt fp.fptr.toNat positive
  have started : 0 < fp.fptr.toNat := by
    apply Nat.pos_of_ne_zero
    intro zero
    rw [zero, Nat.zero_mod] at between
    exact between rfl
  constructor
  · rw [placed.current started]
    apply Nat.div_eq_of_lt_le
    · rw [Nat.mul_comm]
      omega
    · rw [Nat.add_mul, Nat.one_mul, Nat.mul_comm]
      omega
  · apply (Nat.div_lt_iff_lt_mul positive).mpr
    apply Nat.lt_of_le_of_ne placed.reached
    intro whole
    rw [whole, Nat.mul_mod_left] at between
    exact between rfl

/-- At a boundary the next cluster is that of the file pointer. -/
theorem Fil.Placed.next_eq (placed : fp.Placed fs) (boundary : fp.fptr.toNat % fs.bcs = 0) :
    (if fp.fptr.toNat = 0 then 0 else fp.clust + 1) = fp.fptr.toNat / fs.bcs := by
  have positive := fs.bcs_pos
  split
  · next zero => rw [zero, Nat.zero_div]
  · next started =>
      obtain ⟨q, whole⟩ := Nat.dvd_of_mod_eq_zero boundary
      cases q with
      | zero => exact absurd whole started
      | succ q =>
          rw [placed.current (by omega), whole, Nat.mul_div_cancel_left _ positive]
          congr 1
          apply Nat.div_eq_of_lt_le
          · rw [Nat.mul_comm, Nat.mul_succ]
            omega
          · have := Nat.mul_pos (Nat.succ_pos q) positive
            rw [Nat.mul_comm]
            exact Nat.sub_lt this Nat.one_pos

theorem writeCluster_eq (placed : fp.Placed fs) :
    writeCluster fs fp =
      if fp.fptr.toNat / fs.bcs < fp.clusters ∨ fs.free ≠ 0 then
        some (fs.stretched fp.clusters (max fp.clusters (fp.fptr.toNat / fs.bcs + 1)),
          { fp with
            clusters := max fp.clusters (fp.fptr.toNat / fs.bcs + 1)
            clust := fp.fptr.toNat / fs.bcs })
      else none := by
  have aligned : fp.fptr.toNat % SS = 0 ∧ fp.fptr.toNat / SS % fs.csize = 0 ↔
      fp.fptr.toNat % fs.bcs = 0 := by
    rw [Volume.bcs, sector_split, SS]
    omega
  simp only [writeCluster, aligned]
  by_cases boundary : fp.fptr.toNat % fs.bcs = 0
  · have within : fp.fptr.toNat / fs.bcs ≤ fp.clusters := Nat.div_le_of_le_mul (by
      rw [Nat.mul_comm]
      exact placed.reached)
    rw [if_pos boundary, placed.next_eq boundary, createChain_eq _ _ _ within]
    split <;> rfl
  · obtain ⟨same, linked⟩ := placed.clust_eq boundary
    rw [if_neg boundary, if_pos (.inl linked), max_eq_left linked, Volume.stretched, Nat.sub_self, Nat.sub_zero,
      ← same]

theorem writeCount_bounds {csize btw : Nat} (ptr : Nat) (positive : 0 < csize) (more : 0 < btw) :
    0 < writeCount csize ptr btw ∧ writeCount csize ptr btw ≤ btw ∧
      ptr % (csize * SS) + writeCount csize ptr btw ≤ csize * SS := by
  have sector : ptr % SS < SS := Nat.mod_lt _ (by decide)
  have cluster : ptr / SS % csize < csize := Nat.mod_lt _ positive
  rw [sector_split]
  by_cases direct : ptr % SS = 0 ∧ 0 < btw / SS
  · have count : writeCount csize ptr btw =
        SS * (if ptr / SS % csize + btw / SS > csize then csize - ptr / SS % csize else btw / SS) :=
      if_pos direct
    by_cases clipped : ptr / SS % csize + btw / SS > csize
    · rw [count, if_pos clipped]
      simp only [SS] at *
      omega
    · rw [count, if_neg clipped]
      simp only [SS] at *
      omega
  · have count : writeCount csize ptr btw = min (SS - ptr % SS) btw := if_neg direct
    rw [count]
    simp only [SS] at *
    omega

/-- What a write of the first `k` bytes of `wbuff` does to the file object, within the functions. -/
structure Wrote (wbuff : List (BitVec 8)) (k : Nat) (fs : Volume) (fp : Fil) (fs' : Volume) (fp' : Fil) :
    Prop where
  le : k ≤ wbuff.length
  placed : fp'.Placed fs'
  csize : fs'.csize = fs.csize
  fptr : fp'.fptr.toNat = fp.fptr.toNat + k
  bytes : fp'.bytes = store fp.fptr.toNat (wbuff.take k) fp.bytes
  fsize : fp'.fsize = fp.fsize
  flag : fp'.flag = fp.flag

theorem store_nil (ofs : Nat) (bytes : Nat → BitVec 8) : store ofs [] bytes = bytes := by
  funext o
  exact if_neg (by rw [List.length_nil]; omega)

/-- Two stores, one right after the other. -/
theorem store_append (ofs : Nat) (first second : List (BitVec 8)) (bytes : Nat → BitVec 8) :
    store (ofs + first.length) second (store ofs first bytes) = store ofs (first ++ second) bytes := by
  funext o
  simp only [store, List.length_append, List.getD_eq_getElem?_getD, List.getElem?_append]
  by_cases before : o < ofs
  · rw [if_neg (by omega), if_neg (by omega), if_neg (by omega)]
  · by_cases early : o < ofs + first.length
    · rw [if_neg (by omega), if_pos (by omega), if_pos (by omega), if_pos (by omega)]
    · by_cases late : o < ofs + first.length + second.length
      · rw [if_pos (by omega), if_pos (by omega), if_neg (by omega), Nat.sub_add_eq]
      · rw [if_neg (by omega), if_neg (by omega), if_neg (by omega)]

theorem Wrote.refl (wbuff : List (BitVec 8)) (placed : fp.Placed fs) : Wrote wbuff 0 fs fp fs fp :=
  ⟨Nat.zero_le _, placed, rfl, rfl, by rw [List.take_zero, store_nil], rfl, rfl⟩

theorem Wrote.trans {wbuff : List (BitVec 8)} {k l : Nat} {fs₁ fs₂ : Volume} {fp₁ fp₂ : Fil}
    (first : Wrote wbuff k fs fp fs₁ fp₁) (second : Wrote (wbuff.drop k) l fs₁ fp₁ fs₂ fp₂) :
    Wrote wbuff (k + l) fs fp fs₂ fp₂ where
  le := by
    have := first.le
    have within := second.le
    rw [List.length_drop] at within
    omega
  placed := second.placed
  csize := second.csize.trans first.csize
  fptr := by rw [second.fptr, first.fptr, Nat.add_assoc]
  bytes := by
    have length : (wbuff.take k).length = k := List.length_take_of_le first.le
    have joined := store_append fp.fptr.toNat (wbuff.take k) ((wbuff.drop k).take l) fp.bytes
    rw [second.bytes, first.bytes, first.fptr, List.take_add]
    rwa [length] at joined
  fsize := second.fsize.trans first.fsize
  flag := second.flag.trans first.flag

/-- One turn of the loop writes at least a byte, or the disk is full. -/
theorem writeTurn_cases {wbuff : List (BitVec 8)} (placed : fp.Placed fs) (more : wbuff ≠ [])
    (small : fp.fptr.toNat + wbuff.length < 2 ^ 32) :
    (∃ k fs' fp', 0 < k ∧ writeTurn wbuff fs fp = some (wbuff.drop k, fs', fp') ∧
      Wrote wbuff k fs fp fs' fp') ∨
    (writeTurn wbuff fs fp = none ∧ fp.clusters ≤ fp.fptr.toNat / fs.bcs) := by
  have length : 0 < wbuff.length := List.length_pos_iff.mpr more
  rw [writeTurn, writeCluster_eq placed]
  by_cases room : fp.fptr.toNat / fs.bcs < fp.clusters ∨ fs.free ≠ 0
  · left
    rw [if_pos room, Option.map_some]
    have positive := fs.bcs_pos
    have split := Nat.div_add_mod fp.fptr.toNat fs.bcs
    have bounds := writeCount_bounds fp.fptr.toNat fs.csize_pos length
    change _ ∧ _ ∧ fp.fptr.toNat % fs.bcs + _ ≤ fs.bcs at bounds
    set k := writeCount fs.csize fp.fptr.toNat wbuff.length with count
    obtain ⟨more, le, within⟩ := bounds
    have advanced : (fp.fptr + BitVec.ofNat 32 k).toNat = fp.fptr.toNat + k := by
      rw [BitVec.toNat_add, BitVec.toNat_ofNat]
      omega
    have covers : fs.bcs * (fp.fptr.toNat / fs.bcs + 1) ≤
        max fp.clusters (fp.fptr.toNat / fs.bcs + 1) * fs.bcs := by
      rw [Nat.mul_comm fs.bcs]
      exact Nat.mul_le_mul_right _ (le_max_right _ _)
    refine ⟨k, _, _, more, rfl, le, ⟨?_, ?_, ?_⟩, rfl, advanced, rfl, rfl, rfl⟩
    · change (fp.fptr + BitVec.ofNat 32 k).toNat ≤
        max fp.clusters (fp.fptr.toNat / fs.bcs + 1) * fs.bcs
      refine Nat.le_trans ?_ covers
      rw [advanced, Nat.mul_succ]
      omega
    · exact Nat.le_trans placed.covered (Nat.mul_le_mul_right _ (le_max_left _ _))
    · intro _
      change fp.fptr.toNat / fs.bcs = ((fp.fptr + BitVec.ofNat 32 k).toNat - 1) / fs.bcs
      rw [advanced]
      symm
      apply Nat.div_eq_of_lt_le
      · rw [Nat.mul_comm]
        omega
      · rw [Nat.mul_comm, Nat.mul_add, Nat.mul_one]
        omega
  · right
    rw [if_neg room]
    exact ⟨rfl, by omega⟩

/-- The loop writes up to the end, or until the disk is full. -/
theorem writeLoop_wrote {turns : Nat} {wbuff : List (BitVec 8)} (placed : fp.Placed fs)
    (enough : wbuff.length ≤ turns) (small : fp.fptr.toNat + wbuff.length < 2 ^ 32) :
    ∃ k fs' fp', writeLoop turns wbuff fs fp = (wbuff.drop k, fs', fp') ∧
      Wrote wbuff k fs fp fs' fp' ∧
      (wbuff ≠ [] → fp.fptr.toNat / fs.bcs < fp.clusters → 0 < k) := by
  induction turns generalizing wbuff fs fp with
  | zero =>
      obtain rfl := List.length_eq_zero_iff.mp (Nat.le_zero.mp enough)
      exact ⟨0, fs, fp, rfl, Wrote.refl [] placed, fun more => absurd rfl more⟩
  | succ turns ih =>
      rw [writeLoop]
      by_cases none : wbuff = []
      · rw [if_pos none, none]
        exact ⟨0, fs, fp, rfl, Wrote.refl [] placed, fun more => absurd rfl more⟩
      · rw [if_neg none]
        rcases writeTurn_cases placed none small with ⟨k, fs₁, fp₁, more, turn, first⟩ | ⟨turn, full⟩
        · have dropped : (wbuff.drop k).length = wbuff.length - k := List.length_drop
          have le := first.le
          have moved := first.fptr
          have enough' : (wbuff.drop k).length ≤ turns := by omega
          obtain ⟨l, fs₂, fp₂, rest, second, -⟩ := ih first.placed enough' (by omega)
          rw [turn]
          refine ⟨k + l, fs₂, fp₂, ?_, first.trans second, fun _ _ => Nat.add_pos_left more l⟩
          rw [← List.drop_drop]
          exact rest
        · rw [turn]
          refine ⟨0, fs, fp, rfl, Wrote.refl wbuff placed, ?_⟩
          intro _ linked
          omega

/-- `FA_WRITTEN` says nothing about errors. -/
theorem healthy_written {flag : BitVec 8} (healthy : flag &&& FA_ERROR = 0) :
    (flag ||| FA_WRITTEN) &&& FA_ERROR = 0 := by
  rw [BitVec.and_or_distrib_right, healthy]
  decide

/-- `FA_WRITTEN` says nothing about the access mode. -/
theorem and_write_written (flag : BitVec 8) : (flag ||| FA_WRITTEN) &&& FA_WRITE = flag &&& FA_WRITE := by
  rw [BitVec.and_or_distrib_right]
  exact BitVec.or_zero

/-- A sum of 32 bits is less than one of its terms when it does not fit. -/
theorem wraps_iff (fsize : BitVec 32) {length : Nat} (small : length < 2 ^ 32) :
    fsize + BitVec.ofNat 32 length < fsize ↔ 2 ^ 32 ≤ fsize.toNat + length := by
  have bound := fsize.isLt
  rw [BitVec.lt_def, BitVec.toNat_add, BitVec.toNat_ofNat]
  omega

/-- The size of a file follows the file pointer upwards. -/
theorem toNat_grown (fptr fsize : BitVec 32) :
    (if fptr > fsize then fptr else fsize).toNat = max fsize.toNat fptr.toNat := by
  split
  · next grows => exact (max_eq_right (Nat.le_of_lt (BitVec.lt_def.mp grows))).symm
  · next stays => exact (max_eq_left (Nat.le_of_not_lt fun grows => stays (BitVec.lt_def.mpr grows))).symm

/-- The file object at the end of `f_write`. -/
def Fil.grown (fp : Fil) : Fil :=
  { fp with
    fsize := if fp.fptr > fp.fsize then fp.fptr else fp.fsize
    flag := fp.flag ||| FA_WRITTEN }

theorem Fil.Placed.grown (placed : fp.Placed fs) (healthy : fp.flag &&& FA_ERROR = 0) : fp.grown.Ok fs where
  placed := by
    refine ⟨placed.reached, ?_, placed.current⟩
    change (if fp.fptr > fp.fsize then fp.fptr else fp.fsize).toNat ≤ fp.clusters * fs.bcs
    rw [toNat_grown]
    exact max_le placed.covered placed.reached
  inside := by
    change fp.fptr.toNat ≤ (if fp.fptr > fp.fsize then fp.fptr else fp.fsize).toNat
    rw [toNat_grown]
    exact le_max_right _ _
  healthy := healthy_written healthy

/-- `f_write` puts the bytes at the file pointer and advances it. It writes nothing that would make
the file longer than it can be, and stops when the disk is full. -/
theorem fWrite_spec {buff : List (BitVec 8)} (ok : fp.Ok fs) (writable : fp.flag &&& FA_WRITE ≠ 0)
    (length : buff.length < 2 ^ 32) :
    ∃ k fs' fp', fWrite buff fs fp = (.ok, k, fs', fp') ∧ k ≤ buff.length ∧ fp'.Ok fs' ∧
      fp'.fptr.toNat = fp.fptr.toNat + k ∧ fp'.fsize.toNat = max fp.fsize.toNat (fp.fptr.toNat + k) ∧
      fp'.bytes = store fp.fptr.toNat (buff.take k) fp.bytes ∧ fp'.flag = fp.flag ||| FA_WRITTEN ∧
      (2 ^ 32 ≤ fp.fsize.toNat + buff.length → k = 0) ∧
      (buff ≠ [] → fp.fsize.toNat + buff.length < 2 ^ 32 → fp.fptr.toNat / fs.bcs < fp.clusters →
        0 < k) := by
  have inside := ok.inside
  have bound := fp.fsize.isLt
  have wraps := wraps_iff fp.fsize length
  have fits : fp.fptr.toNat +
      (if fp.fsize + BitVec.ofNat 32 buff.length < fp.fsize then [] else buff).length < 2 ^ 32 := by
    split
    · rw [List.length_nil]
      omega
    · next stays =>
        rw [wraps] at stays
        omega
  obtain ⟨k, fs', fp', loop, wrote, progress⟩ := writeLoop_wrote ok.placed (Nat.le_refl _) fits
  have le := wrote.le
  have healthy : fp'.flag &&& FA_ERROR = 0 := by
    rw [wrote.flag]
    exact ok.healthy
  refine ⟨k, fs', fp'.grown, ?_, ?_, wrote.placed.grown healthy, wrote.fptr, ?_, ?_, ?_, ?_, ?_⟩
  · rw [fWrite, if_neg (not_not.mpr ok.healthy), if_neg writable]
    simp only [loop, List.length_drop]
    rw [Nat.sub_sub_self le]
    rfl
  · refine Nat.le_trans le ?_
    split
    · exact Nat.zero_le _
    · exact Nat.le_refl _
  · change (if fp'.fptr > fp'.fsize then fp'.fptr else fp'.fsize).toNat = _
    rw [toNat_grown, wrote.fptr, wrote.fsize]
  · change fp'.bytes = _
    rw [wrote.bytes]
    split at le
    · rw [Nat.le_zero.mp le, List.take_zero, List.take_zero]
    · next whole => rw [if_neg whole]
  · change fp'.flag ||| FA_WRITTEN = _
    rw [wrote.flag]
  · intro large
    rw [if_pos (wraps.mpr large)] at le
    exact Nat.le_zero.mp le
  · intro more fit linked
    rw [if_neg (by rw [wraps]; omega)] at progress
    exact progress more linked

theorem length_content (fsize : BitVec 32) (bytes : Nat → BitVec 8) :
    (content fsize bytes).length = fsize.toNat := by
  rw [content, List.length_map, List.length_range]

/-- The content after a store at a place within the file or at its end. -/
theorem content_store {fsize fsize' : BitVec 32} {ofs : Nat} (data : List (BitVec 8))
    (bytes : Nat → BitVec 8) (inside : ofs ≤ fsize.toNat)
    (size : fsize'.toNat = max fsize.toNat (ofs + data.length)) :
    content fsize' (store ofs data bytes) =
      (content fsize bytes).take ofs ++ data ++ (content fsize bytes).drop (ofs + data.length) := by
  have old := length_content fsize bytes
  apply List.ext_getElem
  · rw [length_content, size, List.length_append, List.length_append, List.length_take, List.length_drop, old]
    omega
  · intro o here there
    rw [length_content, size] at here
    simp only [content, List.getElem_map, List.getElem_range, List.getElem_append, List.getElem_take,
      List.getElem_drop, List.length_append, List.length_take, List.length_map, List.length_range, store]
    by_cases before : o < ofs
    · rw [if_neg (by omega), dif_pos (by omega), dif_pos (by omega)]
    · by_cases within : o < ofs + data.length
      · rw [if_pos (by omega), dif_pos (by omega), dif_neg (by omega), List.getD_eq_getElem?_getD,
          List.getElem?_eq_getElem (by omega)]
        simp only [Option.getD_some]
        congr 1
        omega
      · rw [if_neg (by omega), dif_neg (by omega)]
        congr 1
        omega

end

end Cineraria.FatFs
