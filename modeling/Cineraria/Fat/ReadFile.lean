import Cineraria.Fat.Content

/-!
# Reading a file

`f_read` on a drive without faults: it gives the bytes of the file from the file pointer on, whatever way they
come, and changes nothing that can be seen.
-/

namespace Cineraria.Fat

open Chain

/-! ## Offsets -/

section
variable {v : Volume} {n k : Nat}

theorem csect_eq (v : Volume) (n : Nat) : csect v n = n / SS % v.csize := v.and_mask _

theorem csect_lt (v : Volume) (n : Nat) : csect v n < v.csize := csect_eq v n ▸ Nat.mod_lt _ v.csize_pos

theorem mod_bcs (v : Volume) (n : Nat) : n % v.bcs = n % SS + SS * csect v n := by
  rw [csect_eq, Volume.bcs, Nat.mul_comm, Nat.mod_mul]

theorem div_csize (v : Volume) (n : Nat) : n / SS / v.csize = n / v.bcs := by
  rw [Nat.div_div_eq_div_mul, Nat.mul_comm, Volume.bcs]

theorem sector_lt {chain : List Nat} (inside : n < chain.length * v.bcs) : n / SS < chain.length * v.csize := by
  rw [Nat.div_lt_iff_lt_mul (by decide), Nat.mul_assoc]
  exact inside

/-- Whole sectors on, the offset in the sector is the same. -/
theorem aligned_add (aligned : n % SS = 0) : (n + k) / SS = n / SS + k / SS ∧ (n + k) % SS = k % SS := by
  simp only [SS] at *
  omega

/-- The bytes up to the end of a sector. -/
theorem sector_rest (n : Nat) : n % SS < SS ∧ ∀ {k : Nat}, k < SS - n % SS → (n + k) / SS = n / SS := by
  refine ⟨Nat.mod_lt _ (by decide), fun {k} less => ?_⟩
  simp only [SS] at *
  omega

/-- The last of some bytes in one cluster. -/
theorem div_bcs_within (more : 0 < k) (within : n % v.bcs + k ≤ v.bcs) : (n + k - 1) / v.bcs = n / v.bcs := by
  have split := Nat.div_add_mod n v.bcs
  rw [Nat.mul_comm] at split
  exact Nat.div_eq_of_lt_le (by omega) (by rw [Nat.succ_mul]; omega)

/-- A part of a sector lies in one cluster, and if it does not reach the end of its sector the next byte does too. -/
theorem part_within (v : Volume) (n btr : Nat) :
    n % v.bcs + min (SS - n % SS) btr ≤ v.bcs ∧
      ((n + min (SS - n % SS) btr) % SS ≠ 0 → (n + min (SS - n % SS) btr) / SS = n / SS) := by
  have cluster := mod_bcs v n
  obtain ⟨below, rest⟩ := sector_rest n
  have bytes : SS * csect v n + SS ≤ v.bcs := by
    rw [Volume.bcs, Nat.mul_comm v.csize, ← Nat.mul_succ]
    exact Nat.mul_le_mul_left SS (csect_lt v n)
  refine ⟨by omega, fun between => rest (Nat.lt_of_le_of_ne (Nat.min_le_left _ _) fun whole => between ?_)⟩
  rw [whole, ← Nat.add_sub_assoc (Nat.le_of_lt below)]
  exact Nat.mod_eq_zero_of_dvd ⟨n / SS + 1, by have := Nat.div_add_mod n SS; rw [Nat.mul_succ]; omega⟩

/-- Sectors that are transferred directly are in one cluster. -/
theorem clipped_bounds (v : Volume) (fptr : Nat) (some : n / SS ≠ 0) :
    0 < clipped v fptr n ∧ csect v fptr + clipped v fptr n ≤ v.csize ∧ SS * clipped v fptr n ≤ n := by
  have below : csect v fptr < v.csize := csect_lt v fptr
  have whole := Nat.mul_div_le n SS
  have positive := Nat.pos_of_ne_zero some
  by_cases clip : csect v fptr + n / SS > v.csize
  · have less : v.csize - csect v fptr ≤ n / SS := by omega
    have := Nat.mul_le_mul_left SS less
    rw [clipped, if_pos clip]
    omega
  · rw [clipped, if_neg clip]
    omega

end

/-! ## The current cluster -/

section
variable {v : Volume} {fs fs' : Fatfs} {fp fp' : Fil} {chain : List Nat} {n btr : Nat}

/-- Inside a cluster the current cluster is that of the file pointer. -/
theorem FileOk.current (ok : FileOk v fs fp chain) (between : fp.fptr % v.bcs ≠ 0) :
    chain[fp.fptr / v.bcs]? = some fp.clust := by
  have split := Nat.div_add_mod fp.fptr v.bcs
  have below := Nat.mod_lt fp.fptr v.bcs_pos
  rw [Nat.mul_comm] at split
  have same : (fp.fptr - 1) / v.bcs = fp.fptr / v.bcs :=
    Nat.div_eq_of_lt_le (by omega) (by rw [Nat.succ_mul]; omega)
  rw [← same]
  exact ok.clust (by omega)

/-- At the beginning of a cluster the current cluster is the one before. -/
theorem FileOk.previous (ok : FileOk v fs fp chain) (boundary : fp.fptr % v.bcs = 0) (started : fp.fptr ≠ 0) :
    ∃ q, fp.fptr / v.bcs = q + 1 ∧ chain[q]? = some fp.clust := by
  obtain ⟨q, whole⟩ := Nat.dvd_of_mod_eq_zero boundary
  have positive := v.bcs_pos
  cases q with
  | zero => exact absurd whole started
  | succ q =>
    refine ⟨q, by rw [whole, Nat.mul_div_cancel_left _ positive], ?_⟩
    have before : (fp.fptr - 1) / v.bcs = q := by
      rw [whole, Nat.mul_succ]
      exact Nat.div_eq_of_lt_le (by rw [Nat.mul_comm]; omega) (by rw [Nat.succ_mul, Nat.mul_comm]; omega)
    rw [← before]
    exact ok.clust (by omega)

theorem currentSector_eq (ok : FileBase v fs fp chain) (current : chain[fp.fptr / v.bcs]? = some fp.clust) :
    currentSector v fp = fileSector v chain (fp.fptr / SS) := by
  have range := ok.range _ (List.mem_of_getElem? current)
  rw [currentSector, if_neg (clust2sect_far range.1 range.2).2, fileSector, div_csize, csect_eq,
    List.getD_eq_getElem?_getD, current, Option.getD_some]

/-- A cluster that is not the last one of its chain. -/
theorem IsChain.link_at {t : Nat → Link Nat} {q c : Nat} (chained : IsChain t chain) (get : chain[q]? = some c)
    (more : q + 1 < chain.length) : t c = .next chain[q + 1] := by
  obtain ⟨lt, is⟩ := List.getElem?_eq_some_iff.mp get
  have split : chain = chain.take q ++ c :: chain[q + 1] :: chain.drop (q + 2) := by
    conv_lhs => rw [← List.take_append_drop q chain, List.drop_eq_getElem_cons lt, is, List.drop_eq_getElem_cons more]
  rw [split] at chained
  exact chained.link

/-! ## The steps of a turn -/

variable {faults : Faults}

/-- All that reading does to the file object and the volume. -/
structure Reads (v : Volume) (chain : List Nat) (n : Nat) (fs : Fatfs) (fp : Fil) (fs' : Fatfs) (fp' : Fil) : Prop where
  base : FileBase v fs' fp' chain
  fptr : fp'.fptr = fp.fptr + n
  fsize : fp'.fsize = fp.fsize
  flag : fp'.flag = fp.flag
  entry : fp'.dirSect = fp.dirSect ∧ fp'.dirPtr = fp.dirPtr
  view : ∀ i, v.Primary i → fileView fs' fp' i = fileView fs fp i
  touched : Touched v chain chain fs fs'
  links : links v fs'.view = links v fs.view
  clean : fp.dirty = false → fp'.dirty = false

theorem Reads.trans {n m : Nat} {fs'' : Fatfs} {fp'' : Fil} (a : Reads v chain n fs fp fs' fp')
    (b : Reads v chain m fs' fp' fs'' fp'') : Reads v chain (n + m) fs fp fs'' fp'' where
  base := b.base
  fptr := by rw [b.fptr, a.fptr, Nat.add_assoc]
  fsize := b.fsize.trans a.fsize
  flag := b.flag.trans a.flag
  entry := ⟨b.entry.1.trans a.entry.1, b.entry.2.trans a.entry.2⟩
  view i primary := (b.view i primary).trans (a.view i primary)
  touched := a.touched.trans b.touched
  links := b.links.trans a.links
  clean := b.clean ∘ a.clean

theorem Reads.byte (a : Reads v chain n fs fp fs' fp') {o : Nat} (inside : o < chain.length * v.bcs) :
    fileByte v chain fs' fp' o = fileByte v chain fs fp o := by
  rw [fileByte, fileByte, a.view _ (a.base.fileSector_primary (sector_lt inside)).1]

/-- Reading the FAT, and changing the current cluster. -/
theorem FatRead.reads (same : FatRead v fs fs') (ok : FileBase v fs fp chain) (c : Nat) :
    Reads v chain 0 fs fp fs' { fp with clust := c } := by
  have read := ok.read same
  exact ⟨⟨read.windowOk, read.chained, read.start, read.room, read.window, read.place, read.dirty, read.copy⟩, rfl, rfl,
    rfl, ⟨rfl, rfl⟩, fun i primary => same.fileView primary, same.touched, same.links, id⟩

/-- The buffer holds the sector of the file pointer. -/
theorem loadBuf_spec (healthy : ∀ k, faults k = none) (ok : FileBase v fs fp chain)
    (inside : fp.fptr < chain.length * v.bcs) :
    ∃ fs' fp', loadBuf faults (fileSector v chain (fp.fptr / SS)) fs fp = (.ok, fs', fp') ∧
      fp'.dsect = fileSector v chain (fp.fptr / SS) ∧ fp'.clust = fp.clust ∧ Reads v chain 0 fs fp fs' fp' := by
  by_cases here : fp.dsect = fileSector v chain (fp.fptr / SS)
  · exact ⟨fs, fp, by rw [loadBuf, if_pos here], here, rfl, (FatRead.refl ok.windowOk).reads ok fp.clust⟩
  · obtain ⟨fs1, run1, ok1, view1, touched1, links1⟩ := flushBuf_spec healthy ok
    obtain ⟨fs2, run2, ok2, view2, same2⟩ := fillBuf_spec healthy ok1 (getD_of_lt (sector_lt inside))
      (fileSector_inCluster v chain (fp.fptr / SS))
    set sect := fileSector v chain (fp.fptr / SS) with hsect
    refine ⟨fs2, { fp with dirty := false, buf := fs1.view sect, dsect := sect },
      by rw [loadBuf, if_neg here, run1]; exact run2, rfl, rfl, ok2, rfl, rfl, rfl, ⟨rfl, rfl⟩,
      fun i _ => ?_, touched1.trans same2.touched, same2.links.trans links1, fun _ => rfl⟩
    rw [← view1]
    simp [fileView_apply, view2]

/-- The content of a file. -/
def content (v : Volume) (chain : List Nat) (fs : Fatfs) (fp : Fil) : List (BitVec 8) :=
  (List.range fp.fsize).map (fileByte v chain fs fp)

end

end Cineraria.Fat
