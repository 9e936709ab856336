import Cineraria.Fat.WriteFile

/-!
# Moving the file pointer

`f_lseek` on a drive without faults: it puts the file pointer where it is told, or at the end of the file. A file
that may be written is stretched, up to the end of its chain when no cluster is free.
-/

namespace Cineraria.Fat

open Chain

section
variable {v : Volume} {fs fs' : Fatfs} {fp fp' : Fil} {chain chain' : List Nat} {faults : Faults}

/-- All that moving the file pointer does to the file object and the volume, but for the pointer. -/
structure Seeks (v : Volume) (chain chain' : List Nat) (fs : Fatfs) (fp : Fil) (fs' : Fatfs) (fp' : Fil) : Prop where
  base : FileBase v fs' fp' chain'
  fsize : fp'.fsize = fp.fsize
  flag : fp'.flag = fp.flag
  entry : fp'.dirSect = fp.dirSect ∧ fp'.dirPtr = fp.dirPtr
  pre : chain <+: chain'
  bytes : ∀ o < fp.fsize, fileByte v chain' fs' fp' o = fileByte v chain fs fp o
  touched : Touched v chain chain' fs fs'
  noBad : NoBad v fs → NoBad v fs'
  clean : fp.dirty = false → fp'.dirty = false

theorem Seeks.trans {chain'' : List Nat} {fs'' : Fatfs} {fp'' : Fil} (a : Seeks v chain chain' fs fp fs' fp')
    (b : Seeks v chain' chain'' fs' fp' fs'' fp'') : Seeks v chain chain'' fs fp fs'' fp'' where
  base := b.base
  fsize := b.fsize.trans a.fsize
  flag := b.flag.trans a.flag
  entry := ⟨b.entry.1.trans a.entry.1, b.entry.2.trans a.entry.2⟩
  pre := a.pre.trans b.pre
  bytes o inside := (b.bytes o (a.fsize ▸ inside)).trans (a.bytes o inside)
  touched := a.touched.trans b.touched
  noBad := b.noBad ∘ a.noBad
  clean := b.clean ∘ a.clean

theorem Writes.seeks (writes : Writes v chain chain' [] fs fp fs' fp') : Seeks v chain chain' fs fp fs' fp' :=
  ⟨writes.base, writes.fsize, writes.flag, writes.entry, writes.pre, fun o inside => by
    rw [writes.bytes o (Nat.lt_of_lt_of_le inside (Nat.le_max_left _ _)), FatFs.store_nil], writes.touched, writes.noBad,
    writes.clean rfl⟩

theorem Reads.seeks {n : Nat} (reads : Reads v chain n fs fp fs' fp') : Seeks v chain chain fs fp fs' fp' :=
  ⟨reads.base, reads.fsize, reads.flag, reads.entry, List.prefix_refl _, fun o inside => reads.byte (by
    have := reads.base.room
    have := reads.fsize
    omega), reads.touched, fun noBad => by rw [NoBad, reads.links]; exact noBad, reads.clean⟩

/-- The file pointer and the current cluster are set. -/
theorem FileBase.place_at (ok : FileBase v fs fp chain) {p : Nat} (room : p ≤ chain.length * v.bcs) (c : Nat) :
    Seeks v chain chain fs fp fs { fp with fptr := p, clust := c } :=
  ⟨⟨ok.windowOk, ok.chained, ok.start, max_le (Nat.le_trans (Nat.le_max_left _ _) ok.room) room, ok.window, ok.place,
    ok.dirty, ok.copy⟩, rfl, rfl, ⟨rfl, rfl⟩, List.prefix_refl _, fun _ _ => rfl, (FatRead.refl ok.windowOk).touched, id, id⟩

/-- The walk is at a cluster of the chain, with the file pointer at its beginning. -/
structure At (v : Volume) (chain : List Nat) (fp : Fil) (q : Nat) : Prop where
  clust : chain[q]? = some fp.clust
  fptr : fp.fptr = q * v.bcs

theorem At.cluster (here : At v chain fp q) (ok : FileBase v fs fp chain) :
    2 ≤ fp.clust ∧ fp.clust < v.nFatent := ok.range _ (List.mem_of_getElem? here.clust)

/-- The walk begins at the cluster of the file pointer or at the first one, unless there is none to be had. -/
theorem seekStart_spec (healthy : ∀ k, faults k = none) (ok : FileOk v fs fp chain) (noBad : NoBad v fs) {ofs : Nat}
    (some : 0 < ofs) :
    (∃ fs' fp', seekStart faults v ofs fs fp = (.ok, 0, ofs, fs', fp') ∧ chain = [] ∧
        (∀ c, links v fs.view c ≠ .free) ∧ fp'.fptr = 0 ∧ FatRead v fs fs' ∧ Seeks v chain chain fs fp fs' fp') ∨
      ∃ q fs' fp' chain', seekStart faults v ofs fs fp = (.ok, fp'.clust, ofs - q * v.bcs, fs', fp') ∧
        q * v.bcs < ofs ∧ At v chain' fp' q ∧ Seeks v chain chain' fs fp fs' fp' := by
  have base := ok.toFileBase
  by_cases forward : 0 < fp.fptr ∧ (ofs - 1) / v.bcs ≥ (fp.fptr - 1) / v.bcs
  · have low := Nat.mul_le_mul_right v.bcs forward.2
    have below := Nat.div_mul_le_self (ofs - 1) v.bcs
    have back := Nat.div_mul_le_self (fp.fptr - 1) v.bcs
    have room := ok.room
    exact .inr ⟨(fp.fptr - 1) / v.bcs, fs, { fp with fptr := (fp.fptr - 1) / v.bcs * v.bcs }, chain,
      by rw [seekStart]; exact if_pos forward, by omega, ⟨ok.clust forward.1, rfl⟩,
      base.place_at (by omega) fp.clust⟩
  · have start := ok.start
    cases chain with
    | nil =>
      rw [List.headD_nil] at start
      obtain ⟨r, fs1, run, ⟨rfl, none, same⟩ | ⟨lo, hi, writes⟩⟩ := createChain_first healthy base noBad
      · refine .inl ⟨fs1, { fp with fptr := 0, sclust := 0, clust := 0 }, ?_, rfl, none, rfl, same, ?_⟩
        · rw [seekStart]
          refine (if_neg forward).trans ?_
          rw [if_pos start, run]
          rfl
        · have reads := same.writes base 0
          have moved := reads.base.place_at (p := 0) (Nat.zero_le _) 0
          have back : ({ fp with fptr := 0, sclust := 0, clust := 0 } : Fil) = { fp with fptr := 0, clust := 0 } := by
            rw [start]
          rw [back]
          exact reads.seeks.trans moved
      · obtain ⟨n0, n1, n2⟩ := cluster_codes lo hi
        refine .inr ⟨0, fs1, { fp with fptr := 0, sclust := r, clust := r }, [r], ?_, by omega,
          ⟨rfl, by rw [Nat.zero_mul]⟩, writes.seeks.trans (writes.base.place_at (p := 0) (Nat.zero_le _) r)⟩
        rw [seekStart]
        refine (if_neg forward).trans ?_
        rw [if_pos start, run, Nat.zero_mul, Nat.sub_zero]
        simp only [n1, n2, if_false]
    | cons c cs =>
      rw [List.headD_cons] at start
      have nonzero := (cluster_codes (v := v) (ok.range c (by simp)).1 (ok.range c (by simp)).2).1
      refine .inr ⟨0, fs, { fp with fptr := 0, clust := c }, c :: cs, ?_, by omega, ⟨rfl, by rw [Nat.zero_mul]⟩,
        base.place_at (p := 0) (Nat.zero_le _) c⟩
      rw [seekStart]
      refine (if_neg forward).trans ?_
      rw [if_neg (start ▸ nonzero), Nat.zero_mul, Nat.sub_zero, start]

/-- The walk ends at the cluster of the offset, or at the end of the chain when no cluster is free. -/
theorem followLoop_spec (healthy : ∀ k, faults k = none) :
    ∀ (turns ofs q : Nat) (fs : Fatfs) (fp : Fil) (chain : List Nat), FileBase v fs fp chain → NoBad v fs →
      At v chain fp q → 0 < ofs → ofs ≤ turns →
      (fp.flag &&& Mmcfs.FA_WRITE = 0 → q * v.bcs + ofs ≤ chain.length * v.bcs) →
      ∃ q' clst ofs' fs' fp' chain', followLoop faults v turns fp.clust ofs fs fp = (.ok, clst, ofs', fs', fp') ∧
        At v chain' fp' q' ∧ 0 < ofs' ∧ ofs' ≤ v.bcs ∧ Seeks v chain chain' fs fp fs' fp' ∧
        (clst = fp'.clust ∧ q' * v.bcs + ofs' = q * v.bcs + ofs ∨
          ofs' = v.bcs ∧ q' + 1 = chain'.length ∧ (∀ c, links v fs'.view c ≠ .free) ∧
            q' * v.bcs + ofs' < q * v.bcs + ofs ∧ fp.flag &&& Mmcfs.FA_WRITE ≠ 0) := by
  intro turns
  induction turns with
  | zero =>
    intro ofs q fs fp chain base noBad here some none
    omega
  | succ turns ih =>
    intro ofs q fs fp chain base noBad here some left covers
    by_cases far : ofs > v.bcs
    · have positive := v.bcs_pos
      -- The rest of the walk, from the next cluster on.
      have walk : ∀ {r fs1 chain1}, chain1[q + 1]? = Option.some r → Writes v chain chain1 [] fs fp fs1 { fp with clust := r } →
          ∃ q' clst ofs' fs' fp' chain',
            followLoop faults v turns r (ofs - v.bcs) fs1 { fp with clust := r, fptr := fp.fptr + v.bcs } =
              (.ok, clst, ofs', fs', fp') ∧
            At v chain' fp' q' ∧ 0 < ofs' ∧ ofs' ≤ v.bcs ∧ Seeks v chain chain' fs fp fs' fp' ∧
            (clst = fp'.clust ∧ q' * v.bcs + ofs' = q * v.bcs + ofs ∨
              ofs' = v.bcs ∧ q' + 1 = chain'.length ∧ (∀ c, links v fs'.view c ≠ .free) ∧
                q' * v.bcs + ofs' < q * v.bcs + ofs ∧ fp.flag &&& Mmcfs.FA_WRITE ≠ 0) := by
        intro r fs1 chain1 next writes
        obtain ⟨lt, -⟩ := List.getElem?_eq_some_iff.mp next
        have inside := Nat.mul_le_mul_right v.bcs (Nat.le_of_lt lt)
        have step : fp.fptr + v.bcs = (q + 1) * v.bcs := by rw [here.fptr, Nat.succ_mul]
        have moved := writes.base.place_at (p := fp.fptr + v.bcs) (by rw [step]; exact inside) r
        have longer := Nat.mul_le_mul_right v.bcs writes.pre.length_le
        have sum : (q + 1) * v.bcs + (ofs - v.bcs) = q * v.bcs + ofs := by
          rw [Nat.succ_mul]
          omega
        obtain ⟨q', clst, ofs', fs2, fp2, chain2, run, at2, pos, le, seeks, result⟩ :=
          ih (ofs - v.bcs) (q + 1) fs1 { fp with clust := r, fptr := fp.fptr + v.bcs } chain1 moved.base
            (writes.noBad noBad) ⟨next, step⟩ (by omega) (by omega) fun readOnly => by
              have := covers readOnly
              omega
        rw [sum] at result
        exact ⟨q', clst, ofs', fs2, fp2, chain2, run, at2, pos, le, (writes.seeks.trans moved).trans seeks, result⟩
      have codes : ∀ {r}, 2 ≤ r → r < v.nFatent → ¬(fp.flag &&& Mmcfs.FA_WRITE ≠ 0 ∧ r = 0) ∧ r ≠ 0xFFFFFFFF ∧
          ¬(r ≤ 1 ∨ v.nFatent ≤ r) := fun {r} lo hi => by
        have := cluster_codes lo hi
        omega
      by_cases writable : fp.flag &&& Mmcfs.FA_WRITE ≠ 0
      · obtain ⟨r, fs1, run, ⟨rfl, length, none, same⟩ | ⟨chain1, next, lo, hi, writes⟩⟩ :=
          createChain_next healthy base noBad here.clust
        · refine ⟨q, 0, v.bcs, fs1, fp, chain, ?_, here, positive, Nat.le_refl _, (same.writes base fp.clust).seeks,
            .inr ⟨rfl, length, by rw [same.links]; exact none, by omega, writable⟩⟩
          rw [followLoop]
          refine (if_pos far).trans ?_
          rw [if_pos writable, run]
          simp only [ne_eq, writable, not_false_eq_true, and_self, if_true]
          rfl
        · obtain ⟨a, b, c⟩ := codes lo hi
          obtain ⟨q', clst, ofs', fs2, fp2, chain2, run2, rest⟩ := walk next writes
          refine ⟨q', clst, ofs', fs2, fp2, chain2, ?_, rest⟩
          rw [followLoop]
          refine (if_pos far).trans ?_
          rw [if_pos writable, run]
          simp only [a, b, c, if_false]
          exact run2
      · have readOnly : fp.flag &&& Mmcfs.FA_WRITE = 0 := not_not.mp writable
        have covered := covers readOnly
        have more : q + 1 < chain.length := by
          by_contra ends
          have := Nat.mul_le_mul_right v.bcs (show chain.length ≤ q + 1 by omega)
          rw [Nat.succ_mul] at this
          omega
        have link := IsChain.link_at (base.chained (List.ne_nil_of_mem (List.mem_of_getElem? here.clust))) here.clust more
        obtain ⟨lo, hi⟩ := here.cluster base
        cases hg : getFat faults v fp.clust fs with
        | mk val fs1 =>
          obtain ⟨same, ⟨-, faulty⟩ | ⟨-, read, -⟩⟩ := getFat_link base.windowOk lo hi hg
          · exact absurd faulty (Faults.not_some healthy)
          · obtain ⟨eq, low, high⟩ := Volume.link_eq_next.mp (read.symm.trans link)
            obtain ⟨a, b, c⟩ := codes low high
            obtain ⟨q', clst, ofs', fs2, fp2, chain2, run2, rest⟩ :=
              walk (List.getElem?_eq_getElem more) (same.writes base chain[q + 1])
            refine ⟨q', clst, ofs', fs2, fp2, chain2, ?_, rest⟩
            rw [followLoop]
            refine (if_pos far).trans ?_
            rw [if_neg writable, hg]
            simp only [eq, a, b, c, if_false]
            exact run2
    · refine ⟨q, fp.clust, ofs, fs, fp, chain, ?_, here, some, by omega, ((FatRead.refl base.windowOk).writes base fp.clust).seeks,
        .inl ⟨rfl, rfl⟩⟩
      rw [followLoop]
      exact if_neg far

/-- The walk to an offset, which lies in the file if the file may not be written. -/
theorem seekWalk_spec (healthy : ∀ k, faults k = none) (ok : FileOk v fs fp chain) (noBad : NoBad v fs) {ofs : Nat}
    (readOnly : fp.flag &&& Mmcfs.FA_WRITE = 0 → ofs ≤ fp.fsize) :
    ∃ nsect fs' fp' chain', seekWalk faults v ofs fs fp = (.ok, nsect, fs', fp') ∧ Seeks v chain chain' fs fp fs' fp' ∧
      (0 < fp'.fptr → chain'[(fp'.fptr - 1) / v.bcs]? = some fp'.clust) ∧
      (fp'.fptr % SS ≠ 0 → nsect = fileSector v chain' (fp'.fptr / SS)) ∧ (fp'.fptr = 0 → chain' = chain) ∧
      (fp'.fptr = ofs ∨ fp'.fptr < ofs ∧ fp.flag &&& Mmcfs.FA_WRITE ≠ 0 ∧ fp'.fptr = chain'.length * v.bcs ∧
        ∀ c, links v fs'.view c ≠ .free) := by
  have base := ok.toFileBase
  by_cases zero : ofs = 0
  · exact ⟨0, fs, { fp with fptr := 0 }, chain, by rw [seekWalk, if_pos zero],
      base.place_at (p := 0) (Nat.zero_le _) fp.clust, fun some => absurd some (Nat.lt_irrefl 0),
      fun between => absurd (Nat.zero_mod SS) between, fun _ => rfl, .inl zero.symm⟩
  have room := ok.room
  rcases seekStart_spec healthy ok noBad (Nat.pos_of_ne_zero zero) with
    ⟨fs1, fp1, run, rfl, none, fptr, same, seeks⟩ | ⟨q, fs1, fp1, chain1, run, below, at1, seeks1⟩
  · -- There is no cluster, and none can be had.
    refine ⟨0, fs1, fp1, [], by rw [seekWalk, if_neg zero, run]; rfl, seeks, fun some => by omega,
      fun between => absurd (by rw [fptr]; exact Nat.zero_mod SS) between, fun _ => rfl, .inr ⟨by omega, fun clipped => ?_, by simp [fptr], ?_⟩⟩
    · have := readOnly clipped
      simp only [List.length_nil, Nat.zero_mul] at room
      omega
    · rw [same.links]
      exact none
  · obtain ⟨lo, hi⟩ := at1.cluster seeks1.base
    have longer := Nat.mul_le_mul_right v.bcs seeks1.pre.length_le
    obtain ⟨q', clst, ofs', fs2, fp2, chain2, run2, at2, pos, le, seeks2, result⟩ :=
      followLoop_spec healthy (ofs - q * v.bcs) (ofs - q * v.bcs) q fs1 fp1 chain1 seeks1.base (seeks1.noBad noBad) at1
        (by omega) (Nat.le_refl _) fun clipped => by
          rw [seeks1.flag] at clipped
          have := readOnly clipped
          omega
    have aligned : fp2.fptr % v.bcs = 0 := by rw [at2.fptr, Nat.mul_mod_left]
    have within : fp2.fptr % v.bcs + ofs' ≤ v.bcs := by omega
    have index : fp2.fptr / v.bcs = q' := by rw [at2.fptr, Nat.mul_div_cancel _ v.bcs_pos]
    have room2 : fp2.fptr + ofs' ≤ chain2.length * v.bcs := room_of_current (index.symm ▸ at2.clust) within
    have moved := seeks2.base.place_at room2 fp2.clust
    have sector : ∃ nsect, seekSector v clst ofs' = (.ok, nsect) ∧
        ((fp2.fptr + ofs') % SS ≠ 0 → nsect = fileSector v chain2 ((fp2.fptr + ofs') / SS)) := by
      have split := mod_bcs v fp2.fptr
      have sectorAligned : fp2.fptr % SS = 0 := by omega
      obtain ⟨quotient, remainder⟩ := aligned_add (k := ofs') sectorAligned
      by_cases between : ofs' % SS ≠ 0
      · have current : clst = fp2.clust ∧ ofs' ≠ v.bcs := by
          have whole : v.bcs % SS = 0 := Nat.mul_mod_left _ _
          rcases result with ⟨same, -⟩ | ⟨full, -⟩
          · exact ⟨same, fun eq => between (eq ▸ whole)⟩
          · exact absurd (full ▸ whole) between
        have range := at2.cluster seeks2.base
        refine ⟨clust2sect v clst + ofs' / SS, ?_, fun _ => ?_⟩
        · rw [seekSector, if_pos between, current.1]
          exact if_neg (clust2sect_far range.1 range.2).2
        · have inside : (fp2.fptr + ofs') / v.bcs = q' := by
            rw [at2.fptr]
            exact Nat.div_eq_of_lt_le (by omega) (by rw [Nat.succ_mul]; omega)
          have sect := mod_bcs v (fp2.fptr + ofs')
          rw [fileSector, div_csize, inside, List.getD_eq_getElem?_getD, at2.clust, Option.getD_some, current.1]
          congr 1
          have small : ofs' < v.bcs := by omega
          rw [Volume.bcs, ← Nat.div_lt_iff_lt_mul (by decide)] at small
          have whole : fp2.fptr / SS % v.csize = 0 := by
            rw [← csect_eq]
            by_contra some
            have := Nat.mul_ne_zero (show SS ≠ 0 by decide) some
            omega
          rw [quotient, Nat.add_mod, whole, Nat.zero_add, Nat.mod_mod, Nat.mod_eq_of_lt small]
      · refine ⟨0, by rw [seekSector, if_neg between], fun apart => absurd (remainder ▸ apart) between⟩
    obtain ⟨nsect, run3, shown⟩ := sector
    refine ⟨nsect, fs2, { fp2 with fptr := fp2.fptr + ofs' }, chain2, ?_, (seeks1.trans seeks2).trans moved, fun _ => ?_, shown,
      fun zero => by simp only at zero; omega, ?_⟩
    · rw [seekWalk, if_neg zero, run]
      simp only [if_neg (show fp1.clust ≠ 0 by omega), run2, run3]
    · simp only
      rw [div_bcs_within pos within, index]
      exact at2.clust
    · have fptr2 := at2.fptr
      simp only [fptr2]
      rcases result with ⟨-, whole⟩ | ⟨rfl, length, none, less, writable⟩
      · exact .inl (by omega)
      · refine .inr ⟨by omega, seeks1.flag ▸ writable, by rw [← length, Nat.succ_mul], none⟩

/-- `f_lseek` puts the file pointer at the offset, clipped at the size of a file that may not be written. Only when no
cluster is free and the chain ends before the offset does it stop there. What the file held it still holds. -/
theorem fLseek_spec (healthy : ∀ k, faults k = none) (ok : FileOk v fs fp chain) (noBad : NoBad v fs)
    (noError : fp.flag &&& FatFs.FA_ERROR = 0) (ofs : Nat) :
    ∃ fs' fp' chain', fLseek faults v ofs fs fp = (.ok, fs', fp') ∧ FileOk v fs' fp' chain' ∧
      fp'.fsize = max fp.fsize fp'.fptr ∧
      fp'.flag = (if fp.fsize < fp'.fptr then fp.flag ||| FatFs.FA_WRITTEN else fp.flag) ∧
      (fp'.dirSect = fp.dirSect ∧ fp'.dirPtr = fp.dirPtr) ∧ chain <+: chain' ∧
      (∀ o < fp.fsize, fileByte v chain' fs' fp' o = fileByte v chain fs fp o) ∧ Touched v chain chain' fs fs' ∧
      NoBad v fs' ∧ (fp'.fptr = 0 → chain' = chain) ∧ (fp.dirty = false → fp'.dirty = false) ∧
      (fp'.fptr = (if fp.fsize < ofs ∧ fp.flag &&& Mmcfs.FA_WRITE = 0 then fp.fsize else ofs) ∨
        fp'.fptr < ofs ∧ fp.flag &&& Mmcfs.FA_WRITE ≠ 0 ∧ fp'.fptr = chain'.length * v.bcs ∧
          ∀ c, links v fs'.view c ≠ .free) := by
  set clip := if ofs > fp.fsize ∧ fp.flag &&& Mmcfs.FA_WRITE = 0 then fp.fsize else ofs with hclip
  have readOnly : fp.flag &&& Mmcfs.FA_WRITE = 0 → clip ≤ fp.fsize := fun clipped => by
    rw [hclip]
    split <;> [exact Nat.le_refl _; (next h => by_contra more; exact h ⟨by omega, clipped⟩)]
  obtain ⟨nsect, fs1, fp1, chain1, run1, seeks1, clust1, sector1, start1, result⟩ := seekWalk_spec healthy ok noBad readOnly
  have room := seeks1.base.room
  -- Inside a sector the buffer is made to hold it.
  have load : ∃ fs2 fp2, (if fp1.fptr % SS ≠ 0 then loadBuf faults nsect fs1 fp1 else (.ok, fs1, fp1)) =
      (.ok, fs2, fp2) ∧ FileOk v fs2 fp2 chain1 ∧ fp2.fptr = fp1.fptr ∧ Reads v chain1 0 fs1 fp1 fs2 fp2 := by
    by_cases between : fp1.fptr % SS ≠ 0
    · have inside : fp1.fptr < chain1.length * v.bcs := by
        refine Nat.lt_of_le_of_ne (Nat.le_trans (Nat.le_max_right _ _) room) fun ends => between ?_
        rw [ends, Volume.bcs, ← Nat.mul_assoc, Nat.mul_mod_left]
      rw [if_pos between, sector1 between]
      obtain ⟨fs2, fp2, run2, here2, clust2, reads2⟩ := loadBuf_spec healthy seeks1.base inside
      have fptr2 : fp2.fptr = fp1.fptr := reads2.fptr
      exact ⟨fs2, fp2, run2, ⟨reads2.base, by rw [fptr2, clust2]; exact clust1, fun _ => by rw [fptr2]; exact here2⟩,
        fptr2, reads2⟩
    · rw [if_neg between]
      exact ⟨fs1, fp1, rfl, ⟨seeks1.base, clust1, fun apart => absurd apart between⟩, rfl,
        (FatRead.refl seeks1.base.windowOk).reads seeks1.base fp1.clust⟩
  obtain ⟨fs2, fp2, run2, ok2, fptr2, reads2⟩ := load
  have all := seeks1.trans reads2.seeks
  set fp3 : Fil :=
    if fp2.fptr > fp2.fsize then { fp2 with fsize := fp2.fptr, flag := fp2.flag ||| FatFs.FA_WRITTEN } else fp2 with hfp3
  have kept : FileOk v fs2 fp3 chain1 ∧ fp3.fptr = fp2.fptr ∧ fp3.fsize = max fp2.fsize fp2.fptr ∧
      fp3.flag = (if fp2.fsize < fp2.fptr then fp2.flag ||| FatFs.FA_WRITTEN else fp2.flag) ∧
      (fp3.dirSect = fp2.dirSect ∧ fp3.dirPtr = fp2.dirPtr) ∧ fp3.dirty = fp2.dirty ∧
      fileView fs2 fp3 = fileView fs2 fp2 := by
    have room2 := ok2.room
    rw [hfp3]
    by_cases grows : fp2.fptr > fp2.fsize
    · rw [if_pos grows, if_pos grows]
      exact ⟨⟨⟨ok2.windowOk, ok2.chained, ok2.start, by simp only; omega, ok2.window, ok2.place, ok2.dirty, ok2.copy⟩,
        ok2.clust, ok2.here⟩, rfl, (Nat.max_eq_right (Nat.le_of_lt grows)).symm, rfl, ⟨rfl, rfl⟩, rfl, rfl⟩
    · rw [if_neg grows, if_neg grows]
      exact ⟨ok2, rfl, (Nat.max_eq_left (by omega)).symm, rfl, ⟨rfl, rfl⟩, rfl, rfl⟩
  obtain ⟨ok3, fptr3, fsize3, flag3, entry3, dirty3, view3⟩ := kept
  refine ⟨fs2, fp3, chain1, ?_, ok3, ?_, ?_, ⟨entry3.1.trans all.entry.1, entry3.2.trans all.entry.2⟩, all.pre,
    fun o inside => ?_, all.touched, all.noBad noBad, fun zero => start1 (by rw [← fptr2, ← fptr3]; exact zero),
    fun clean => dirty3.trans (all.clean clean), ?_⟩
  · rw [fLseek, if_neg (not_not.mpr noError)]
    simp only [← hclip, run1, run2]
    rfl
  · rw [fsize3, fptr3, all.fsize]
  · rw [flag3, fptr3, all.fsize, all.flag]
  · have same := all.bytes o inside
    rw [fileByte, view3]
    exact same
  · rw [fptr3, fptr2]
    refine result.imp_right ?_
    rintro ⟨less, writable, ends, full⟩
    refine ⟨?_, writable, ends, by rw [reads2.links]; exact full⟩
    rwa [hclip, if_neg fun h => writable h.2] at less

end

end Cineraria.Fat
