import Cineraria.Fat.ReadFile

/-!
# Writing a file

`f_write` on a drive without faults: it stores the bytes at the file pointer, and stretches the chain where it
ends. It stops early only when no cluster of the volume is free.
-/

namespace Cineraria.Fat

open Chain
open FatFs (store store_nil store_append)

/-- No entry of the FAT has the value 1. -/
def NoBad (v : Volume) (fs : Fatfs) : Prop := ∀ c, 2 ≤ c → c < v.nFatent → links v fs.view c ≠ .bad

section
variable {v : Volume} {fs fs' : Fatfs} {fp fp' : Fil} {chain chain' : List Nat}

/-- A longer chain has the sectors of the shorter one. -/
theorem fileSector_prefix (pre : chain <+: chain') {j : Nat} (inside : j < chain.length * v.csize) :
    fileSector v chain' j = fileSector v chain j := by
  obtain ⟨more, rfl⟩ := pre
  have lt := fileSector_index inside
  simp only [fileSector, List.getD_eq_getElem?_getD, List.getElem?_append_left lt]

/-- All that writing does to the file object and the volume. The bytes behind the file and the file pointer are
not spoken of. -/
structure Writes (v : Volume) (chain chain' : List Nat) (data : List (BitVec 8)) (fs : Fatfs) (fp : Fil) (fs' : Fatfs)
    (fp' : Fil) : Prop where
  base : FileBase v fs' fp' chain'
  fptr : fp'.fptr = fp.fptr + data.length
  fsize : fp'.fsize = fp.fsize
  flag : fp'.flag = fp.flag
  entry : fp'.dirSect = fp.dirSect ∧ fp'.dirPtr = fp.dirPtr
  pre : chain <+: chain'
  bytes : ∀ o < max fp.fsize (fp.fptr + data.length),
    fileByte v chain' fs' fp' o = store fp.fptr data (fileByte v chain fs fp) o
  touched : Touched v chain chain' fs fs'
  noBad : NoBad v fs → NoBad v fs'
  clean : data = [] → fp.dirty = false → fp'.dirty = false

theorem Writes.trans {chain'' : List Nat} {a b : List (BitVec 8)} {fs'' : Fatfs} {fp'' : Fil}
    (first : Writes v chain chain' a fs fp fs' fp') (second : Writes v chain' chain'' b fs' fp' fs'' fp'') :
    Writes v chain chain'' (a ++ b) fs fp fs'' fp'' where
  base := second.base
  fptr := by rw [second.fptr, first.fptr, List.length_append, Nat.add_assoc]
  fsize := second.fsize.trans first.fsize
  flag := second.flag.trans first.flag
  entry := ⟨second.entry.1.trans first.entry.1, second.entry.2.trans first.entry.2⟩
  pre := first.pre.trans second.pre
  bytes o inside := by
    rw [List.length_append] at inside
    have bytes := second.bytes o (by rw [first.fsize, first.fptr]; omega)
    rw [bytes, ← store_append, first.fptr]
    simp only [FatFs.store]
    split
    · rfl
    · next out => exact first.bytes o (by omega)
  touched := first.touched.trans second.touched
  noBad := second.noBad ∘ first.noBad
  clean none := second.clean (List.append_eq_nil_iff.mp none).2 ∘ first.clean (List.append_eq_nil_iff.mp none).1

/-- Nothing is written, and the chain may have become longer. -/
theorem writes_nil (base : FileBase v fs' fp' chain')
    (same : fp'.fptr = fp.fptr ∧ fp'.fsize = fp.fsize ∧ fp'.flag = fp.flag ∧ fp'.dirSect = fp.dirSect ∧
      fp'.dirPtr = fp.dirPtr) (room : max fp.fsize fp.fptr ≤ chain.length * v.bcs) (pre : chain <+: chain')
    (view : ∀ i, v.Primary i → v.fatbase + v.fsize ≤ i → fileView fs' fp' i = fileView fs fp i)
    (touched : Touched v chain chain' fs fs') (noBad : NoBad v fs → NoBad v fs')
    (clean : fp.dirty = false → fp'.dirty = false) : Writes v chain chain' [] fs fp fs' fp' where
  base := base
  fptr := same.1
  fsize := same.2.1
  flag := same.2.2.1
  entry := same.2.2.2
  pre := pre
  bytes o inside := by
    have within : o / SS < chain.length * v.csize :=
      sector_lt (Nat.lt_of_lt_of_le inside room)
    have mem := pre.subset (getD_of_lt within)
    obtain ⟨primary, far⟩ := InCluster.primary (base.range _ mem).1 (base.range _ mem).2
      (fileSector_inCluster v chain (o / SS))
    rw [store_nil, fileByte, fileByte, fileSector_prefix pre within, view _ primary far]
  touched := touched
  noBad := noBad
  clean _ := clean

/-! ## The cluster of the file pointer -/

variable {faults : Faults}

theorem FatRead.noBad (same : FatRead v fs fs') (noBad : NoBad v fs) : NoBad v fs' := by
  rw [NoBad, same.links]
  exact noBad

/-- What holds of the sectors of the file holds also after a change of the FAT. -/
theorem FileBase.stretch (ok : FileBase v fs fp chain) (only : FatOnly v fs fs') (pre : chain <+: chain')
    (chained : IsChain (links v fs'.view) chain') (c : Nat)
    (window : ∀ d ∈ chain', ¬v.InCluster d fs'.winsect) :
    FileBase v fs' { fp with sclust := chain'.headD 0, clust := c } chain' where
  windowOk := only.windowOk
  chained _ := chained
  start := rfl
  room := Nat.le_trans ok.room (Nat.mul_le_mul_right _ pre.length_le)
  window := window
  place := ok.place.imp_right fun ⟨d, mem, inside⟩ => ⟨d, pre.subset mem, inside⟩
  dirty := ok.dirty
  copy clean valid := by
    obtain ⟨primary, far, -⟩ := ok.place_primary valid
    rw [only.outside _ primary far]
    exact ok.copy clean valid

/-- The links that `create_chain` makes. -/
theorem noBad_created {f clst : Nat} (noBad : NoBad v fs)
    (linked : links v fs'.view =
      if clst = 0 then Function.update (links v fs.view) f .last
      else Function.update (Function.update (links v fs.view) f .last) clst (.next f)) : NoBad v fs' := by
  intro c lo hi
  rw [linked]
  have used := noBad c lo hi
  split <;> simp only [Function.update_apply] <;> split_ifs <;> simp [used]

/-- A cluster more at the end of a chain. -/
theorem chain_grown {clst f : Nat} (ok : FileBase v fs fp chain)
    (tail : chain = [] ∧ clst = 0 ∨ clst ≠ 0 ∧ ∃ cs, chain = cs ++ [clst]) (free : links v fs.view f = .free)
    (linked : links v fs'.view =
      if clst = 0 then Function.update (links v fs.view) f .last
      else Function.update (Function.update (links v fs.view) f .last) clst (.next f)) :
    IsChain (links v fs'.view) (chain ++ [f]) ∧
      ∀ c, links v fs.view c ≠ .free → c ∉ chain → links v fs'.view c = links v fs.view c := by
  rcases tail with ⟨rfl, rfl⟩ | ⟨nonzero, cs, rfl⟩
  · rw [linked, if_pos rfl]
    exact ⟨Function.update_self .., fun c used _ => Function.update_of_ne (by rintro rfl; exact used free) _ _⟩
  · rw [linked, if_neg nonzero]
    refine ⟨(ok.chained (by simp)).append free, fun c used out => ?_⟩
    rw [Function.update_of_ne (by rintro rfl; simp at out), Function.update_of_ne (by rintro rfl; exact used free)]

/-- What `create_chain` does for a file whose chain ends at `clst`. -/
theorem createChain_grows (healthy : ∀ k, faults k = none) (ok : FileBase v fs fp chain) (noBad : NoBad v fs) {clst : Nat}
    (tail : chain = [] ∧ clst = 0 ∨ clst ≠ 0 ∧ ∃ cs, chain = cs ++ [clst]) :
    ∃ r fs', createChain faults v clst fs = (r, fs') ∧
      (r = 0 ∧ (∀ c, links v fs.view c ≠ .free) ∧ FatRead v fs fs' ∨
        2 ≤ r ∧ r < v.nFatent ∧
          FileBase v fs' { fp with sclust := (chain ++ [r]).headD 0, clust := r } (chain ++ [r]) ∧
          Writes v chain (chain ++ [r]) [] fs fp fs' { fp with sclust := (chain ++ [r]).headD 0, clust := r }) := by
  have last : clst ≠ 0 → links v fs.view clst = .last := by
    rcases tail with ⟨-, rfl⟩ | ⟨-, cs, rfl⟩
    · simp
    · exact fun _ => (ok.chained (by simp)).getLast
  cases run : createChain faults v clst fs with
  | mk r fs1 =>
    refine ⟨r, fs1, rfl, ?_⟩
    obtain ⟨only, created⟩ := createChain_spec ok.windowOk (fun some => .inl (last some)) run
    cases created with
    | followed d link same =>
      have some : clst ≠ 0 := by
        rintro rfl
        cases (show links v fs.view 0 = .bad from if_pos (.inl (by omega))).symm.trans link
      cases (last some).symm.trans link
    | full none same => exact .inl ⟨rfl, none, same⟩
    | bad c range bad same => exact absurd bad (noBad c range.1 range.2)
    | failed faulty => exact absurd faulty (Faults.not_some healthy)
    | new _ free linked _ _ onFat =>
      obtain ⟨lo, hi⟩ := range_of_links (show links v fs.view r ≠ .bad by rw [free]; simp)
      obtain ⟨chained, others⟩ := chain_grown ok tail free linked
      have range : ∀ c ∈ chain ++ [r], 2 ≤ c ∧ c < v.nFatent := by
        intro c mem
        rcases List.mem_append.mp mem with old | new
        · exact ok.range c old
        · rw [List.mem_singleton.mp new]
          exact ⟨lo, hi⟩
      have base := ok.stretch only (List.prefix_append chain [r]) chained r
        fun d mem => onFat.not_inCluster (range d mem).1 (range d mem).2
      refine .inr ⟨lo, hi, base, writes_nil base ⟨rfl, rfl, rfl, rfl, rfl⟩ ok.room (List.prefix_append _ _)
        (fun i primary far => ?_) ⟨others, fun c mem => List.mem_append_left _ mem, fun c mem => ?_,
          fun i primary far _ => only.outside i primary far, only.window⟩ (fun noBad => noBad_created noBad linked) id⟩
      · rw [fileView_apply, fileView_apply, only.outside i primary far]
      · refine (List.mem_append.mp mem).imp_right fun new => ?_
        rw [List.mem_singleton.mp new, free]

/-- `create_chain` on a cluster that is not the last one follows the chain. -/
theorem createChain_follows (healthy : ∀ k, faults k = none) (ok : fs.WindowOk v) {clst d : Nat}
    (link : links v fs.view clst = .next d) : ∃ fs', createChain faults v clst fs = (d, fs') ∧ FatRead v fs fs' := by
  obtain ⟨lo, hi⟩ := range_of_links (show links v fs.view clst ≠ .bad by rw [link]; simp)
  cases hg : getFat faults v clst fs with
  | mk cs fs1 =>
    obtain ⟨same, ⟨-, faulty⟩ | ⟨-, read, -⟩⟩ := getFat_link ok lo hi hg
    · exact absurd faulty (Faults.not_some healthy)
    · obtain ⟨eq, low, high⟩ := Volume.link_eq_next.mp (read.symm.trans link)
      refine ⟨fs1, ?_, same⟩
      rw [createChain, if_neg (by omega), hg]
      simp only [eq]
      rw [if_neg (by omega), if_pos high]

/-- Reading the FAT, as a write of nothing. -/
theorem FatRead.writes (same : FatRead v fs fs') (ok : FileBase v fs fp chain) (c : Nat) :
    Writes v chain chain [] fs fp fs' { fp with clust := c } :=
  have reads := same.reads ok c
  writes_nil reads.base ⟨rfl, rfl, rfl, rfl, rfl⟩ ok.room (List.prefix_refl _) (fun i primary _ => reads.view i primary)
    reads.touched same.noBad id

/-- The results of `create_chain` that are no clusters. -/
theorem cluster_codes {c : Nat} (lo : 2 ≤ c) (hi : c < v.nFatent) : c ≠ 0 ∧ c ≠ 1 ∧ c ≠ 0xFFFFFFFF := by
  have := (v.lt_pow hi).2
  omega

/-- `create_chain` gives the cluster after one of the chain, which it stretches unless the disk is full. -/
theorem createChain_next (healthy : ∀ k, faults k = none) (ok : FileBase v fs fp chain) (noBad : NoBad v fs) {q c : Nat}
    (get : chain[q]? = some c) :
    ∃ r fs', createChain faults v c fs = (r, fs') ∧
      (r = 0 ∧ q + 1 = chain.length ∧ (∀ c, links v fs.view c ≠ .free) ∧ FatRead v fs fs' ∨
        ∃ chain', chain'[q + 1]? = some r ∧ 2 ≤ r ∧ r < v.nFatent ∧
          Writes v chain chain' [] fs fp fs' { fp with clust := r }) := by
  have chained := ok.chained (List.ne_nil_of_mem (List.mem_of_getElem? get))
  obtain ⟨lt, is⟩ := List.getElem?_eq_some_iff.mp get
  by_cases more : q + 1 < chain.length
  · obtain ⟨lo, hi⟩ := ok.range _ (List.getElem_mem more)
    obtain ⟨fs1, run, same⟩ := createChain_follows healthy ok.windowOk (IsChain.link_at chained get more)
    exact ⟨chain[q + 1], fs1, run, .inr ⟨chain, List.getElem?_eq_getElem more, lo, hi, same.writes ok _⟩⟩
  · have length : q + 1 = chain.length := by omega
    have tail : c ≠ 0 ∧ ∃ cs, chain = cs ++ [c] := by
      refine ⟨(cluster_codes (ok.range _ (List.mem_of_getElem? get)).1 (ok.range _ (List.mem_of_getElem? get)).2).1,
        chain.take q, ?_⟩
      conv_lhs => rw [← List.take_append_drop q chain, List.drop_eq_getElem_cons lt, is,
        List.drop_eq_nil_of_le (by omega)]
    obtain ⟨r, fs1, run, ⟨rfl, none, same⟩ | ⟨lo, hi, base, writes⟩⟩ := createChain_grows healthy ok noBad (.inr tail)
    · exact ⟨0, fs1, run, .inl ⟨rfl, length, none, same⟩⟩
    · have head : (chain ++ [r]).headD 0 = fp.sclust := by
        rw [ok.start]
        cases hc : chain with
        | nil => simp [hc] at length
        | cons c cs => rfl
      rw [head] at writes
      exact ⟨r, fs1, run, .inr ⟨chain ++ [r], by rw [length, List.getElem?_concat_length], lo, hi, writes⟩⟩

/-- `create_chain` for a file that has no cluster. -/
theorem createChain_first (healthy : ∀ k, faults k = none) (ok : FileBase v fs fp []) (noBad : NoBad v fs) :
    ∃ r fs', createChain faults v 0 fs = (r, fs') ∧
      (r = 0 ∧ (∀ c, links v fs.view c ≠ .free) ∧ FatRead v fs fs' ∨
        2 ≤ r ∧ r < v.nFatent ∧ Writes v [] [r] [] fs fp fs' { fp with sclust := r, clust := r }) := by
  obtain ⟨r, fs1, run, full | ⟨lo, hi, base, writes⟩⟩ := createChain_grows healthy ok noBad (.inl ⟨rfl, rfl⟩)
  · exact ⟨r, fs1, run, .inl full⟩
  · exact ⟨r, fs1, run, .inr ⟨lo, hi, writes⟩⟩

/-- At the beginning of a cluster the chain is followed, or stretched unless the disk is full. -/
theorem writeCluster_spec (healthy : ∀ k, faults k = none) (ok : FileOk v fs fp chain) (noBad : NoBad v fs)
    (boundary : fp.fptr % v.bcs = 0) :
    (∃ fs', writeCluster faults v fs fp = (.ok, true, fs', fp) ∧ (∀ c, links v fs.view c ≠ .free) ∧
        fp.fptr = chain.length * v.bcs ∧ FatRead v fs fs') ∨
      ∃ fs' fp' chain', writeCluster faults v fs fp = (.ok, false, fs', fp') ∧
        chain'[fp.fptr / v.bcs]? = some fp'.clust ∧ Writes v chain chain' [] fs fp fs' fp' := by
  by_cases zero : fp.fptr = 0
  · have index : fp.fptr / v.bcs = 0 := by rw [zero, Nat.zero_div]
    have start := ok.start
    cases chain with
    | nil =>
      -- No cluster is allocated.
      rw [List.headD_nil] at start
      obtain ⟨r, fs1, run, ⟨rfl, none, same⟩ | ⟨lo, hi, writes⟩⟩ := createChain_first healthy ok.toFileBase noBad
      · refine .inl ⟨fs1, ?_, none, by rw [zero, List.length_nil, Nat.zero_mul], same⟩
        have back : { fp with sclust := 0 } = fp := by rw [← start]
        rw [writeCluster, if_pos zero, if_pos start, run]
        simp only [if_true, back]
      · obtain ⟨n0, n1, n2⟩ := cluster_codes lo hi
        refine .inr ⟨fs1, { fp with sclust := r, clust := r }, [r], ?_, by simp [index], writes⟩
        rw [writeCluster, if_pos zero, if_pos start, run]
        simp only [n0, n1, n2, if_false]
    | cons c cs =>
      obtain ⟨lo, hi⟩ := ok.range c (by simp)
      obtain ⟨n0, n1, n2⟩ := cluster_codes lo hi
      rw [List.headD_cons] at start
      refine .inr ⟨fs, { fp with clust := c }, c :: cs, ?_, by simp [index],
        (FatRead.refl ok.windowOk).writes ok.toFileBase c⟩
      simp only [writeCluster, zero, start, n0, n1, n2, if_true, if_false]
  · obtain ⟨q, index, get⟩ := ok.previous boundary zero
    obtain ⟨r, fs1, run, ⟨rfl, length, none, same⟩ | ⟨chain', next, lo, hi, writes⟩⟩ :=
      createChain_next healthy ok.toFileBase noBad get
    · have whole : fp.fptr = (q + 1) * v.bcs := by
        have := Nat.div_add_mod fp.fptr v.bcs
        rw [index, boundary, Nat.mul_comm] at this
        exact this.symm
      refine .inl ⟨fs1, ?_, none, by rw [whole, length], same⟩
      simp only [writeCluster, zero, run, if_false, if_true]
    · obtain ⟨n0, n1, n2⟩ := cluster_codes lo hi
      refine .inr ⟨fs1, { fp with clust := r }, chain', ?_, index ▸ next, writes⟩
      simp only [writeCluster, zero, run, n0, n1, n2, if_false]

/-! ## The steps of a turn -/

theorem room_of_current {n c : Nat} (current : chain[fp.fptr / v.bcs]? = some c) (within : fp.fptr % v.bcs + n ≤ v.bcs) :
    fp.fptr + n ≤ chain.length * v.bcs := by
  obtain ⟨lt, -⟩ := List.getElem?_eq_some_iff.mp current
  have split := Nat.div_add_mod fp.fptr v.bcs
  have := Nat.mul_le_mul_right v.bcs (show fp.fptr / v.bcs + 1 ≤ chain.length from lt)
  rw [Nat.succ_mul, Nat.mul_comm] at this
  omega

/-- The bytes of a sector that is among some. -/
theorem toSector_apply (wbuff : List (BitVec 8)) (k o : Nat) : toSector wbuff k (ofs o) = wbuff.getD (SS * k + o % SS) 0 :=
  rfl

theorem getD_take {wbuff : List (BitVec 8)} {n k : Nat} (lt : k < n) : (wbuff.take n).getD k 0 = wbuff.getD k 0 := by
  simp [List.getD_eq_getElem?_getD, lt]

/-- Sectors of the current cluster that are transferred together. -/
theorem run_sectors (ok : FileBase v fs fp chain) (current : chain[fp.fptr / v.bcs]? = some fp.clust)
    (aligned : fp.fptr % SS = 0) {cc : Nat} (fits : csect v fp.fptr + cc ≤ v.csize) :
    fp.fptr % v.bcs + SS * cc ≤ v.bcs ∧
      (∀ k < cc, fileSector v chain (fp.fptr / SS + k) = fileSector v chain (fp.fptr / SS) + k) ∧
      (∀ i, fileSector v chain (fp.fptr / SS) ≤ i → i < fileSector v chain (fp.fptr / SS) + cc →
        ∃ c ∈ chain, v.InCluster c i) ∧
      ∀ j < chain.length * v.csize,
        (fileSector v chain (fp.fptr / SS) ≤ fileSector v chain j ∧
            fileSector v chain j < fileSector v chain (fp.fptr / SS) + cc) ↔
          fp.fptr / SS ≤ j ∧ j < fp.fptr / SS + cc := by
  have positive : 0 < SS := by decide
  have within : fp.fptr % v.bcs + SS * cc ≤ v.bcs := by
    rw [mod_bcs, aligned, Volume.bcs, Nat.mul_comm v.csize, Nat.zero_add, ← Nat.mul_add]
    exact Nat.mul_le_mul_left SS fits
  have room := room_of_current current within
  set sect := fileSector v chain (fp.fptr / SS) with hsect
  have sector : ∀ k < cc, fileSector v chain (fp.fptr / SS + k) = sect + k :=
    fun k lt => fileSector_add (by rw [← csect_eq]; omega)
  have inRoom : ∀ k < cc, fp.fptr / SS + k < chain.length * v.csize := fun k lt => by
    have place : (fp.fptr + SS * k) / SS = fp.fptr / SS + k := by
      rw [(aligned_add aligned).1, Nat.mul_div_cancel_left _ positive]
    have before := (Nat.mul_lt_mul_left positive).mpr lt
    rw [← place]
    exact sector_lt (by omega)
  refine ⟨within, sector, fun i lo hi => ?_, fun j lt => ⟨?_, ?_⟩⟩
  · have place := sector (i - sect) (by omega)
    have inside := fileSector_inCluster v chain (fp.fptr / SS + (i - sect))
    rw [place, Nat.add_sub_cancel' lo] at inside
    exact ⟨_, getD_of_lt (inRoom (i - sect) (by omega)), inside⟩
  · rintro ⟨lo, hi⟩
    have same := sector (fileSector v chain j - sect) (by omega)
    rw [Nat.add_sub_cancel' lo] at same
    have := fileSector_inj ok.nodup ok.range (inRoom (fileSector v chain j - sect) (by omega)) lt same
    omega
  · rintro ⟨lo, hi⟩
    have := sector (j - fp.fptr / SS) (by omega)
    rw [Nat.add_sub_cancel' lo] at this
    omega

/-- The file object after whole sectors have been written directly. -/
def Fil.direct (wbuff : List (BitVec 8)) (sect cc : Nat) (fp : Fil) : Fil :=
  let fp := { fp with fptr := fp.fptr + SS * cc }
  if sect ≤ fp.dsect ∧ fp.dsect < sect + cc
  then { fp with buf := toSector wbuff (fp.dsect - sect), dirty := false } else fp

theorem Fil.direct_eq (wbuff : List (BitVec 8)) (sect cc : Nat) (clean : fp.dirty = false) :
    fp.direct wbuff sect cc =
      { fp with
        fptr := fp.fptr + SS * cc
        buf := if sect ≤ fp.dsect ∧ fp.dsect < sect + cc then toSector wbuff (fp.dsect - sect) else fp.buf } := by
  unfold Fil.direct
  split
  · next inside => simp [inside, ← clean]
  · next outside => simp only [if_neg outside]

theorem fileView_clean (clean : fp.dirty = false) : fileView fs fp = fs.view := by
  funext i
  rw [fileView_apply, clean]
  simp

/-- Whole sectors go to the drive, and to the buffer if it holds one of them. -/
theorem writeDirect_spec (healthy : ∀ k, faults k = none) (ok : FileBase v fs fp chain) (clean : fp.dirty = false)
    (current : chain[fp.fptr / v.bcs]? = some fp.clust) (aligned : fp.fptr % SS = 0) {wbuff : List (BitVec 8)}
    (whole : wbuff.length / SS ≠ 0) :
    ∃ n fs' fp', writeDirect faults v wbuff (fileSector v chain (fp.fptr / SS)) fs fp = (.ok, n, fs', fp') ∧
      0 < n ∧ n ≤ wbuff.length ∧ FileOk v fs' fp' chain ∧ Writes v chain chain (wbuff.take n) fs fp fs' fp' := by
  obtain ⟨some, fits, less⟩ := clipped_bounds v fp.fptr whole
  set cc := clipped v fp.fptr wbuff.length with hcc
  obtain ⟨within, sector, inChain, which⟩ := run_sectors ok current aligned fits
  set sect := fileSector v chain (fp.fptr / SS) with hsect
  have more : 0 < SS * cc := Nat.mul_pos (by decide) some
  have length : (wbuff.take (SS * cc)).length = SS * cc := List.length_take_of_le less
  have room := room_of_current current within
  have away : ∀ i, sect ≤ i → i < sect + cc → fs.winsect ≠ i := fun i lo hi eq => by
    obtain ⟨c, mem, inside⟩ := inChain i lo hi
    exact ok.window c mem (eq ▸ inside)
  have view := view_put away (toSector wbuff)
  have sameLinks : links v ({ fs with drive := fs.drive.put sect cc (toSector wbuff) } : Fatfs).view =
      links v fs.view := links_congr fun i primary lt => by
    rw [view, if_neg]
    rintro ⟨lo, hi⟩
    obtain ⟨c, mem, inside⟩ := inChain i lo hi
    have := (InCluster.primary (ok.range c mem).1 (ok.range c mem).2 inside).2
    omega
  have base : FileBase v { fs with drive := fs.drive.put sect cc (toSector wbuff) } (fp.direct wbuff sect cc) chain := by
    rw [Fil.direct_eq wbuff sect cc clean]
    refine ⟨WindowOk.put ok.windowOk away _, fun nonempty => sameLinks ▸ ok.chained nonempty, ok.start,
      max_le (Nat.le_trans (Nat.le_max_left _ _) ok.room) room, ok.window, ok.place, by simp [clean], fun _ valid => ?_⟩
    rw [view]
    split
    · rfl
    · exact ok.copy clean valid
  have shown : fileView { fs with drive := fs.drive.put sect cc (toSector wbuff) } (fp.direct wbuff sect cc) =
      ({ fs with drive := fs.drive.put sect cc (toSector wbuff) } : Fatfs).view := by
    rw [Fil.direct_eq wbuff sect cc clean]
    exact fileView_clean clean
  have kept := Fil.direct_eq wbuff sect cc clean
  refine ⟨SS * cc, { fs with drive := fs.drive.put sect cc (toSector wbuff) }, fp.direct wbuff sect cc, ?_, more, less,
    ⟨base, fun _ => ?_, fun between => ?_⟩, base, by rw [kept, length], by rw [kept], by rw [kept],
    by rw [kept]; exact ⟨rfl, rfl⟩, List.prefix_refl _, fun o inside => ?_,
    ⟨fun c _ _ => by rw [sameLinks], fun _ mem => mem, fun _ mem => .inl mem, fun i _ _ out => ?_, .inl rfl⟩,
    fun noBad => by rw [NoBad, sameLinks]; exact noBad, fun _ _ => by rw [kept]; exact clean⟩
  · simp only [writeDirect, diskWrite, healthy, ← hcc, Fil.direct]
  · rw [kept]
    simp only
    rw [div_bcs_within more within]
    exact current
  · rw [kept] at between
    simp only [(aligned_add aligned).2, Nat.mul_mod_right] at between
    exact absurd rfl between
  · have oldRoom := ok.room
    rw [length] at inside
    have here := which (o / SS) (sector_lt (by omega))
    have bytes : (fp.fptr / SS ≤ o / SS ∧ o / SS < fp.fptr / SS + cc) ↔ fp.fptr ≤ o ∧ o < fp.fptr + SS * cc := by
      simp only [SS] at aligned ⊢
      omega
    rw [fileByte, shown, view, FatFs.store, length]
    by_cases mine : fp.fptr ≤ o ∧ o < fp.fptr + SS * cc
    · obtain ⟨lo, hi⟩ := bytes.mpr mine
      have place := sector (o / SS - fp.fptr / SS) (by omega)
      rw [Nat.add_sub_cancel' lo] at place
      rw [if_pos (here.mpr ⟨lo, hi⟩), if_pos mine, getD_take (by omega), place, Nat.add_sub_cancel_left, toSector_apply]
      congr 1
      simp only [SS] at aligned ⊢
      omega
    · rw [if_neg (fun inside => mine (bytes.mp (here.mp inside))), if_neg mine, fileByte, fileView_clean clean]
  · rw [view, if_neg]
    rintro ⟨lo, hi⟩
    obtain ⟨c, mem, inside⟩ := inChain i lo hi
    exact out c mem inside

/-- What the sector buffer has to hold before a part of a sector is put into it: the bytes of the file in the
sector of the file pointer. -/
def Shows (v : Volume) (chain : List Nat) (fs : Fatfs) (fp : Fil) (b : Sector) : Prop :=
  ∀ o, o / SS = fp.fptr / SS → o < max fp.fsize fp.fptr → b (ofs o) = fileByte v chain fs fp o

/-- The buffer gets the sector of the file pointer, unless the file ends there. -/
theorem takeBuf_spec (healthy : ∀ k, faults k = none) (ok : FileBase v fs fp chain) (clean : fp.dirty = false)
    (current : chain[fp.fptr / v.bcs]? = some fp.clust) (aligned : fp.fptr % SS = 0) :
    ∃ b fs', takeBuf faults (fileSector v chain (fp.fptr / SS)) fs fp =
        (.ok, fs', { fp with buf := b, dsect := fileSector v chain (fp.fptr / SS) }) ∧
      Shows v chain fs fp b ∧ FatRead v fs fs' := by
  have inside : fp.fptr < chain.length * v.bcs := by
    have := room_of_current (n := 1) current (by have := Nat.mod_lt fp.fptr v.bcs_pos; omega)
    omega
  set sect := fileSector v chain (fp.fptr / SS) with hsect
  by_cases filled : fp.dsect ≠ sect ∧ fp.fptr < fp.fsize
  · obtain ⟨fs1, run, -, view, same⟩ := fillBuf_spec healthy ok (getD_of_lt (sector_lt inside))
      (fileSector_inCluster v chain (fp.fptr / SS))
    refine ⟨fs.view sect, fs1, by rw [takeBuf, if_pos filled, run], fun o place _ => ?_, same⟩
    rw [fileByte, place, ← hsect, fileView_clean clean]
  · refine ⟨fp.buf, fs, by rw [takeBuf, if_neg filled], fun o place below => ?_, FatRead.refl ok.windowOk⟩
    have here : fp.dsect = sect := by
      by_contra away
      have ends : fp.fsize ≤ fp.fptr := by by_contra more; exact filled ⟨away, by omega⟩
      have first : fp.fptr ≤ o := by
        simp only [SS] at aligned place
        omega
      omega
    have valid := (ok.fileSector_primary (sector_lt inside)).2.1
    rw [fileByte, place, ← hsect, ← here, ok.fileView_dsect (by rw [here]; exact valid)]

/-- A part of a sector goes to the buffer. -/
theorem writePart_spec (ok : FileBase v fs fp chain) (current : chain[fp.fptr / v.bcs]? = some fp.clust)
    (buffered : fp.dirty = true → fp.dsect = fileSector v chain (fp.fptr / SS)) {b : Sector}
    (shows : Shows v chain fs fp b) {wbuff : List (BitVec 8)} (some : wbuff ≠ []) :
    ∃ n fp', writePart wbuff fs { fp with buf := b, dsect := fileSector v chain (fp.fptr / SS) } = (.ok, n, fs, fp') ∧
      0 < n ∧ n ≤ wbuff.length ∧ FileOk v fs fp' chain ∧ Writes v chain chain (wbuff.take n) fs fp fs fp' := by
  have more : 0 < wbuff.length := List.length_pos_iff.mpr some
  obtain ⟨below, -⟩ := sector_rest fp.fptr
  obtain ⟨within, sector⟩ := part_within v fp.fptr wbuff.length
  set n := min (SS - fp.fptr % SS) wbuff.length with hn
  have positive : 0 < n := by omega
  have le : n ≤ wbuff.length := Nat.min_le_right _ _
  have length : (wbuff.take n).length = n := List.length_take_of_le le
  have room := room_of_current current within
  set sect := fileSector v chain (fp.fptr / SS) with hsect
  have inChain : fp.fptr / SS < chain.length * v.csize := sector_lt (by omega)
  have valid := (ok.fileSector_primary inChain).2.1
  set buf : Sector := fun o =>
    if fp.fptr % SS ≤ o ∧ o < fp.fptr % SS + n then wbuff.getD (o - fp.fptr % SS) 0 else b o with hbuf
  have base : FileBase v fs { fp with buf := buf, dsect := sect, dirty := true, fptr := fp.fptr + n } chain :=
    ⟨ok.windowOk, ok.chained, ok.start, max_le (Nat.le_trans (Nat.le_max_left _ _) ok.room) room, ok.window,
      .inr ⟨_, getD_of_lt inChain, fileSector_inCluster v chain _⟩, fun _ => valid, by simp⟩
  refine ⟨n, { fp with buf := buf, dsect := sect, dirty := true, fptr := fp.fptr + n }, rfl, positive, le,
    ⟨base, fun _ => ?_, fun between => ?_⟩, base, by rw [length], rfl, rfl, ⟨rfl, rfl⟩, List.prefix_refl _,
    fun o inside => ?_, (FatRead.refl ok.windowOk).touched, id, fun none => ?_⟩
  · simp only
    rw [div_bcs_within positive within]
    exact current
  · simp only
    rw [sector between]
  · have oldRoom := ok.room
    rw [length] at inside
    rw [fileByte, fileView_apply, FatFs.store, length]
    by_cases here : o / SS = fp.fptr / SS
    · have split := Nat.div_add_mod o SS
      have split' := Nat.div_add_mod fp.fptr SS
      rw [here] at split
      have range : (fp.fptr % SS ≤ (ofs o).val ∧ (ofs o).val < fp.fptr % SS + n) ↔ fp.fptr ≤ o ∧ o < fp.fptr + n := by
        change fp.fptr % SS ≤ o % SS ∧ o % SS < fp.fptr % SS + n ↔ _
        omega
      rw [if_pos ⟨rfl, by rw [here]⟩]
      simp only [hbuf, range]
      by_cases mine : fp.fptr ≤ o ∧ o < fp.fptr + n
      · rw [if_pos mine, if_pos mine, getD_take (by omega)]
        congr 1
        change o % SS - fp.fptr % SS = o - fp.fptr
        omega
      · rw [if_neg mine, if_neg mine]
        exact shows o here (by omega)
    · have other : fileSector v chain (o / SS) ≠ sect := fun same =>
        here (fileSector_inj ok.nodup ok.range (sector_lt (by omega)) inChain same)
      have outside : ¬(fp.fptr ≤ o ∧ o < fp.fptr + n) := fun mine => here (by
        simp only [SS] at hn ⊢
        omega)
      rw [if_neg fun h => other h.2, if_neg outside, fileByte, fileView_apply, if_neg]
      exact fun h => other (h.2.trans (buffered h.1))
  · have := congrArg List.length none
    rw [length, List.length_nil] at this
    omega

/-! ## The loop -/

/-- Writing back the buffer writes nothing. -/
theorem flushBuf_writes (healthy : ∀ k, faults k = none) (ok : FileBase v fs fp chain) :
    ∃ fs', flushBuf faults fs fp = (.ok, fs', { fp with dirty := false }) ∧
      Writes v chain chain [] fs fp fs' { fp with dirty := false } := by
  obtain ⟨fs1, run, base, view, touched, sameLinks⟩ := flushBuf_spec healthy ok
  exact ⟨fs1, run, writes_nil base ⟨rfl, rfl, rfl, rfl, rfl⟩ ok.room (List.prefix_refl _) (fun i _ _ => congrFun view i)
    touched (fun noBad => by rw [NoBad, sameLinks]; exact noBad) fun _ => rfl⟩

/-- The turn in the sector of the file pointer, when its cluster is current. -/
theorem writeSector_spec (healthy : ∀ k, faults k = none) (ok : FileBase v fs fp chain) (clean : fp.dirty = false)
    (current : chain[fp.fptr / v.bcs]? = some fp.clust) (aligned : fp.fptr % SS = 0) {wbuff : List (BitVec 8)}
    (some : wbuff ≠ []) :
    ∃ n fs' fp',
      (if wbuff.length / SS ≠ 0 then writeDirect faults v wbuff (fileSector v chain (fp.fptr / SS)) fs fp
        else
          match takeBuf faults (fileSector v chain (fp.fptr / SS)) fs fp with
          | (.ok, fs, fp) => writePart wbuff fs fp
          | (res, fs, fp) => (res, 0, fs, fp)) = (.ok, n, fs', fp') ∧
      0 < n ∧ n ≤ wbuff.length ∧ FileOk v fs' fp' chain ∧ Writes v chain chain (wbuff.take n) fs fp fs' fp' := by
  by_cases whole : wbuff.length / SS ≠ 0
  · rw [if_pos whole]
    exact writeDirect_spec healthy ok clean current aligned whole
  · obtain ⟨b, fs1, run1, shows, same⟩ := takeBuf_spec healthy ok clean current aligned
    have reads := same.reads ok fp.clust
    have shows1 : Shows v chain fs1 fp b := fun o place below => by
      rw [shows o place below]
      exact (reads.byte (Nat.lt_of_lt_of_le below ok.room)).symm
    obtain ⟨n, fp2, run2, more, le, ok2, writes2⟩ :=
      writePart_spec (ok.read same) current (fun dirty => by simp [clean] at dirty) shows1 some
    rw [if_neg whole, run1]
    refine ⟨n, fs1, fp2, run2, more, le, ok2, ?_⟩
    exact (same.writes ok fp.clust).trans writes2

/-- A turn writes some bytes, or no cluster is free and the chain ends at the file pointer. -/
theorem writeTurn_spec (healthy : ∀ k, faults k = none) (ok : FileOk v fs fp chain) (noBad : NoBad v fs)
    {wbuff : List (BitVec 8)} (some : wbuff ≠ []) :
    (∃ fs', writeTurn faults v wbuff fs fp = (.ok, 0, fs', fp) ∧ (∀ c, links v fs.view c ≠ .free) ∧
        fp.fptr = chain.length * v.bcs ∧ FatRead v fs fs') ∨
      ∃ n fs' fp' chain', writeTurn faults v wbuff fs fp = (.ok, n, fs', fp') ∧ 0 < n ∧ n ≤ wbuff.length ∧
        FileOk v fs' fp' chain' ∧ Writes v chain chain' (wbuff.take n) fs fp fs' fp' := by
  by_cases aligned : fp.fptr % SS = 0
  · have cluster : (∃ fs', (if csect v fp.fptr = 0 then writeCluster faults v fs fp else (.ok, false, fs, fp)) =
          (.ok, true, fs', fp) ∧ (∀ c, links v fs.view c ≠ .free) ∧ fp.fptr = chain.length * v.bcs ∧ FatRead v fs fs') ∨
        ∃ fs' fp' chain', (if csect v fp.fptr = 0 then writeCluster faults v fs fp else (.ok, false, fs, fp)) =
          (.ok, false, fs', fp') ∧ chain'[fp.fptr / v.bcs]? = Option.some fp'.clust ∧
            Writes v chain chain' [] fs fp fs' fp' := by
      by_cases first : csect v fp.fptr = 0
      · rw [if_pos first]
        exact writeCluster_spec healthy ok noBad (by rw [mod_bcs, aligned, first, Nat.mul_zero])
      · rw [if_neg first]
        refine .inr ⟨fs, fp, chain, rfl, ok.current ?_, (FatRead.refl ok.windowOk).writes ok.toFileBase fp.clust⟩
        rw [mod_bcs, aligned, Nat.zero_add]
        exact Nat.mul_ne_zero (by decide) first
    rw [writeTurn, if_pos aligned]
    rcases cluster with ⟨fs1, run1, full, ends, same⟩ | ⟨fs1, fp1, chain1, run1, current, writes1⟩
    · exact .inl ⟨fs1, by simp [run1], full, ends, same⟩
    · obtain ⟨fs2, run2, writes2⟩ := flushBuf_writes healthy writes1.base
      have fptr1 : fp1.fptr = fp.fptr := writes1.fptr
      rw [← fptr1] at current aligned
      obtain ⟨n, fs3, fp3, run3, more, le, ok3, writes3⟩ := writeSector_spec healthy writes2.base rfl current aligned some
      have sect := currentSector_eq writes2.base current
      have inside : fp1.fptr < chain1.length * v.bcs := by
        have := room_of_current (n := 1) current (by have := Nat.mod_lt fp1.fptr v.bcs_pos; omega)
        omega
      have valid := (writes2.base.fileSector_primary (sector_lt inside)).2.1
      refine .inr ⟨n, fs3, fp3, chain1, ?_, more, le, ok3, (writes1.trans writes2).trans writes3⟩
      rw [run1]
      simp only [run2, Bool.false_eq_true, if_false, sect]
      rw [if_neg valid]
      exact run3
  · have current := ok.current (by rw [mod_bcs]; omega)
    have here := ok.here aligned
    have inside : fp.fptr < chain.length * v.bcs := by
      have := room_of_current (n := 1) current (by have := Nat.mod_lt fp.fptr v.bcs_pos; omega)
      omega
    have valid : fp.dsect ≠ 0 := here ▸ (ok.fileSector_primary (sector_lt inside)).2.1
    have shows : Shows v chain fs fp fp.buf := fun o place _ => by
      rw [fileByte, place, ← here, ok.fileView_dsect valid]
    obtain ⟨n, fp1, run, more, le, ok1, writes⟩ := writePart_spec ok.toFileBase current (fun _ => here) shows some
    rw [← here] at run
    exact .inr ⟨n, fs, fp1, chain, by rw [writeTurn, if_neg aligned]; exact run, more, le, ok1, writes⟩

/-- The loop writes all bytes, or stops when no cluster is free and the chain ends at the file pointer. -/
theorem writeLoop_spec (healthy : ∀ k, faults k = none) :
    ∀ (turns : Nat) (wbuff : List (BitVec 8)) (fs : Fatfs) (fp : Fil) (chain : List Nat), FileOk v fs fp chain →
      NoBad v fs → wbuff.length ≤ turns →
      ∃ n fs' fp' chain', writeLoop faults v turns wbuff fs fp = (.ok, n, fs', fp') ∧ n ≤ wbuff.length ∧
        FileOk v fs' fp' chain' ∧ Writes v chain chain' (wbuff.take n) fs fp fs' fp' ∧
        (n < wbuff.length → (∀ c, links v fs'.view c ≠ .free) ∧ fp'.fptr = chain'.length * v.bcs) := by
  intro turns
  induction turns with
  | zero =>
    intro wbuff fs fp chain ok noBad none
    obtain rfl := List.length_eq_zero_iff.mp (Nat.le_zero.mp none)
    exact ⟨0, fs, fp, chain, rfl, Nat.le_refl _, ok,
      (FatRead.refl ok.windowOk).writes ok.toFileBase fp.clust, by simp⟩
  | succ turns ih =>
    intro wbuff fs fp chain ok noBad left
    by_cases none : wbuff = []
    · subst none
      exact ⟨0, fs, fp, chain, rfl, Nat.le_refl _, ok,
        (FatRead.refl ok.windowOk).writes ok.toFileBase fp.clust, by simp⟩
    rw [writeLoop, if_neg none]
    rcases writeTurn_spec healthy ok noBad none with
      ⟨fs1, run, full, ends, same⟩ | ⟨n, fs1, fp1, chain1, run, more, le, ok1, writes1⟩
    · -- The disk is full.
      have reads := same.reads ok.toFileBase fp.clust
      have kept : FileOk v fs1 fp chain := ⟨reads.base, ok.clust, ok.here⟩
      refine ⟨0, fs1, fp, chain, by rw [run]; simp, Nat.zero_le _, kept,
        same.writes ok.toFileBase fp.clust, fun _ => ⟨?_, ends⟩⟩
      rw [same.links]
      exact full
    · have dropped : (wbuff.drop n).length = wbuff.length - n := List.length_drop
      obtain ⟨m, fs2, fp2, chain2, run2, le2, ok2, writes2, short⟩ :=
        ih (wbuff.drop n) fs1 fp1 chain1 ok1 (writes1.noBad noBad) (by omega)
      refine ⟨n + m, fs2, fp2, chain2, ?_, by omega, ok2, ?_, fun less => short (by omega)⟩
      · rw [run]
        simp only [run2]
        rw [if_neg (by omega)]
      · rw [List.take_add]
        exact writes1.trans writes2

/-- `f_write` stores the bytes at the file pointer. It stores nothing when the file would reach 4 GB, and fewer only
when no cluster of the volume is free any more and the file ends with its chain. -/
theorem fWrite_spec (healthy : ∀ k, faults k = none) (ok : FileOk v fs fp chain) (noBad : NoBad v fs)
    (noError : fp.flag &&& FatFs.FA_ERROR = 0) (writable : fp.flag &&& Mmcfs.FA_WRITE ≠ 0)
    (wbuff : List (BitVec 8)) :
    ∃ n fs' fp' chain', fWrite faults v wbuff fs fp = (.ok, n, fs', fp') ∧ n ≤ wbuff.length ∧
      FileOk v fs' fp' chain' ∧ fp'.fptr = fp.fptr + n ∧ fp'.fsize = max fp.fsize (fp.fptr + n) ∧
      fp'.flag = fp.flag ||| FatFs.FA_WRITTEN ∧ (fp'.dirSect = fp.dirSect ∧ fp'.dirPtr = fp.dirPtr) ∧ chain <+: chain' ∧
      (∀ o < fp'.fsize, fileByte v chain' fs' fp' o = store fp.fptr (wbuff.take n) (fileByte v chain fs fp) o) ∧
      Touched v chain chain' fs fs' ∧ NoBad v fs' ∧
      ((fp.fsize + wbuff.length) % 2 ^ 32 < fp.fsize → n = 0) ∧
      (n < wbuff.length → (fp.fsize + wbuff.length) % 2 ^ 32 < fp.fsize ∨
        (∀ c, links v fs'.view c ≠ .free) ∧ fp'.fptr = chain'.length * v.bcs) := by
  set data := if (fp.fsize + wbuff.length) % 2 ^ 32 < fp.fsize then [] else wbuff with hdata
  obtain ⟨n, fs1, fp1, chain1, run, le, ok1, writes, short⟩ :=
    writeLoop_spec healthy data.length data fs fp chain ok noBad (Nat.le_refl _)
  have part : data.take n = wbuff.take n ∧ n ≤ wbuff.length := by
    rw [hdata] at le ⊢
    split at le
    · obtain rfl := Nat.le_zero.mp le
      simp
    · next fits => exact ⟨by rw [if_neg fits], le⟩
  rw [part.1] at writes
  have count : (wbuff.take n).length = n := List.length_take_of_le part.2
  have fptr1 := writes.fptr
  have bytes := writes.bytes
  rw [count] at fptr1 bytes
  have size1 : max fp1.fsize fp1.fptr = max fp.fsize (fp.fptr + n) := by rw [writes.fsize, fptr1]
  set fp2 : Fil := { fp1 with fsize := max fp1.fsize fp1.fptr, flag := fp1.flag ||| FatFs.FA_WRITTEN } with hfp2
  have kept : FileOk v fs1 fp2 chain1 := by
    have base := ok1.toFileBase
    exact ⟨⟨base.windowOk, base.chained, base.start, by have := base.room; simp only [hfp2]; omega, base.window, base.place,
      base.dirty, base.copy⟩, ok1.clust, ok1.here⟩
  refine ⟨n, fs1, fp2, chain1, ?_, part.2, kept, fptr1, size1, by rw [hfp2, ← writes.flag], writes.entry, writes.pre,
    fun o inside => bytes o (size1 ▸ inside), writes.touched, writes.noBad noBad, fun wraps => ?_, fun less => ?_⟩
  · rw [fWrite, if_neg (not_not.mpr noError), if_neg writable]
    simp only [← hdata, run]
    rfl
  · rw [hdata, if_pos wraps] at le
    exact Nat.le_zero.mp le
  · by_cases wraps : (fp.fsize + wbuff.length) % 2 ^ 32 < fp.fsize
    · exact .inl wraps
    · rw [hdata, if_neg wraps] at short
      exact .inr (short less)

end

end Cineraria.Fat
