import Cineraria.Fat.File

/-!
# What a file object shows

A file is the sectors of its chain, seen through the sector buffer of its file object. `FileOk` is what holds of
a file object inside the functions, and `Touched` is all that they may do to the volume: links and sectors of
other chains stay.
-/

namespace Cineraria.Fat

open Chain

/-! ## The sectors of a chain -/

/-- The bytes of a cluster. -/
def Volume.bcs (v : Volume) : Nat := v.csize * SS

/-- A sector of a cluster. -/
def Volume.InCluster (v : Volume) (c i : Nat) : Prop := clust2sect v c ≤ i ∧ i < clust2sect v c + v.csize

/-- A sector of a file, by its number in the file. -/
def fileSector (v : Volume) (chain : List Nat) (j : Nat) : Nat :=
  clust2sect v (chain.getD (j / v.csize) 0) + j % v.csize

section
variable {v : Volume}

theorem clust2sect_eq {c : Nat} (lo : 2 ≤ c) (hi : c < v.nFatent) :
    clust2sect v c = (c - 2) * v.csize + v.database := by
  rw [clust2sect, if_neg (by omega)]

theorem Volume.database_far (v : Volume) : v.fatbase + v.fsize ≤ v.database ∧ v.fatbase + v.nFats * v.fsize ≤ v.database := by
  have one : 1 * v.fsize ≤ v.nFats * v.fsize := Nat.mul_le_mul_right _ (by have := v.nFats_range; omega)
  rw [v.database_eq]
  omega

theorem clust2sect_far {c : Nat} (lo : 2 ≤ c) (hi : c < v.nFatent) : v.database ≤ clust2sect v c ∧ clust2sect v c ≠ 0 := by
  have := v.database_far
  have := v.fatbase_pos
  rw [clust2sect_eq lo hi]
  omega

/-- The sectors of clusters lie beyond the FAT and its copies. -/
theorem InCluster.primary {c i : Nat} (lo : 2 ≤ c) (hi : c < v.nFatent) (inside : v.InCluster c i) :
    v.Primary i ∧ v.fatbase + v.fsize ≤ i := by
  have far := (clust2sect_far lo hi).1
  have := v.database_far
  have := inside.1
  exact ⟨⟨by omega, .inr (by omega)⟩, by omega⟩

/-- Two clusters have no sector in common. -/
theorem InCluster.unique {c d i : Nat} (loc : 2 ≤ c) (hic : c < v.nFatent) (lod : 2 ≤ d) (hid : d < v.nFatent)
    (hc : v.InCluster c i) (hd : v.InCluster d i) : c = d := by
  rw [Volume.InCluster, clust2sect_eq loc hic] at hc
  rw [Volume.InCluster, clust2sect_eq lod hid] at hd
  have below : ∀ {a b : Nat}, a + 1 ≤ b → a * v.csize + v.csize ≤ b * v.csize := fun {a b} h => by
    have := Nat.mul_le_mul_right v.csize h
    rwa [Nat.succ_mul] at this
  rcases Nat.lt_trichotomy c d with lt | eq | gt
  · have := below (show c - 2 + 1 ≤ d - 2 by omega)
    omega
  · exact eq
  · have := below (show d - 2 + 1 ≤ c - 2 by omega)
    omega

variable {chain : List Nat} {j k : Nat}

theorem fileSector_index (inside : j < chain.length * v.csize) : j / v.csize < chain.length :=
  (Nat.div_lt_iff_lt_mul v.csize_pos).mpr inside

theorem getD_of_lt (inside : j < chain.length * v.csize) : chain.getD (j / v.csize) 0 ∈ chain := by
  have lt := fileSector_index inside
  rw [List.getD_eq_getElem?_getD, List.getElem?_eq_getElem lt]
  exact List.getElem_mem lt

theorem fileSector_inCluster (v : Volume) (chain : List Nat) (j : Nat) :
    v.InCluster (chain.getD (j / v.csize) 0) (fileSector v chain j) := by
  have := Nat.mod_lt j v.csize_pos
  rw [Volume.InCluster, fileSector]
  omega

/-- The sectors of a cluster follow each other. -/
theorem fileSector_add (within : j % v.csize + k < v.csize) :
    fileSector v chain (j + k) = fileSector v chain j + k := by
  have pos := v.csize_pos
  have split := Nat.div_add_mod j v.csize
  have quotient : (j + k) / v.csize = j / v.csize :=
    Nat.div_eq_of_lt_le (by rw [Nat.mul_comm]; omega) (by rw [Nat.succ_mul, Nat.mul_comm]; omega)
  have remainder : (j + k) % v.csize = j % v.csize + k := by
    have := Nat.div_add_mod (j + k) v.csize
    rw [quotient] at this
    omega
  rw [fileSector, fileSector, quotient, remainder, Nat.add_assoc]

/-- Different places of a file lie in different sectors. -/
theorem fileSector_inj (nodup : chain.Nodup) (range : ∀ c ∈ chain, 2 ≤ c ∧ c < v.nFatent)
    (hj : j < chain.length * v.csize) (hk : k < chain.length * v.csize)
    (same : fileSector v chain j = fileSector v chain k) : j = k := by
  have rj := range _ (getD_of_lt hj)
  have rk := range _ (getD_of_lt hk)
  have cluster := InCluster.unique rj.1 rj.2 rk.1 rk.2 (fileSector_inCluster v chain j)
    (same ▸ fileSector_inCluster v chain k)
  have ij := fileSector_index hj
  have ik := fileSector_index hk
  have index : j / v.csize = k / v.csize := by
    rw [List.getD_eq_getElem?_getD, List.getD_eq_getElem?_getD, List.getElem?_eq_getElem ij,
      List.getElem?_eq_getElem ik] at cluster
    exact (List.Nodup.getElem_inj_iff nodup).mp cluster
  rw [fileSector, fileSector, index] at same
  have sj := Nat.div_add_mod j v.csize
  have sk := Nat.div_add_mod k v.csize
  rw [index] at sj
  omega

end

/-! ## The file object and its chain -/

/-- The sectors as the file object sees them. -/
def fileView (fs : Fatfs) (fp : Fil) : Nat → Sector := WriteBack.view fs.view ⟨fp.dsect, fp.buf, fp.dirty⟩

/-- A byte of the file. -/
def fileByte (v : Volume) (chain : List Nat) (fs : Fatfs) (fp : Fil) (o : Nat) : BitVec 8 :=
  fileView fs fp (fileSector v chain (o / SS)) (ofs o)

/-- What holds of a file object and its chain all the time: the chain covers the file, and the sector buffer
holds a sector of it. -/
structure FileBase (v : Volume) (fs : Fatfs) (fp : Fil) (chain : List Nat) : Prop where
  windowOk : fs.WindowOk v
  chained : chain ≠ [] → IsChain (links v fs.view) chain
  start : fp.sclust = chain.headD 0
  room : max fp.fsize fp.fptr ≤ chain.length * v.bcs
  window : ∀ c ∈ chain, ¬v.InCluster c fs.winsect
  place : fp.dsect = 0 ∨ ∃ c ∈ chain, v.InCluster c fp.dsect
  dirty : fp.dirty = true → fp.dsect ≠ 0
  copy : fp.dirty = false → fp.dsect ≠ 0 → fs.view fp.dsect = fp.buf

/-- What holds between the turns of the loops: the current cluster is that of the byte before the file pointer,
and between the boundaries of the sectors the buffer holds the one of the file pointer. -/
structure FileOk (v : Volume) (fs : Fatfs) (fp : Fil) (chain : List Nat) : Prop extends FileBase v fs fp chain where
  clust : 0 < fp.fptr → chain[(fp.fptr - 1) / v.bcs]? = some fp.clust
  here : fp.fptr % SS ≠ 0 → fp.dsect = fileSector v chain (fp.fptr / SS)

/-- Only the chain and what was free has been touched, and the window has not been moved or shows the FAT. -/
structure Touched (v : Volume) (chain chain' : List Nat) (fs fs' : Fatfs) : Prop where
  links : ∀ c, links v fs.view c ≠ .free → c ∉ chain → links v fs'.view c = links v fs.view c
  kept : ∀ c ∈ chain, c ∈ chain'
  fresh : ∀ c ∈ chain', c ∈ chain ∨ Fat.links v fs.view c = .free
  data : ∀ i, v.Primary i → v.fatbase + v.fsize ≤ i → (∀ c ∈ chain', ¬v.InCluster c i) → fs'.view i = fs.view i
  window : fs'.winsect = fs.winsect ∨ fs'.AtFat v

section
variable {v : Volume} {fs fs' : Fatfs} {fp fp' : Fil} {chain chain' : List Nat}

theorem Touched.trans {fs'' : Fatfs} {chain'' : List Nat} (a : Touched v chain chain' fs fs')
    (b : Touched v chain' chain'' fs' fs'') : Touched v chain chain'' fs fs'' where
  links c used out := by
    have first := a.links c used out
    have other : c ∉ chain' := fun mem => (a.fresh c mem).elim out used
    rw [b.links c (by rwa [first]) other, first]
  kept c mem := b.kept c (a.kept c mem)
  fresh c mem := by
    rcases b.fresh c mem with old | free
    · exact a.fresh c old
    · by_cases out : c ∈ chain
      · exact .inl out
      · refine .inr ?_
        by_contra used
        exact used (by rw [← a.links c used out, free])
  data i primary far away := by
    rw [b.data i primary far away, a.data i primary far fun c mem => away c (b.kept c mem)]
  window := window_trans a.window b.window

theorem FatRead.touched (same : FatRead v fs fs') : Touched v chain chain fs fs' :=
  ⟨fun c _ _ => by rw [same.links], fun _ mem => mem, fun _ mem => .inl mem,
    fun i primary _ _ => same.view i primary, same.window⟩

theorem FileBase.range (ok : FileBase v fs fp chain) : ∀ c ∈ chain, 2 ≤ c ∧ c < v.nFatent := by
  intro c mem
  refine range_of_links (show links v fs.view c ≠ .bad from ?_)
  rcases (ok.chained (List.ne_nil_of_mem mem)).mem mem with last | ⟨d, -, link⟩ <;> simp [*]

theorem FileBase.nodup (ok : FileBase v fs fp chain) : chain.Nodup := by
  by_cases none : chain = []
  · exact none ▸ List.nodup_nil
  · exact (ok.chained none).nodup

theorem Volume.bcs_pos (v : Volume) : 0 < v.bcs := Nat.mul_pos v.csize_pos (by decide)

theorem FileBase.place_primary (ok : FileBase v fs fp chain) (valid : fp.dsect ≠ 0) :
    v.Primary fp.dsect ∧ v.fatbase + v.fsize ≤ fp.dsect ∧ fs.winsect ≠ fp.dsect := by
  obtain ⟨c, mem, inside⟩ := ok.place.resolve_left valid
  obtain ⟨primary, far⟩ := InCluster.primary (ok.range c mem).1 (ok.range c mem).2 inside
  exact ⟨primary, far, fun eq => ok.window c mem (eq ▸ inside)⟩

/-- A sector as it is behind the window. -/
theorem Fatfs.view_apply (fs : Fatfs) (i : Nat) :
    fs.view i = if fs.wflag ∧ i = fs.winsect then fs.win else fs.drive.sectors i := by
  by_cases dirty : fs.wflag = true
  · by_cases here : i = fs.winsect <;> simp [Fatfs.view, WriteBack.view, Fatfs.line, dirty, here]
  · simp [Fatfs.view, WriteBack.view, Fatfs.line, dirty]

theorem Fatfs.view_of_ne {i : Nat} (ne : fs.winsect ≠ i) : fs.view i = fs.drive.sectors i := by
  rw [Fatfs.view_apply, if_neg fun h => ne h.2.symm]

/-- Sectors that are written round the window. -/
theorem view_put {s n : Nat} (away : ∀ i, s ≤ i → i < s + n → fs.winsect ≠ i) (buff : Nat → Sector) (i : Nat) :
    ({ fs with drive := fs.drive.put s n buff } : Fatfs).view i =
      if s ≤ i ∧ i < s + n then buff (i - s) else fs.view i := by
  rw [Fatfs.view_apply, Fatfs.view_apply]
  by_cases inside : s ≤ i ∧ i < s + n
  · have other : ¬(fs.wflag = true ∧ i = fs.winsect) := fun h => away i inside.1 inside.2 h.2.symm
    rw [if_neg other, if_pos inside]
    exact if_pos inside
  · simp [Drive.put, inside]

theorem WindowOk.put (ok : fs.WindowOk v) {s n : Nat} (away : ∀ i, s ≤ i → i < s + n → fs.winsect ≠ i)
    (buff : Nat → Sector) : ({ fs with drive := fs.drive.put s n buff } : Fatfs).WindowOk v :=
  ⟨ok.place, ok.dirty, fun clean valid => by
    have out : ¬(s ≤ fs.winsect ∧ fs.winsect < s + n) := fun inside => away _ inside.1 inside.2 rfl
    change (fs.drive.put s n buff).sectors fs.winsect = fs.win
    simp only [Drive.put, if_neg out]
    exact ok.copy clean valid⟩

/-- Sectors beyond the FAT hold no links. -/
theorem links_congr (same : ∀ i, v.Primary i → i < v.fatbase + v.fsize → fs'.view i = fs.view i) :
    links v fs'.view = links v fs.view := by
  have bytes : fatBytes v fs'.view = fatBytes v fs.view := by
    funext k
    simp only [fatBytes]
    split
    · next within => rw [same _ (Volume.primary_fat within) (by omega)]
    · rfl
  funext c
  simp only [links, table, bytes]

theorem fileView_apply (fs : Fatfs) (fp : Fil) (i : Nat) :
    fileView fs fp i = if fp.dirty ∧ i = fp.dsect then fp.buf else fs.view i := by
  by_cases dirty : fp.dirty = true
  · by_cases here : i = fp.dsect <;> simp [fileView, WriteBack.view, dirty, here]
  · simp [fileView, WriteBack.view, dirty]

/-- The sector in the buffer. -/
theorem FileBase.fileView_dsect (ok : FileBase v fs fp chain) (valid : fp.dsect ≠ 0) : fileView fs fp fp.dsect = fp.buf :=
  WriteBack.view_tag (l := ⟨fp.dsect, fp.buf, fp.dirty⟩) fun clean => ok.copy clean valid

/-! ## The sector buffer on a drive without faults -/

variable {faults : Faults}

theorem flushBuf_spec (healthy : ∀ k, faults k = none) (ok : FileBase v fs fp chain) :
    ∃ fs', flushBuf faults fs fp = (.ok, fs', { fp with dirty := false }) ∧
      FileBase v fs' { fp with dirty := false } chain ∧ fileView fs' { fp with dirty := false } = fileView fs fp ∧
      Touched v chain chain fs fs' ∧ links v fs'.view = links v fs.view := by
  cases hd : fp.dirty with
  | false =>
    have same : { fp with dirty := false } = fp := by rw [← hd]
    refine ⟨fs, by simp only [flushBuf, hd, same]; rfl, ?_⟩
    rw [same]
    exact ⟨ok, rfl, (FatRead.refl ok.windowOk).touched, rfl⟩
  | true =>
    have valid := ok.dirty hd
    obtain ⟨primary, far, away⟩ := ok.place_primary valid
    have apart : ∀ i, fp.dsect ≤ i → i < fp.dsect + 1 → fs.winsect ≠ i := fun i lo hi => by
      rwa [show i = fp.dsect by omega]
    have view := view_put apart (fun _ => fp.buf)
    have at_one : ∀ i, (fp.dsect ≤ i ∧ i < fp.dsect + 1) ↔ i = fp.dsect := fun i => by omega
    simp only [at_one] at view
    have sameLinks : links v ({ fs with drive := fs.drive.put fp.dsect 1 fun _ => fp.buf } : Fatfs).view =
        links v fs.view := links_congr fun i _ lt => by rw [view, if_neg (by omega)]
    refine ⟨{ fs with drive := fs.drive.put fp.dsect 1 fun _ => fp.buf }, by simp [flushBuf, hd, diskWrite, healthy],
      ⟨WindowOk.put ok.windowOk apart _, fun some => by rw [sameLinks]; exact ok.chained some, ok.start, ok.room,
        ok.window, ok.place, by simp, fun _ _ => by rw [view, if_pos rfl]⟩, ?_,
      ⟨fun c _ _ => by rw [sameLinks], fun _ mem => mem, fun _ mem => .inl mem, fun i _ _ out => ?_, .inl rfl⟩, sameLinks⟩
    · funext i
      rw [fileView_apply, fileView_apply, view]
      simp [hd]
    · rw [view, if_neg]
      rintro rfl
      obtain ⟨c, mem, inside⟩ := ok.place.resolve_left valid
      exact out c mem inside

/-- Filling the buffer with a sector of the chain. -/
theorem fillBuf_spec (healthy : ∀ k, faults k = none) (ok : FileBase v fs fp chain) {sect c : Nat} (mem : c ∈ chain)
    (inside : v.InCluster c sect) :
    ∃ fs', fillBuf faults sect fs fp = (.ok, fs', { fp with buf := fs.view sect, dsect := sect }) ∧
      FileBase v fs' { fp with buf := fs.view sect, dsect := sect } chain ∧ fs'.view = fs.view ∧
      FatRead v fs fs' := by
  have ne : fs.winsect ≠ sect := fun eq => ok.window c mem (eq ▸ inside)
  have nonzero := (InCluster.primary (ok.range c mem).1 (ok.range c mem).2 inside).1.pos
  have windowOk : ({ fs with drive := { fs.drive with ops := fs.drive.ops + 1 } } : Fatfs).WindowOk v :=
    ⟨ok.windowOk.place, ok.windowOk.dirty, ok.windowOk.copy⟩
  refine ⟨{ fs with drive := { fs.drive with ops := fs.drive.ops + 1 } }, ?_,
    ⟨windowOk, ok.chained, ok.start, ok.room, ok.window, .inr ⟨c, mem, inside⟩, fun _ => nonzero, fun _ _ => rfl⟩, rfl,
    ⟨⟨windowOk, fun _ _ => rfl, rfl, rfl, rfl⟩, .inl rfl⟩⟩
  rw [Fatfs.view_of_ne ne]
  simp [fillBuf, diskRead, healthy]

/-- A sector of the FAT is in no cluster. -/
theorem Fatfs.AtFat.not_inCluster (onFat : fs.AtFat v) {c : Nat} (lo : 2 ≤ c) (hi : c < v.nFatent) :
    ¬v.InCluster c fs.winsect := fun inside => by
  have := (InCluster.primary lo hi inside).2
  have := onFat.2
  omega

/-- Reading the FAT changes nothing of a file. -/
theorem FileBase.read (ok : FileBase v fs fp chain) (same : FatRead v fs fs') : FileBase v fs' fp chain := by
  refine ⟨same.windowOk, by rw [same.links]; exact ok.chained, ok.start, ok.room, fun c mem => ?_, ok.place, ok.dirty,
    fun clean valid => ?_⟩
  · rcases same.window with stays | onFat
    · rw [stays]
      exact ok.window c mem
    · exact onFat.not_inCluster (ok.range c mem).1 (ok.range c mem).2
  · rw [same.view _ (ok.place_primary valid).1]
    exact ok.copy clean valid

theorem FatRead.fileView (same : FatRead v fs fs') {i : Nat} (primary : v.Primary i) :
    fileView fs' fp i = fileView fs fp i := by
  rw [fileView_apply, fileView_apply, same.view i primary]

/-- The sectors of a file are sectors of the volume. -/
theorem FileBase.fileSector_primary (ok : FileBase v fs fp chain) {j : Nat} (inside : j < chain.length * v.csize) :
    v.Primary (fileSector v chain j) ∧ fileSector v chain j ≠ 0 ∧ fs.winsect ≠ fileSector v chain j := by
  have mem := getD_of_lt inside
  have inCluster := fileSector_inCluster v chain j
  obtain ⟨primary, -⟩ := InCluster.primary (ok.range _ mem).1 (ok.range _ mem).2 inCluster
  exact ⟨primary, primary.pos, fun eq => ok.window _ mem (eq ▸ inCluster)⟩

end

end Cineraria.Fat
