import Cineraria.Fat.Entry

/-!
# Several files

A volume with files at fixed places of its directories, some of them open. What the functions do to one file is
seen in no other, and a file that is closed can be opened again.
-/

namespace Cineraria.Fat

open Chain

/-! ## The files of a volume -/

/-- The chain of a file, by its first cluster. -/
def chainOf (v : Volume) (view : Nat → Sector) (sclust : Nat) : List Nat :=
  if sclust = 0 then [] else follow (links v view) v.nFatent sclust

/-- The file object that an entry stands for. -/
def entryFil (view : Nat → Sector) (place : Nat × Nat) : Fil where
  flag := 0
  dirty := false
  fsize := (ldDword (view place.1) (place.2 + DIR_FileSize)).toNat
  fptr := 0
  sclust := (ldClust (view place.1) place.2).toNat
  clust := 0
  dsect := 0
  buf := fun _ => 0
  dirSect := place.1
  dirPtr := place.2

/-- The volume, and the file objects of the files that are open. -/
structure Session (η : Type) where
  fs : Fatfs
  fil : η → Option Fil

section
variable {η : Type} (v : Volume) (place : η → Nat × Nat)

def Session.file (s : Session η) (h : η) : Fil := (s.fil h).getD (entryFil s.fs.view (place h))

def Session.chain (s : Session η) (h : η) : List Nat := chainOf v s.fs.view (s.file place h).sclust

/-- The bytes of a file. -/
def Session.bytes (s : Session η) (h : η) : List (BitVec 8) := content v (s.chain v place h) s.fs (s.file place h)

/-- The attributes of a file. -/
def Session.attr (s : Session η) (h : η) : BitVec 8 := s.fs.view (place h).1 (ofs ((place h).2 + DIR_Attr))

/-- The places of the entries are entries of directories: sectors of the root directory or of clusters in use. -/
structure Places : Prop where
  primary : ∀ h, v.Primary (place h).1
  far : ∀ h, v.fatbase + v.fsize ≤ (place h).1
  aligned : ∀ h, (place h).2 % SZ_DIR = 0 ∧ (place h).2 + 31 < SS
  inj : ∀ h h', place h = place h' → h = h'

/-- What holds of a file between the calls. What its file object has not written is in its entry. -/
structure Filed (fs : Fatfs) (p : Nat × Nat) (fp : Fil) (chain : List Nat) : Prop extends FileOk v fs fp chain where
  entry : (fp.dirSect, fp.dirPtr) = p
  inside : fp.fptr ≤ fp.fsize
  size : fp.fsize < 2 ^ 32
  noError : fp.flag &&& FatFs.FA_ERROR = 0
  settled : fp.flag &&& FatFs.FA_WRITTEN = 0 →
    fp.dirty = false ∧ (entryFil fs.view p).fsize = fp.fsize ∧ (entryFil fs.view p).sclust = fp.sclust

/-- What holds between the calls: every file is in order and has its chain for itself, and the entries lie in no file. -/
structure Session.Ok (s : Session η) : Prop where
  windowOk : s.fs.WindowOk v
  noBad : NoBad v s.fs
  filed : ∀ h, Filed v s.fs (place h) (s.file place h) (s.chain v place h)
  disjoint : ∀ h h' c, c ∈ s.chain v place h → c ∈ s.chain v place h' → h = h'
  apart : ∀ h c, 2 ≤ c → c < v.nFatent → v.InCluster c (place h).1 →
    links v s.fs.view c ≠ .free ∧ ∀ h', c ∉ s.chain v place h'

end

section
variable {η : Type} {v : Volume} {place : η → Nat × Nat} {s : Session η} {fs fs' : Fatfs} {fp : Fil} {chain : List Nat}

/-- Following the links from the first cluster gives the chain. -/
theorem FileBase.chainOf (ok : FileBase v fs fp chain) : chainOf v fs.view fp.sclust = chain := by
  cases chain with
  | nil => exact if_pos ok.start
  | cons c cs =>
    have start : fp.sclust = c := ok.start
    have range := ok.range c (by simp)
    have most : (c :: cs).length ≤ v.nFatent := by
      have subset : (c :: cs) ⊆ List.range v.nFatent := fun d mem => List.mem_range.mpr (ok.range d mem).2
      simpa using (ok.nodup.subperm subset).length_le
    rw [Fat.chainOf, if_neg (by omega), start]
    exact (ok.chained (by simp)).follow most

/-- An entry, by its bytes. -/
theorem entryFil_congr {view view' : Nat → Sector} {p : Nat × Nat}
    (same : ∀ k < 32, view' p.1 (ofs (p.2 + k)) = view p.1 (ofs (p.2 + k))) : entryFil view' p = entryFil view p := by
  have size : ldDword (view' p.1) (p.2 + DIR_FileSize) = ldDword (view p.1) (p.2 + DIR_FileSize) :=
    ldDword_congr fun i hi => by
      simp only [DIR_FileSize, Nat.add_assoc]
      exact same (28 + i) (by omega)
  have clust : ldClust (view' p.1) p.2 = ldClust (view p.1) p.2 := ldClust_congr same
  simp only [entryFil, size, clust]

/-! ## What one call leaves alone -/

/-- The other files are left alone by a call on a file that has the chain `chain'` after it. -/
structure Spares (v : Volume) (place : η → Nat × Nat) (s : Session η) (h : η) (chain' : List Nat) (fs' : Fatfs) :
    Prop where
  windowOk : fs'.WindowOk v
  noBad : NoBad v fs'
  links : ∀ c, links v s.fs.view c ≠ .free → c ∉ s.chain v place h → links v fs'.view c = links v s.fs.view c
  fresh : ∀ c ∈ chain', c ∈ s.chain v place h ∨ Fat.links v s.fs.view c = .free
  data : ∀ h' ≠ h, ∀ c ∈ s.chain v place h', ∀ i, v.InCluster c i → fs'.view i = s.fs.view i
  window : ∀ h' ≠ h, ∀ c ∈ s.chain v place h', ¬v.InCluster c fs'.winsect
  entries : ∀ h' ≠ h, ∀ k < 32,
    fs'.view (place h').1 (ofs ((place h').2 + k)) = s.fs.view (place h').1 (ofs ((place h').2 + k))

variable [DecidableEq η] {h : η} {chain' : List Nat} {fil' : Option Fil}

/-- The session after a call on one file. -/
def Session.after (s : Session η) (h : η) (fs' : Fatfs) (fil' : Option Fil) : Session η :=
  ⟨fs', Function.update s.fil h fil'⟩

theorem Spares.file (spares : Spares v place s h chain' fs') (fil' : Option Fil) {h' : η} (ne : h' ≠ h) :
    (s.after h fs' fil').file place h' = s.file place h' := by
  simp only [Session.file, Session.after, Function.update_of_ne ne]
  rw [entryFil_congr (spares.entries h' ne)]

omit [DecidableEq η] in
theorem Session.Ok.kept (ok : s.Ok v place) (spares : Spares v place s h chain' fs') {h' : η} (ne : h' ≠ h) :
    Filed v fs' (place h') (s.file place h') (s.chain v place h') ∧
      ∀ o < (s.chain v place h').length * v.bcs,
        fileByte v (s.chain v place h') fs' (s.file place h') o =
          fileByte v (s.chain v place h') s.fs (s.file place h') o := by
  have filed := ok.filed h'
  obtain ⟨kept, same⟩ := filed.kept spares.windowOk
    (fun c mem => spares.links c ((filed.chained (List.ne_nil_of_mem mem)).not_free mem)
      fun mine => ne (ok.disjoint h' h c mem mine)) (spares.data h' ne) (spares.window h' ne)
  refine ⟨⟨kept, filed.entry, filed.inside, filed.size, filed.noError, ?_⟩, same⟩
  rw [entryFil_congr (spares.entries h' ne)]
  exact filed.settled

/-- The other files are as they were. -/
theorem Session.Ok.others (ok : s.Ok v place) (spares : Spares v place s h chain' fs') (fil' : Option Fil) {h' : η}
    (ne : h' ≠ h) :
    (s.after h fs' fil').chain v place h' = s.chain v place h' ∧
      (s.after h fs' fil').bytes v place h' = s.bytes v place h' ∧
      (s.after h fs' fil').attr place h' = s.attr place h' ∧ (s.after h fs' fil').fil h' = s.fil h' := by
  obtain ⟨kept, same⟩ := ok.kept spares ne
  have file := spares.file fil' ne
  have chain : (s.after h fs' fil').chain v place h' = s.chain v place h' := by
    rw [Session.chain, file]
    exact kept.chainOf
  refine ⟨chain, ?_, spares.entries h' ne DIR_Attr (by decide), Function.update_of_ne ne _ _⟩
  rw [Session.bytes, Session.bytes, chain, file, content, content]
  refine List.map_congr_left fun o mem => same o ?_
  have := kept.room
  rw [List.mem_range] at mem
  omega

/-- A call that spares the other files and leaves its own in order leaves the session in order. -/
theorem Session.Ok.step (ok : s.Ok v place) (spares : Spares v place s h chain' fs') {fp : Fil}
    (is : (s.after h fs' fil').file place h = fp) (filed : Filed v fs' (place h) fp chain') :
    (s.after h fs' fil').Ok v place ∧ (s.after h fs' fil').chain v place h = chain' := by
  have mine : (s.after h fs' fil').chain v place h = chain' := by
    rw [Session.chain, is]
    exact filed.chainOf
  have theirs : ∀ h' ≠ h, (s.after h fs' fil').chain v place h' = s.chain v place h' :=
    fun h' ne => (ok.others spares fil' ne).1
  have other : ∀ h' ≠ h, ∀ c ∈ chain', c ∉ s.chain v place h' := fun h' ne c mem held => by
    rcases spares.fresh c mem with old | free
    · exact ne (ok.disjoint h' h c held old)
    · exact ((ok.filed h').chained (List.ne_nil_of_mem held)).not_free held free
  refine ⟨⟨spares.windowOk, spares.noBad, fun h' => ?_, fun h1 h2 c m1 m2 => ?_, fun h' c lo hi at' => ?_⟩, mine⟩
  · by_cases here : h' = h
    · subst here
      rw [is, mine]
      exact filed
    · rw [spares.file fil' here, theirs h' here]
      exact (ok.kept spares here).1
  · by_cases e1 : h1 = h <;> by_cases e2 : h2 = h
    · exact e1.trans e2.symm
    · rw [e1, mine] at m1
      rw [theirs h2 e2] at m2
      exact absurd m2 (other h2 e2 c m1)
    · rw [e2, mine] at m2
      rw [theirs h1 e1] at m1
      exact absurd m1 (other h1 e1 c m2)
    · rw [theirs h1 e1] at m1
      rw [theirs h2 e2] at m2
      exact ok.disjoint h1 h2 c m1 m2
  · obtain ⟨used, out⟩ := ok.apart h' c lo hi at'
    refine ⟨by rw [Session.after, spares.links c used (out h)]; exact used, fun h'' => ?_⟩
    by_cases here : h'' = h
    · subst here
      rw [mine]
      exact fun mem => (spares.fresh c mem).elim (out h'') used
    · rw [theirs h'' here]
      exact out h''

omit [DecidableEq η] in
/-- What touches only a chain and free clusters spares the other files. -/
theorem Touched.spares (touched : Touched v (s.chain v place h) chain' s.fs fs') (ok : s.Ok v place)
    (places : Places v place) (windowOk : fs'.WindowOk v) (noBad : NoBad v fs')
    (range : ∀ c ∈ chain', 2 ≤ c ∧ c < v.nFatent) : Spares v place s h chain' fs' := by
  have other : ∀ h' ≠ h, ∀ c ∈ s.chain v place h', c ∉ chain' := fun h' ne c held mem => by
    rcases touched.fresh c mem with old | free
    · exact ne (ok.disjoint h' h c held old)
    · exact ((ok.filed h').chained (List.ne_nil_of_mem held)).not_free held free
  refine ⟨windowOk, noBad, touched.links, touched.fresh, fun h' ne c held i inside => ?_, fun h' ne c held inside => ?_,
    fun h' ne k _ => ?_⟩
  · have rangec := (ok.filed h').range c held
    obtain ⟨primary, far⟩ := InCluster.primary rangec.1 rangec.2 inside
    refine touched.data i primary far fun d mem there => other h' ne c held ?_
    rwa [InCluster.unique rangec.1 rangec.2 (range d mem).1 (range d mem).2 inside there]
  · have rangec := (ok.filed h').range c held
    rcases touched.window with stays | onFat
    · exact (ok.filed h').window c held (stays ▸ inside)
    · exact onFat.not_inCluster rangec.1 rangec.2 inside
  · rw [touched.data _ (places.primary h') (places.far h') fun c mem there => ?_]
    obtain ⟨used, out⟩ := ok.apart h' c (range c mem).1 (range c mem).2 there
    exact (touched.fresh c mem).elim (out h) used

end

end Cineraria.Fat
