import Cineraria.Fat.Dir

/-!
# The table of a directory

Where the entries of a directory lie, and that `dir_sdi` and `dir_next` lead to them.
-/

namespace Cineraria.Fat

open Chain

/-- Where the table of a directory lies: in the static root directory, or in the clusters of a chain. -/
inductive Site where
  | root
  | chain (cs : List Nat)

section
variable (v : Volume)

def Site.entries : Site → Nat
  | .root => v.nRootdir
  | .chain cs => cs.length * perClust v

/-- The entries that an index reaches. -/
def Site.count (site : Site) : Nat := min (site.entries v) 65536

def Site.clust : Site → Nat → Nat
  | .root, _ => 0
  | .chain cs, i => cs.getD (i / perSect / v.csize) 0

def Site.sector : Site → Nat → Nat
  | .root, i => v.dirbase + i / perSect
  | .chain cs, i => fileSector v cs (i / perSect)

/-- An entry of the table, and all of them. -/
def Site.slot (site : Site) (view : Nat → Sector) (i : Nat) : Entry :=
  dirEntry (view (site.sector v i)) (i % perSect * SZ_DIR)

def Site.table (site : Site) (view : Nat → Sector) : List Entry :=
  (List.range (site.count v)).map (site.slot v view)

/-- The table of the directory with the start cluster `sclust` lies there. -/
inductive Site.Of (view : Nat → Sector) : Site → Nat → Prop
  | root (static : v.fsType ≠ .fat32) : Of view .root 0
  | chain {c sclust : Nat} {cs : List Nat} (chained : IsChain (links v view) (c :: cs))
      (start : (if sclust = 0 ∧ v.fsType = .fat32 then v.dirbase else sclust) = c) : Of view (.chain (c :: cs)) sclust

/-- A sector of the table. -/
def Site.Covers (site : Site) (s : Nat) : Prop := ∃ i < site.entries v, s = site.sector v i

/-- The directory object at the entry `i`. -/
def Dir.goto (site : Site) (i : Nat) (dj : Dir) : Dir :=
  { dj with index := i, clust := site.clust v i, sect := site.sector v i, dir := i % perSect * SZ_DIR }

/-- The table has been read: nothing has changed, and the window has not been moved or shows the FAT or the table. -/
structure Looked (site : Site) (fs fs' : Fatfs) : Prop extends Unchanged v fs fs' where
  window : fs'.winsect = fs.winsect ∨ fs'.AtFat v ∨ site.Covers v fs'.winsect

end

section
variable {faults : Faults} {v : Volume} {fs fs' : Fatfs} {dj dj' : Dir} {site : Site} {i j : Nat}

theorem Looked.trans {fs'' : Fatfs} (a : Looked v site fs fs') (b : Looked v site fs' fs'') :
    Looked v site fs fs'' := by
  refine ⟨a.toUnchanged.trans b.toUnchanged, ?_⟩
  rcases b.window with same | moved
  · rcases a.window with same' | onFat | covers
    · exact .inl (same.trans same')
    · exact .inr (.inl (by rwa [Fatfs.AtFat, same]))
    · exact .inr (.inr (same ▸ covers))
  · exact .inr moved

theorem FatRead.looked (read : FatRead v fs fs') : Looked v site fs fs' :=
  ⟨read.toUnchanged, read.window.imp_right .inl⟩

theorem Site.Of.congr {view view' : Nat → Sector} {sclust : Nat} (of : site.Of v view sclust)
    (same : links v view' = links v view) : site.Of v view' sclust := by
  cases of with
  | root static => exact .root static
  | chain chained start => exact .chain (same ▸ chained) start

@[simp] theorem perSect_eq : perSect = 16 := rfl

theorem div_perClust (v : Volume) (i : Nat) : i / perClust v = i / perSect / v.csize := (Nat.div_div_eq_div_mul ..).symm

theorem chain_inside_iff {cs : List Nat} : i < (Site.chain cs).entries v ↔ i / perSect / v.csize < cs.length := by
  rw [Nat.div_lt_iff_lt_mul v.csize_pos, perSect_eq, Nat.div_lt_iff_lt_mul (by decide), Site.entries, perClust,
    perSect_eq, Nat.mul_assoc, Nat.mul_comm v.csize]

theorem chain_inside {cs : List Nat} (inside : i < (Site.chain cs).entries v) : i / perSect < cs.length * v.csize :=
  (Nat.div_lt_iff_lt_mul v.csize_pos).mp (chain_inside_iff.mp inside)

/-- A table fills its sectors. -/
theorem Site.aligned (v : Volume) (site : Site) : perSect ∣ site.entries v := by
  cases site with
  | root => exact v.rootdir_aligned
  | chain cs => exact Nat.dvd_mul_left_of_dvd (Nat.dvd_mul_right ..) _

theorem IsChain.range {view : Nat → Sector} {cs : List Nat} (chained : IsChain (links v view) cs) :
    ∀ c ∈ cs, 2 ≤ c ∧ c < v.nFatent := by
  intro c mem
  refine range_of_links (show links v view c ≠ .bad from ?_)
  rcases chained.mem mem with last | ⟨d, -, link⟩ <;> simp [*]

/-- The sectors of a table lie beyond the FAT and its copies. -/
theorem Site.Of.primary {view : Nat → Sector} {sclust : Nat} (of : site.Of v view sclust)
    (inside : i < site.entries v) :
    v.Primary (site.sector v i) ∧ v.fatbase + v.fsize ≤ site.sector v i := by
  cases of with
  | root static =>
      have base := v.dirbase_eq static
      have one : 1 * v.fsize ≤ v.nFats * v.fsize := Nat.mul_le_mul_right _ (by have := v.nFats_range; omega)
      simp only [Site.sector, perSect_eq]
      exact ⟨⟨by omega, .inr (by omega)⟩, by omega⟩
  | chain chained =>
      obtain ⟨lo, hi⟩ := IsChain.range chained _ (getD_of_lt (chain_inside inside))
      exact InCluster.primary lo hi (fileSector_inCluster v _ _)

/-- Two entries lie at different places. -/
theorem Site.Of.inj {view : Nat → Sector} {sclust : Nat} (of : site.Of v view sclust) (hi : i < site.entries v)
    (hj : j < site.entries v) (same : site.sector v i = site.sector v j) : i / perSect = j / perSect := by
  cases of with
  | root => exact Nat.add_left_cancel same
  | chain chained =>
      exact fileSector_inj chained.nodup (IsChain.range chained) (chain_inside hi) (chain_inside hj) same

/-! ## `dir_sdi` -/

/-- The loop of `dir_sdi` goes along the chain. -/
theorem sdiLoop_spec {turns c : Nat} {cs : List Nat} {r : Except FResult Nat} (ok : fs.WindowOk v)
    (chained : IsChain (links v fs.view) (c :: cs)) (h : sdiLoop faults v turns c fs = (r, fs')) :
    FatRead v fs fs' ∧ (r = .error .diskErr ∧ faults.Some ∨
      r = .ok ((c :: cs).getD turns 0) ∧ turns ≤ cs.length ∨ r = .error .intErr ∧ cs.length < turns) := by
  induction turns generalizing c cs fs with
  | zero =>
      obtain ⟨rfl, rfl⟩ : .ok c = r ∧ fs = fs' := by simpa [sdiLoop] using h
      exact ⟨FatRead.refl ok, .inr (.inl ⟨rfl, Nat.zero_le _⟩)⟩
  | succ turns ih =>
      obtain ⟨lo, hi⟩ := IsChain.range chained c (List.mem_cons_self ..)
      cases hg : getFat faults v c fs with
      | mk val fs1 =>
        rw [sdiLoop, hg] at h
        obtain ⟨read, ⟨rfl, faulty⟩ | ⟨noError, link, -⟩⟩ := getFat_link ok lo hi hg
        · obtain ⟨rfl, rfl⟩ : .error .diskErr = r ∧ fs1 = fs' := by simpa using h
          exact ⟨read, .inl ⟨rfl, faulty⟩⟩
        · simp only [noError, if_false] at h
          cases cs with
          | nil =>
              have high := Volume.link_eq_last.mp (link.symm.trans chained)
              rw [if_pos (.inr high)] at h
              obtain ⟨rfl, rfl⟩ : .error .intErr = r ∧ fs1 = fs' := by simpa using h
              exact ⟨read, .inr (.inr ⟨rfl, by simp⟩)⟩
          | cons d cs =>
              obtain ⟨value, low, high⟩ := Volume.link_eq_next.mp (link.symm.trans chained.1)
              rw [if_neg (by omega), value] at h
              obtain ⟨read2, result⟩ := ih read.windowOk (by rw [read.links]; exact chained.tail) h
              refine ⟨read.trans read2, result.imp_right (Or.imp ?_ ?_)⟩
              · rintro ⟨rfl, within⟩
                exact ⟨rfl, by simpa using within⟩
              · rintro ⟨rfl, beyond⟩
                exact ⟨rfl, by simpa using beyond⟩

/-- `dir_sdi` leads to the entry, if the table has it. -/
theorem dirSdi_spec {res : FResult} (ok : fs.WindowOk v) (of : site.Of v fs.view dj.sclust)
    (h : dirSdi faults v i fs dj = (res, fs', dj')) :
    FatRead v fs fs' ∧ (res = .diskErr ∧ faults.Some ∨
      res = .ok ∧ i < site.entries v ∧ dj' = dj.goto v site i ∨ res = .intErr ∧ site.entries v ≤ i) := by
  have entries := v.nFatent_gt
  generalize hs : dj.sclust = sclust at of
  cases of with
  | root static =>
      rw [dirSdi, if_neg (by simp only [hs]; omega)] at h
      simp only [hs, static, and_false, if_false, if_true] at h
      by_cases beyond : v.nRootdir ≤ i
      · rw [if_pos beyond] at h
        cases h
        exact ⟨FatRead.refl ok, .inr (.inr ⟨rfl, beyond⟩)⟩
      · rw [if_neg beyond] at h
        cases h
        exact ⟨FatRead.refl ok, .inr (.inl ⟨rfl, Nat.lt_of_not_le beyond, by
          simp only [Dir.goto, Site.clust, Site.sector, hs]⟩)⟩
  | @chain c _ cs chained start =>
      obtain ⟨lo, hi⟩ := IsChain.range chained c (List.mem_cons_self ..)
      have valid : ¬(sclust = 1 ∨ v.nFatent ≤ sclust) := by
        split at start <;> omega
      have index := div_perClust v i
      cases hl : sdiLoop faults v (i / perClust v) c fs with
      | mk r fs1 =>
        rw [dirSdi, if_neg (by simpa only [hs] using valid)] at h
        simp only [hs, start, hl] at h
        rw [if_neg (by omega)] at h
        have size : (Site.chain (c :: cs)).entries v = (cs.length + 1) * perClust v := rfl
        have pos : 0 < perClust v := Nat.mul_pos (by decide) v.csize_pos
        obtain ⟨read, ⟨rfl, faulty⟩ | ⟨rfl, within⟩ | ⟨rfl, beyond⟩⟩ := sdiLoop_spec ok chained hl
        · cases h
          exact ⟨read, .inl ⟨rfl, faulty⟩⟩
        · cases h
          refine ⟨read, .inr (.inl ⟨rfl, ?_, ?_⟩)⟩
          · rw [size]
            exact (Nat.div_lt_iff_lt_mul pos).mp (by omega)
          · have place : i % perClust v / perSect = i / perSect % v.csize := Nat.mod_mul_right_div_self ..
            have entry : i % perClust v % perSect = i % perSect := Nat.mod_mul_right_mod ..
            simp only [Dir.goto, Site.clust, Site.sector, fileSector, index, place, entry, hs]
        · cases h
          refine ⟨read, .inr (.inr ⟨rfl, ?_⟩)⟩
          rw [size]
          exact (Nat.le_div_iff_mul_le pos).mp beyond

/-! ## `dir_next` -/

/-- The next cluster, without stretching. -/
theorem nextClust_spec {cs : List Nat} {k c : Nat} {r : Except FResult Nat} (ok : fs.WindowOk v)
    (chained : IsChain (links v fs.view) cs) (get : cs[k]? = some c) (h : nextClust faults v false c fs = (r, fs')) :
    FatRead v fs fs' ∧ (r = .error .diskErr ∧ faults.Some ∨
      (∃ d, cs[k + 1]? = some d ∧ r = .ok d) ∨ r = .error .noFile ∧ cs.length = k + 1) := by
  obtain ⟨lo, hi⟩ := IsChain.range chained c (List.mem_of_getElem? get)
  have inside : k < cs.length := (List.getElem?_eq_some_iff.mp get).1
  have split : cs = cs.take k ++ c :: cs.drop (k + 1) := by
    rw [← (List.getElem?_eq_some_iff.mp get).2, List.getElem_cons_drop, List.take_append_drop]
  have rest := IsChain.suffix (split ▸ chained)
  cases hg : getFat faults v c fs with
  | mk val fs1 =>
    rw [nextClust, hg] at h
    obtain ⟨read, ⟨rfl, faulty⟩ | ⟨noError, link, -⟩⟩ := getFat_link ok lo hi hg
    · cases h
      exact ⟨read, .inl ⟨rfl, faulty⟩⟩
    · simp only [noError, if_false] at h
      cases hd : cs.drop (k + 1) with
      | nil =>
          rw [hd] at rest
          have high := Volume.link_eq_last.mp (link.symm.trans rest)
          have most := v.nFatent_gt
          rw [if_neg (by omega), if_pos high] at h
          cases h
          have length := List.drop_eq_nil_iff.mp hd
          exact ⟨read, .inr (.inr ⟨rfl, by omega⟩)⟩
      | cons d ds =>
          rw [hd] at rest
          obtain ⟨value, low, high⟩ := Volume.link_eq_next.mp (link.symm.trans rest.1)
          rw [if_neg (by omega), if_neg (by omega), value] at h
          cases h
          refine ⟨read, .inr (.inl ⟨d, ?_, rfl⟩)⟩
          have head := congrArg List.head? hd
          rwa [List.head?_drop, List.head?_cons] at head

/-- `dir_next` without stretching: it leads to the next entry, if the table has one that an index reaches. -/
theorem dirNext_spec {res : FResult} (ok : fs.WindowOk v) (of : site.Of v fs.view dj.sclust) (inside : i < site.count v)
    (h : dirNext faults v false fs (dj.goto v site i) = (res, fs', dj')) :
    FatRead v fs fs' ∧ (res = .diskErr ∧ faults.Some ∨
      res = .ok ∧ i + 1 < site.count v ∧ dj' = dj.goto v site (i + 1) ∨ res = .noFile ∧ site.count v = i + 1) := by
  have within : i < site.entries v ∧ i < 65536 := by
    rw [Site.count] at inside
    omega
  have sect : site.sector v i ≠ 0 := (of.primary within.1).1.pos
  by_cases last : i = 65535
  · subst last
    have end' : ((dj.goto v site 65535).index + 1) % 65536 = 0 := Nat.mod_self 65536
    rw [dirNext, if_pos (.inl end')] at h
    cases h
    refine ⟨FatRead.refl ok, .inr (.inr ⟨rfl, ?_⟩)⟩
    rw [Site.count]
    omega
  have small : (i + 1) % 65536 = i + 1 := Nat.mod_eq_of_lt (by omega)
  have here : (dj.goto v site i).index = i ∧ (dj.goto v site i).sect = site.sector v i := ⟨rfl, rfl⟩
  rw [dirNext, here.1, here.2, small, if_neg (by omega)] at h
  have reached : i + 1 < site.entries v → i + 1 < site.count v := fun more => by
    rw [Site.count]
    omega
  by_cases same : (i + 1) % perSect = 0
  · have next : (i + 1) / perSect = i / perSect + 1 := by
      rw [perSect_eq] at same ⊢
      omega
    rw [if_pos same] at h
    generalize dj.sclust = sclust at of
    cases of with
    | root static =>
        have clust : (dj.goto v .root i).clust = 0 := rfl
        simp only [clust, if_true] at h
        by_cases beyond : v.nRootdir ≤ i + 1
        · rw [if_pos beyond] at h
          cases h
          have entries : Site.root.entries v = v.nRootdir := rfl
          refine ⟨FatRead.refl ok, .inr (.inr ⟨rfl, ?_⟩)⟩
          rw [Site.count]
          omega
        · rw [if_neg beyond] at h
          cases h
          refine ⟨FatRead.refl ok, .inr (.inl ⟨rfl, reached (Nat.lt_of_not_le beyond), ?_⟩)⟩
          simp only [Dir.goto, Site.clust, Site.sector, next, Nat.add_assoc]
    | @chain c _ cs chained start =>
        have bound := chain_inside within.1
        have place := fileSector_index bound
        have mem := getD_of_lt bound
        obtain ⟨lo, hi⟩ := IsChain.range chained _ mem
        have clust : (dj.goto v (.chain (c :: cs)) i).clust = (c :: cs).getD (i / perSect / v.csize) 0 := rfl
        simp only [clust, v.and_mask, next] at h
        rw [if_neg (by omega)] at h
        have sum := Nat.div_add_mod (i / perSect) v.csize
        have pos := v.csize_pos
        by_cases edge : (i / perSect + 1) % v.csize = 0
        · -- The cluster ends with this entry.
          have quotient : (i / perSect + 1) / v.csize = i / perSect / v.csize + 1 := by
            rw [Nat.succ_div_of_dvd (Nat.dvd_of_mod_eq_zero edge)]
          rw [if_pos edge] at h
          have get : (c :: cs)[i / perSect / v.csize]? = some ((c :: cs).getD (i / perSect / v.csize) 0) := by
            rw [List.getD_eq_getElem?_getD, List.getElem?_eq_getElem place]
            rfl
          cases hn : nextClust faults v false ((c :: cs).getD (i / perSect / v.csize) 0) fs with
          | mk r fs1 =>
            rw [hn] at h
            obtain ⟨read, ⟨rfl, faulty⟩ | ⟨d, get', rfl⟩ | ⟨rfl, length⟩⟩ := nextClust_spec ok chained get hn
            · cases h
              exact ⟨read, .inl ⟨rfl, faulty⟩⟩
            · cases h
              refine ⟨read, .inr (.inl ⟨rfl, reached ?_, ?_⟩)⟩
              · rw [chain_inside_iff, next, quotient]
                exact (List.getElem?_eq_some_iff.mp get').1
              · have value : (c :: cs).getD (i / perSect / v.csize + 1) 0 = d := by
                  rw [List.getD_eq_getElem?_getD, get']
                  rfl
                simp only [Dir.goto, Site.clust, Site.sector, fileSector, next, quotient, edge, value, Nat.add_zero]
            · cases h
              have ends : ¬i + 1 < (Site.chain (c :: cs)).entries v := by
                rw [chain_inside_iff, next, quotient]
                omega
              refine ⟨read, .inr (.inr ⟨rfl, ?_⟩)⟩
              rw [Site.count]
              omega
        · rw [if_neg edge] at h
          cases h
          have quotient : (i / perSect + 1) / v.csize = i / perSect / v.csize := by
            rw [Nat.succ_div_of_not_dvd fun dvd => edge (Nat.mod_eq_zero_of_dvd dvd)]
          have room : i / perSect % v.csize + 1 < v.csize := by
            have less := Nat.mod_lt (i / perSect) pos
            rcases Nat.lt_or_eq_of_le (Nat.succ_le_of_lt less) with fits | full
            · exact fits
            · rw [Nat.succ_eq_add_one] at full
              exact absurd (by rw [← Nat.mod_add_mod, full, Nat.mod_self]) edge
          refine ⟨FatRead.refl ok, .inr (.inl ⟨rfl, reached ?_, ?_⟩)⟩
          · rwa [chain_inside_iff, next, quotient]
          · simp only [Dir.goto, Site.clust, Site.sector, next, quotient, fileSector_add room]
  · have next : (i + 1) / perSect = i / perSect := by
      rw [perSect_eq] at same ⊢
      omega
    rw [if_neg same] at h
    cases h
    refine ⟨FatRead.refl ok, .inr (.inl ⟨rfl, reached ?_, ?_⟩)⟩
    · have aligned := site.aligned v
      rw [perSect_eq] at same aligned
      omega
    · cases site <;> simp only [Dir.goto, Site.clust, Site.sector, next]

/-! ## Reading the table -/

theorem Site.slot_congr {view view' : Nat → Sector} {sclust : Nat} (of : site.Of v view sclust)
    (inside : i < site.entries v) (same : ∀ s, v.Primary s → view' s = view s) :
    site.slot v view' i = site.slot v view i := by
  rw [Site.slot, Site.slot, same _ (of.primary inside).1]

theorem Site.table_congr {view view' : Nat → Sector} {sclust : Nat} (of : site.Of v view sclust)
    (same : ∀ s, v.Primary s → view' s = view s) : site.table v view' = site.table v view := by
  refine List.map_congr_left fun i mem => Site.slot_congr of ?_ same
  rw [List.mem_range, Site.count] at mem
  omega

theorem Site.length_table (site : Site) (view : Nat → Sector) : (site.table v view).length = site.count v := by
  rw [Site.table, List.length_map, List.length_range]

theorem Site.table_drop {view : Nat → Sector} (inside : i < site.count v) :
    (site.table v view).drop i = site.slot v view i :: (site.table v view).drop (i + 1) := by
  rw [List.drop_eq_getElem_cons (by rwa [Site.length_table])]
  simp only [Site.table, List.getElem_map, List.getElem_range]

theorem Site.table_get (view : Nat → Sector) (inside : i < site.count v) :
    (site.table v view)[i]? = some (site.slot v view i) := by
  rw [Site.table, List.getElem?_map, List.getElem?_range inside]
  rfl

/-- The entry in the window. -/
theorem Looked.entry {sclust : Nat} (looked : Looked v site fs fs') (of : site.Of v fs.view sclust)
    (inside : i < site.entries v) (here : fs'.winsect = site.sector v i) :
    (dj.goto v site i).entry fs' = site.slot v fs.view i := by
  have primary := (of.primary inside).1
  have shown := looked.windowOk.view_winsect (here ▸ primary.pos)
  rw [here, looked.view _ primary] at shown
  rw [Dir.entry, ← shown]
  rfl

/-- The window on an entry. -/
theorem moveWindow_slot {res : FResult} {sclust : Nat} (ok : fs.WindowOk v) (of : site.Of v fs.view sclust)
    (inside : i < site.entries v) (dj : Dir) (h : moveWindow faults v (site.sector v i) fs = (res, fs')) :
    Looked v site fs fs' ∧ (res = .diskErr ∧ faults.Some ∨
      res = .ok ∧ fs'.winsect = site.sector v i ∧ (dj.goto v site i).entry fs' = site.slot v fs.view i) := by
  have primary := (of.primary inside).1
  obtain ⟨same, result⟩ := moveWindow_spec ok (.inr primary) h
  refine ⟨⟨same, (moveWindow_winsect h).imp_right fun moved => .inr ⟨i, inside, moved⟩⟩, result.imp_right ?_⟩
  rintro ⟨rfl, -, shown⟩
  obtain ⟨sect, win⟩ := shown primary.pos
  refine ⟨rfl, sect, ?_⟩
  rw [Dir.entry, win]
  rfl

/-- What the loop of `dir_find` and `dir_read` returns for what the scan of the table comes to. -/
def Outcome {σ : Type} (v : Volume) (site : Site) (keep : σ → Dir) (seen : Tiling.Look (Nat × σ)) (res : FResult)
    (fs : Fatfs) (dj : Dir) : Prop :=
  match seen with
  | .hit (j, s) => res = .ok ∧ j < site.count v ∧ fs.winsect = site.sector v j ∧ dj = (keep s).goto v site j
  | _ => res = .noFile

/-- The loop of `dir_find` and `dir_read` is a scan of the table. -/
theorem scanLoop_spec {σ : Type} {look : Nat → Entry → σ → Tiling.Look σ} {keep : σ → Dir → Dir}
    {turns : Nat} {s : σ} {res : FResult}
    (h : scanLoop faults v look keep turns s fs (dj.goto v site i) = (res, fs', dj'))
    (place : ∀ s i dj, keep s (Dir.goto v site i dj) = (keep s dj).goto v site i)
    (start : ∀ s dj, (keep s dj).sclust = dj.sclust) (once : ∀ s s' dj, keep s (keep s' dj) = keep s dj)
    (ok : fs.WindowOk v) (of : site.Of v fs.view dj.sclust) (inside : i < site.count v)
    (enough : site.count v ≤ i + turns) :
    Looked v site fs fs' ∧ (res = .diskErr ∧ faults.Some ∨
      Outcome v site (fun s => keep s dj) (Tiling.scan look ((site.table v fs.view).drop i) i s) res fs' dj') := by
  induction turns generalizing i s fs dj with
  | zero => omega
  | succ turns ih =>
      have within : i < site.entries v := by
        rw [Site.count] at inside
        omega
      rw [Site.table_drop inside, Tiling.scan]
      rw [scanLoop] at h
      cases hm : moveWindow faults v (site.sector v i) fs with
      | mk res1 fs1 =>
        have sect : (dj.goto v site i).sect = site.sector v i := rfl
        have index : (dj.goto v site i).index = i := rfl
        rw [sect, hm] at h
        obtain ⟨looked, ⟨rfl, faulty⟩ | ⟨rfl, here, entry⟩⟩ := moveWindow_slot ok of within dj hm
        · cases h
          exact ⟨looked, .inl ⟨rfl, faulty⟩⟩
        simp only [entry, index] at h
        cases hl : look i (site.slot v fs.view i) s with
        | ended =>
            rw [hl] at h
            cases h
            exact ⟨looked, .inr rfl⟩
        | hit s' =>
            rw [hl] at h
            cases h
            exact ⟨looked, .inr ⟨rfl, inside, here, place ..⟩⟩
        | miss s' =>
            simp only [hl, place] at h
            have of1 : site.Of v fs1.view (keep s' dj).sclust := by
              rw [start]
              exact of.congr looked.links
            cases hd : dirNext faults v false fs1 ((keep s' dj).goto v site i) with
            | mk res2 rest =>
              obtain ⟨fs2, dj2⟩ := rest
              rw [hd] at h
              obtain ⟨read, ⟨rfl, faulty⟩ | ⟨rfl, more, rfl⟩ | ⟨rfl, ends⟩⟩ :=
                dirNext_spec looked.windowOk of1 inside hd
              · cases h
                exact ⟨looked.trans read.looked, .inl ⟨rfl, faulty⟩⟩
              · have same : ∀ s, v.Primary s → fs2.view s = fs.view s := fun s primary => by
                  rw [read.view s primary, looked.view s primary]
                obtain ⟨looked2, result⟩ := ih h read.windowOk (of1.congr read.links) more (by omega)
                refine ⟨(looked.trans read.looked).trans looked2, result.imp_right fun outcome => ?_⟩
                rw [Site.table_congr of same] at outcome
                simp only
                generalize Tiling.scan look ((site.table v fs.view).drop (i + 1)) (i + 1) s' = seen at outcome ⊢
                cases seen with
                | hit p => simpa only [once] using outcome
                | ended => exact outcome
                | miss p => exact outcome
              · cases h
                refine ⟨looked.trans read.looked, .inr ?_⟩
                rw [List.drop_eq_nil_of_le (by rw [Site.length_table]; omega)]
                rfl

end

end Cineraria.Fat
