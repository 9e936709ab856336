import Cineraria.Lib.Chain
import Cineraria.Fat.Table

/-!
# Stretching a chain

`create_chain` of `fatfs/ff.c`. The FAT is a linked allocation table; a free cluster is looked for from the
cluster after the start point on, round the end of the table, and no cluster is looked at twice.
-/

namespace Cineraria.Fat

open Chain

section
variable (faults : Faults) (v : Volume)

/-- The link that a value is. The value 1 is none. -/
def Volume.link (x : Nat) : Link Nat :=
  if x = 0 then .free else if x = 1 then .bad else if x < v.nFatent then .next x else .last

/-- The FAT as a linked allocation table. -/
def links (view : Nat → Sector) (clst : Nat) : Link Nat :=
  if clst < 2 ∨ v.nFatent ≤ clst then .bad else v.link (table v view clst)

/-- The loop of `create_chain`: the free cluster it finds, or the code it returns. -/
def searchLoop (scl : Nat) : Nat → Nat → Fatfs → Option (Except Nat Nat × Fatfs)
  | 0, _, _ => none
  | turns + 1, ncl, fs =>
      let wrap := v.nFatent ≤ ncl + 1
      let ncl := if wrap then 2 else ncl + 1
      if wrap ∧ scl < ncl then some (.error 0, fs)
      else
        match getFat faults v ncl fs with
        | (cs, fs) =>
            if cs = 0 then some (.ok ncl, fs)
            else if cs = 0xFFFFFFFF ∨ cs = 1 then some (.error cs.toNat, fs)
            else if ncl = scl then some (.error 0, fs)
            else searchLoop scl turns ncl fs

/-- The mark of the last cluster. -/
def lastLink : BitVec 32 := 0x0FFFFFFF

/-- The end of `create_chain`: the new cluster is marked, and linked to the previous one if there is one. -/
def putNew (clst ncl : Nat) (fs : Fatfs) : FResult × Fatfs :=
  match putFat faults v ncl lastLink fs with
  | (.ok, fs) => if clst = 0 then (.ok, fs) else putFat faults v clst (BitVec.ofNat 32 ncl) fs
  | (res, fs) => (res, fs)

/-- The counters after a cluster has been taken. -/
def updateCounters (ncl : Nat) (fs : Fatfs) : Fatfs :=
  let fs := { fs with lastClust := BitVec.ofNat 32 ncl }
  if fs.freeClust ≠ 0xFFFFFFFF then { fs with freeClust := fs.freeClust - 1, fsiFlag := true } else fs

def linkChain (clst ncl : Nat) (fs : Fatfs) : Nat × Fatfs :=
  match putNew faults v clst ncl fs with
  | (.ok, fs) => (ncl, updateCounters ncl fs)
  | (.diskErr, fs) => (0xFFFFFFFF, fs)
  | (_, fs) => (1, fs)

/-- `create_chain` from the start point on. The loop ends before its turns run out. -/
def createFrom (clst scl : Nat) (fs : Fatfs) : Nat × Fatfs :=
  match searchLoop faults v scl v.nFatent scl fs with
  | some (.ok ncl, fs) => linkChain faults v clst ncl fs
  | some (.error code, fs) => (code, fs)
  | none => (0, fs)

/-- `create_chain`: 0 for no free cluster, 1 for an internal error, `0xFFFFFFFF` for a disk error, or else the
new cluster. -/
def createChain (clst : Nat) (fs : Fatfs) : Nat × Fatfs :=
  if clst = 0 then
    let scl := fs.lastClust.toNat
    createFrom faults v 0 (if scl = 0 ∨ v.nFatent ≤ scl then 1 else scl) fs
  else
    match getFat faults v clst fs with
    | (cs, fs) =>
        if cs.toNat < 2 then (1, fs)
        else if cs.toNat < v.nFatent then (cs.toNat, fs)
        else createFrom faults v clst clst fs

end

/-! ## Links -/

section
variable {faults : Faults} {v : Volume} {fs fs' : Fatfs} {clst : Nat}

theorem Unchanged.links (same : Unchanged v fs fs') : links v fs'.view = links v fs.view := by
  funext c
  simp only [Fat.links, table, same.fatBytes]

theorem links_of_range (view : Nat → Sector) (lo : 2 ≤ clst) (hi : clst < v.nFatent) :
    links v view clst = v.link (table v view clst) :=
  if_neg (by omega)

theorem range_of_links {view : Nat → Sector} (link : links v view clst ≠ .bad) : 2 ≤ clst ∧ clst < v.nFatent := by
  by_contra out
  exact link (if_pos (by omega))

theorem Volume.link_eq_free {x : Nat} : v.link x = .free ↔ x = 0 := by
  unfold Volume.link
  split <;> [simp [*]; (split <;> [simp [*]; (split <;> simp [*])])]

/-- A link leads to a cluster of the volume. -/
theorem Volume.link_eq_next {x d : Nat} : v.link x = .next d ↔ x = d ∧ 2 ≤ d ∧ d < v.nFatent := by
  unfold Volume.link
  split
  · simp; omega
  · split
    · simp; omega
    · split <;> simp <;> omega

theorem Volume.link_eq_last {x : Nat} : v.link x = .last ↔ v.nFatent ≤ x := by
  have := v.nFatent_gt
  unfold Volume.link
  split
  · simp; omega
  · split
    · simp; omega
    · split <;> simp <;> omega

theorem Volume.link_eq_bad {x : Nat} : v.link x = .bad ↔ x = 1 := by
  unfold Volume.link
  split
  · simp; omega
  · split
    · simp [*]
    · split <;> simp [*]

theorem next_range {view : Nat → Sector} {d : Nat} (link : links v view clst = .next d) :
    2 ≤ d ∧ d < v.nFatent := by
  obtain ⟨lo, hi⟩ := range_of_links (show links v view clst ≠ .bad by rw [link]; simp)
  rw [links_of_range view lo hi] at link
  exact (Volume.link_eq_next.mp link).2

theorem table_lt (v : Volume) (view : Nat → Sector) (c : Nat) : table v view c < 2 ^ 28 := by
  refine Nat.lt_of_lt_of_le (BitField.entry_lt (fatBytes v view) v.fsType.stride v.fsType.width c)
    (Nat.pow_le_pow_right (by omega) ?_)
  cases v.fsType <;> decide

/-- All clusters of the blank drive are free. -/
theorem links_blank (lo : 2 ≤ clst) (hi : clst < 8) : links tiny blank.view clst = .free := by
  have zero : ∀ k, fatBytes tiny blank.view k = 0 := fun k => by
    rw [fatBytes, Fatfs.view_clean rfl]
    split <;> rfl
  have none : BitField.field (fatBytes tiny blank.view) (12 * clst) 12 = 0 := by
    apply BitVec.eq_of_getLsbD_eq
    intro j hj
    rw [BitField.getLsbD_field, BitField.bit, zero]
    simp
  rw [links_of_range _ lo hi, Volume.link_eq_free]
  exact congrArg BitVec.toNat none

/-- A drive with these entries in both copies of the FAT. -/
def fatOf (entries : List (BitVec 8)) (freeClust : BitVec 32) : Fatfs :=
  let win : Sector := fun k => entries.getD k 0
  { blank with drive := ⟨fun i => if i = 1 ∨ i = 2 then win else fun _ => 0, 0⟩, win := win, freeClust := freeClust }

theorem fatOf_windowOk (entries : List (BitVec 8)) (freeClust : BitVec 32) : (fatOf entries freeClust).WindowOk tiny :=
  ⟨.inr ⟨Nat.le_refl 1, .inl Nat.one_lt_two⟩, nofun, fun _ _ => rfl⟩

/-- The chains 2, 5, 3 and 4, 6; cluster 7 is free. -/
def twoChains : Fatfs := fatOf [0xF8, 0xFF, 0xFF, 0x05, 0xF0, 0xFF, 0x06, 0x30, 0x00, 0xFF, 0x0F, 0x00] 1

example : (List.range 8).map (links tiny twoChains.view) =
    [.bad, .bad, .next 5, .last, .next 6, .next 3, .last, .free] := by decide

/-- The same with cluster 7 at the end of the second. -/
def noRoom : Fatfs := fatOf [0xF8, 0xFF, 0xFF, 0x05, 0xF0, 0xFF, 0x06, 0x30, 0x00, 0x07, 0xF0, 0xFF] 0

/-- The links after a successful `put_fat`. -/
theorem PutFat.links_eq {val : BitVec 32} (put : PutFat faults v clst val fs fs' .ok) :
    links v fs'.view = Function.update (links v fs.view) clst (v.link (val.toNat % 2 ^ v.fsType.width)) := by
  funext c
  by_cases here : c = clst
  · subst here
    have range : 2 ≤ c ∧ c < v.nFatent := by cases put with | done range _ => exact range
    rw [Function.update_self, links_of_range _ range.1 range.2, put.table_eq, Function.update_self]
  · rw [Function.update_of_ne here, links, links, put.table_eq, Function.update_of_ne here]

/-- On a cluster of the volume `put_fat` succeeds, or the drive has failed. -/
theorem PutFat.ok_or_failed {val : BitVec 32} {res : FResult} (put : PutFat faults v clst val fs fs' res)
    (range : 2 ≤ clst ∧ clst < v.nFatent) : res = .ok ∨ res = .diskErr ∧ faults.Some := by
  cases put with
  | done => exact .inl rfl
  | failed faulty => exact .inr ⟨rfl, faulty⟩
  | range out => omega

/-- A `put_fat` that fails leaves the links of the other clusters, and in FAT16 and FAT32 all of them. -/
theorem PutFat.links_kept {val : BitVec 32} {res : FResult} (put : PutFat faults v clst val fs fs' res)
    (failed : res ≠ .ok) {c : Nat} (kept : c ≠ clst ∨ v.fsType ≠ .fat12) :
    links v fs'.view c = links v fs.view c := by
  cases put with
  | done => exact absurd rfl failed
  | failed _ others whole =>
    rcases kept with ne | wide
    · rw [links, links, others c ne]
    · simp only [links, table, whole wide]
  | range _ same => simp only [links, table, same]

/-- `get_fat` on a cluster of the volume, as a link. -/
theorem getFat_link {val : BitVec 32} (ok : fs.WindowOk v) (lo : 2 ≤ clst) (hi : clst < v.nFatent)
    (h : getFat faults v clst fs = (val, fs')) :
    FatRead v fs fs' ∧
      (val = 0xFFFFFFFF ∧ faults.Some ∨
        val ≠ 0xFFFFFFFF ∧ links v fs.view clst = v.link val.toNat ∧ fs'.AtFat v) := by
  obtain ⟨same, failed | ⟨-, out⟩ | ⟨read, -, -, onFat⟩⟩ := getFat_spec ok h
  · exact ⟨same, .inl failed⟩
  · omega
  · refine ⟨same, .inr ⟨?_, by rw [links_of_range _ lo hi, read], onFat⟩⟩
    rintro rfl
    have := table_lt v fs.view clst
    rw [← read] at this
    exact absurd this (by decide)

/-! ## The search -/

/-- What the loop of `create_chain` comes to. -/
inductive Searched (faults : Faults) (v : Volume) (fs fs' : Fatfs) : Except Nat Nat → Prop
  | found (f : Nat) (free : links v fs.view f = .free) (onFat : fs'.AtFat v) : Searched faults v fs fs' (.ok f)
  | full (none : ∀ c, links v fs.view c ≠ .free) : Searched faults v fs fs' (.error 0)
  | bad (c : Nat) (range : 2 ≤ c ∧ c < v.nFatent) (bad : links v fs.view c = .bad) : Searched faults v fs fs' (.error 1)
  | failed (faulty : faults.Some) : Searched faults v fs fs' (.error 0xFFFFFFFF)

/-- Whether the loop has passed a cluster when it comes to `ncl`. -/
def Passed (v : Volume) (scl ncl c : Nat) : Prop :=
  if scl ≤ ncl then scl < c ∧ c ≤ ncl else scl < c ∧ c < v.nFatent ∨ 2 ≤ c ∧ c ≤ ncl

/-- The turns that are left. -/
def searchLeft (v : Volume) (scl ncl : Nat) : Nat :=
  if scl ≤ ncl then v.nFatent - ncl + scl else scl - ncl

/-- The loop ends, before a cluster comes twice: at a free one, at an error, or after all of them. -/
theorem searchLoop_spec (faults : Faults) {scl : Nat} (one : 1 ≤ scl) (below : scl < v.nFatent) :
    ∀ (turns ncl : Nat) (fs : Fatfs), fs.WindowOk v → 1 ≤ ncl → ncl < v.nFatent →
      (∀ c, Passed v scl ncl c → links v fs.view c ≠ .free) → searchLeft v scl ncl ≤ turns →
      ∃ res fs', searchLoop faults v scl turns ncl fs = some (res, fs') ∧ FatRead v fs fs' ∧
        Searched faults v fs fs' res := by
  intro turns
  induction turns with
  | zero =>
    intro ncl fs ok pos hi passed left
    unfold searchLeft at left
    split at left <;> omega
  | succ turns ih =>
    intro ncl fs ok pos hi passed left
    have entries := v.nFatent_gt
    simp only [searchLoop]
    generalize hn : (if v.nFatent ≤ ncl + 1 then 2 else ncl + 1) = next
    by_cases stop : v.nFatent ≤ ncl + 1 ∧ scl < next
    · -- The start point is 1, and every cluster has been passed.
      rw [if_pos stop]
      refine ⟨_, fs, rfl, FatRead.refl ok, .full fun c free => ?_⟩
      obtain ⟨lo, top⟩ := range_of_links (show links v fs.view c ≠ .bad by rw [free]; simp)
      rw [if_pos stop.1] at hn
      refine passed c ?_ free
      rw [Passed, if_pos (by omega)]
      omega
    rw [if_neg stop]
    have lo2 : 2 ≤ next := by split at hn <;> omega
    have hi2 : next < v.nFatent := by split at hn <;> omega
    have step : ∀ c, Passed v scl next c → next ≠ scl → c ≠ next → Passed v scl ncl c := by
      intro c p ne other
      unfold Passed at p ⊢
      split at hn <;> split at p <;> split <;> omega
    have less : next ≠ scl → searchLeft v scl next ≤ turns := by
      intro ne
      unfold searchLeft at left ⊢
      split at hn <;> split at left <;> split <;> omega
    cases hg : getFat faults v next fs with
    | mk cs fs1 =>
      obtain ⟨same, ⟨rfl, faulty⟩ | ⟨noError, link, onFat⟩⟩ := getFat_link ok lo2 hi2 hg
      · exact ⟨.error 0xFFFFFFFF, fs1, by simp, same, .failed faulty⟩
      by_cases free : cs = 0
      · subst free
        exact ⟨.ok next, fs1, by simp, same, .found next (link.trans (Volume.link_eq_free.mpr rfl)) onFat⟩
      by_cases bad : cs = 1
      · subst bad
        exact ⟨.error 1, fs1, by simp, same, .bad next ⟨lo2, hi2⟩ (link.trans (Volume.link_eq_bad.mpr rfl))⟩
      have taken : links v fs.view next ≠ .free := fun isFree => by
        rw [link, Volume.link_eq_free] at isFree
        exact free (BitVec.eq_of_toNat_eq isFree)
      have noStop : ¬(cs = 0xFFFFFFFF ∨ cs = 1) := fun stop => stop.elim noError bad
      simp only [if_neg free, if_neg noStop]
      by_cases last : next = scl
      · refine ⟨.error 0, fs1, if_pos last, same, .full fun c isFree => ?_⟩
        obtain ⟨lo, top⟩ := range_of_links (show links v fs.view c ≠ .bad by rw [isFree]; simp)
        by_cases here : c = next
        · exact taken (here ▸ isFree)
        · refine passed c ?_ isFree
          unfold Passed
          split at hn <;> split <;> omega
      · have seen : ∀ c, Passed v scl next c → links v fs1.view c ≠ .free := by
          intro c p
          rw [same.links]
          by_cases here : c = next
          · exact here ▸ taken
          · exact passed c (step c p last here)
        obtain ⟨res, fs2, run, same2, result⟩ := ih next fs1 same.windowOk (by omega) hi2 seen (less last)
        refine ⟨res, fs2, (if_neg last).trans run, same.trans same2, ?_⟩
        cases result with
        | found f isFree onFat => exact .found f (same.links ▸ isFree) onFat
        | full none => exact .full (same.links ▸ none)
        | bad c range isBad => exact .bad c range (same.links ▸ isBad)
        | failed faulty => exact .failed faulty

/-! ## The new cluster -/

/-- Only the FAT and the counters have changed, and the window has not been moved or shows the FAT. -/
structure FatOnly (v : Volume) (fs fs' : Fatfs) : Prop where
  windowOk : fs'.WindowOk v
  outside : ∀ i, v.Primary i → v.fatbase + v.fsize ≤ i → fs'.view i = fs.view i
  window : fs'.winsect = fs.winsect ∨ fs'.AtFat v

theorem FatRead.fatOnly (same : FatRead v fs fs') : FatOnly v fs fs' :=
  ⟨same.windowOk, fun i primary _ => same.view i primary, same.window⟩

theorem FatChanged.fatOnly (changed : FatChanged v fs fs') : FatOnly v fs fs' :=
  ⟨changed.windowOk, changed.outside, .inr changed.atFat⟩

theorem FatOnly.trans {fs'' : Fatfs} (a : FatOnly v fs fs') (b : FatOnly v fs' fs'') : FatOnly v fs fs'' :=
  ⟨b.windowOk, fun i primary far => (b.outside i primary far).trans (a.outside i primary far),
    window_trans a.window b.window⟩

theorem Volume.nFatent_lt_width (v : Volume) : v.nFatent < 2 ^ v.fsType.width - 8 ∧ v.fsType.width ≤ 28 := by
  refine ⟨v.nFatent_lt, ?_⟩
  cases v.fsType <;> decide

theorem Volume.lt_pow (v : Volume) (below : clst < v.nFatent) : clst < 2 ^ v.fsType.width ∧ clst < 2 ^ 28 := by
  obtain ⟨lt, width⟩ := v.nFatent_lt_width
  have := Nat.pow_le_pow_right (show 0 < 2 by omega) width
  omega

/-- The mark of the last cluster is no cluster number. -/
theorem Volume.link_mark (v : Volume) : v.link (lastLink.toNat % 2 ^ v.fsType.width) = .last := by
  rw [Volume.link_eq_last, lastLink]
  have lt := v.nFatent_lt
  cases h : v.fsType <;> simp only [h, FsType.width] at lt ⊢ <;> simp <;> omega

theorem Volume.link_cluster (v : Volume) (lo : 2 ≤ clst) (hi : clst < v.nFatent) :
    v.link ((BitVec.ofNat 32 clst).toNat % 2 ^ v.fsType.width) = .next clst := by
  obtain ⟨lt, lt28⟩ := v.lt_pow hi
  rw [Volume.link_eq_next, BitVec.toNat_ofNat, Nat.mod_eq_of_lt (by omega : clst < 2 ^ 32), Nat.mod_eq_of_lt lt]
  exact ⟨rfl, lo, hi⟩

/-- The free count after a cluster has been taken, if it is known. -/
def taken (freeClust : BitVec 32) : BitVec 32 := if freeClust ≠ 0xFFFFFFFF then freeClust - 1 else freeClust

/-- The free count, if it is known, is the number of free clusters. -/
def Fatfs.Exact (v : Volume) (fs : Fatfs) : Prop :=
  fs.freeClust ≠ 0xFFFFFFFF → fs.freeClust.toNat = freeCells (Finset.range v.nFatent) (links v fs.view)

theorem Unchanged.exact (same : Unchanged v fs fs') (exact : fs.Exact v) : fs'.Exact v := by
  rw [Fatfs.Exact, same.freeClust, same.links]
  exact exact

/-- What `create_chain` comes to. A disk error of `get_fat` at the start passes for the last link. -/
inductive Created (faults : Faults) (v : Volume) (clst : Nat) (fs fs' : Fatfs) : Nat → Prop
  | followed (d : Nat) (link : links v fs.view clst = .next d) (same : FatRead v fs fs') :
      Created faults v clst fs fs' d
  | new (f : Nat) (free : links v fs.view f = .free)
      (linked : links v fs'.view =
        if clst = 0 then Function.update (links v fs.view) f .last
        else Function.update (Function.update (links v fs.view) f .last) clst (.next f))
      (tail : clst ≠ 0 → links v fs.view clst = .last ∨ faults.Some)
      (count : fs'.freeClust = taken fs.freeClust) (onFat : fs'.AtFat v) : Created faults v clst fs fs' f
  | full (none : ∀ c, links v fs.view c ≠ .free) (same : FatRead v fs fs') : Created faults v clst fs fs' 0
  | bad (c : Nat) (range : 2 ≤ c ∧ c < v.nFatent) (bad : links v fs.view c = .bad) (same : FatRead v fs fs') :
      Created faults v clst fs fs' 1
  | failed (faulty : faults.Some)
      (kept : ∀ c, links v fs.view c ≠ .free → c ≠ clst ∨ v.fsType ≠ .fat12 → links v fs'.view c = links v fs.view c) :
      Created faults v clst fs fs' 0xFFFFFFFF

theorem updateCounters_spec (f : Nat) (ok : fs.WindowOk v) :
    FatOnly v fs (updateCounters f fs) ∧ (updateCounters f fs).view = fs.view ∧
      (updateCounters f fs).freeClust = taken fs.freeClust ∧ (updateCounters f fs).winsect = fs.winsect := by
  simp only [updateCounters, taken]
  split <;> exact ⟨⟨⟨ok.place, ok.dirty, ok.copy⟩, fun _ _ _ => rfl, .inl rfl⟩, rfl, rfl, rfl⟩

/-- The two entries that are written. -/
theorem putNew_spec {f : Nat} {res : FResult} (ok : fs.WindowOk v) (onFat : fs.AtFat v)
    (free : links v fs.view f = .free) (range : clst ≠ 0 → 2 ≤ clst ∧ clst < v.nFatent)
    (h : putNew faults v clst f fs = (res, fs')) :
    FatChanged v fs fs' ∧
      (res = .ok ∧
          links v fs'.view =
            (if clst = 0 then Function.update (links v fs.view) f .last
              else Function.update (Function.update (links v fs.view) f .last) clst (.next f)) ∨
        res = .diskErr ∧ faults.Some ∧
          ∀ c, links v fs.view c ≠ .free → c ≠ clst ∨ v.fsType ≠ .fat12 →
            links v fs'.view c = links v fs.view c) := by
  obtain ⟨lo, hi⟩ := range_of_links (show links v fs.view f ≠ .bad by rw [free]; simp)
  have other : ∀ c, links v fs.view c ≠ .free → c ≠ f := by rintro c held rfl; exact held free
  cases h1 : putFat faults v f lastLink fs with
  | mk res1 fs1 =>
    obtain ⟨changed1, put1⟩ := putFat_spec ok (.inr onFat) h1
    obtain rfl | ⟨rfl, faulty⟩ := put1.ok_or_failed ⟨lo, hi⟩
    · have marked : links v fs1.view = Function.update (links v fs.view) f .last := by
        rw [put1.links_eq, v.link_mark]
      by_cases zero : clst = 0
      · obtain ⟨rfl, rfl⟩ : FResult.ok = res ∧ fs1 = fs' := by
          simpa only [putNew, h1, zero, if_true, Prod.mk.injEq] using h
        exact ⟨changed1, .inl ⟨rfl, by rw [if_pos zero, marked]⟩⟩
      · have h2 : putFat faults v clst (BitVec.ofNat 32 f) fs1 = (res, fs') := by
          simpa only [putNew, h1, zero, if_false] using h
        obtain ⟨changed2, put2⟩ := putFat_spec changed1.windowOk (.inr changed1.atFat) h2
        refine ⟨changed1.trans changed2, ?_⟩
        obtain rfl | ⟨rfl, faulty⟩ := put2.ok_or_failed (range zero)
        · exact .inl ⟨rfl, by rw [if_neg zero, put2.links_eq, marked, v.link_cluster lo hi]⟩
        · refine .inr ⟨rfl, faulty, fun c held kept => ?_⟩
          rw [put2.links_kept (by simp) kept, marked, Function.update_of_ne (other c held)]
    · -- Nobody sees this failure: the cluster that was to be marked is nobody's.
      obtain ⟨rfl, rfl⟩ : FResult.diskErr = res ∧ fs1 = fs' := by simpa only [putNew, h1, Prod.mk.injEq] using h
      exact ⟨changed1, .inr ⟨rfl, faulty, fun c held _ => put1.links_kept (by simp) (.inl (other c held))⟩⟩

theorem linkChain_spec {f r : Nat} (ok : fs.WindowOk v) (onFat : fs.AtFat v) (free : links v fs.view f = .free)
    (tail : clst ≠ 0 → links v fs.view clst = .last ∨ faults.Some)
    (range : clst ≠ 0 → 2 ≤ clst ∧ clst < v.nFatent) (h : linkChain faults v clst f fs = (r, fs')) :
    FatOnly v fs fs' ∧ Created faults v clst fs fs' r := by
  cases h1 : putNew faults v clst f fs with
  | mk res fs1 =>
    obtain ⟨changed, ⟨rfl, linked⟩ | ⟨rfl, faulty, kept⟩⟩ := putNew_spec ok onFat free range h1
    · obtain ⟨rfl, rfl⟩ : f = r ∧ updateCounters f fs1 = fs' := by simpa only [linkChain, h1, Prod.mk.injEq] using h
      obtain ⟨counted, view, count, sect⟩ := updateCounters_spec f changed.windowOk
      exact ⟨changed.fatOnly.trans counted,
        .new f free (by rw [view, linked]) tail (by rw [count, changed.freeClust])
          (by rw [Fatfs.AtFat, sect]; exact changed.atFat)⟩
    · obtain ⟨rfl, rfl⟩ : 0xFFFFFFFF = r ∧ fs1 = fs' := by simpa only [linkChain, h1, Prod.mk.injEq] using h
      exact ⟨changed.fatOnly, .failed faulty kept⟩

theorem Created.after {fs1 : Fatfs} {r : Nat} (created : Created faults v clst fs1 fs' r)
    (same : FatRead v fs fs1) : Created faults v clst fs fs' r := by
  cases created with
  | followed _ link same2 => exact .followed _ (same.links ▸ link) (same.trans same2)
  | new _ free linked tail count onFat =>
    rw [same.links] at free linked tail
    exact .new _ free linked tail (by rw [count, same.freeClust]) onFat
  | full none same2 => exact .full (same.links ▸ none) (same.trans same2)
  | bad c range bad same2 => exact .bad c range (same.links ▸ bad) (same.trans same2)
  | failed faulty kept =>
    rw [same.links] at kept
    exact .failed faulty kept

theorem createFrom_spec {scl r : Nat} (ok : fs.WindowOk v) (one : 1 ≤ scl) (below : scl < v.nFatent)
    (tail : clst ≠ 0 → links v fs.view clst = .last ∨ faults.Some)
    (range : clst ≠ 0 → 2 ≤ clst ∧ clst < v.nFatent) (h : createFrom faults v clst scl fs = (r, fs')) :
    FatOnly v fs fs' ∧ Created faults v clst fs fs' r := by
  have fresh : ∀ c, Passed v scl scl c → links v fs.view c ≠ .free := by
    intro c p
    rw [Passed, if_pos (Nat.le_refl scl)] at p
    omega
  have enough : searchLeft v scl scl ≤ v.nFatent := by
    rw [searchLeft, if_pos (Nat.le_refl scl)]
    omega
  obtain ⟨res, fs1, run, same, result⟩ := searchLoop_spec faults one below v.nFatent scl fs ok one below fresh enough
  cases result with
  | found f free onFat =>
    have h1 : linkChain faults v clst f fs1 = (r, fs') := by simpa only [createFrom, run] using h
    obtain ⟨changed, created⟩ :=
      linkChain_spec same.windowOk onFat (same.links ▸ free) (by rwa [same.links]) range h1
    exact ⟨same.fatOnly.trans changed, created.after same⟩
  | full none =>
    obtain ⟨rfl, rfl⟩ : 0 = r ∧ fs1 = fs' := by simpa only [createFrom, run, Prod.mk.injEq] using h
    exact ⟨same.fatOnly, .full none same⟩
  | bad c range bad =>
    obtain ⟨rfl, rfl⟩ : 1 = r ∧ fs1 = fs' := by simpa only [createFrom, run, Prod.mk.injEq] using h
    exact ⟨same.fatOnly, .bad c range bad same⟩
  | failed faulty =>
    obtain ⟨rfl, rfl⟩ : 0xFFFFFFFF = r ∧ fs1 = fs' := by simpa only [createFrom, run, Prod.mk.injEq] using h
    exact ⟨same.fatOnly, .failed faulty fun c _ _ => by rw [same.links]⟩

/-- `create_chain`, for a new chain or on a cluster that is in one. -/
theorem createChain_spec {r : Nat} (ok : fs.WindowOk v)
    (held : clst ≠ 0 → links v fs.view clst = .last ∨ ∃ d, links v fs.view clst = .next d)
    (h : createChain faults v clst fs = (r, fs')) : FatOnly v fs fs' ∧ Created faults v clst fs fs' r := by
  have entries := v.nFatent_gt
  by_cases zero : clst = 0
  · subst zero
    rw [createChain, if_pos rfl] at h
    refine createFrom_spec ok ?_ ?_ (by simp) (by simp) h <;> split <;> omega
  rw [createChain, if_neg zero] at h
  have notBad : links v fs.view clst ≠ .bad := by rcases held zero with last | ⟨d, link⟩ <;> simp [*]
  obtain ⟨lo, hi⟩ := range_of_links notBad
  cases hg : getFat faults v clst fs with
  | mk cs fs1 =>
    simp only [hg] at h
    obtain ⟨same, ⟨rfl, faulty⟩ | ⟨-, link, -⟩⟩ := getFat_link ok lo hi hg
    · have high : ¬(0xFFFFFFFF : BitVec 32).toNat < v.nFatent := by
        have := (v.nFatent_lt_width)
        have := Nat.pow_le_pow_right (show 0 < 2 by omega) this.2
        have : (0xFFFFFFFF : BitVec 32).toNat = 4294967295 := rfl
        omega
      rw [if_neg (by decide), if_neg high] at h
      obtain ⟨changed, created⟩ := createFrom_spec same.windowOk (by omega) hi (fun _ => .inr faulty)
        (fun _ => ⟨lo, hi⟩) h
      exact ⟨same.fatOnly.trans changed, created.after same⟩
    · rw [link] at held notBad
      rcases held zero with last | ⟨d, next⟩
      · have high := Volume.link_eq_last.mp last
        rw [if_neg (by omega), if_neg (by omega)] at h
        obtain ⟨changed, created⟩ := createFrom_spec same.windowOk (by omega) hi
          (fun _ => .inl (by rw [same.links, link, last])) (fun _ => ⟨lo, hi⟩) h
        exact ⟨same.fatOnly.trans changed, created.after same⟩
      · obtain ⟨rfl, low, high⟩ := Volume.link_eq_next.mp next
        rw [if_neg (by omega), if_pos high] at h
        obtain ⟨rfl, rfl⟩ := Prod.mk.injEq .. ▸ h
        exact ⟨same.fatOnly, .followed _ (link.trans next) same⟩

/-- On a drive without faults the free count stays exact. -/
theorem Created.exact {r : Nat} (created : Created faults v clst fs fs' r) (healthy : ¬faults.Some)
    (held : clst ≠ 0 → links v fs.view clst ≠ .free) (exact : fs.Exact v) : fs'.Exact v := by
  cases created with
  | followed _ _ same => exact same.exact exact
  | full _ same => exact same.exact exact
  | bad _ _ _ same => exact same.exact exact
  | failed faulty => exact absurd faulty healthy
  | new _ free linked tail count =>
    intro known
    have wasKnown : fs.freeClust ≠ 0xFFFFFFFF := fun unknown => known (by rw [count, taken, unknown]; rfl)
    have mem : r ∈ Finset.range v.nFatent :=
      Finset.mem_range.mpr (range_of_links (show links v fs.view r ≠ .bad by rw [free]; simp)).2
    have one := freeCells_take mem free (l := .last) (by simp)
    have same : freeCells (Finset.range v.nFatent) (links v fs'.view) =
        freeCells (Finset.range v.nFatent) (Function.update (links v fs.view) r .last) := by
      rw [linked]
      split
      · rfl
      · next some =>
        have ne : clst ≠ r := by rintro rfl; exact held some free
        exact freeCells_relink (by rw [Function.update_of_ne ne]; exact held some) (by simp)
    have before := exact wasKnown
    rw [same, count, taken, if_pos wasKnown]
    have : (fs.freeClust - 1).toNat = fs.freeClust.toNat - 1 := by
      have : (1 : BitVec 32).toNat = 1 := rfl
      rw [BitVec.toNat_sub_of_le (by rw [BitVec.le_def]; omega)]
      omega
    omega

end

end Cineraria.Fat
