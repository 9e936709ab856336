import Cineraria.Fat.DirFind
import Cineraria.Fat.WindowRuns

/-!
# Removing an object

`dir_remove` of `fatfs/ff.c` marks the entries of the object that `dir_find` has found. What is left of it is deleted
entries, and its long name if it has been found by the short one.
-/

namespace Cineraria.Fat

open Tiling

/-! ## `dir_remove` -/

/-- The entry that the directory object points to is marked. -/
def Dir.delete (dj : Dir) (fs : Fatfs) : Fatfs :=
  { fs with win := Function.update fs.win (ofs dj.dir) DDE, wflag := true }

section
variable (faults : Faults) (v : Volume)

/-- The loop of `dir_remove`, up to the index `i` of the SFN entry. -/
def removeEntries (i : Nat) : Nat → Fatfs → Dir → FResult × Fatfs × Dir
  | 0, fs, dj => (.ok, fs, dj)
  | turns + 1, fs, dj =>
      match moveWindow faults v dj.sect fs with
      | (.ok, fs) =>
          let fs := dj.delete fs
          if i ≤ dj.index then (.ok, fs, dj)
          else
            match dirNext faults v false fs dj with
            | (.ok, fs, dj) => removeEntries i turns fs dj
            | (res, fs, dj) => (res, fs, dj)
      | (res, fs) => (res, fs, dj)

/-- `dir_remove`, the end. -/
def endRemove : FResult × Fatfs × Dir → FResult × Fatfs × Dir
  | (.noFile, fs, dj) => (.intErr, fs, dj)
  | (res, fs, dj) => (res, fs, dj)

/-- `dir_remove` -/
def dirRemove (fs : Fatfs) (dj : Dir) : FResult × Fatfs × Dir :=
  match dirSdi faults v (if dj.lfnIdx = 0xFFFF then dj.index else dj.lfnIdx) fs dj with
  | (.ok, fs, dj') => endRemove (removeEntries faults v dj.index 65536 fs dj')
  | (res, fs, dj) => (res, fs, dj)

end

/-! ## The entries that are marked -/

/-- An entry with the mark. -/
def Entry.mark (dir : Entry) : Entry := Function.update dir (eofs DIR_Name) DDE

/-- The entries from `l` up to `m` have been marked, and nothing else has changed. -/
structure Marked (v : Volume) (site : Site) (l m : Nat) (fs fs' : Fatfs) : Prop where
  windowOk : fs'.WindowOk v
  links : links v fs'.view = links v fs.view
  slots : ∀ k < site.entries v,
    site.slot v fs'.view k = if l ≤ k ∧ k < m then (site.slot v fs.view k).mark else site.slot v fs.view k
  others : ∀ s, v.Primary s → ¬site.Covers v s → fs'.view s = fs.view s

section
variable {faults : Faults} {v : Volume} {fs fs' : Fatfs} {dj dj' : Dir} {site : Site} {i j k l m : Nat}

theorem dirEntry_mark (win : Sector) {a b : Nat} (ha : a < 16) (hb : b < 16) :
    dirEntry (Function.update win (ofs (b * SZ_DIR)) DDE) (a * SZ_DIR) =
      if a = b then (dirEntry win (a * SZ_DIR)).mark else dirEntry win (a * SZ_DIR) := by
  funext i
  have size : SZ_DIR = 32 := rfl
  have small := i.isLt
  have place : ofs (a * SZ_DIR + i) = ofs (b * SZ_DIR) ↔ a = b ∧ i = eofs DIR_Name := by
    rw [ofs_inj, Fin.ext_iff, size]
    simp only [eofs, DIR_Name, Fin.val_ofNat]
    omega
  rw [dirEntry, Function.update_apply]
  by_cases same : a = b
  · rw [if_pos same, Entry.mark, Function.update_apply]
    by_cases first : i = eofs DIR_Name
    · rw [if_pos (place.mpr ⟨same, first⟩), if_pos first]
    · rw [if_neg fun at' => first (place.mp at').2, if_neg first]
      rfl
  · rw [if_neg fun at' => same (place.mp at').1, if_neg same]
    rfl

theorem Looked.marked {sclust : Nat} (looked : Looked v site fs fs') (of : site.Of v fs.view sclust) (l : Nat) :
    Marked v site l l fs fs' where
  windowOk := looked.windowOk
  links := looked.links
  slots k inside := by rw [if_neg (by omega), Site.slot_congr of inside looked.view]
  others s primary _ := looked.view s primary

theorem Marked.trans {fs'' : Fatfs} (a : Marked v site l m fs fs') (b : Marked v site m k fs' fs'') (lm : l ≤ m)
    (mk : m ≤ k) : Marked v site l k fs fs'' where
  windowOk := b.windowOk
  links := b.links.trans a.links
  slots n inside := by
    rw [b.slots n inside, a.slots n inside]
    by_cases first : n < m
    · rw [if_neg (by omega)]
      congr 1
      exact propext (by omega)
    · rw [if_neg (show ¬(l ≤ n ∧ n < m) by omega)]
      congr 1
      exact propext (by omega)
  others s primary away := (b.others s primary away).trans (a.others s primary away)

/-- Marking one entry. -/
theorem delete_marked {sclust : Nat} (looked : Looked v site fs fs') (of : site.Of v fs.view sclust)
    (inside : i < site.entries v) (here : fs'.winsect = site.sector v i) (dj : Dir) :
    Marked v site i (i + 1) fs ((dj.goto v site i).delete fs') := by
  have primary := of.primary inside
  have valid : fs'.winsect ≠ 0 := here ▸ primary.1.pos
  have shown := looked.windowOk.view_winsect valid
  have view : ((dj.goto v site i).delete fs').view = Function.update fs'.view (site.sector v i)
      (Function.update fs'.win (ofs (i % perSect * SZ_DIR)) DDE) := by
    rw [← here]
    exact Fatfs.view_store fs' _
  have away : ∀ s, s ≠ site.sector v i → v.Primary s → ((dj.goto v site i).delete fs').view s = fs.view s := by
    intro s ne isPrimary
    rw [view, Function.update_of_ne ne, looked.view s isPrimary]
  refine ⟨looked.windowOk.store valid _, ?_, fun k within => ?_, fun s isPrimary apart => ?_⟩
  · exact links_congr fun s isPrimary low => away s (by omega) isPrimary
  · have small : i % perSect < 16 ∧ k % perSect < 16 := ⟨Nat.mod_lt _ (by decide), Nat.mod_lt _ (by decide)⟩
    by_cases same : site.sector v k = site.sector v i
    · have quotient := of.inj within inside same
      rw [Site.slot, Site.slot, same, view, Function.update_self, dirEntry_mark _ small.2 small.1,
        ← looked.view _ primary.1, ← here, shown]
      congr 1
      rw [perSect_eq] at quotient ⊢
      exact propext (by omega)
    · rw [if_neg fun between => same (congrArg (site.sector v) (by omega)), Site.slot, Site.slot,
        away _ same (of.primary within).1]
  · exact away s (fun same => apart ⟨i, inside, same⟩) isPrimary

/-- The loop of `dir_remove` marks the entries one after the other. Only a fault ends it before the last one. -/
theorem removeEntries_spec {turns : Nat} {res : FResult}
    (h : removeEntries faults v j turns fs (dj.goto v site i) = (res, fs', dj')) (ok : fs.WindowOk v)
    (of : site.Of v fs.view dj.sclust) (before : i ≤ j) (inside : j < site.count v) (enough : j < i + turns) :
    ∃ m, i ≤ m ∧ m ≤ j + 1 ∧ Marked v site i m fs fs' ∧
      (res = .diskErr ∧ faults.Some ∨ res = .ok ∧ m = j + 1) := by
  induction turns generalizing i fs dj with
  | zero => omega
  | succ turns ih =>
      have count : i < site.count v ∧ i < site.entries v := by
        rw [Site.count] at inside ⊢
        omega
      rw [removeEntries] at h
      cases hm : moveWindow faults v (site.sector v i) fs with
      | mk res1 fs1 =>
        have sect : (dj.goto v site i).sect = site.sector v i := rfl
        have index : (dj.goto v site i).index = i := rfl
        rw [sect, hm] at h
        obtain ⟨looked, ⟨rfl, faulty⟩ | ⟨rfl, here, -⟩⟩ := moveWindow_slot ok of count.2 dj hm
        · cases h
          exact ⟨i, Nat.le_refl i, by omega, looked.marked of i, .inl ⟨rfl, faulty⟩⟩
        have marked := delete_marked looked of count.2 here dj
        simp only [index] at h
        by_cases last : j ≤ i
        · rw [if_pos last] at h
          cases h
          exact ⟨i + 1, by omega, by omega, marked, .inr ⟨rfl, by omega⟩⟩
        · rw [if_neg last] at h
          have of1 := of.congr marked.links
          cases hd : dirNext faults v false ((dj.goto v site i).delete fs1) (dj.goto v site i) with
          | mk res2 run =>
            obtain ⟨fs2, dj2⟩ := run
            rw [hd] at h
            obtain ⟨read, ⟨rfl, faulty⟩ | ⟨rfl, -, rfl⟩ | ⟨-, ends⟩⟩ := dirNext_spec marked.windowOk of1 count.1 hd
            · cases h
              have rest : Marked v site (i + 1) (i + 1) _ fs' := read.looked.marked of1 (i + 1)
              exact ⟨i + 1, by omega, by omega, marked.trans rest (by omega) (Nat.le_refl _), .inl ⟨rfl, faulty⟩⟩
            · have rest : Marked v site (i + 1) (i + 1) _ fs2 := read.looked.marked of1 (i + 1)
              obtain ⟨m, low, high, marked2, result⟩ :=
                ih h read.windowOk (of1.congr read.links) (by omega) (by omega)
              have all := (marked.trans rest (by omega) (Nat.le_refl _)).trans marked2 (by omega) low
              exact ⟨m, by omega, high, all, result⟩
            · omega

/-- `dir_remove` marks the entries from the first one of the long name on, or the SFN entry only. -/
theorem dirRemove_spec {start : Nat} {res : FResult}
    (h : dirRemove faults v fs (dj.goto v site j) = (res, fs', dj')) (ok : fs.WindowOk v)
    (of : site.Of v fs.view dj.sclust) (first : (if dj.lfnIdx = 0xFFFF then j else dj.lfnIdx) = start) (low : start ≤ j)
    (inside : j < site.count v) :
    ∃ m, start ≤ m ∧ m ≤ j + 1 ∧ Marked v site start m fs fs' ∧
      (res = .diskErr ∧ faults.Some ∨ res = .ok ∧ m = j + 1) := by
  have small : j < site.entries v ∧ j < 65536 := by
    rw [Site.count] at inside
    omega
  have here : (dj.goto v site j).index = j ∧ (dj.goto v site j).lfnIdx = dj.lfnIdx := ⟨rfl, rfl⟩
  rw [dirRemove, here.1, here.2, first] at h
  have of' : site.Of v fs.view (dj.goto v site j).sclust := of
  cases hs : dirSdi faults v start fs (dj.goto v site j) with
  | mk res1 run =>
    obtain ⟨fs1, dj1⟩ := run
    rw [hs] at h
    obtain ⟨read, ⟨rfl, faulty⟩ | ⟨rfl, -, rfl⟩ | ⟨-, short⟩⟩ := dirSdi_spec ok of' hs
    · cases h
      exact ⟨start, Nat.le_refl _, by omega, read.looked.marked of start, .inl ⟨rfl, faulty⟩⟩
    · cases hl : removeEntries faults v j 65536 fs1 ((dj.goto v site j).goto v site start) with
      | mk res2 run2 =>
        obtain ⟨fs2, dj2⟩ := run2
        have passed : Marked v site start start fs fs1 := read.looked.marked of' start
        obtain ⟨m, lo, hi, marked, result⟩ :=
          removeEntries_spec hl read.windowOk (of'.congr read.links) low inside (by omega)
        simp only [hl] at h
        have same : res2 = res ∧ fs2 = fs' := by
          rcases result with ⟨rfl, -⟩ | ⟨rfl, -⟩ <;> · cases h; exact ⟨rfl, rfl⟩
        obtain ⟨rfl, rfl⟩ := same
        exact ⟨m, lo, hi, passed.trans marked (Nat.le_refl _) lo, result⟩
    · omega

/-- The table when the entries `mid` have been marked. -/
theorem Marked.table {front mid rear : List Entry} (whole : site.table v fs.view = front ++ (mid ++ rear))
    (marked : Marked v site front.length (front.length + mid.length) fs fs') :
    site.table v fs'.view = front ++ (mid.map Entry.mark ++ rear) := by
  have length := congrArg List.length whole
  rw [Site.length_table, List.length_append, List.length_append] at length
  refine List.ext_getElem? fun k => ?_
  by_cases inside : k < site.count v
  · have within : k < site.entries v := by
      rw [Site.count] at inside
      omega
    have old := Site.table_get fs.view inside
    rw [whole] at old
    rw [Site.table_get fs'.view inside, marked.slots k within]
    by_cases before : k < front.length
    · rw [List.getElem?_append_left before] at old ⊢
      rw [if_neg (by omega), old]
    · rw [List.getElem?_append_right (by omega)] at old ⊢
      by_cases between : k - front.length < mid.length
      · rw [List.getElem?_append_left between] at old
        rw [List.getElem?_append_left (by rwa [List.length_map]), List.getElem?_map, old, if_pos (by omega)]
        rfl
      · rw [List.getElem?_append_right (by omega)] at old
        rw [List.getElem?_append_right (by rw [List.length_map]; omega), List.length_map, old, if_neg (by omega)]
  · rw [List.getElem?_eq_none (by rw [Site.length_table]; omega), List.getElem?_eq_none]
    simp only [List.length_append, List.length_map]
    omega

/-! ## What is left of the object -/

/-- What is left of an object that has been found by its long name, or by its short one. -/
def Item.remains : Item → Bool → List Item
  | .object (some name) dir, false => [.ghost name (sumSfn dir), .deleted]
  | item, _ => List.replicate item.size .deleted

theorem follows_deleted {x : Item} (live : x ≠ .blank) : Follows x .deleted := by
  cases x <;> first | exact absurd rfl live | trivial

theorem follows_ghost {x : Item} {name : LongName} {sum : BitVec 8} (live : x ≠ .blank) :
    Follows x (.ghost name sum) := by
  cases x <;> first | exact absurd rfl live | trivial

theorem deleted_follows (x : Item) : Follows .deleted x := by
  cases x <;> trivial

/-- The remains lie between any other items. -/
theorem remains_chain (item : Item) (long : Bool) :
    (item.remains long).IsChain Follows ∧
      (∃ y, (item.remains long).head? = some y ∧ ∀ x, x ≠ .blank → Follows x y) ∧
      ∀ x ∈ (item.remains long).getLast?, ∀ y, Follows x y := by
  unfold Item.remains
  split
  · refine ⟨by simp [Follows], ⟨_, rfl, fun _ => follows_ghost⟩, ?_⟩
    · rintro x last y
      obtain rfl := Option.some.inj last
      exact deleted_follows y
  · refine ⟨List.isChain_replicate_of_rel _ (deleted_follows _), ⟨.deleted, ?_, fun _ => follows_deleted⟩, ?_⟩
    · rw [List.head?_replicate, if_neg (Nat.ne_of_gt item.size_pos)]
    · intro x last y
      rw [List.eq_of_mem_replicate (List.mem_of_mem_getLast? last)]
      exact deleted_follows y

theorem Follows.remove {pre post : List Item} {item : Item} (proper : (pre ++ item :: post).IsChain Follows)
    (live : item ≠ .blank) (long : Bool) : (pre ++ (item.remains long ++ post)).IsChain Follows := by
  obtain ⟨before, behind, joint⟩ := List.isChain_append.mp proper
  obtain ⟨chain, ⟨z, start, head⟩, last⟩ := remains_chain item long
  have rest : post.IsChain Follows := behind.tail
  have passed := ne_blank proper live
  refine List.isChain_append.mpr ⟨before, List.isChain_append.mpr ⟨chain, rest, fun x mem y _ => last x mem y⟩, ?_⟩
  intro x mem y first
  have living := passed x (List.mem_of_mem_getLast? mem)
  rw [List.head?_append, start, Option.some_or] at first
  obtain rfl := Option.some.inj first
  exact head x living

theorem mark_deleted (dir : Entry) : Item.Is .deleted [dir.mark] :=
  ⟨dir.mark, rfl, Function.update_self ..⟩

theorem marks_deleted {t : Item} {es : List Entry} (is : t.Is es) :
    Tiles Item.Is (List.replicate t.size .deleted) (es.map Entry.mark) := by
  have tiles : Tiles Item.Is (List.replicate (es.map Entry.mark).length .deleted) (es.map Entry.mark) := by
    refine Tiles.replicate fun c mem => ?_
    obtain ⟨dir, -, rfl⟩ := List.mem_map.mp mem
    exact mark_deleted dir
  rwa [List.length_map, is.length] at tiles

/-- The entries that are marked: all those of the object, or the last one only. -/
theorem remove_items {pre post : List Item} {item : Item} {long : Bool}
    (directory : Directory (pre ++ item :: post) (site.table v fs.view)) (live : item ≠ .blank)
    (marked : Marked v site (if long then (pre.map Item.size).sum else (pre.map Item.size).sum + item.size - 1)
      ((pre.map Item.size).sum + item.size) fs fs')
    (object : ∃ name dir, item = .object name dir) :
    Directory (pre ++ (item.remains long ++ post)) (site.table v fs'.view) := by
  obtain ⟨tiles, proper⟩ := directory
  refine ⟨?_, Follows.remove proper live long⟩
  obtain ⟨front, rest, whole, before, others⟩ := tiles.split
  obtain ⟨mid, rear, rfl, is, behind⟩ := others.uncons
  have frontLength := Directory.length before
  have midLength := is.length
  have all : ∀ {l}, l = (pre.map Item.size).sum → Marked v site l ((pre.map Item.size).sum + item.size) fs fs' →
      Tiles Item.Is (pre ++ (List.replicate item.size .deleted ++ post)) (site.table v fs'.view) := by
    rintro _ rfl marked
    rw [← frontLength, ← midLength] at marked
    rw [marked.table whole]
    exact before.append ((marks_deleted is).append behind)
  obtain ⟨name, dir, rfl⟩ := object
  cases name with
  | none =>
      have one : (Item.object none dir).remains long = List.replicate (Item.object none dir).size .deleted := by
        cases long <;> rfl
      rw [one]
      refine all ?_ marked
      split <;> rfl
  | some name =>
      cases long with
      | true => exact all (if_pos rfl) marked
      | false =>
          obtain ⟨parts, rfl, left, sfn⟩ := is
          have size : (Item.object (some name) dir).size = parts.length + 1 := by rw [left.length]; rfl
          have cut : site.table v fs.view = (front ++ parts) ++ ([dir] ++ rear) := by
            rw [whole]
            simp
          have last : Marked v site (front ++ parts).length ((front ++ parts).length + [dir].length) fs fs' := by
            rw [size, ← frontLength, if_neg (by decide)] at marked
            simpa [Nat.add_assoc] using marked
          rw [last.table cut, List.append_assoc]
          have ghost : Tiles Item.Is [.ghost name (sumSfn dir), .deleted] (parts ++ [dir.mark]) :=
            .cons left (.cell (mark_deleted dir) .nil)
          have tiles := before.append (ghost.append behind)
          simpa [Item.remains] using tiles

end

section
variable {wtoupper : BitVec 16 → BitVec 16} {faults : Faults} {v : Volume} {site : Site}

theorem Item.Matches.object {fn : Fn} {lfn : Option (Nat → BitVec 16)} {item : Item}
    (found : item.Matches wtoupper fn lfn) : ∃ name dir, item = .object name dir := by
  cases item with
  | object name dir => exact ⟨name, dir, rfl⟩
  | blank | deleted | volume | ghost name sum => exact absurd found (not_or.mpr ⟨id, id⟩)

/-- An object with a long name has more than one entry. -/
theorem Item.LongMatches.size {lfn : Option (Nat → BitVec 16)} {item : Item} (whole : item.LongMatches wtoupper lfn) :
    2 ≤ item.size := by
  cases item with
  | object name dir =>
      cases name with
      | none => exact whole.elim
      | some name =>
          have above := name.parts_bounds.2.1
          have pos := name.length_pos
          have size : (Item.object (some name) dir).size = name.parts + 1 := rfl
          omega
  | blank | deleted | volume | ghost name sum => exact whole.elim

/-- `dir_find` and then `dir_remove`: the first object that has the name is taken out of the directory, and no other.
Its long name is left behind exactly if it has been found by its short one, where it is the name of nothing. -/
theorem dirRemove_found {fs fs1 fs2 : Fatfs} {dj dj1 dj2 : Dir} {res : FResult} {items : List Item}
    (keeps : KeepsEnd wtoupper) (ok : fs.WindowOk v) (of : site.Of v fs.view dj.sclust)
    (directory : Directory items (site.table v fs.view))
    (find : dirFind faults v wtoupper fs dj = (.ok, fs1, dj1)) (remove : dirRemove faults v fs1 dj1 = (res, fs2, dj2)) :
    ∃ pre item post long, items = pre ++ item :: post ∧ (∀ x ∈ pre, ¬x.Matches wtoupper dj.fn dj.lfn) ∧
      item.Matches wtoupper dj.fn dj.lfn ∧ (long = true ↔ item.LongMatches wtoupper dj.lfn) ∧
      fs2.WindowOk v ∧ links v fs2.view = links v fs.view ∧
      (∀ s, v.Primary s → ¬site.Covers v s → fs2.view s = fs.view s) ∧
      (res = .diskErr ∧ faults.Some ∨
        res = .ok ∧ Directory (pre ++ (item.remains long ++ post)) (site.table v fs2.view)) := by
  obtain ⟨looked, ⟨error, -⟩ | outcome⟩ := dirFind_spec ok of find
  · cases error
  rcases scan_directory dj.fn dj.lfn keeps directory dj.lfnIdx with
    ⟨pre, item, post, s', rfl, others, found, hit, idx⟩ | ⟨-, noHit⟩
  · rw [hit] at outcome
    obtain ⟨-, inside, -, rfl⟩ := outcome
    obtain ⟨name, dir, rfl⟩ := found.object
    have pos := (Item.object name dir).size_pos
    have reached : (pre.map Item.size).sum + (Item.object name dir).size - 1 < 65536 := by
      rw [Site.count] at inside
      omega
    have chosen : ∃ long : Bool, (long = true ↔ (Item.object name dir).LongMatches wtoupper dj.lfn) ∧
        (if s'.lfnIdx = 0xFFFF then (pre.map Item.size).sum + (Item.object name dir).size - 1 else s'.lfnIdx) =
          if long then (pre.map Item.size).sum else (pre.map Item.size).sum + (Item.object name dir).size - 1 := by
      rcases idx with ⟨whole, first⟩ | ⟨other, none⟩
      · refine ⟨true, iff_of_true rfl whole, ?_⟩
        have two := whole.size
        rw [first, if_pos rfl, if_neg (by omega)]
      · exact ⟨false, iff_of_false (by decide) other, by rw [if_pos none]; rfl⟩
    obtain ⟨long, isLong, first⟩ := chosen
    obtain ⟨m, lo, hi, marked, result⟩ := dirRemove_spec remove looked.windowOk (of.congr looked.links) first
      (by split <;> omega) inside
    have all := (looked.marked of _).trans marked (Nat.le_refl _) lo
    refine ⟨pre, .object name dir, post, long, rfl, others, found, isLong, all.windowOk, all.links, all.others, ?_⟩
    refine result.imp_right ?_
    rintro ⟨success, whole⟩
    refine ⟨success, ?_⟩
    rw [whole, Nat.sub_add_cancel (by omega)] at all
    exact remove_items directory (by simp) all ⟨name, dir, rfl⟩
  · generalize scan (findLook wtoupper dj.fn dj.lfn) (site.table v fs.view) 0 ⟨0xFF, 0xFF, dj.lfnIdx⟩ = seen
      at outcome noHit
    cases seen with
    | hit p => exact absurd rfl (noHit p.1 p.2)
    | ended => cases outcome
    | miss p => cases outcome

/-- The third item is removed by its long name, or by its short one. -/
theorem dirRemove_found_mixed :
    (∃ fs1 dj1 fs2 dj2, dirFind (fun _ => none) tiny upper (rootOf mixedRows) seekLong = (.ok, fs1, dj1) ∧
        dirRemove (fun _ => none) tiny fs1 dj1 = (.ok, fs2, dj2) ∧
        Directory ([.volume, .deleted] ++ (List.replicate 3 .deleted ++ (mixed.drop 3 ++ List.replicate 8 .blank)))
          (Site.root.table tiny fs2.view)) ∧
      ∃ fs1 dj1 fs2 dj2, dirFind (fun _ => none) tiny upper (rootOf mixedRows) seekShort = (.ok, fs1, dj1) ∧
        dirRemove (fun _ => none) tiny fs1 dj1 = (.ok, fs2, dj2) ∧
        Directory ([.volume, .deleted] ++ ([.ghost fourteen (sumSfn fourteenSfn), .deleted] ++
          (mixed.drop 3 ++ List.replicate 8 .blank))) (Site.root.table tiny fs2.view) := by
  have removed : ∀ dj : Dir, dj.sclust = 0 → (Item.object (some fourteen) fourteenSfn).Matches upper dj.fn dj.lfn →
      (dirFind (fun _ => none) tiny upper (rootOf mixedRows) dj).1 = .ok →
      ∃ fs1 dj1 fs2 dj2, dirFind (fun _ => none) tiny upper (rootOf mixedRows) dj = (.ok, fs1, dj1) ∧
        dirRemove (fun _ => none) tiny fs1 dj1 = (.ok, fs2, dj2) ∧ ∃ long : Bool,
          (long = true ↔ (Item.object (some fourteen) fourteenSfn).LongMatches upper dj.lfn) ∧
          Directory ([.volume, .deleted] ++ ((Item.object (some fourteen) fourteenSfn).remains long ++
            (mixed.drop 3 ++ List.replicate 8 .blank))) (Site.root.table tiny fs2.view) := by
    intro dj root is success
    cases find : dirFind (fun _ => none) tiny upper (rootOf mixedRows) dj with
    | mk res run =>
      obtain ⟨fs1, dj1⟩ := run
      rw [find] at success
      obtain rfl : res = .ok := success
      cases remove : dirRemove (fun _ => none) tiny fs1 dj1 with
      | mk res2 run2 =>
        obtain ⟨fs2, dj2⟩ := run2
        obtain ⟨pre, item, post, long, items, others, same, isLong, -, -, -, ⟨-, faulty⟩ | ⟨rfl, left⟩⟩ :=
          dirRemove_found upper_keepsEnd (rootOf_windowOk _) (root ▸ .root (by decide)) mixed_directory find remove
        · exact absurd faulty (Faults.not_some fun _ => rfl)
        · obtain ⟨rfl, rfl, rfl⟩ := first_unique (show [.volume, .deleted] ++ _ :: _ = pre ++ item :: post from items)
            (before_fourteen dj.fn dj.lfn) is others same
          exact ⟨fs1, dj1, fs2, dj2, rfl, remove, long, isLong, left⟩
  obtain ⟨fs1, dj1, fs2, dj2, find, remove, long, isLong, left⟩ :=
    removed seekLong rfl (.inl seekLong_matches) (by decide)
  obtain ⟨fs3, dj3, fs4, dj4, find', remove', short, isShort, left'⟩ :=
    removed seekShort rfl (.inr seekShort_matches.1) (by decide)
  obtain rfl : long = true := isLong.mpr seekLong_matches
  obtain rfl : short = false := Bool.eq_false_iff.mpr fun long => seekShort_matches.2 (isShort.mp long)
  exact ⟨⟨fs1, dj1, fs2, dj2, find, remove, left⟩, fs3, dj3, fs4, dj4, find', remove', left'⟩

end

end Cineraria.Fat
