import Cineraria.Fat.DirFind

/-!
# Listing a directory

`dir_read` and `f_readdir` go from object to object. A long name is read with its object unless it is so long that it
does not leave room for the end of a string in the buffer. So is what `fit_lfn` stores of a name. The name is handed out
in the code page if it has all characters of it and the caller's buffer has room for them.
-/

namespace Cineraria.Fat

open Tiling

/-- A long name that fits into the buffer with its end. -/
def LongName.Fits (name : LongName) : Prop := name.chars.length + 1 < MAX_LFN

instance (name : LongName) : Decidable name.Fits := inferInstanceAs (Decidable (_ < _))

/-- What a listing shows of an item. The entries of the directory itself and of its parent are left out. -/
def Item.listed : Item → Option (Entry × Option LongName)
  | .object name dir =>
      if dir (eofs DIR_Name) = 0x2E then none else some (dir, name.filter fun name => decide name.Fits)
  | _ => none

/-- From the character `m` on the buffer holds the name. -/
def Tail (lfnbuf : Nat → BitVec 16) (name : LongName) (m : Nat) : Prop :=
  ∀ k ≤ name.chars.length, m ≤ k → lfnbuf k = name.stored k

section
variable {name : LongName} {sum : BitVec 8} {n i : Nat} {dir : Entry} {es : List Entry} {s : Sequence} {item : Item}
variable {lfnbuf : Nat → BitVec 16}

theorem Tail.holds (tail : Tail lfnbuf name 0) : Holds lfnbuf name.chars where
  same k h := (tail k (Nat.le_of_lt h) (Nat.zero_le k)).trans (LongName.stored_char h)
  ends := (tail _ (Nat.le_refl _) (Nat.zero_le _)).trans LongName.stored_end

/-! ## LFN entries -/

/-- The order of a part is not the dot of a directory. -/
theorem ord_dot : ∀ n < 21, ∀ x ∈ [BitVec.ofNat 8 n, BitVec.ofNat 8 n ||| LLE], x ≠ 0x2E := by decide

theorem IsPart.read_last (part : IsPart name sum name.parts dir) (lfnbuf : Nat → BitVec 16) :
    readLook i dir (s, lfnbuf) =
      .miss (Sequence.pick ⟨BitVec.ofNat 8 name.parts, sum, i⟩ (pickLfn lfnbuf dir)) := by
  obtain ⟨-, above, most⟩ := name.parts_bounds
  have pos := name.length_pos
  obtain ⟨used, data, attr⟩ := part.seen (by omega) (Nat.le_refl _)
  have dot : ¬(NoData dir ∨ dir (eofs DIR_Name) = 0x2E) := not_or.mpr ⟨data, ord_dot _ (by omega) _ part.ord_mem⟩
  simp only [readLook, if_neg used, if_neg dot, if_pos attr, part.enter_last, part.sum, and_self, if_true]

theorem IsPart.read_next (part : IsPart name sum n dir) (lfnbuf : Nat → BitVec 16) (first : 1 ≤ n)
    (last : n < name.parts) :
    readLook i dir (s, lfnbuf) =
      if BitVec.ofNat 8 n = s.ord ∧ s.sum = sum then .miss (s.pick (pickLfn lfnbuf dir))
      else .miss ({ s with ord := 0xFF }, lfnbuf) := by
  have most := name.parts_bounds.2.2
  obtain ⟨used, data, attr⟩ := part.seen first (Nat.le_of_lt last)
  have dot : ¬(NoData dir ∨ dir (eofs DIR_Name) = 0x2E) := not_or.mpr ⟨data, ord_dot _ (by omega) _ part.ord_mem⟩
  simp only [readLook, if_neg used, if_neg dot, if_pos attr, part.enter_next last, part.sum]

/-- The parts that follow the last one of a name. -/
theorem read_parts_next (lfnbuf : Nat → BitVec 16) (parts : Parts name sum n es) (last : n < name.parts)
    (state : s.ord = BitVec.ofNat 8 n ∧ s.sum = sum ∧ Tail lfnbuf name (13 * n) ∨ s.ord = 0xFF) :
    ∃ s' lfnbuf', scan readLook es i (s, lfnbuf) = .miss (i + n, s', lfnbuf') ∧
      (s'.ord = 0 ∧ s'.sum = sum ∧ s'.lfnIdx = s.lfnIdx ∧ Tail lfnbuf' name 0 ∧ s.ord ≠ 0xFF ∨
        s'.ord = 0xFF ∧ s.ord = 0xFF) := by
  have most := name.parts_bounds.2.2
  induction n generalizing es i s lfnbuf with
  | zero =>
      cases es with
      | cons dir es => exact parts.elim
      | nil =>
          refine ⟨s, lfnbuf, rfl, ?_⟩
          rcases state with ⟨ord, same, tail⟩ | failed
          · exact .inl ⟨ord, same, rfl, tail, by rw [ord]; decide⟩
          · exact .inr ⟨failed, failed⟩
  | succ n ih =>
      cases es with
      | nil => exact parts.elim
      | cons dir es =>
          obtain ⟨part, parts⟩ := parts
          obtain ⟨small, minus, -⟩ := ord_small n (by omega)
          have small' := (ord_small (n + 1) (by omega)).1
          have look := part.read_next lfnbuf (i := i) (s := s) (Nat.succ_pos n) last
          rcases state with ⟨ord, same, tail⟩ | failed
          · obtain ⟨picked, content⟩ := pickLfn_spec lfnbuf part (Nat.succ_pos n) (by omega)
            have done := picked.mpr fun top => by omega
            have content := content done
            rw [if_pos ⟨ord.symm, same⟩, Sequence.pick, if_pos done, ord, minus] at look
            have tail' : Tail (pickLfn lfnbuf dir).2 name (13 * n) := by
              intro k within low
              rw [content k within (by omega)]
              split
              · rfl
              · exact tail k within (by omega)
            obtain ⟨s', lfnbuf', run, result⟩ := ih (pickLfn lfnbuf dir).2 (i := i + 1)
              (s := { s with ord := BitVec.ofNat 8 n }) parts (by omega) (.inl ⟨rfl, same, tail'⟩)
            refine ⟨s', lfnbuf', scan_cons_pass look run, .inl ?_⟩
            rcases result with ⟨ord', same', idx, whole, -⟩ | ⟨-, failed⟩
            · exact ⟨ord', same', idx, whole, by rw [ord]; exact small'⟩
            · exact absurd failed small
          · rw [if_neg fun again => small' (again.1.trans failed)] at look
            obtain ⟨s', lfnbuf', run, result⟩ :=
              ih lfnbuf (i := i + 1) (s := { s with ord := 0xFF }) parts (by omega) (.inr rfl)
            refine ⟨s', lfnbuf', scan_cons_pass look run, .inr ⟨?_, failed⟩⟩
            rcases result with ⟨-, -, -, -, ne⟩ | ⟨failed', -⟩
            · exact absurd rfl ne
            · exact failed'

/-- All parts of a name: the sequence is complete and the name is in the buffer exactly if it fits. -/
theorem read_parts (lfnbuf : Nat → BitVec 16) (parts : Parts name sum name.parts es) :
    ∃ s' lfnbuf', scan readLook es i (s, lfnbuf) = .miss (i + name.parts, s', lfnbuf') ∧
      (name.Fits ∧ s'.ord = 0 ∧ s'.sum = sum ∧ s'.lfnIdx = i ∧ Tail lfnbuf' name 0 ∨
        ¬name.Fits ∧ s'.ord = 0xFF) := by
  obtain ⟨below, above, most⟩ := name.parts_bounds
  have pos := name.length_pos
  obtain ⟨n, count⟩ : ∃ n, name.parts = n + 1 := ⟨name.parts - 1, by omega⟩
  cases es with
  | nil =>
      rw [count] at parts
      exact parts.elim
  | cons dir es =>
      have first : IsPart name sum name.parts dir ∧ Parts name sum n es := by
        rw [count] at parts ⊢
        exact parts
      obtain ⟨part, parts⟩ := first
      obtain ⟨small, minus, -⟩ := ord_small n (by omega)
      obtain ⟨picked, content⟩ := pickLfn_spec lfnbuf part (by omega) (Nat.le_refl _)
      have look := part.read_last lfnbuf (i := i) (s := s)
      rw [Sequence.pick, count, minus] at look
      by_cases fits : name.Fits
      · have done := picked.mpr fun _ => fits
        have content := content done
        rw [if_pos done] at look
        have tail : Tail (pickLfn lfnbuf dir).2 name (13 * n) := by
          intro k within low
          rw [content k within (by omega), if_pos (.inl rfl)]
        obtain ⟨s', lfnbuf', run, result⟩ := read_parts_next (pickLfn lfnbuf dir).2 (i := i + 1)
          (s := ⟨BitVec.ofNat 8 n, sum, i⟩) parts (by omega) (.inl ⟨rfl, rfl, tail⟩)
        refine ⟨s', lfnbuf', by rw [count]; exact scan_cons_pass look run,
          .inl ⟨fits, ?_⟩⟩
        rcases result with ⟨ord, same, idx, whole, -⟩ | ⟨-, failed⟩
        · exact ⟨ord, same, idx, whole⟩
        · exact absurd failed small
      · rw [if_neg fun done => fits (picked.mp done rfl)] at look
        obtain ⟨s', lfnbuf', run, result⟩ := read_parts_next (pickLfn lfnbuf dir).2 (i := i + 1)
          (s := ⟨0xFF, sum, i⟩) parts (by omega) (.inr rfl)
        refine ⟨s', lfnbuf', by rw [count]; exact scan_cons_pass look run,
          .inr ⟨fits, ?_⟩⟩
        rcases result with ⟨-, -, -, -, ne⟩ | ⟨failed', -⟩
        · exact absurd rfl ne
        · exact failed'

/-! ## Items passed and shown -/

/-- The state of a listing between two items. -/
abbrev Between (before : Option Item) (s : Sequence) : Prop := Ready (some fun _ => 0) before s

theorem readLook_sfn (lfnbuf : Nat → BitVec 16) (sfn : IsSfn dir) (dot : dir (eofs DIR_Name) ≠ 0x2E) :
    readLook i dir (s, lfnbuf) =
      if s.ord ≠ 0 ∨ s.sum ≠ sumSfn dir then .hit ({ s with lfnIdx := 0xFFFF }, lfnbuf) else .hit (s, lfnbuf) := by
  simp only [readLook, if_neg sfn.used, if_neg (not_or.mpr ⟨sfn.data, dot⟩), if_neg sfn.attr]

theorem readLook_noData (lfnbuf : Nat → BitVec 16) (used : dir (eofs DIR_Name) ≠ 0)
    (none : NoData dir ∨ dir (eofs DIR_Name) = 0x2E) :
    readLook i dir (s, lfnbuf) = .miss ({ s with ord := 0xFF }, lfnbuf) := by
  simp only [readLook, if_neg used, if_pos none]

/-- An item that is not shown. -/
theorem read_item_pass (lfnbuf : Nat → BitVec 16) (is : item.Is es) (live : item ≠ .blank)
    (hidden : item.listed = none) :
    ∃ s' lfnbuf', scan readLook es i (s, lfnbuf) = .miss (i + item.size, s', lfnbuf') ∧ Between (some item) s' := by
  cases item with
  | blank => exact absurd rfl live
  | deleted =>
      obtain ⟨dir, rfl, mark⟩ := is
      have look := readLook_noData lfnbuf (i := i) (s := s) (by rw [mark]; decide) (.inl (.inl mark))
      exact ⟨_, lfnbuf, by rw [scan_cons_miss look]; rfl, ready_failed rfl⟩
  | volume =>
      obtain ⟨dir, rfl, used, -, data⟩ := is
      have look := readLook_noData lfnbuf (i := i) (s := s) used (.inl data)
      exact ⟨_, lfnbuf, by rw [scan_cons_miss look]; rfl, ready_failed rfl⟩
  | ghost name sum =>
      obtain ⟨s', lfnbuf', run, ⟨-, ord, same, -⟩ | ⟨-, failed⟩⟩ := read_parts lfnbuf (i := i) (s := s) is
      · exact ⟨s', lfnbuf', run, fun _ => ⟨by simp, name, by rw [same]⟩⟩
      · exact ⟨s', lfnbuf', run, ready_failed failed⟩
  | object long dir =>
      have dot : dir (eofs DIR_Name) = 0x2E := by
        by_contra other
        rw [Item.listed, if_neg other] at hidden
        exact absurd hidden (by simp)
      cases long with
      | none =>
          obtain ⟨rfl, sfn⟩ := is
          have look := readLook_noData lfnbuf (i := i) (s := s) sfn.used (.inr dot)
          exact ⟨_, lfnbuf, by rw [scan_cons_miss look]; rfl, ready_failed rfl⟩
      | some name =>
          obtain ⟨parts, rfl, is, sfn⟩ := is
          obtain ⟨s', lfnbuf', run, -⟩ := read_parts lfnbuf (i := i) (s := s) is
          have look := readLook_noData lfnbuf' (i := i + name.parts) (s := s') sfn.used (.inr dot)
          exact ⟨_, lfnbuf', by rw [scan_miss_append run, scan_cons_miss look]; rfl, ready_failed rfl⟩

/-- The long name that a listing gives. -/
def GivesLong (long : Option LongName) (lfn : Option (Nat → BitVec 16)) : Prop :=
  match long, lfn with
  | none, none => True
  | some name, some lfnbuf => Holds lfnbuf name.chars
  | _, _ => False

/-- An item that is shown. -/
theorem read_item_hit {long : Option LongName} (lfnbuf : Nat → BitVec 16) (is : item.Is es)
    (shown : item.listed = some (dir, long)) {before : Option Item} (ready : Between before s)
    (follows : ∀ b, before = some b → Follows b item)
    (small : i + item.size ≤ 65536) :
    ∃ s' lfnbuf', scan readLook es i (s, lfnbuf) = .hit (i + item.size - 1, s', lfnbuf') ∧
      GivesLong long (if s'.lfnIdx = 0xFFFF then none else some lfnbuf') ∧ es.getLast? = some dir := by
  cases item with
  | blank | deleted | volume | ghost name sum => exact absurd shown (by simp [Item.listed])
  | object name entry =>
      rw [Item.listed] at shown
      split at shown
      · exact absurd shown (by simp)
      next dot =>
      obtain ⟨rfl, rfl⟩ : entry = dir ∧ (name.filter fun name => decide name.Fits) = long := by simpa using shown
      cases name with
      | none =>
          obtain ⟨rfl, sfn⟩ := is
          have away : s.ord ≠ 0 ∨ s.sum ≠ sumSfn entry := by
            by_contra both
            rw [not_or, not_not, not_not] at both
            obtain ⟨-, name, left⟩ := ready both.1
            exact follows _ left both.2.symm
          have look := readLook_sfn lfnbuf (i := i) (s := s) sfn dot
          rw [if_pos away] at look
          exact ⟨_, lfnbuf, by rw [scan, look]; rfl, by simp [GivesLong], rfl⟩
      | some name =>
          obtain ⟨parts, rfl, is, sfn⟩ := is
          obtain ⟨s', lfnbuf', run, ⟨fits, ord, same, idx, whole⟩ | ⟨long, failed⟩⟩ :=
            read_parts lfnbuf (i := i) (s := s) is
          · have look := readLook_sfn lfnbuf' (i := i + name.parts) (s := s') sfn dot
            rw [if_neg (not_or.mpr ⟨not_not.mpr ord, not_not.mpr same⟩)] at look
            refine ⟨s', lfnbuf', by rw [scan_miss_append run, scan, look]; rfl, ?_, by simp⟩
            have size : (Item.object (some name) entry).size = name.parts + 1 := rfl
            have above := name.parts_bounds.2.1
            have pos := name.length_pos
            rw [idx, if_neg (by omega), Option.filter_some, if_pos (decide_eq_true fits)]
            exact whole.holds
          · have look := readLook_sfn lfnbuf' (i := i + name.parts) (s := s') sfn dot
            rw [if_pos (.inl (by rw [failed]; decide))] at look
            refine ⟨_, lfnbuf', by rw [scan_miss_append run, scan, look]; rfl, ?_, by simp⟩
            rw [if_pos rfl, Option.filter_some, if_neg (by simpa using long)]
            trivial

/-- Items that are not shown. -/
theorem read_items_pass {items : List Item} (lfnbuf : Nat → BitVec 16) (tiles : Tiles Item.Is items es)
    {before : Option Item} (ready : Between before s) (hidden : ∀ x ∈ items, x ≠ .blank ∧ x.listed = none) :
    ∃ s' lfnbuf', scan readLook es i (s, lfnbuf) = .miss (i + (items.map Item.size).sum, s', lfnbuf') ∧
      Between (items.getLast?.or before) s' := by
  induction tiles generalizing before i s lfnbuf with
  | nil => exact ⟨s, lfnbuf, rfl, ready⟩
  | @cons x items front rear first rest ih =>
      obtain ⟨here, hidden⟩ := List.forall_mem_cons.mp hidden
      obtain ⟨s1, lfnbuf1, run, ready1⟩ := read_item_pass lfnbuf (i := i) (s := s) first here.1 here.2
      obtain ⟨s2, lfnbuf2, run2, ready2⟩ := ih lfnbuf1 (i := i + x.size) ready1 hidden
      refine ⟨s2, lfnbuf2, ?_, ?_⟩
      · rw [scan_miss_append run, run2, List.map_cons, List.sum_cons, Nat.add_assoc]
      · rwa [getLast_cons_or]

/-- A listing from one item on comes to the next one that is shown. -/
theorem read_rest {rest : List Item} (lfnbuf : Nat → BitVec 16) (tiles : Tiles Item.Is rest es)
    (proper : rest.IsChain Follows) (idx : Nat)
    (small : i + es.length ≤ 65536) :
    (∃ skipped item post dir long s' lfnbuf', rest = skipped ++ item :: post ∧ (∀ x ∈ skipped, x.listed = none) ∧
      item.listed = some (dir, long) ∧
      scan readLook es i (⟨0xFF, 0xFF, idx⟩, lfnbuf) =
        .hit (i + (skipped.map Item.size).sum + item.size - 1, s', lfnbuf') ∧
      GivesLong long (if s'.lfnIdx = 0xFFFF then none else some lfnbuf') ∧
      es[(skipped.map Item.size).sum + item.size - 1]? = some dir) ∨
    (∀ x ∈ rest, x.listed = none) ∧ ∀ j s', scan readLook es i (⟨0xFF, 0xFF, idx⟩, lfnbuf) ≠ .hit (j, s') := by
  have ready : Between none (⟨0xFF, 0xFF, idx⟩ : Sequence) := ready_failed rfl
  rcases first_or_none (fun x => Item.listed x ≠ none) rest with ⟨pre, item, post, rfl, shown, hidden⟩ | hidden
  · left
    obtain ⟨⟨dir, long⟩, shown⟩ := Option.ne_none_iff_exists'.mp shown
    have live : item ≠ .blank := by
      rintro rfl
      cases shown
    obtain ⟨front, rear, rfl, before, behind⟩ := tiles.split
    obtain ⟨mid, rest, rfl, is, -⟩ := behind.uncons
    obtain ⟨chain, -, joint⟩ := List.isChain_append.mp proper
    have passed := ne_blank proper live
    have hidden : ∀ x ∈ pre, x.listed = none := fun x mem => not_not.mp (hidden x mem)
    obtain ⟨s1, lfnbuf1, run, ready1⟩ := read_items_pass lfnbuf (i := i) before ready
      fun x mem => ⟨passed x mem, hidden x mem⟩
    rw [Option.or_none] at ready1
    have frontLength := Directory.length before
    have midLength := is.length
    have room : i + (pre.map Item.size).sum + item.size ≤ 65536 := by
      simp only [List.length_append] at small
      omega
    obtain ⟨s2, lfnbuf2, hit, gives, last⟩ := read_item_hit lfnbuf1 (i := i + (pre.map Item.size).sum) is shown
      ready1 (fun b last => joint b last item rfl) room
    refine ⟨pre, item, post, dir, long, s2, lfnbuf2, rfl, hidden, shown, ?_, gives, ?_⟩
    · rw [scan_miss_append run, scan_hit_append hit]
    · have some : 0 < item.size := by
        rw [← midLength]
        exact List.length_pos_iff.mpr fun none => by simp [none] at last
      rw [List.getElem?_append_right (by omega), List.getElem?_append_left (by omega), ← last,
        List.getLast?_eq_getElem?]
      congr 1
      omega
  · right
    have hidden : ∀ x ∈ rest, x.listed = none := fun x mem => not_not.mp (hidden x mem)
    refine ⟨hidden, fun j s' hit => ?_⟩
    rcases first_or_none (· = Item.blank) rest with ⟨pre, item, post, rfl, rfl, live⟩ | live
    · obtain ⟨front, rear, rfl, before, behind⟩ := tiles.split
      obtain ⟨mid, rest, rfl, ⟨dir, rfl, zero⟩, -⟩ := behind.uncons
      obtain ⟨s1, lfnbuf1, run, -⟩ := read_items_pass lfnbuf (i := i) before ready
        fun x mem => ⟨live x mem, hidden x (List.mem_append_left _ mem)⟩
      have stop : readLook (i + (pre.map Item.size).sum) dir (s1, lfnbuf1) = .ended := by
        simp only [readLook, if_pos zero]
      rw [scan_miss_append run, List.singleton_append, scan, stop] at hit
      cases hit
    · obtain ⟨s1, lfnbuf1, run, -⟩ := read_items_pass lfnbuf (i := i) tiles ready
        fun x mem => ⟨live x mem, hidden x mem⟩
      rw [run] at hit
      cases hit

end

/-! ## `f_readdir` -/

/-- The directory object is before the items `rest`, or nothing is left. -/
structure Listing (v : Volume) (site : Site) (fs : Fatfs) (dj : Dir) (rest : List Item) : Prop where
  windowOk : fs.WindowOk v
  place : (∃ pre, site.Of v fs.view dj.sclust ∧ Directory (pre ++ rest) (site.table v fs.view) ∧
    (pre.map Item.size).sum < site.count v ∧ dj.goto v site (pre.map Item.size).sum = dj) ∨ dj.sect = 0 ∧ rest = []

section
variable (oem : BitVec 16 → BitVec 16)

/-- A character in the code page. -/
def oemBytes (c : BitVec 16) : List (BitVec 8) :=
  (if 0x100 ≤ oem c then [(oem c >>> 8).setWidth 8] else []) ++ [(oem c).setWidth 8]

/-- A long name as a string: an empty one if a character has no code, or if there is no room for it and its end. -/
def oemName (lfsize : Nat) (chars : List (BitVec 16)) : List (BitVec 8) :=
  if chars.all (fun c => oem c ≠ 0) ∧ (chars.flatMap (oemBytes oem)).length < lfsize
  then chars.flatMap (oemBytes oem) else []

/-- The long name in the file information. -/
def longName (long : Option LongName) (fno : Filinfo) : List (BitVec 8) :=
  if fno.lfsize = 0 then fno.lfname else (long.map fun name => oemName oem fno.lfsize name.chars).getD []

/-- The file information of an object, or at the end. -/
def objectInfo (o : Option (Entry × Option LongName)) (fno : Filinfo) : Filinfo :=
  match o with
  | none => { fno with fname := [], lfname := longName oem none fno }
  | some (dir, long) =>
      { fsize := dirWord dir (DIR_FileSize + 2) ++ dirWord dir DIR_FileSize
        fdate := dirWord dir DIR_WrtDate
        ftime := dirWord dir DIR_WrtTime
        fattrib := dir (eofs DIR_Attr)
        fname := sfnName dir
        lfname := longName oem long fno
        lfsize := fno.lfsize }

/-- What a caller gives to `f_readdir`: whatever is in the buffer of the function, and the file information. -/
structure Readdir where
  lfnbuf : Nat → BitVec 16
  fno : Filinfo

/-- The replies to calls of `f_readdir`. -/
def readdirs (faults : Faults) (v : Volume) : List Readdir → Fatfs → Dir → List (FResult × Filinfo)
  | [], _, _ => []
  | c :: cs, fs, dj =>
      match fReaddir oem faults v c.lfnbuf fs dj c.fno with
      | (res, fno, fs, dj) => (res, fno) :: readdirs faults v cs fs dj

end

section
variable {oem : BitVec 16 → BitVec 16} {lfn : Nat → BitVec 16} {lfsize : Nat} {fs : Fatfs} {dj : Dir} {fno : Filinfo}

/-- The loop over the rest of a name. What has been stored leaves room for the end of the string. -/
theorem lfnLoop_eq {cs : List (BitVec 16)} {turns k : Nat} {tp : List (BitVec 8)}
    (same : ∀ j, (h : j < cs.length) → lfn (k + j) = cs[j]) (ends : lfn (k + cs.length) = 0)
    (proper : ∀ c ∈ cs, c ≠ 0) (enough : cs.length < turns) (room : tp.length < lfsize) :
    lfnLoop oem lfsize lfn turns k tp =
      if cs.all (fun c => oem c ≠ 0) ∧ (tp ++ cs.flatMap (oemBytes oem)).length < lfsize
      then tp ++ cs.flatMap (oemBytes oem) else [] := by
  induction cs generalizing turns k tp with
  | nil =>
      obtain ⟨turns, rfl⟩ : ∃ n, turns = n + 1 := ⟨turns - 1, by simp at enough; omega⟩
      rw [List.length_nil, Nat.add_zero] at ends
      rw [lfnLoop, if_pos ends, List.flatMap_nil, List.append_nil, if_pos ⟨rfl, room⟩]
  | cons c cs ih =>
      obtain ⟨turns, rfl⟩ : ∃ n, turns = n + 1 := ⟨turns - 1, by simp at enough; omega⟩
      have here : lfn k = c := same 0 (by simp)
      simp only [lfnLoop, here, if_neg (proper c List.mem_cons_self)]
      by_cases none : oem c = 0
      · rw [if_pos none, if_neg (by simp [none])]
      rw [if_neg none]
      generalize front : (if 0x100 ≤ oem c then tp ++ [(oem c >>> 8).setWidth 8] else tp) = tp'
      have bytes : tp' ++ [(oem c).setWidth 8] = tp ++ oemBytes oem c := by
        rw [← front, oemBytes]
        split <;> simp
      have length : tp'.length + 1 = (tp ++ oemBytes oem c).length := by rw [← bytes, List.length_append]; rfl
      by_cases full : lfsize - 1 ≤ tp'.length
      · rw [if_pos full, if_neg]
        rintro ⟨-, fits⟩
        rw [List.flatMap_cons, ← List.append_assoc, List.length_append] at fits
        omega
      · have same' : ∀ j, (h : j < cs.length) → lfn (k + 1 + j) = cs[j] := fun j h => by
          rw [Nat.add_assoc, Nat.add_comm 1 j]
          exact same (j + 1) (Nat.succ_lt_succ h)
        have ends' : lfn (k + 1 + cs.length) = 0 := by
          rw [Nat.add_assoc, Nat.add_comm 1]
          exact ends
        rw [if_neg full, bytes, ih same' ends' (fun x mem => proper x (List.mem_cons_of_mem c mem))
          (Nat.lt_of_succ_lt_succ enough) (by omega)]
        simp only [List.flatMap_cons, List.append_assoc, List.all_cons, ne_eq, none, not_false_eq_true, decide_true,
          Bool.true_and]

/-- The loop over a name that the buffer holds. -/
theorem lfnLoop_name {name : LongName} (holds : Holds lfn name.chars) (some : 0 < lfsize) :
    lfnLoop oem lfsize lfn (MAX_LFN + 1) 0 [] = oemName oem lfsize name.chars :=
  lfnLoop_eq (fun j h => by rw [Nat.zero_add]; exact holds.same j h) (by rw [Nat.zero_add]; exact holds.ends)
    (fun c mem => (name.proper c mem).1) (Nat.lt_succ_of_le name.short) some

/-- `get_fileinfo` of an object that has been read. -/
theorem getFileinfo_object {dir : Entry} {long : Option LongName} (valid : dj.sect ≠ 0) (entry : dj.entry fs = dir)
    (gives : GivesLong long (if dj.lfnIdx = 0xFFFF then none else dj.lfn)) :
    getFileinfo oem fs dj fno = objectInfo oem (some (dir, long)) fno := by
  have either : (if dj.sect = 0 ∨ dj.lfnIdx = 0xFFFF then none else dj.lfn) =
      if dj.lfnIdx = 0xFFFF then none else dj.lfn := by simp [valid]
  simp only [getFileinfo, objectInfo, longName, if_neg valid, either, entry]
  by_cases buffer : fno.lfsize = 0
  · simp only [if_pos buffer]
  simp only [if_neg buffer]
  cases long with
  | none =>
      cases given : (if dj.lfnIdx = 0xFFFF then none else dj.lfn) with
      | none => rfl
      | some lfn =>
          rw [given] at gives
          exact gives.elim
  | some name =>
      cases given : (if dj.lfnIdx = 0xFFFF then none else dj.lfn) with
      | none =>
          rw [given] at gives
          exact gives.elim
      | some lfn =>
          rw [given] at gives
          simp only [lfnLoop_name gives (Nat.pos_of_ne_zero buffer), Option.map_some, Option.getD_some]

/-- `get_fileinfo` at the end. -/
theorem getFileinfo_end (ended : dj.sect = 0) : getFileinfo oem fs dj fno = objectInfo oem none fno := by
  simp only [getFileinfo, objectInfo, longName, if_pos ended, if_pos (Or.inl ended)]
  split <;> rfl

theorem sfnName_length (dir : Entry) : (sfnName dir).length < 13 := by
  have part : ∀ first count, (sfnChars dir first count).length ≤ count := fun first count =>
    Nat.le_trans (List.takeWhile_prefix _).length_le (by simp)
  have body := part 0 8
  have ext := part 8 3
  simp only [sfnName]
  split <;> simp only [List.length_append, List.length_map, List.length_cons, List.length_nil] <;> omega

theorem oemName_length (oem : BitVec 16 → BitVec 16) (chars : List (BitVec 16)) (some : 0 < lfsize) :
    (oemName oem lfsize chars).length < lfsize := by
  rw [oemName]
  split
  · next fits => exact fits.2
  · exact some

/-- Each string of the file information of an object leaves room for its end. -/
theorem objectInfo_fits (dir : Entry) (long : Option LongName) (buffer : fno.lfsize ≠ 0) :
    (objectInfo oem (some (dir, long)) fno).fname.length < 13 ∧
      (objectInfo oem (some (dir, long)) fno).lfname.length < fno.lfsize := by
  refine ⟨sfnName_length dir, ?_⟩
  simp only [objectInfo, longName, if_neg buffer]
  cases long with
  | none => exact Nat.pos_of_ne_zero buffer
  | some name => exact oemName_length oem name.chars (Nat.pos_of_ne_zero buffer)

end

section
variable {faults : Faults} {v : Volume} {site : Site} {fs fs' : Fatfs} {dj dj' : Dir} {rest : List Item}

/-- `dir_read` on a drive without faults. -/
theorem dirRead_spec (healthy : ∀ k, faults k = none) (lfnbuf : Nat → BitVec 16) (listing : Listing v site fs dj rest) :
    ∃ res fs' dj', dirRead faults v lfnbuf fs dj = (res, fs', dj') ∧ Looked v site fs fs' ∧
      ((∃ pre skipped item post dir long, site.Of v fs.view dj'.sclust ∧
          Directory (pre ++ (skipped ++ item :: post)) (site.table v fs.view) ∧
          rest.filterMap Item.listed = (dir, long) :: post.filterMap Item.listed ∧ res = .ok ∧
          ((pre ++ skipped).map Item.size).sum + item.size - 1 < site.count v ∧
          dj'.goto v site (((pre ++ skipped).map Item.size).sum + item.size - 1) = dj' ∧
          dj'.sect ≠ 0 ∧ dj'.entry fs' = dir ∧ GivesLong long (if dj'.lfnIdx = 0xFFFF then none else dj'.lfn)) ∨
        rest.filterMap Item.listed = [] ∧ res = .noFile ∧ dj'.sect = 0) := by
  obtain ⟨windowOk, ⟨pre, of, directory, inside, here⟩ | ⟨ended, rfl⟩⟩ := listing
  · have sect : dj.sect ≠ 0 := by
      rw [← here]
      refine (of.primary (i := (pre.map Item.size).sum) ?_).1.pos
      rw [Site.count] at inside
      omega
    cases hl : scanLoop faults v readLook (fun s dj => { dj with lfnIdx := s.1.lfnIdx, lfn := some s.2 }) 65536
        (⟨0xFF, 0xFF, dj.lfnIdx⟩, lfnbuf) fs dj with
    | mk res run =>
      obtain ⟨fs', dj'⟩ := run
      have read : dirRead faults v lfnbuf fs dj = endRead (res, fs', dj') := by rw [dirRead, if_neg sect, hl]
      rw [← here] at hl
      have enough : site.count v ≤ (pre.map Item.size).sum + 65536 := by
        rw [Site.count]
        omega
      obtain ⟨looked, ⟨-, faulty⟩ | outcome⟩ := scanLoop_spec hl (fun _ _ _ => rfl) (fun _ _ => rfl) (fun _ _ _ => rfl)
        windowOk of inside enough
      · exact absurd faulty (Faults.not_some healthy)
      obtain ⟨tiles, proper⟩ := directory
      obtain ⟨front, rear, cut, before, behind⟩ := tiles.split
      have frontLength := Directory.length before
      have whole : (site.table v fs.view).length = site.count v := site.length_table fs.view
      have small : (pre.map Item.size).sum + rear.length ≤ 65536 := by
        rw [cut, List.length_append, Site.count] at whole
        omega
      have later : (site.table v fs.view).drop (pre.map Item.size).sum = rear := by
        rw [cut, ← frontLength, List.drop_left]
      rw [later] at outcome
      have start : (dj.goto v site (pre.map Item.size).sum).lfnIdx = dj.lfnIdx := rfl
      rw [start] at outcome
      rcases read_rest lfnbuf behind (proper.right_of_append) dj.lfnIdx small with
        ⟨skipped, item, post, dir, long, s', lfnbuf', rfl, hidden, shown, hit, gives, entry⟩ | ⟨hidden, noHit⟩
      · rw [hit] at outcome
        obtain ⟨rfl, reached, sector, rfl⟩ := outcome
        have sum : ((pre ++ skipped).map Item.size).sum = (pre.map Item.size).sum + (skipped.map Item.size).sum := by
          rw [List.map_append, List.sum_append]
        have pos := item.size_pos
        have listed : (skipped ++ item :: post).filterMap Item.listed = (dir, long) :: post.filterMap Item.listed := by
          rw [List.filterMap_append, List.filterMap_eq_nil_iff.mpr hidden, List.nil_append, List.filterMap_cons, shown]
        refine ⟨.ok, fs', _, read, looked,
          .inl ⟨pre, skipped, item, post, dir, long, of, ⟨tiles, proper⟩, listed, rfl, ?_⟩⟩
        rw [sum]
        have within : (pre.map Item.size).sum + (skipped.map Item.size).sum + item.size - 1 < site.entries v := by
          rw [Site.count] at reached
          omega
        have slot :
            site.slot v fs.view ((pre.map Item.size).sum + (skipped.map Item.size).sum + item.size - 1) = dir := by
          have found := Site.table_get fs.view reached
          rw [cut, List.getElem?_append_right (by omega)] at found
          rw [show (pre.map Item.size).sum + (skipped.map Item.size).sum + item.size - 1 - front.length =
            (skipped.map Item.size).sum + item.size - 1 by omega, entry] at found
          exact (Option.some.inj found).symm
        exact ⟨reached, rfl, (of.primary within).1.pos, (looked.entry of within sector).trans slot, gives⟩
      · have listed : rest.filterMap Item.listed = [] := List.filterMap_eq_nil_iff.mpr hidden
        have failed : res = .noFile := by
          generalize scan readLook rear (pre.map Item.size).sum (⟨0xFF, 0xFF, dj.lfnIdx⟩, lfnbuf) = seen
            at outcome noHit
          cases seen with
          | hit p => exact absurd rfl (noHit p.1 p.2)
          | ended => exact outcome
          | miss p => exact outcome
        subst failed
        exact ⟨.noFile, fs', { dj' with sect := 0 }, read, looked, .inr ⟨listed, rfl, rfl⟩⟩
  · refine ⟨.noFile, fs, dj, by rw [dirRead, if_pos ended], (FatRead.refl windowOk).looked, .inr ⟨rfl, rfl, ended⟩⟩

/-- A call of `f_readdir` gives the next object. -/
theorem fReaddir_spec (healthy : ∀ k, faults k = none) (oem : BitVec 16 → BitVec 16) (lfnbuf : Nat → BitVec 16)
    (fno : Filinfo) (listing : Listing v site fs dj rest) :
    ∃ fs' dj' rest', fReaddir oem faults v lfnbuf fs dj fno =
        (.ok, objectInfo oem (rest.filterMap Item.listed).head? fno, fs', dj') ∧
      Looked v site fs fs' ∧ Listing v site fs' dj' rest' ∧
      rest'.filterMap Item.listed = (rest.filterMap Item.listed).tail := by
  obtain ⟨res, fs1, dj1, read, looked, ⟨pre, skipped, item, post, dir, long, of, directory, listed, rfl, inside, here,
    valid, entry, gives⟩ | ⟨listed, rfl, ended⟩⟩ := dirRead_spec healthy lfnbuf listing
  · rw [listed, List.head?_cons]
    have of1 := of.congr looked.links
    have table : site.table v fs1.view = site.table v fs.view := Site.table_congr of looked.view
    have sum : ((pre ++ skipped ++ [item]).map Item.size).sum = ((pre ++ skipped).map Item.size).sum + item.size := by
      rw [List.map_append, List.sum_append, List.map_singleton, List.sum_singleton]
    have pos := item.size_pos
    have info : getFileinfo oem fs1 dj1 fno = objectInfo oem (some (dir, long)) fno :=
      getFileinfo_object valid entry gives
    cases hd : dirNext faults v false fs1 dj1 with
    | mk res2 run =>
      obtain ⟨fs2, dj2⟩ := run
      have call : fReaddir oem faults v lfnbuf fs dj fno =
          if res2 = .noFile then (.ok, objectInfo oem (some (dir, long)) fno, fs2, { dj2 with sect := 0 })
          else (res2, objectInfo oem (some (dir, long)) fno, fs2, dj2) := by
        cases res2 <;> simp [fReaddir, read, hd, info]
      have next := hd
      rw [← here] at next
      obtain ⟨read2, ⟨-, faulty⟩ | ⟨rfl, more, rfl⟩ | ⟨rfl, ends⟩⟩ := dirNext_spec looked.windowOk of1 inside next
      · exact absurd faulty (Faults.not_some healthy)
      · have table2 : site.table v fs2.view = site.table v fs1.view := Site.table_congr of1 read2.view
        refine ⟨_, _, post, call, looked.trans read2.looked, ⟨read2.windowOk, .inl ⟨pre ++ skipped ++ [item],
          of1.congr read2.links, ?_, ?_, ?_⟩⟩, rfl⟩
        · rw [table2, table]
          simpa using directory
        · rw [sum]
          omega
        · rw [sum, show ((pre ++ skipped).map Item.size).sum + item.size - 1 + 1 =
            ((pre ++ skipped).map Item.size).sum + item.size by omega]
          rfl
      · have whole : (pre ++ (skipped ++ item :: post)).map Item.size = (pre ++ skipped ++ [item]).map Item.size ++
          post.map Item.size := by simp
        have length := Directory.length directory.tiles
        rw [Site.length_table, whole, List.sum_append, sum] at length
        have none : post = [] := by
          cases post with
          | nil => rfl
          | cons x post =>
              have := x.size_pos
              rw [List.map_cons, List.sum_cons] at length
              omega
        subst none
        exact ⟨_, _, [], call, looked.trans read2.looked, ⟨read2.windowOk, .inr ⟨rfl, rfl⟩⟩, rfl⟩
  · have stop : dirNext faults v false fs1 { dj1 with sect := 0 } = (.noFile, fs1, { dj1 with sect := 0 }) := by
      rw [dirNext, if_pos (.inr rfl)]
    have call : fReaddir oem faults v lfnbuf fs dj fno = (.ok, objectInfo oem none fno, fs1, { dj1 with sect := 0 }) := by
      simp [fReaddir, read, stop, getFileinfo_end]
    rw [listed]
    exact ⟨_, _, [], call, looked, ⟨looked.windowOk, .inr ⟨rfl, rfl⟩⟩, rfl⟩

/-- Calls one after the other. -/
theorem readdirs_shown (healthy : ∀ k, faults k = none) (oem : BitVec 16 → BitVec 16) (calls : List Readdir)
    (listing : Listing v site fs dj rest) :
    readdirs oem faults v calls fs dj =
      calls.mapIdx fun k c => (.ok, objectInfo oem (rest.filterMap Item.listed)[k]? c.fno) := by
  induction calls generalizing fs dj rest with
  | nil => rfl
  | cons c calls ih =>
      obtain ⟨fs1, dj1, rest1, call, -, listing1, tail⟩ := fReaddir_spec healthy oem c.lfnbuf c.fno listing
      rw [readdirs, call, List.mapIdx_cons, ← List.head?_eq_getElem?]
      simp only [ih listing1, tail, List.getElem?_tail]

/-- Listing a directory: the calls of `f_readdir` give the objects in the order of the table, each of them once and with
its long name, and nothing behind the last one. -/
theorem readdirs_list (healthy : ∀ k, faults k = none) (oem : BitVec 16 → BitVec 16) {items : List Item}
    (ok : fs.WindowOk v) (of : site.Of v fs.view dj.sclust) (directory : Directory items (site.table v fs.view)) :
    ∃ fs' dj', dirSdi faults v 0 fs dj = (.ok, fs', dj') ∧ ∀ calls : List Readdir,
      readdirs oem faults v calls fs' dj' =
        calls.mapIdx fun k c => (.ok, objectInfo oem (items.filterMap Item.listed)[k]? c.fno) := by
  have pos := of.count_pos
  cases hs : dirSdi faults v 0 fs dj with
  | mk res run =>
    obtain ⟨fs1, dj1⟩ := run
    obtain ⟨read, ⟨-, faulty⟩ | ⟨rfl, -, rfl⟩ | ⟨-, short⟩⟩ := dirSdi_spec ok of hs
    · exact absurd faulty (Faults.not_some healthy)
    · have table : site.table v fs1.view = site.table v fs.view := Site.table_congr of read.view
      have listing : Listing v site fs1 (dj.goto v site 0) items :=
        ⟨read.windowOk, .inl ⟨[], of.congr read.links, table ▸ directory, pos, rfl⟩⟩
      exact ⟨fs1, dj.goto v site 0, rfl, fun calls => readdirs_shown healthy oem calls listing⟩
    · rw [Site.count] at pos
      omega

/-- The code page has the characters of ASCII only. -/
def ascii (c : BitVec 16) : BitVec 16 := if c < 0x80 then c else 0

/-- A call with a buffer for a long name of that size. -/
def withRoom (lfsize : Nat) : Readdir := ⟨fun _ => 0, ⟨0, 0, 0, 0, [], [], lfsize⟩⟩

theorem readdirs_list_mixed :
    ∃ fs' dj', dirSdi (fun _ => none) tiny 0 (rootOf mixedRows) seekLong = (.ok, fs', dj') ∧
      (readdirs ascii (fun _ => none) tiny [withRoom 15, withRoom 15, withRoom 15, withRoom 15] fs' dj').map
          (fun r => (r.2.fname, r.2.lfname)) =
        [([0x41, 0x42, 0x43, 0x44, 0x45, 0x46, 0x7E, 0x31], (List.range 14).map fun k => BitVec.ofNat 8 (0x61 + k)),
          ([0x43, 0x41, 0x46, 0x5F], []), ([0x54, 0x57, 0x4F], []), ([], [])] ∧
      -- There is no room for the end of the first name.
      (readdirs ascii (fun _ => none) tiny [withRoom 14] fs' dj').map (fun r => r.2.lfname) = [[]] := by
  obtain ⟨fs', dj', start, calls⟩ := readdirs_list (fun _ => rfl) ascii (rootOf_windowOk _)
    (show Site.root.Of tiny _ seekLong.sclust from .root (by decide)) mixed_directory
  exact ⟨fs', dj', start, by rw [calls]; decide, by rw [calls]; decide⟩

end

/-! ## Long names stored and read -/

section
variable {wtoupper : BitVec 16 → BitVec 16} {name : LongName} {lfnbuf : Nat → BitVec 16} {n : Nat}

/-- The buffer matches the name that it holds, if the name does not fill it. -/
theorem Holds.longMatch (holds : Holds lfnbuf name.chars) (wtoupper : BitVec 16 → BitVec 16) :
    LongMatch wtoupper lfnbuf name ↔ name.chars.length < MAX_LFN := by
  refine ⟨LongMatch.short, fun short => ⟨short, holds.ends, fun k within => ?_⟩⟩
  rw [holds.eq_stored (Nat.le_of_lt within)]

/-- What `fit_lfn` stores of a name, `dir_find` finds by the name exactly if it does not fill the buffer, and `dir_read`
gives it back exactly if there is room for its end besides. -/
theorem fitParts_found (keeps : KeepsEnd wtoupper) (holds : Holds lfnbuf name.chars) (old : Nat → Entry)
    (sum : BitVec 8) (fn : Fn) (i : Nat) (s : Sequence) (buffer : Nat → BitVec 16) :
    (∃ s', scan (findLook wtoupper fn (some lfnbuf)) (fitParts lfnbuf old sum name.parts) i s =
        .miss (i + name.parts, s') ∧
      (s'.ord = 0 ∧ s'.sum = sum ∧ s'.lfnIdx = i ∧ name.chars.length < MAX_LFN ∨
        s'.ord = 0xFF ∧ name.chars.length = MAX_LFN)) ∧
    ∃ s' lfnbuf', scan readLook (fitParts lfnbuf old sum name.parts) i (s, buffer) =
        .miss (i + name.parts, s', lfnbuf') ∧
      (s'.ord = 0 ∧ s'.sum = sum ∧ s'.lfnIdx = i ∧ Holds lfnbuf' name.chars ∧ name.Fits ∨
        s'.ord = 0xFF ∧ ¬name.Fits) := by
  have parts := fitParts_parts holds old sum (Nat.le_refl name.parts)
  have short := name.short
  constructor
  · obtain ⟨s', run, ⟨ord, same, idx, whole⟩ | ⟨failed, other⟩⟩ := scan_parts fn lfnbuf (i := i) (s := s) keeps parts
    · exact ⟨s', run, .inl ⟨ord, same, idx, whole.short⟩⟩
    · rw [holds.longMatch] at other
      exact ⟨s', run, .inr ⟨failed, by omega⟩⟩
  · obtain ⟨s', lfnbuf', run, ⟨fits, ord, same, idx, whole⟩ | ⟨long, failed⟩⟩ :=
      read_parts buffer (i := i) (s := s) parts
    · exact ⟨s', lfnbuf', run, .inl ⟨ord, same, idx, whole.holds, fits⟩⟩
    · exact ⟨s', lfnbuf', run, .inr ⟨failed, long⟩⟩

/-- A name of one letter again and again. -/
def letters (n : Nat) (some : 0 < n) (short : n ≤ MAX_LFN) : LongName where
  chars := List.replicate n 0x61
  nonempty := List.ne_nil_of_length_pos (by rwa [List.length_replicate])
  short := by rwa [List.length_replicate]
  proper c mem := by
    rw [List.eq_of_mem_replicate mem]
    decide

def lettersBuf (n k : Nat) : BitVec 16 := if k < n then 0x61 else 0

theorem letters_holds {n : Nat} (some : 0 < n) (short : n ≤ MAX_LFN) : Holds (lettersBuf n) (letters n some short).chars where
  same k inside := by
    have less : k < n := by simpa [letters] using inside
    simp only [lettersBuf, if_pos less, letters, List.getElem_replicate]
  ends := by
    simp only [letters, List.length_replicate, lettersBuf, Nat.lt_irrefl, if_false]

theorem fitParts_found_letters :
    let s : Sequence := ⟨0xFF, 0xFF, 0⟩
    let find := fun n => scan (findLook id ⟨fun _ => 0, NS_LOSS⟩ (some (lettersBuf n)))
      (fitParts (lettersBuf n) (fun _ _ => 0) 7 20) 3 s
    let read := fun n => scan readLook (fitParts (lettersBuf n) (fun _ _ => 0) 7 20) 3 (s, fun _ => 0)
    (∃ s' lfnbuf', read 253 = .miss (23, s', lfnbuf') ∧ s'.ord = 0 ∧ Holds lfnbuf' (List.replicate 253 0x61)) ∧
      (∃ s' lfnbuf', read 254 = .miss (23, s', lfnbuf') ∧ s'.ord = 0xFF) ∧
      (∃ s', find 254 = .miss (23, s') ∧ s'.ord = 0) ∧ ∃ s', find 255 = .miss (23, s') ∧ s'.ord = 0xFF := by
  intro s find read
  have keeps : KeepsEnd id := fun _ => Iff.rfl
  have length : ∀ {n} (some : 0 < n) (short : n ≤ MAX_LFN), (letters n some short).chars.length = n := fun _ _ =>
    List.length_replicate
  have parts : ∀ {n} (some : 0 < n) (short : n ≤ MAX_LFN), 253 ≤ n → (letters n some short).parts = 20 :=
    fun some short low => by
      rw [LongName.parts, length]
      have : MAX_LFN = 255 := rfl
      omega
  have stored : ∀ n (some : 0 < n) (short : n ≤ MAX_LFN), 253 ≤ n →
      (∃ s', find n = .miss (23, s') ∧ (s'.ord = 0 ∧ n < MAX_LFN ∨ s'.ord = 0xFF ∧ n = MAX_LFN)) ∧
      ∃ s' lfnbuf', read n = .miss (23, s', lfnbuf') ∧
        (s'.ord = 0 ∧ Holds lfnbuf' (List.replicate n 0x61) ∧ n + 1 < MAX_LFN ∨ s'.ord = 0xFF ∧ ¬n + 1 < MAX_LFN) := by
    intro n some short low
    obtain ⟨⟨s1, find1, which1⟩, s2, lfnbuf', read2, which2⟩ := fitParts_found keeps (letters_holds some short)
      (fun _ _ => 0) 7 ⟨fun _ => 0, NS_LOSS⟩ 3 s (fun _ => 0)
    rw [parts some short low] at find1 read2
    rw [length] at which1
    rw [LongName.Fits, length] at which2
    refine ⟨⟨s1, find1, ?_⟩, s2, lfnbuf', read2, ?_⟩
    · exact which1.imp_left fun found => ⟨found.1, found.2.2.2⟩
    · exact which2.imp_left fun given => ⟨given.1, given.2.2.2.1, given.2.2.2.2⟩
  have most : MAX_LFN = 255 := rfl
  refine ⟨?_, ?_, ?_, ?_⟩
  · obtain ⟨-, s', lfnbuf', run, ⟨ord, same, -⟩ | ⟨-, long⟩⟩ := stored 253 (by decide) (by decide) (by decide)
    · exact ⟨s', lfnbuf', run, ord, same⟩
    · omega
  · obtain ⟨-, s', lfnbuf', run, ⟨-, -, fits⟩ | ⟨ord, -⟩⟩ := stored 254 (by decide) (by decide) (by decide)
    · omega
    · exact ⟨s', lfnbuf', run, ord⟩
  · obtain ⟨⟨s', run, ⟨ord, -⟩ | ⟨-, full⟩⟩, -⟩ := stored 254 (by decide) (by decide) (by decide)
    · exact ⟨s', run, ord⟩
    · omega
  · obtain ⟨⟨s', run, ⟨-, short⟩ | ⟨ord, -⟩⟩, -⟩ := stored 255 (by decide) (by decide) (by decide)
    · omega
    · exact ⟨s', run, ord⟩

end

end Cineraria.Fat
