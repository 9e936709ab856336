import Mathlib.Data.List.Chain
import Cineraria.Fat.DirWalk

/-!
# Looking an object up

The entries of a directory are those of its items: objects with and without a long name, blank entries, labels, and the
long names that deleting an object by its short name leaves behind. `dir_find` finds the first object that has the
name.
-/

namespace Cineraria.Fat

open Tiling

/-! ## Items -/

/-- What lies in a directory. -/
inductive Item where
  | blank
  | deleted
  | volume
  | ghost (name : LongName) (sum : BitVec 8)
  | object (name : Option LongName) (dir : Entry)

/-- The parts of a name from `n` down to the first one. -/
def Parts (name : LongName) (sum : BitVec 8) : Nat → List Entry → Prop
  | 0, [] => True
  | n + 1, dir :: es => IsPart name sum (n + 1) dir ∧ Parts name sum n es
  | _, _ => False

/-- An SFN entry of an object. -/
structure IsSfn (dir : Entry) : Prop where
  used : dir (eofs DIR_Name) ≠ 0
  data : ¬NoData dir
  attr : dir (eofs DIR_Attr) &&& AM_MASK ≠ AM_LFN

/-- The entries of an item. -/
def Item.Is : Item → List Entry → Prop
  | .blank, es => ∃ dir, es = [dir] ∧ dir (eofs DIR_Name) = 0
  | .deleted, es => ∃ dir, es = [dir] ∧ dir (eofs DIR_Name) = DDE
  | .volume, es => ∃ dir, es = [dir] ∧ dir (eofs DIR_Name) ≠ 0 ∧ dir (eofs DIR_Name) ≠ DDE ∧ NoData dir
  | .ghost name sum, es => Parts name sum name.parts es
  | .object none dir, es => es = [dir] ∧ IsSfn dir
  | .object (some name) dir, es => ∃ parts, es = parts ++ [dir] ∧ Parts name (sumSfn dir) name.parts parts ∧ IsSfn dir

def Item.size : Item → Nat
  | .blank | .deleted | .volume => 1
  | .ghost name _ => name.parts
  | .object name _ => (name.elim 0 LongName.parts) + 1

/-- Behind the end of the table there is nothing, and behind a long name that is left no object that it fits. -/
def Follows : Item → Item → Prop
  | .blank, .blank => True
  | .blank, _ => False
  | .ghost _ sum, .object none dir => sumSfn dir ≠ sum
  | _, _ => True

/-- The entries are those of the items. -/
structure Directory (items : List Item) (es : List Entry) : Prop where
  tiles : Tiles Item.Is items es
  proper : items.IsChain Follows

/-! ## Names -/

/-- The long name is that of the buffer but for the case of its characters. One that fills the buffer never is. -/
structure LongMatch (wtoupper : BitVec 16 → BitVec 16) (lfnbuf : Nat → BitVec 16) (name : LongName) : Prop where
  short : name.chars.length < MAX_LFN
  ends : lfnbuf name.chars.length = 0
  chars : ∀ k < name.chars.length, wtoupper (name.stored k) = wtoupper (lfnbuf k)

def Item.LongMatches (wtoupper : BitVec 16 → BitVec 16) (lfn : Option (Nat → BitVec 16)) : Item → Prop
  | .object (some name) _ => ∃ lfnbuf, lfn = some lfnbuf ∧ LongMatch wtoupper lfnbuf name
  | _ => False

def Item.ShortMatches (fn : Fn) : Item → Prop
  | .object _ dir => fn.ns &&& NS_LOSS = 0 ∧ SameName dir fn.name
  | _ => False

def Item.Matches (wtoupper : BitVec 16 → BitVec 16) (fn : Fn) (lfn : Option (Nat → BitVec 16)) (item : Item) : Prop :=
  item.LongMatches wtoupper lfn ∨ item.ShortMatches fn

/-- The state of a search between two items: a sequence that is complete is that of a long name that is left. -/
def Ready (lfn : Option (Nat → BitVec 16)) (before : Option Item) (s : Sequence) : Prop :=
  s.ord = 0 → lfn ≠ none ∧ ∃ name, before = some (.ghost name s.sum)

section
variable {name : LongName} {sum : BitVec 8} {n i : Nat} {dir : Entry} {es : List Entry} {item : Item}

theorem Parts.length (parts : Parts name sum n es) : es.length = n := by
  induction n generalizing es with
  | zero =>
      cases es with
      | nil => rfl
      | cons dir es => exact parts.elim
  | succ n ih =>
      cases es with
      | nil => exact parts.elim
      | cons dir es => rw [List.length_cons, ih parts.2]

theorem Item.Is.length (is : item.Is es) : es.length = item.size := by
  cases item with
  | blank | deleted | volume =>
      obtain ⟨dir, rfl, -⟩ := is
      rfl
  | ghost name sum => exact Parts.length is
  | object name dir =>
      cases name with
      | none =>
          obtain ⟨rfl, -⟩ := is
          rfl
      | some name =>
          obtain ⟨parts, rfl, is, -⟩ := is
          rw [List.length_append, is.length]
          rfl

theorem Item.size_pos (item : Item) : 0 < item.size := by
  cases item with
  | ghost name sum =>
      have := name.parts_bounds.2.1
      have := name.length_pos
      simp only [Item.size]
      omega
  | blank | deleted | volume => exact Nat.one_pos
  | object name dir => exact Nat.succ_pos _

theorem Directory.length {items : List Item} (tiles : Tiles Item.Is items es) :
    es.length = (items.map Item.size).sum := by
  induction tiles with
  | nil => rfl
  | cons first _ ih => rw [List.length_append, first.length, ih, List.map_cons, List.sum_cons]

/-! ## LFN entries -/

/-- What the loops see of a part. -/
theorem IsPart.seen (part : IsPart name sum n dir) (first : 1 ≤ n) (last : n ≤ name.parts) :
    dir (eofs DIR_Name) ≠ 0 ∧ ¬NoData dir ∧ dir (eofs DIR_Attr) &&& AM_MASK = AM_LFN := by
  have most := name.parts_bounds.2.2
  have valid := ord_valid n (by omega) first _ part.ord_mem
  have attr : dir (eofs DIR_Attr) &&& AM_MASK = AM_LFN := by
    rw [show DIR_Attr = LDIR_Attr from rfl, part.attr]
    decide
  refine ⟨valid.1, ?_, attr⟩
  rintro (deleted | ⟨-, other⟩)
  · exact valid.2 deleted
  · exact other attr

/-- The last part of a name begins a sequence. -/
theorem IsPart.enter_last (part : IsPart name sum name.parts dir) (s : Sequence) :
    s.enter i dir = (⟨BitVec.ofNat 8 name.parts, sum, i⟩, BitVec.ofNat 8 name.parts) := by
  obtain ⟨-, -, most⟩ := name.parts_bounds
  have pos := name.length_pos
  have above := name.parts_bounds.2.1
  have number := ord_number name.parts (by omega) (by omega) _ part.ord_mem
  rw [Sequence.enter, if_pos ((part.last_iff (Nat.le_refl _)).mpr rfl), number, part.sum]

theorem IsPart.enter_next (part : IsPart name sum n dir) (last : n < name.parts) (s : Sequence) :
    s.enter i dir = (s, BitVec.ofNat 8 n) := by
  have number : dir (eofs LDIR_Ord) = BitVec.ofNat 8 n := by rw [part.ord, if_neg (Nat.ne_of_lt last)]
  rw [Sequence.enter, if_neg fun mark => Nat.ne_of_lt last ((part.last_iff (Nat.le_of_lt last)).mp mark), number]

/-- Numbers of parts are told from each other and from the mark of a sequence that has failed. -/
theorem ord_small : ∀ n < 21, BitVec.ofNat 8 n ≠ 0xFF ∧ BitVec.ofNat 8 (n + 1) - 1 = BitVec.ofNat 8 n ∧
    (BitVec.ofNat 8 n = 0 ↔ n = 0) := by
  decide

end

section
variable {wtoupper : BitVec 16 → BitVec 16} {fn : Fn} {lfn : Option (Nat → BitVec 16)} {lfnbuf : Nat → BitVec 16}
variable {name : LongName} {sum : BitVec 8} {n i : Nat} {dir : Entry} {es : List Entry} {s : Sequence} {item : Item}

/-- Without a long name to compare with the parts are passed. -/
theorem scan_parts_none (parts : Parts name sum n es) (last : n ≤ name.parts) :
    scan (findLook wtoupper fn none) es i s = .miss (i + n, s) := by
  induction n generalizing es i with
  | zero =>
      cases es with
      | nil => rfl
      | cons dir es => exact parts.elim
  | succ n ih =>
      cases es with
      | nil => exact parts.elim
      | cons dir es =>
          obtain ⟨used, data, attr⟩ := parts.1.seen (Nat.succ_pos n) last
          have look : findLook wtoupper fn none i dir s = .miss s := by
            rw [findLook, if_neg used, if_neg data, if_pos attr]
          exact scan_cons_pass look (ih parts.2 (by omega))

/-- The characters of the first `n` parts are those of the buffer. -/
def Agrees (wtoupper : BitVec 16 → BitVec 16) (lfnbuf : Nat → BitVec 16) (name : LongName) (n : Nat) : Prop :=
  ∀ k < name.chars.length, k < 13 * n → wtoupper (name.stored k) = wtoupper (lfnbuf k)

/-- The parts that follow the last one of a name. -/
theorem scan_parts_next (fn : Fn) (lfnbuf : Nat → BitVec 16) (keeps : KeepsEnd wtoupper)
    (parts : Parts name sum n es) (last : n < name.parts)
    (state : s.ord = BitVec.ofNat 8 n ∧ s.sum = sum ∨ s.ord = 0xFF) :
    ∃ s', scan (findLook wtoupper fn (some lfnbuf)) es i s = .miss (i + n, s') ∧
      (s'.ord = 0 ∧ s'.sum = sum ∧ s'.lfnIdx = s.lfnIdx ∧ s.ord ≠ 0xFF ∧ Agrees wtoupper lfnbuf name n ∨
        s'.ord = 0xFF ∧ (s.ord = 0xFF ∨ ¬Agrees wtoupper lfnbuf name n)) := by
  have most := name.parts_bounds.2.2
  induction n generalizing es i s with
  | zero =>
      cases es with
      | cons dir es => exact parts.elim
      | nil =>
          refine ⟨s, rfl, ?_⟩
          rcases state with ⟨ord, same⟩ | failed
          · exact .inl ⟨ord, same, rfl, by rw [ord]; decide, fun k _ none => by omega⟩
          · exact .inr ⟨failed, .inl failed⟩
  | succ n ih =>
      cases es with
      | nil => exact parts.elim
      | cons dir es =>
          obtain ⟨part, parts⟩ := parts
          obtain ⟨used, data, attr⟩ := part.seen (Nat.succ_pos n) (by omega)
          obtain ⟨small, minus, -⟩ := ord_small n (by omega)
          have small' := (ord_small (n + 1) (by omega)).1
          have compared := cmpLfn_iff keeps lfnbuf part (Nat.succ_pos n) (by omega)
          have look : findLook wtoupper fn (some lfnbuf) i dir s = .miss { s with
              ord := if BitVec.ofNat 8 (n + 1) = s.ord ∧ s.sum = sum ∧ cmpLfn wtoupper lfnbuf dir then s.ord - 1
                else 0xFF } := by
            simp only [findLook, if_neg used, if_neg data, if_pos attr, part.enter_next last, part.sum]
          by_cases continues : BitVec.ofNat 8 (n + 1) = s.ord ∧ s.sum = sum ∧ cmpLfn wtoupper lfnbuf dir
          · rw [if_pos continues, ← continues.1, minus] at look
            obtain ⟨s', run, result⟩ := ih (i := i + 1) (s := { s with ord := BitVec.ofNat 8 n }) parts (by omega)
              (.inl ⟨rfl, continues.2.1⟩)
            have here := (compared.mp continues.2.2).1
            have agrees : Agrees wtoupper lfnbuf name (n + 1) ↔ Agrees wtoupper lfnbuf name n := by
              constructor
              · intro all k within below
                exact all k within (by omega)
              · intro all k within below
                by_cases early : k < 13 * n
                · exact all k within early
                · exact here k within (by omega) (by omega)
            refine ⟨s', scan_cons_pass look run, ?_⟩
            rw [agrees, ← continues.1]
            rcases result with ⟨ord, same, idx, -, all⟩ | ⟨failed, why⟩
            · exact .inl ⟨ord, same, idx, small', all⟩
            · exact .inr ⟨failed, .inr (why.resolve_left small)⟩
          · rw [if_neg continues] at look
            obtain ⟨s', run, result⟩ := ih (i := i + 1) (s := { s with ord := 0xFF }) parts (by omega) (.inr rfl)
            refine ⟨s', scan_cons_pass look run, .inr ⟨?_, ?_⟩⟩
            · rcases result with ⟨-, -, -, ne, -⟩ | ⟨failed, -⟩
              · exact absurd rfl ne
              · exact failed
            · rcases state with ⟨ord, same⟩ | failed
              · refine .inr fun all => continues ⟨ord.symm, same, compared.mpr ⟨?_, fun top => by omega⟩⟩
                intro k within low high
                exact all k within high
              · exact .inl failed

/-- All parts of a name: the sequence is complete exactly if the name is that of the buffer. -/
theorem scan_parts (fn : Fn) (lfnbuf : Nat → BitVec 16) (keeps : KeepsEnd wtoupper)
    (parts : Parts name sum name.parts es) :
    ∃ s', scan (findLook wtoupper fn (some lfnbuf)) es i s = .miss (i + name.parts, s') ∧
      (s'.ord = 0 ∧ s'.sum = sum ∧ s'.lfnIdx = i ∧ LongMatch wtoupper lfnbuf name ∨
        s'.ord = 0xFF ∧ ¬LongMatch wtoupper lfnbuf name) := by
  obtain ⟨below, above, most⟩ := name.parts_bounds
  have pos := name.length_pos
  obtain ⟨n, count⟩ : ∃ n, name.parts = n + 1 := ⟨name.parts - 1, by omega⟩
  cases es with
  | nil =>
      rw [count] at parts
      exact parts.elim
  | cons dir es =>
      have first : IsPart name sum name.parts dir ∧ Parts name sum n es := by
        rw [count] at parts ⊢
        exact parts
      obtain ⟨part, parts⟩ := first
      obtain ⟨used, data, attr⟩ := part.seen (by omega) (Nat.le_refl _)
      obtain ⟨small, minus, -⟩ := ord_small n (by omega)
      have compared := cmpLfn_iff keeps lfnbuf part (by omega) (Nat.le_refl _)
      have look : findLook wtoupper fn (some lfnbuf) i dir s =
          .miss ⟨if cmpLfn wtoupper lfnbuf dir then BitVec.ofNat 8 n else 0xFF, sum, i⟩ := by
        simp only [findLook, if_neg used, if_neg data, if_pos attr, part.enter_last, part.sum, true_and, count, minus]
      by_cases same : cmpLfn wtoupper lfnbuf dir = true
      · rw [if_pos same] at look
        obtain ⟨s', run, result⟩ := scan_parts_next fn lfnbuf (i := i + 1)
          (s := ⟨BitVec.ofNat 8 n, sum, i⟩) keeps parts (by omega) (.inl ⟨rfl, rfl⟩)
        obtain ⟨here, ends⟩ := compared.mp same
        obtain ⟨short, zero⟩ := ends rfl
        have whole : LongMatch wtoupper lfnbuf name ↔ Agrees wtoupper lfnbuf name n := by
          constructor
          · intro all k within _
            exact all.chars k within
          · intro all
            refine ⟨short, zero, fun k within => ?_⟩
            by_cases early : k < 13 * n
            · exact all k within early
            · exact here k within (by omega) (by omega)
        refine ⟨s', by rw [count]; exact scan_cons_pass look run, ?_⟩
        rw [whole]
        rcases result with ⟨ord, same, idx, -, all⟩ | ⟨failed, why⟩
        · exact .inl ⟨ord, same, idx, all⟩
        · exact .inr ⟨failed, why.resolve_left small⟩
      · rw [if_neg same] at look
        obtain ⟨s', run, result⟩ := scan_parts_next fn lfnbuf (i := i + 1)
          (s := ⟨0xFF, sum, i⟩) keeps parts (by omega) (.inr rfl)
        refine ⟨s', by rw [count]; exact scan_cons_pass look run,
          .inr ⟨?_, fun all => ?_⟩⟩
        · rcases result with ⟨-, -, -, ne, -⟩ | ⟨failed, -⟩
          · exact absurd rfl ne
          · exact failed
        · exact same (compared.mpr ⟨fun k within _ _ => all.chars k within, fun _ => ⟨all.short, all.ends⟩⟩)

/-! ## Items passed and found -/

theorem findLook_sfn (wtoupper : BitVec 16 → BitVec 16) (fn : Fn) (lfn : Option (Nat → BitVec 16)) (sfn : IsSfn dir) :
    findLook wtoupper fn lfn i dir s =
    if s.ord = 0 ∧ s.sum = sumSfn dir then .hit s
    else if fn.ns &&& NS_LOSS = 0 ∧ SameName dir fn.name then .hit { s with ord := 0xFF, lfnIdx := 0xFFFF }
    else .miss { s with ord := 0xFF, lfnIdx := 0xFFFF } := by
  unfold findLook
  rw [if_neg sfn.used, if_neg sfn.data, if_neg sfn.attr]

theorem findLook_noData (wtoupper : BitVec 16 → BitVec 16) (fn : Fn) (lfn : Option (Nat → BitVec 16))
    (used : dir (eofs DIR_Name) ≠ 0) (data : NoData dir) :
    findLook wtoupper fn lfn i dir s = .miss { s with ord := 0xFF } := by
  unfold findLook
  rw [if_neg used, if_pos data]

theorem ready_failed {before : Option Item} (failed : s.ord = 0xFF) : Ready lfn before s := by
  intro zero
  rw [failed] at zero
  exact absurd zero (by decide)

/-- The LFN entries of an object. -/
theorem scan_long (fn : Fn) (keeps : KeepsEnd wtoupper) {before : Option Item} (ready : Ready lfn before s)
    (parts : Parts name sum name.parts es) :
    ∃ s', scan (findLook wtoupper fn lfn) es i s = .miss (i + name.parts, s') ∧
      ((∃ lfnbuf, lfn = some lfnbuf ∧ LongMatch wtoupper lfnbuf name) ∧ s'.ord = 0 ∧ s'.sum = sum ∧ s'.lfnIdx = i ∨
        (¬∃ lfnbuf, lfn = some lfnbuf ∧ LongMatch wtoupper lfnbuf name) ∧ s'.ord ≠ 0) := by
  cases lfn with
  | none =>
      refine ⟨s, scan_parts_none parts (Nat.le_refl _), .inr ⟨by simp, fun zero => ?_⟩⟩
      exact (ready zero).1 rfl
  | some lfnbuf =>
      obtain ⟨s', run, ⟨ord, same, idx, whole⟩ | ⟨failed, other⟩⟩ :=
        scan_parts fn lfnbuf (i := i) (s := s) keeps parts
      · exact ⟨s', run, .inl ⟨⟨lfnbuf, rfl, whole⟩, ord, same, idx⟩⟩
      · refine ⟨s', run, .inr ⟨?_, by rw [failed]; decide⟩⟩
        rintro ⟨buf, eq, whole⟩
        cases eq
        exact other whole

/-- An item that has another name. -/
theorem scan_item_pass (keeps : KeepsEnd wtoupper) (is : item.Is es) (live : item ≠ .blank)
    (other : ¬item.Matches wtoupper fn lfn) {before : Option Item} (ready : Ready lfn before s)
    (follows : ∀ b, before = some b → Follows b item) :
    ∃ s', scan (findLook wtoupper fn lfn) es i s = .miss (i + item.size, s') ∧ Ready lfn (some item) s' := by
  cases item with
  | blank => exact absurd rfl live
  | deleted =>
      obtain ⟨dir, rfl, mark⟩ := is
      have look := findLook_noData wtoupper fn lfn (i := i) (s := s)
        (by rw [mark]; decide) (.inl mark)
      exact ⟨_, by rw [scan_cons_miss look]; rfl, ready_failed rfl⟩
  | volume =>
      obtain ⟨dir, rfl, used, -, data⟩ := is
      have look := findLook_noData wtoupper fn lfn (i := i) (s := s) used data
      exact ⟨_, by rw [scan_cons_miss look]; rfl, ready_failed rfl⟩
  | ghost name sum =>
      obtain ⟨s', run, ⟨-, ord, same, -⟩ | ⟨-, failed⟩⟩ := scan_long fn (i := i) keeps ready is
      · refine ⟨s', run, fun _ => ⟨?_, name, by rw [same]⟩⟩
        rintro rfl
        rw [scan_parts_none is (Nat.le_refl _)] at run
        cases run
        exact (ready ord).1 rfl
      · exact ⟨s', run, fun zero => absurd zero failed⟩
  | object long dir =>
      have short : ¬(fn.ns &&& NS_LOSS = 0 ∧ SameName dir fn.name) := fun short => other (.inr short)
      cases long with
      | none =>
          obtain ⟨rfl, sfn⟩ := is
          have away : ¬(s.ord = 0 ∧ s.sum = sumSfn dir) := by
            rintro ⟨zero, same⟩
            obtain ⟨-, name, left⟩ := ready zero
            exact follows _ left same.symm
          have look := findLook_sfn wtoupper fn lfn (i := i) (s := s) sfn
          rw [if_neg away, if_neg short] at look
          exact ⟨_, by rw [scan_cons_miss look]; rfl, ready_failed rfl⟩
      | some name =>
          obtain ⟨parts, rfl, is, sfn⟩ := is
          obtain ⟨s', run, ⟨whole, -⟩ | ⟨-, failed⟩⟩ := scan_long fn (i := i) keeps ready is
          · exact absurd (.inl whole) other
          · have look := findLook_sfn wtoupper fn lfn (i := i + name.parts) (s := s') sfn
            rw [if_neg fun hit => failed hit.1, if_neg short] at look
            exact ⟨_, by rw [scan_miss_append run, scan_cons_miss look]; rfl, ready_failed rfl⟩

/-- The item that is looked for. -/
theorem scan_item_hit (keeps : KeepsEnd wtoupper) (is : item.Is es) (found : item.Matches wtoupper fn lfn)
    {before : Option Item} (ready : Ready lfn before s) (follows : ∀ b, before = some b → Follows b item) :
    ∃ s', scan (findLook wtoupper fn lfn) es i s = .hit (i + item.size - 1, s') ∧
      (item.LongMatches wtoupper lfn ∧ s'.lfnIdx = i ∨ ¬item.LongMatches wtoupper lfn ∧ s'.lfnIdx = 0xFFFF) := by
  cases item with
  | blank | deleted | volume | ghost name sum => exact absurd found (not_or.mpr ⟨id, id⟩)
  | object long dir =>
      cases long with
      | none =>
          obtain ⟨rfl, sfn⟩ := is
          have short : fn.ns &&& NS_LOSS = 0 ∧ SameName dir fn.name := found.resolve_left id
          have away : ¬(s.ord = 0 ∧ s.sum = sumSfn dir) := by
            rintro ⟨zero, same⟩
            obtain ⟨-, name, left⟩ := ready zero
            exact follows _ left same.symm
          have look := findLook_sfn wtoupper fn lfn (i := i) (s := s) sfn
          rw [if_neg away, if_pos short] at look
          exact ⟨_, by rw [scan, look]; rfl, .inr ⟨id, rfl⟩⟩
      | some name =>
          obtain ⟨parts, rfl, is, sfn⟩ := is
          obtain ⟨s', run, ⟨whole, ord, same, idx⟩ | ⟨not, failed⟩⟩ := scan_long fn (i := i) keeps ready is
          · have look := findLook_sfn wtoupper fn lfn (i := i + name.parts) (s := s') sfn
            rw [if_pos ⟨ord, same⟩] at look
            exact ⟨s', by rw [scan_miss_append run, scan, look]; rfl, .inl ⟨whole, idx⟩⟩
          · have look := findLook_sfn wtoupper fn lfn (i := i + name.parts) (s := s') sfn
            have short : fn.ns &&& NS_LOSS = 0 ∧ SameName dir fn.name := found.resolve_left not
            rw [if_neg fun hit => failed hit.1, if_pos short] at look
            exact ⟨_, by rw [scan_miss_append run, scan, look]; rfl, .inr ⟨not, rfl⟩⟩

/-! ## `dir_find` -/

/-- Behind the end of the table there is nothing. -/
theorem ne_blank {pre post : List Item} (proper : (pre ++ item :: post).IsChain Follows) (live : item ≠ .blank) :
    ∀ x ∈ pre, x ≠ .blank := by
  induction pre with
  | nil => exact fun x mem => absurd mem List.not_mem_nil
  | cons x pre ih =>
      have rest := ih (proper.tail)
      refine List.forall_mem_cons.mpr ⟨?_, rest⟩
      rintro rfl
      cases pre with
      | nil =>
          have next := (List.isChain_cons_cons.mp proper).1
          cases item <;> first | exact live rfl | exact next
      | cons y pre =>
          have next := (List.isChain_cons_cons.mp proper).1
          have ne := rest y (List.mem_cons_self ..)
          cases y <;> first | exact ne rfl | exact next

/-- The last one of items that follow `before`. -/
theorem getLast_cons_or (x : Item) (items : List Item) (before : Option Item) :
    (x :: items).getLast?.or before = items.getLast?.or (some x) := by
  rw [List.getLast?_cons]
  cases items.getLast? <;> rfl

/-- Items that have other names. -/
theorem scan_items_pass (fn : Fn) (keeps : KeepsEnd wtoupper) {items : List Item} (tiles : Tiles Item.Is items es)
    (proper : items.IsChain Follows) {before : Option Item} (ready : Ready lfn before s)
    (joint : ∀ b, before = some b → ∀ x, items.head? = some x → Follows b x)
    (others : ∀ x ∈ items, x ≠ .blank ∧ ¬x.Matches wtoupper fn lfn) :
    ∃ s', scan (findLook wtoupper fn lfn) es i s = .miss (i + (items.map Item.size).sum, s') ∧
      Ready lfn (items.getLast?.or before) s' := by
  induction tiles generalizing before i s with
  | nil => exact ⟨s, rfl, ready⟩
  | @cons x items front rear first rest ih =>
      obtain ⟨here, others⟩ := List.forall_mem_cons.mp others
      obtain ⟨s1, run, ready1⟩ := scan_item_pass (i := i) keeps first here.1 here.2 ready
        fun b is => joint b is x rfl
      obtain ⟨joints, proper⟩ := List.isChain_cons.mp proper
      obtain ⟨s2, run2, ready2⟩ := ih (i := i + x.size) proper ready1
        (fun b is y head => by cases is; exact joints y head) others
      refine ⟨s2, ?_, ?_⟩
      · rw [scan_miss_append run, run2, List.map_cons, List.sum_cons, Nat.add_assoc]
      · rwa [getLast_cons_or]

/-- A search of a directory stops at the first item that has the name, and nowhere if there is none. -/
theorem scan_directory (fn : Fn) (lfn : Option (Nat → BitVec 16)) (keeps : KeepsEnd wtoupper) {items : List Item}
    (directory : Directory items es) (idx : Nat) :
    (∃ pre item post s', items = pre ++ item :: post ∧ (∀ x ∈ pre, ¬x.Matches wtoupper fn lfn) ∧
      item.Matches wtoupper fn lfn ∧
      scan (findLook wtoupper fn lfn) es 0 ⟨0xFF, 0xFF, idx⟩ = .hit ((pre.map Item.size).sum + item.size - 1, s') ∧
      (item.LongMatches wtoupper lfn ∧ s'.lfnIdx = (pre.map Item.size).sum ∨
        ¬item.LongMatches wtoupper lfn ∧ s'.lfnIdx = 0xFFFF)) ∨
    (∀ x ∈ items, ¬x.Matches wtoupper fn lfn) ∧
      ∀ j s', scan (findLook wtoupper fn lfn) es 0 ⟨0xFF, 0xFF, idx⟩ ≠ .hit (j, s') := by
  have ready : Ready lfn none (⟨0xFF, 0xFF, idx⟩ : Sequence) := ready_failed rfl
  obtain ⟨tiles, proper⟩ := directory
  rcases first_or_none (Item.Matches wtoupper fn lfn) items with ⟨pre, item, post, rfl, found, others⟩ | none
  · left
    have live : item ≠ .blank := by
      rintro rfl
      exact found.elim id id
    obtain ⟨front, rear, rfl, before, behind⟩ := tiles.split
    obtain ⟨mid, rest, rfl, is, -⟩ := behind.uncons
    obtain ⟨chain, -, joint⟩ := List.isChain_append.mp proper
    have passed := ne_blank proper live
    obtain ⟨s1, run, ready1⟩ := scan_items_pass fn (i := 0) keeps before chain ready (fun b is => by cases is)
      fun x mem => ⟨passed x mem, others x mem⟩
    rw [Option.or_none] at ready1
    obtain ⟨s2, hit, idx⟩ := scan_item_hit (i := 0 + (pre.map Item.size).sum) keeps is found ready1
      fun b last => joint b last item rfl
    rw [Nat.zero_add] at hit idx
    refine ⟨pre, item, post, s2, rfl, others, found, ?_, idx⟩
    rw [scan_miss_append run, Nat.zero_add, scan_hit_append hit]
  · right
    refine ⟨none, fun j s' hit => ?_⟩
    rcases first_or_none (· = Item.blank) items with ⟨pre, item, post, rfl, rfl, live⟩ | live
    · obtain ⟨front, rear, rfl, before, behind⟩ := tiles.split
      obtain ⟨mid, rest, rfl, ⟨dir, rfl, zero⟩, -⟩ := behind.uncons
      obtain ⟨chain, -, -⟩ := List.isChain_append.mp proper
      obtain ⟨s1, run, -⟩ := scan_items_pass fn (i := 0) keeps before chain ready (fun b is => by cases is)
        fun x mem => ⟨live x mem, none x (List.mem_append_left _ mem)⟩
      have stop : findLook wtoupper fn lfn (0 + (pre.map Item.size).sum) dir s1 = .ended := by
        unfold findLook
        rw [if_pos zero]
      rw [scan_miss_append run, List.singleton_append, scan, stop] at hit
      cases hit
    · obtain ⟨s1, run, -⟩ := scan_items_pass fn (i := 0) keeps tiles proper ready (fun b is => by cases is)
        fun x mem => ⟨live x mem, none x mem⟩
      rw [run] at hit
      cases hit

/-- A table has an entry. -/
theorem Site.Of.count_pos {v : Volume} {view : Nat → Sector} {site : Site} {sclust : Nat} (of : site.Of v view sclust) :
    0 < site.count v := by
  have entries : 0 < site.entries v := by
    cases of with
    | root static => exact Nat.pos_of_ne_zero (mt v.nRootdir_iff.mpr static)
    | chain => exact Nat.mul_pos (Nat.succ_pos _) (Nat.mul_pos (by decide) v.csize_pos)
  rw [Site.count]
  omega

/-- `dir_find` is a scan of the table. -/
theorem dirFind_spec {faults : Faults} {v : Volume} {site : Site} {fs fs' : Fatfs} {dj dj' : Dir} {res : FResult}
    (ok : fs.WindowOk v) (of : site.Of v fs.view dj.sclust) (h : dirFind faults v wtoupper fs dj = (res, fs', dj')) :
    Looked v site fs fs' ∧ (res = .diskErr ∧ faults.Some ∨
      Outcome v site (fun s => { dj with lfnIdx := s.lfnIdx })
        (scan (findLook wtoupper dj.fn dj.lfn) (site.table v fs.view) 0 ⟨0xFF, 0xFF, dj.lfnIdx⟩) res fs' dj') := by
  have pos := of.count_pos
  cases hs : dirSdi faults v 0 fs dj with
  | mk res1 rest =>
    obtain ⟨fs1, dj1⟩ := rest
    rw [dirFind, hs] at h
    obtain ⟨read, ⟨rfl, faulty⟩ | ⟨rfl, -, rfl⟩ | ⟨rfl, short⟩⟩ := dirSdi_spec ok of hs
    · cases h
      exact ⟨read.looked, .inl ⟨rfl, faulty⟩⟩
    · have same : site.table v fs1.view = site.table v fs.view := Site.table_congr of read.view
      have enough : site.count v ≤ 0 + 65536 := by
        rw [Site.count]
        omega
      obtain ⟨looked, result⟩ := scanLoop_spec h (fun _ _ _ => rfl) (fun _ _ => rfl) (fun _ _ _ => rfl) read.windowOk
        (of.congr read.links) pos enough
      rw [same, List.drop_zero] at result
      have start : (dj.goto v site 0).fn = dj.fn ∧ (dj.goto v site 0).lfn = dj.lfn ∧
        (dj.goto v site 0).lfnIdx = dj.lfnIdx := ⟨rfl, rfl, rfl⟩
      rw [start.1, start.2.1, start.2.2] at result
      exact ⟨read.looked.trans looked, result⟩
    · rw [Site.count] at pos
      omega

/-- `dir_find` finds the first item that has the name: the directory object is at its last entry, and `lfn_idx` is the
index of its first one if it is the long name that fits. -/
theorem dirFind_first {faults : Faults} {v : Volume} {site : Site} {fs fs' : Fatfs} {dj dj' : Dir} {res : FResult}
    {items : List Item} (keeps : KeepsEnd wtoupper) (ok : fs.WindowOk v) (of : site.Of v fs.view dj.sclust)
    (directory : Directory items (site.table v fs.view)) (h : dirFind faults v wtoupper fs dj = (res, fs', dj')) :
    Looked v site fs fs' ∧ (res = .diskErr ∧ faults.Some ∨
      (∃ pre item post l, items = pre ++ item :: post ∧ (∀ x ∈ pre, ¬x.Matches wtoupper dj.fn dj.lfn) ∧
        item.Matches wtoupper dj.fn dj.lfn ∧
        (item.LongMatches wtoupper dj.lfn ∧ l = (pre.map Item.size).sum ∨
          ¬item.LongMatches wtoupper dj.lfn ∧ l = 0xFFFF) ∧
        (pre.map Item.size).sum + item.size - 1 < site.count v ∧
        res = .ok ∧ fs'.winsect = site.sector v ((pre.map Item.size).sum + item.size - 1) ∧
        dj' = { dj with lfnIdx := l }.goto v site ((pre.map Item.size).sum + item.size - 1)) ∨
      (∀ x ∈ items, ¬x.Matches wtoupper dj.fn dj.lfn) ∧ res = .noFile) := by
  obtain ⟨looked, ⟨rfl, faulty⟩ | outcome⟩ := dirFind_spec ok of h
  · exact ⟨looked, .inl ⟨rfl, faulty⟩⟩
  refine ⟨looked, .inr ?_⟩
  rcases scan_directory dj.fn dj.lfn keeps directory dj.lfnIdx with
    ⟨pre, item, post, s', rfl, others, found, hit, idx⟩ | ⟨none, noHit⟩
  · rw [hit] at outcome
    obtain ⟨rfl, inside, here, rfl⟩ := outcome
    exact .inl ⟨pre, item, post, s'.lfnIdx, rfl, others, found, idx, inside, rfl, here, rfl⟩
  · refine .inr ⟨none, ?_⟩
    generalize scan (findLook wtoupper dj.fn dj.lfn) (site.table v fs.view) 0 ⟨0xFF, 0xFF, dj.lfnIdx⟩ = seen
      at outcome noHit
    cases seen with
    | hit p => exact absurd rfl (noHit p.1 p.2)
    | ended => exact outcome
    | miss p => exact outcome

/-- The LFN entries that `dir_register` stores with `fit_lfn` over old ones, the last part of the name first. -/
def fitParts (lfnbuf : Nat → BitVec 16) (old : Nat → Entry) (sum : BitVec 8) : Nat → List Entry
  | 0 => []
  | n + 1 => fitLfn lfnbuf (old n) (BitVec.ofNat 8 (n + 1)) sum :: fitParts lfnbuf old sum n

theorem fitParts_parts (holds : Holds lfnbuf name.chars) (old : Nat → Entry) (sum : BitVec 8) (last : n ≤ name.parts) :
    Parts name sum n (fitParts lfnbuf old sum n) := by
  induction n with
  | zero => trivial
  | succ n ih => exact ⟨fitLfn_isPart holds (old n) (Nat.succ_pos n) last, ih (Nat.le_of_succ_le last)⟩

/-! ## A root directory -/

/-- A drive with these entries in its root directory. -/
def rootOf (rows : List Entry) : Fatfs :=
  { blank with winsect := 3, win := fun o => rows.getD (o.val / 32) (fun _ => 0) (eofs o.val), wflag := true }

theorem rootOf_windowOk (rows : List Entry) : (rootOf rows).WindowOk tiny :=
  ⟨.inr ⟨show 1 ≤ 3 by decide, .inr (Nat.le_refl 3)⟩, fun _ => show 3 ≠ 0 by decide, nofun⟩

theorem rootOf_table {rows : List Entry} (fits : rows.length ≤ 16) :
    Site.root.table tiny (rootOf rows).view = rows ++ List.replicate (16 - rows.length) fun _ => 0 := by
  have shown : (rootOf rows).view 3 = (rootOf rows).win := (rootOf_windowOk rows).view_winsect (show 3 ≠ 0 by decide)
  refine List.ext_getElem ?_ fun i inside _ => ?_
  · rw [Site.length_table, List.length_append, List.length_replicate, Nat.add_sub_cancel' fits]
    rfl
  · rw [Site.length_table] at inside
    have small : i < 16 := inside
    have sector : Site.root.sector tiny i = 3 := by
      rw [Site.sector, perSect_eq, Nat.div_eq_of_lt small]
      rfl
    have slot : Site.root.slot tiny (rootOf rows).view i = rows.getD i fun _ => 0 := by
      rw [Site.slot, sector, shown, perSect_eq, Nat.mod_eq_of_lt small]
      funext k
      have place : (ofs (i * SZ_DIR + k.val)).val = 32 * i + k.val := by
        simp only [ofs_val, SZ_DIR]
        omega
      simp only [dirEntry, rootOf, place]
      rw [Nat.mul_add_div (by decide), Nat.div_eq_of_lt k.isLt]
      have column : eofs (32 * i + k.val) = k := Fin.ext (by simp only [eofs, Fin.ofNat]; omega)
      rw [column, Nat.add_zero]
    simp only [Site.table, List.getElem_map, List.getElem_range, slot, List.getD_eq_getElem?_getD]
    by_cases row : i < rows.length
    · rw [List.getElem_append_left row, List.getElem?_eq_getElem row, Option.getD_some]
    · rw [List.getElem_append_right (by omega), List.getElem?_eq_none (by omega), Option.getD_none,
        List.getElem_replicate]

theorem rootOf_directory {rows : List Entry} {items : List Item} (fits : rows.length ≤ 16)
    (tiles : Tiles Item.Is items rows) (proper : items.IsChain Follows) :
    Directory (items ++ List.replicate (16 - rows.length) .blank) (Site.root.table tiny (rootOf rows).view) := by
  have blanks : Tiles Item.Is (List.replicate _ .blank) (List.replicate (16 - rows.length) fun _ => 0) :=
    Tiles.replicate fun dir mem => ⟨dir, rfl, by rw [List.eq_of_mem_replicate mem]⟩
  rw [List.length_replicate] at blanks
  rw [rootOf_table fits]
  refine ⟨tiles.append blanks, List.isChain_append.mpr ⟨proper, List.isChain_replicate_of_rel _ trivial, ?_⟩⟩
  intro x _ y mem
  obtain rfl : y = .blank := List.eq_of_mem_replicate (List.mem_of_mem_head? mem)
  cases x <;> trivial

/-- An SFN entry. -/
def sfnOf (name : List (BitVec 8)) (attr : BitVec 8) : Entry := fun i =>
  if i.val < 11 then name.getD i.val 0x20 else if i.val = 11 then attr else 0

/-- The entries of an object with a long name. -/
def longEntries (name : LongName) (sfn : Entry) : List Entry :=
  fitParts (fun k => name.chars.getD k 0) (fun _ _ => 0) (sumSfn sfn) name.parts ++ [sfn]

theorem longEntries_is {sfn : Entry} (name : LongName) (is : IsSfn sfn) :
    (Item.object (some name) sfn).Is (longEntries name sfn) := by
  have holds : Holds (fun k => name.chars.getD k 0) name.chars := by
    refine ⟨fun k inside => ?_, ?_⟩
    · rw [List.getD_eq_getElem?_getD, List.getElem?_eq_getElem inside, Option.getD_some]
    · rw [List.getD_eq_getElem?_getD, List.getElem?_eq_none (Nat.le_refl _), Option.getD_none]
  exact ⟨_, rfl, fitParts_parts holds _ _ (Nat.le_refl _), is⟩

/-- A name of two parts, and one with a character that not every code page has. -/
def fourteen : LongName :=
  ⟨(List.range 14).map fun k => BitVec.ofNat 16 (0x61 + k), by decide, by decide, by
    simp only [List.forall_mem_map, List.mem_range]
    decide⟩

def accented : LongName := ⟨[0x63, 0x61, 0x66, 0xE9], by decide, by decide, by simp⟩

def fourteenSfn : Entry := sfnOf [0x41, 0x42, 0x43, 0x44, 0x45, 0x46, 0x7E, 0x31] AM_ARC

def accentedSfn : Entry := sfnOf [0x43, 0x41, 0x46, 0x5F] AM_ARC

def twoSfn : Entry := sfnOf [0x54, 0x57, 0x4F] AM_ARC

/-- A volume label, a deleted entry, two objects with long names and one without. -/
def mixed : List Item :=
  [.volume, .deleted, .object (some fourteen) fourteenSfn, .object (some accented) accentedSfn, .object none twoSfn]

def mixedRows : List Entry :=
  sfnOf [0x43] AM_VOL :: sfnOf [0xE5] 0 ::
    (longEntries fourteen fourteenSfn ++ (longEntries accented accentedSfn ++ [twoSfn]))

theorem mixed_directory :
    Directory (mixed ++ List.replicate 8 .blank) (Site.root.table tiny (rootOf mixedRows).view) := by
  have proper : mixed.IsChain Follows := by
    simp only [mixed, List.isChain_cons_cons, List.isChain_singleton, Follows, and_self]
  have tiles : Tiles Item.Is mixed mixedRows := by
    refine .cell ⟨_, rfl, by decide, by decide, by decide⟩ (.cell ⟨_, rfl, by decide⟩ ?_)
    refine .cons (longEntries_is fourteen ⟨by decide, by decide, by decide⟩) ?_
    exact .cons (longEntries_is accented ⟨by decide, by decide, by decide⟩)
      (.cell ⟨rfl, by decide, by decide, by decide⟩ .nil)
  exact rootOf_directory (by decide) tiles proper

/-- A directory object for a name. -/
def seeking (fn : Fn) (lfn : Nat → BitVec 16) : Dir where
  index := 0
  sclust := 0
  clust := 0
  sect := 0
  dir := 0
  fn := fn
  lfn := some lfn
  lfnIdx := 0

def upper (c : BitVec 16) : BitVec 16 := if 0x61 ≤ c ∧ c ≤ 0x7A then c - 0x20 else c

theorem upper_keepsEnd : KeepsEnd upper := by
  intro c
  rw [upper]
  split <;> bv_omega

/-- The long name of the third item in capitals, and its short name. -/
def seekLong : Dir := seeking ⟨fun _ => 0x41, NS_LOSS⟩ fun k => if k < 14 then BitVec.ofNat 16 (0x41 + k) else 0

def seekShort : Dir :=
  seeking ⟨fun k => fourteenSfn (eofs k), 0⟩ fun k => if k < 8 then (fourteenSfn (eofs k)).setWidth 16 else 0

theorem seekLong_matches : (Item.object (some fourteen) fourteenSfn).LongMatches upper seekLong.lfn :=
  ⟨_, rfl, by decide, by decide, by decide⟩

theorem seekShort_matches : (Item.object (some fourteen) fourteenSfn).ShortMatches seekShort.fn ∧
    ¬(Item.object (some fourteen) fourteenSfn).LongMatches upper seekShort.lfn := by
  refine ⟨⟨by decide, by decide⟩, ?_⟩
  rintro ⟨lfnbuf, is, -, -, chars⟩
  obtain rfl := Option.some.inj is
  exact absurd (chars 6 (by decide)) (by decide)

theorem before_fourteen (fn : Fn) (lfn : Option (Nat → BitVec 16)) :
    ∀ x ∈ [Item.volume, .deleted], ¬x.Matches upper fn lfn := by
  intro x mem
  rcases List.mem_pair.mp mem with rfl | rfl <;> exact not_or.mpr ⟨id, id⟩

theorem dirFind_first_mixed :
    (∃ fs' dj', dirFind (fun _ => none) tiny upper (rootOf mixedRows) seekLong = (.ok, fs', dj') ∧ fs'.winsect = 3 ∧
        dj'.index = 4 ∧ dj'.lfnIdx = 2) ∧
      ∃ fs' dj', dirFind (fun _ => none) tiny upper (rootOf mixedRows) seekShort = (.ok, fs', dj') ∧ fs'.winsect = 3 ∧
        dj'.index = 4 ∧ dj'.lfnIdx = 0xFFFF := by
  have found : ∀ dj : Dir, dj.sclust = 0 → (Item.object (some fourteen) fourteenSfn).Matches upper dj.fn dj.lfn →
      ∃ fs' dj', dirFind (fun _ => none) tiny upper (rootOf mixedRows) dj = (.ok, fs', dj') ∧ fs'.winsect = 3 ∧
        dj'.index = 4 ∧ ((Item.object (some fourteen) fourteenSfn).LongMatches upper dj.lfn ∧ dj'.lfnIdx = 2 ∨
          ¬(Item.object (some fourteen) fourteenSfn).LongMatches upper dj.lfn ∧ dj'.lfnIdx = 0xFFFF) := by
    intro dj root is
    cases h : dirFind (fun _ => none) tiny upper (rootOf mixedRows) dj with
    | mk res run =>
      obtain ⟨fs', dj'⟩ := run
      obtain ⟨-, ⟨-, faulty⟩ | ⟨pre, item, post, l, items, others, same, idx, -, rfl, here, rfl⟩ | ⟨none, -⟩⟩ :=
        dirFind_first upper_keepsEnd (rootOf_windowOk _) (root ▸ .root (by decide)) mixed_directory h
      · exact absurd faulty (Faults.not_some fun _ => rfl)
      · obtain ⟨rfl, rfl, -⟩ := first_unique (show [.volume, .deleted] ++ _ :: _ = pre ++ item :: post from items)
          (before_fourteen dj.fn dj.lfn) is others same
        exact ⟨fs', _, rfl, here, rfl, idx⟩
      · exact absurd is (none _ (by simp [mixed]))
  obtain ⟨fs1, dj1, run1, here1, index1, idx1⟩ := found seekLong rfl (.inl seekLong_matches)
  obtain ⟨fs2, dj2, run2, here2, index2, idx2⟩ := found seekShort rfl (.inr seekShort_matches.1)
  refine ⟨⟨fs1, dj1, run1, here1, index1, ?_⟩, fs2, dj2, run2, here2, index2, ?_⟩
  · exact (idx1.resolve_right fun short => short.1 seekLong_matches).2
  · exact (idx2.resolve_left fun long => seekShort_matches.2 long.1).2

end

end Cineraria.Fat
