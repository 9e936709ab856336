import Mathlib.Algebra.Group.Nat.Defs
import Mathlib.Tactic.Common
import Cineraria.Lib.BitField

/-!
# Long file names

`fit_lfn`, `cmp_lfn`, `pick_lfn` and `sum_sfn` of `fatfs/ff.c`. A long name is cut into parts of thirteen characters,
each of which takes an entry. Behind the last character comes a zero if there is room for it, and then a filler.
-/

namespace Cineraria.Fat

/-- The bytes of an entry. -/
abbrev Entry := Fin 32 → BitVec 8

/-- An offset in an entry. -/
def eofs (k : Nat) : Fin 32 := Fin.ofNat 32 k

def DIR_Name : Nat := 0

def LDIR_Ord : Nat := 0

def LDIR_Attr : Nat := 11

def LDIR_Type : Nat := 12

def LDIR_Chksum : Nat := 13

def LDIR_FstClusLO : Nat := 26

/-- The mark of the last part of a name. -/
def LLE : BitVec 8 := 0x40

def AM_LFN : BitVec 8 := 0x0F

/-- `_MAX_LFN` -/
def MAX_LFN : Nat := 255

/-- Offset of LFN chars in the directory entry. -/
def LfnOfs : List Nat := [1, 3, 5, 7, 9, 14, 16, 18, 20, 22, 24, 28, 30]

/-- `LD_WORD` and `ST_WORD` at a place in an entry. -/
def dirWord (dir : Entry) (k : Nat) : BitVec 16 := dir (eofs (k + 1)) ++ dir (eofs k)

def setDirWord (dir : Entry) (k : Nat) (w : BitVec 16) : Entry :=
  Function.update (Function.update dir (eofs k) (w.setWidth 8)) (eofs (k + 1)) ((w >>> 8).setWidth 8)

/-- `sum_sfn` -/
def sumSfn (dir : Entry) : BitVec 8 :=
  (List.range 11).foldl (fun sum k => (sum >>> 1) + (sum <<< 7) + dir (eofs k)) 0

/-! ## `cmp_lfn` -/

section
variable (wtoupper : BitVec 16 → BitVec 16) (lfnbuf : Nat → BitVec 16) (dir : Entry)

/-- The offset in the LFN buffer, which is unsigned. -/
def lfnOffset (mask : BitVec 8) : Nat := (((dir (eofs LDIR_Ord) &&& mask).setWidth 32 - 1) * 13).toNat

/-- The loop of `cmp_lfn`. -/
def cmpLoop : List Nat → BitVec 16 → Nat → Option (BitVec 16 × Nat)
  | [], wc, i => some (wc, i)
  | s :: ss, wc, i =>
      let uc := dirWord dir s
      if wc ≠ 0 then
        let wc := wtoupper uc
        if MAX_LFN ≤ i ∨ wc ≠ wtoupper (lfnbuf i) then none else cmpLoop ss wc (i + 1)
      else if uc ≠ 0xFFFF then none
      else cmpLoop ss wc i

/-- `cmp_lfn` -/
def cmpLfn : Bool :=
  match cmpLoop wtoupper lfnbuf dir LfnOfs 1 (lfnOffset dir (~~~LLE)) with
  | none => false
  | some (wc, i) => !(dir (eofs LDIR_Ord) &&& LLE ≠ 0 ∧ wc ≠ 0 ∧ lfnbuf i ≠ 0)

/-! ## `pick_lfn` -/

/-- The loop of `pick_lfn`. -/
def pickLoop : List Nat → BitVec 16 → Nat → (Nat → BitVec 16) → Option Nat × (Nat → BitVec 16)
  | [], _, i, lfnbuf => (some i, lfnbuf)
  | s :: ss, wc, i, lfnbuf =>
      let uc := dirWord dir s
      if wc ≠ 0 then
        if MAX_LFN ≤ i then (none, lfnbuf) else pickLoop ss uc (i + 1) (Function.update lfnbuf i uc)
      else if uc ≠ 0xFFFF then (none, lfnbuf)
      else pickLoop ss wc i lfnbuf

/-- `pick_lfn`: whether it has succeeded, and the buffer. -/
def pickLfn : Bool × (Nat → BitVec 16) :=
  match pickLoop dir LfnOfs 1 (lfnOffset dir 0x3F) lfnbuf with
  | (none, lfnbuf) => (false, lfnbuf)
  | (some i, lfnbuf) =>
      if dir (eofs LDIR_Ord) &&& LLE ≠ 0 then
        if MAX_LFN ≤ i then (false, lfnbuf) else (true, Function.update lfnbuf i 0)
      else (true, lfnbuf)

/-! ## `fit_lfn` -/

/-- The loop of `fit_lfn`. -/
def fitLoop : List Nat → BitVec 16 → Nat → Entry → BitVec 16 × Nat × Entry
  | [], wc, i, dir => (wc, i, dir)
  | s :: ss, wc, i, dir =>
      let c := if wc ≠ 0xFFFF then lfnbuf i else wc
      let i := if wc ≠ 0xFFFF then i + 1 else i
      fitLoop ss (if c = 0 then 0xFFFF else c) i (setDirWord dir s c)

/-- `fit_lfn` -/
def fitLfn (ord sum : BitVec 8) : Entry :=
  let dir := Function.update dir (eofs LDIR_Chksum) sum
  let dir := Function.update dir (eofs LDIR_Attr) AM_LFN
  let dir := Function.update dir (eofs LDIR_Type) 0
  let dir := setDirWord dir LDIR_FstClusLO 0
  match fitLoop lfnbuf LfnOfs 0 ((ord.toNat - 1) * 13) dir with
  | (wc, i, dir) => Function.update dir (eofs LDIR_Ord) (if wc = 0xFFFF ∨ lfnbuf i = 0 then ord ||| LLE else ord)

end

/-! ## Names and their parts -/

/-- A long name. -/
structure LongName where
  chars : List (BitVec 16)
  nonempty : chars ≠ []
  short : chars.length ≤ MAX_LFN
  proper : ∀ c ∈ chars, c ≠ 0 ∧ c ≠ 0xFFFF

/-- The buffer holds the name. -/
structure Holds (lfnbuf : Nat → BitVec 16) (chars : List (BitVec 16)) : Prop where
  same : ∀ k, (h : k < chars.length) → lfnbuf k = chars[k]
  ends : lfnbuf chars.length = 0

/-- The characters of a name as they are stored. -/
def LongName.stored (name : LongName) (k : Nat) : BitVec 16 :=
  if h : k < name.chars.length then name.chars[k] else if k = name.chars.length then 0 else 0xFFFF

/-- The parts that a name takes. -/
def LongName.parts (name : LongName) : Nat := (name.chars.length + 12) / 13

/-- The entry is the part `n` of the name. -/
structure IsPart (name : LongName) (sum : BitVec 8) (n : Nat) (dir : Entry) : Prop where
  ord : dir (eofs LDIR_Ord) = if n = name.parts then BitVec.ofNat 8 n ||| LLE else BitVec.ofNat 8 n
  attr : dir (eofs LDIR_Attr) = AM_LFN
  sum : dir (eofs LDIR_Chksum) = sum
  chars : ∀ s, (h : s < LfnOfs.length) → dirWord dir LfnOfs[s] = name.stored (13 * (n - 1) + s)

/-- A conversion of characters that tells the end of a name. -/
def KeepsEnd (wtoupper : BitVec 16 → BitVec 16) : Prop := ∀ c, wtoupper c = 0 ↔ c = 0

section
variable {name : LongName} {sum : BitVec 8} {n : Nat} {dir : Entry} {lfnbuf : Nat → BitVec 16}

theorem LongName.length_pos (name : LongName) : 0 < name.chars.length := List.length_pos_iff.mpr name.nonempty

theorem LongName.parts_bounds (name : LongName) :
    13 * (name.parts - 1) < name.chars.length ∧ name.chars.length ≤ 13 * name.parts ∧ name.parts ≤ 20 := by
  have := name.length_pos
  have short := name.short
  rw [MAX_LFN] at short
  rw [LongName.parts]
  omega

theorem LongName.stored_char (h : n < name.chars.length) : name.stored n = name.chars[n] := dif_pos h

theorem LongName.stored_end : name.stored name.chars.length = 0 := by
  rw [LongName.stored, dif_neg (Nat.lt_irrefl _), if_pos rfl]

theorem LongName.stored_filler (h : name.chars.length < n) : name.stored n = 0xFFFF := by
  rw [LongName.stored, dif_neg (by omega), if_neg (by omega)]

theorem LongName.stored_ne_zero (h : n < name.chars.length) : name.stored n ≠ 0 := by
  rw [LongName.stored_char h]
  exact (name.proper _ (List.getElem_mem h)).1

theorem Holds.eq_stored (holds : Holds lfnbuf name.chars) (h : n ≤ name.chars.length) :
    lfnbuf n = name.stored n := by
  rcases Nat.lt_or_eq_of_le h with inside | rfl
  · rw [holds.same n inside, LongName.stored_char inside]
  · rw [holds.ends, LongName.stored_end]

/-! ## Places in an entry -/

theorem eofs_ne {j k : Nat} (ne : j ≠ k) (hj : j < 32) (hk : k < 32) : eofs j ≠ eofs k := by
  intro same
  have value : j % 32 = k % 32 := congrArg Fin.val same
  omega

theorem setDirWord_eofs {j k : Nat} (w : BitVec 16) (apart : j ≠ k ∧ j ≠ k + 1) (hj : j < 32) (hk : k + 1 < 32) :
    setDirWord dir k w (eofs j) = dir (eofs j) := by
  rw [setDirWord, Function.update_of_ne (eofs_ne apart.2 hj hk), Function.update_of_ne (eofs_ne apart.1 hj (by omega))]

theorem dirWord_setDirWord {k : Nat} (w : BitVec 16) (hk : k + 1 < 32) : dirWord (setDirWord dir k w) k = w := by
  have split := BitField.setWidth_split w 8 8
  rw [BitVec.setWidth_eq] at split
  rw [dirWord, setDirWord, Function.update_self, Function.update_of_ne (eofs_ne (by omega) (by omega) hk),
    Function.update_self]
  exact split

theorem dirWord_congr {dir' : Entry} {k : Nat} (low : dir' (eofs k) = dir (eofs k))
    (high : dir' (eofs (k + 1)) = dir (eofs (k + 1))) : dirWord dir' k = dirWord dir k := by
  rw [dirWord, dirWord, low, high]

/-- The places of the characters do not meet. -/
theorem lfnOfs_apart : LfnOfs.Pairwise (fun a b => a + 2 ≤ b) ∧ ∀ s ∈ LfnOfs, s + 1 < 32 := by decide

end

/-! ## What `fit_lfn` makes -/

section
variable {name : LongName} {sum : BitVec 8} {lfnbuf : Nat → BitVec 16}

/-- The loop of `fit_lfn` from the character `j` of the name on. -/
theorem fitLoop_spec (holds : Holds lfnbuf name.chars) {ss : List Nat} (apart : ss.Pairwise (fun a b => a + 2 ≤ b))
    (within : ∀ s ∈ ss, s + 1 < 32) {wc : BitVec 16} {i j : Nat} (dir : Entry)
    (state : wc ≠ 0xFFFF ∧ i = j ∧ j ≤ name.chars.length ∨ wc = 0xFFFF ∧ name.chars.length < j) :
    ∃ wc' i' dir', fitLoop lfnbuf ss wc i dir = (wc', i', dir') ∧
      (wc' ≠ 0xFFFF ∧ i' = j + ss.length ∧ j + ss.length ≤ name.chars.length ∨
        wc' = 0xFFFF ∧ name.chars.length < j + ss.length) ∧
      (∀ s, (h : s < ss.length) → dirWord dir' ss[s] = name.stored (j + s)) ∧
      ∀ k < 32, (∀ s ∈ ss, k ≠ s ∧ k ≠ s + 1) → dir' (eofs k) = dir (eofs k) := by
  induction ss generalizing wc i j dir with
  | nil => exact ⟨wc, i, dir, rfl, state, fun s h => absurd h (Nat.not_lt_zero s), fun _ _ _ => rfl⟩
  | cons o ss ih =>
      obtain ⟨first, apart⟩ := List.pairwise_cons.mp apart
      have room := within o (List.mem_cons_self ..)
      have char : (if wc ≠ 0xFFFF then lfnbuf i else wc) = name.stored j := by
        rcases state with ⟨more, rfl, inside⟩ | ⟨ended, beyond⟩
        · rw [if_pos more, holds.eq_stored inside]
        · rw [ended, if_neg (by decide), LongName.stored_filler beyond]
      have next : (if name.stored j = 0 then (0xFFFF : BitVec 16) else name.stored j) ≠ 0xFFFF ∧
          (if wc ≠ 0xFFFF then i + 1 else i) = j + 1 ∧ j + 1 ≤ name.chars.length ∨
          (if name.stored j = 0 then (0xFFFF : BitVec 16) else name.stored j) = 0xFFFF ∧ name.chars.length < j + 1 := by
        rcases state with ⟨more, rfl, inside⟩ | ⟨ended, beyond⟩
        · rcases Nat.lt_or_eq_of_le inside with inside | rfl
          · left
            rw [if_neg (LongName.stored_ne_zero inside), if_pos more, LongName.stored_char inside]
            exact ⟨(name.proper _ (List.getElem_mem inside)).2, rfl, inside⟩
          · right
            rw [LongName.stored_end, if_pos rfl]
            exact ⟨rfl, Nat.lt_succ_self _⟩
        · right
          rw [LongName.stored_filler beyond]
          exact ⟨by decide, by omega⟩
      obtain ⟨wc', i', dir', eq, state', chars, others⟩ :=
        ih apart (fun s mem => within s (List.mem_cons_of_mem _ mem)) (setDirWord dir o (name.stored j)) next
      refine ⟨wc', i', dir', ?_, ?_, ?_, ?_⟩
      · rw [fitLoop, char]
        exact eq
      · rw [List.length_cons, show j + (ss.length + 1) = j + 1 + ss.length by omega]
        exact state'
      · intro s h
        cases s with
        | zero =>
            have low := others o (by omega) fun s mem => by have := first s mem; omega
            have high := others (o + 1) room fun s mem => by have := first s mem; omega
            rw [List.getElem_cons_zero, dirWord_congr low high]
            exact dirWord_setDirWord _ room
        | succ s =>
            rw [List.getElem_cons_succ, chars s (by simpa using h), show j + (s + 1) = j + 1 + s by omega]
      · intro k bound elsewhere
        rw [others k bound fun s mem => elsewhere s (List.mem_cons_of_mem _ mem)]
        exact setDirWord_eofs _ (elsewhere o (List.mem_cons_self ..)) bound room

/-- `fit_lfn` makes a part of the name. -/
theorem fitLfn_isPart (holds : Holds lfnbuf name.chars) (dir : Entry) {n : Nat} (first : 1 ≤ n)
    (last : n ≤ name.parts) :
    IsPart name sum n (fitLfn lfnbuf dir (BitVec.ofNat 8 n) sum) := by
  obtain ⟨below, above, most⟩ := name.parts_bounds
  have number : (BitVec.ofNat 8 n).toNat = n := by
    rw [BitVec.toNat_ofNat]
    omega
  have begins : (0 : BitVec 16) ≠ 0xFFFF ∧ (n - 1) * 13 = 13 * (n - 1) ∧ 13 * (n - 1) ≤ name.chars.length ∨
      (0 : BitVec 16) = 0xFFFF ∧ name.chars.length < 13 * (n - 1) := .inl ⟨by decide, Nat.mul_comm _ _, by omega⟩
  obtain ⟨wc, i, dir', eq, state, chars, others⟩ := fitLoop_spec holds lfnOfs_apart.1 lfnOfs_apart.2
    (setDirWord (Function.update (Function.update (Function.update dir (eofs LDIR_Chksum) sum) (eofs LDIR_Attr) AM_LFN)
      (eofs LDIR_Type) 0) LDIR_FstClusLO 0) begins
  have made : fitLfn lfnbuf dir (BitVec.ofNat 8 n) sum = Function.update dir' (eofs LDIR_Ord)
      (if wc = 0xFFFF ∨ lfnbuf i = 0 then BitVec.ofNat 8 n ||| LLE else BitVec.ofNat 8 n) := by
    simp only [fitLfn, number, eq]
  have length : LfnOfs.length = 13 := rfl
  rw [length] at state
  have last : (wc = 0xFFFF ∨ lfnbuf i = 0) ↔ n = name.parts := by
    rcases state with ⟨more, rfl, inside⟩ | ⟨ended, beyond⟩
    · rw [holds.eq_stored inside]
      rcases Nat.lt_or_eq_of_le inside with inside | ends
      · have others : ¬ (wc = 0xFFFF ∨ name.stored (13 * (n - 1) + 13) = 0) :=
          not_or.mpr ⟨more, LongName.stored_ne_zero inside⟩
        exact iff_of_false others (by omega)
      · rw [ends, LongName.stored_end]
        exact iff_of_true (.inr rfl) (by omega)
    · exact iff_of_true (.inl ended) (by omega)
  have kept : ∀ k, k < 32 → k ≠ 0 → (∀ s ∈ LfnOfs, k ≠ s ∧ k ≠ s + 1) →
      fitLfn lfnbuf dir (BitVec.ofNat 8 n) sum (eofs k) = setDirWord (Function.update (Function.update (Function.update
        dir (eofs LDIR_Chksum) sum) (eofs LDIR_Attr) AM_LFN) (eofs LDIR_Type) 0) LDIR_FstClusLO 0 (eofs k) := by
    intro k bound nonzero elsewhere
    have other : eofs k ≠ eofs LDIR_Ord := eofs_ne nonzero bound (by decide)
    rw [made, Function.update_of_ne other, others k bound elsewhere]
  constructor
  case ord =>
    rw [made, Function.update_self]
    simp only [last]
  case attr =>
    rw [LDIR_Attr, kept 11 (by decide) (by decide) (by decide), setDirWord_eofs _ (by decide) (by decide) (by decide),
      Function.update_of_ne (eofs_ne (by decide) (by decide) (by decide)), LDIR_Attr, Function.update_self]
  case sum =>
    rw [LDIR_Chksum, kept 13 (by decide) (by decide) (by decide), setDirWord_eofs _ (by decide) (by decide) (by decide),
      Function.update_of_ne (eofs_ne (by decide) (by decide) (by decide)),
      Function.update_of_ne (eofs_ne (by decide) (by decide) (by decide)), LDIR_Chksum, Function.update_self]
  case chars =>
    intro s h
    rw [← chars s h]
    have place := lfnOfs_apart.2 _ (List.getElem_mem h)
    have positive : 0 < LfnOfs[s] := by
      have all : ∀ s ∈ LfnOfs, 0 < s := by decide
      exact all _ (List.getElem_mem h)
    rw [made]
    apply dirWord_congr
    · exact Function.update_of_ne (eofs_ne (by rw [LDIR_Ord]; omega) (by omega) (by decide)) _ _
    · exact Function.update_of_ne (eofs_ne (by rw [LDIR_Ord]; omega) (by omega) (by decide)) _ _

end

/-! ## What is read of a part -/

section
variable {name : LongName} {sum : BitVec 8} {n : Nat} {dir : Entry} {lfnbuf : Nat → BitVec 16}

theorem ord_offset : ∀ n < 21, 1 ≤ n → ∀ x ∈ [BitVec.ofNat 8 n, BitVec.ofNat 8 n ||| LLE],
    (((x &&& ~~~LLE).setWidth 32 - 1) * 13).toNat = 13 * (n - 1) ∧
      (((x &&& 0x3F).setWidth 32 - 1) * 13).toNat = 13 * (n - 1) := by
  decide

theorem ord_number : ∀ n < 21, 1 ≤ n → ∀ x ∈ [BitVec.ofNat 8 n, BitVec.ofNat 8 n ||| LLE],
    x &&& ~~~LLE = BitVec.ofNat 8 n := by
  decide

theorem ord_valid : ∀ n < 21, 1 ≤ n → ∀ x ∈ [BitVec.ofNat 8 n, BitVec.ofNat 8 n ||| LLE], x ≠ 0 ∧ x ≠ 0xE5 := by
  decide

theorem IsPart.ord_mem (part : IsPart name sum n dir) :
    dir (eofs LDIR_Ord) ∈ [BitVec.ofNat 8 n, BitVec.ofNat 8 n ||| LLE] := by
  rw [part.ord]
  split
  · exact List.mem_cons_of_mem _ (List.mem_cons_self ..)
  · exact List.mem_cons_self ..

theorem IsPart.last_iff (part : IsPart name sum n dir) (last : n ≤ name.parts) :
    dir (eofs LDIR_Ord) &&& LLE ≠ 0 ↔ n = name.parts := by
  have most := name.parts_bounds.2.2
  have marks : ∀ n < 21, (BitVec.ofNat 8 n ||| LLE) &&& LLE ≠ 0 ∧ BitVec.ofNat 8 n &&& LLE = 0 := by decide
  rw [part.ord]
  split
  · next same => exact iff_of_true (marks n (by omega)).1 same
  · next other => exact iff_of_false (not_not.mpr (marks n (by omega)).2) other

/-- The loop of `cmp_lfn` from the character `j` of the name on: it fails exactly at a character that differs, or
beyond the buffer. -/
theorem cmpLoop_spec {wtoupper : BitVec 16 → BitVec 16} (lfnbuf : Nat → BitVec 16) (keeps : KeepsEnd wtoupper)
    {ss : List Nat} {wc : BitVec 16} {i j : Nat}
    (chars : ∀ s, (h : s < ss.length) → dirWord dir ss[s] = name.stored (j + s))
    (state : wc ≠ 0 ∧ i = j ∧ j ≤ name.chars.length ∨ wc = 0 ∧ name.chars.length < j) :
    ((cmpLoop wtoupper lfnbuf dir ss wc i).isSome = true ↔ ∀ k, j ≤ k → k < j + ss.length → k ≤ name.chars.length →
        k < MAX_LFN ∧ wtoupper (name.stored k) = wtoupper (lfnbuf k)) ∧
      ∀ wc' i', cmpLoop wtoupper lfnbuf dir ss wc i = some (wc', i') →
        wc' ≠ 0 ∧ i' = j + ss.length ∧ j + ss.length ≤ name.chars.length ∨
          wc' = 0 ∧ name.chars.length < j + ss.length := by
  induction ss generalizing wc i j with
  | nil =>
      refine ⟨iff_of_true rfl fun k low high => by simp at high; omega, ?_⟩
      rintro wc' i' eq
      obtain ⟨rfl, rfl⟩ : wc = wc' ∧ i = i' := by simpa [cmpLoop] using eq
      exact state
  | cons o ss ih =>
      have char : dirWord dir o = name.stored j := chars 0 (Nat.succ_pos _)
      have rest : ∀ s, (h : s < ss.length) → dirWord dir ss[s] = name.stored (j + 1 + s) := fun s h => by
        have next := chars (s + 1) (by simpa using h)
        rw [List.getElem_cons_succ] at next
        rw [next, show j + (s + 1) = j + 1 + s by omega]
      rw [List.length_cons, show j + (ss.length + 1) = j + 1 + ss.length by omega]
      rcases state with ⟨more, rfl, inside⟩ | ⟨ended, beyond⟩
      · by_cases agree : i < MAX_LFN ∧ wtoupper (name.stored i) = wtoupper (lfnbuf i)
        · -- The character is the same, and it is the last one or not.
          have eq : cmpLoop wtoupper lfnbuf dir (o :: ss) wc i =
              cmpLoop wtoupper lfnbuf dir ss (wtoupper (name.stored i)) (i + 1) := by
            rw [cmpLoop, if_pos more, char, if_neg]
            rw [not_or, Nat.not_le, not_not]
            exact agree
          have next : wtoupper (name.stored i) ≠ 0 ∧ i + 1 = i + 1 ∧ i + 1 ≤ name.chars.length ∨
              wtoupper (name.stored i) = 0 ∧ name.chars.length < i + 1 := by
            rw [keeps, Ne, keeps]
            rcases Nat.lt_or_eq_of_le inside with inside | ends
            · exact .inl ⟨LongName.stored_ne_zero inside, rfl, inside⟩
            · exact .inr ⟨ends ▸ LongName.stored_end, by omega⟩
          obtain ⟨iff, result⟩ := ih rest next
          rw [eq]
          refine ⟨iff.trans ⟨fun all k low high within => ?_, fun all k low high within => ?_⟩, result⟩
          · rcases Nat.eq_or_lt_of_le low with rfl | later
            · exact agree
            · exact all k later high within
          · exact all k (by omega) high within
        · have eq : cmpLoop wtoupper lfnbuf dir (o :: ss) wc i = none := by
            rw [cmpLoop, if_pos more, char, if_pos]
            rw [not_and_or, Nat.not_lt] at agree
            exact agree
          rw [eq]
          refine ⟨iff_of_false (by simp) fun all => agree (all i (Nat.le_refl i) (by omega) inside), ?_⟩
          intro wc' i' none
          exact absurd none (by simp)
      · have eq : cmpLoop wtoupper lfnbuf dir (o :: ss) wc i = cmpLoop wtoupper lfnbuf dir ss wc i := by
          rw [cmpLoop, if_neg (not_not.mpr ended), char, LongName.stored_filler beyond, if_neg (by decide)]
        obtain ⟨iff, result⟩ := ih rest (.inr ⟨ended, by omega⟩)
        rw [eq]
        refine ⟨iff.trans ⟨fun _ k low high within => ?_, fun _ k low high within => ?_⟩, result⟩ <;> omega

/-- `cmp_lfn`: the characters of the part are those of the buffer, and with the last part the name ends. -/
theorem cmpLfn_iff {wtoupper : BitVec 16 → BitVec 16} (keeps : KeepsEnd wtoupper) (lfnbuf : Nat → BitVec 16)
    (part : IsPart name sum n dir) (first : 1 ≤ n) (last : n ≤ name.parts) :
    cmpLfn wtoupper lfnbuf dir = true ↔
      (∀ k < name.chars.length, 13 * (n - 1) ≤ k → k < 13 * n → wtoupper (name.stored k) = wtoupper (lfnbuf k)) ∧
        (n = name.parts → name.chars.length < MAX_LFN ∧ lfnbuf name.chars.length = 0) := by
  obtain ⟨below, above, most⟩ := name.parts_bounds
  have short := name.short
  have offset := (ord_offset n (by omega) first _ part.ord_mem).1
  have length : LfnOfs.length = 13 := rfl
  have limit : MAX_LFN = 255 := rfl
  have begins : (1 : BitVec 16) ≠ 0 ∧ 13 * (n - 1) = 13 * (n - 1) ∧ 13 * (n - 1) ≤ name.chars.length ∨
      (1 : BitVec 16) = 0 ∧ name.chars.length < 13 * (n - 1) := .inl ⟨by decide, rfl, by omega⟩
  obtain ⟨iff, result⟩ := cmpLoop_spec lfnbuf keeps part.chars begins
  rw [length] at iff result
  have agrees : (cmpLoop wtoupper lfnbuf dir LfnOfs 1 (13 * (n - 1))).isSome = true ↔
      (∀ k < name.chars.length, 13 * (n - 1) ≤ k → k < 13 * n → wtoupper (name.stored k) = wtoupper (lfnbuf k)) ∧
        (name.chars.length < 13 * n → name.chars.length < MAX_LFN ∧ lfnbuf name.chars.length = 0) := by
    rw [iff]
    constructor
    · intro all
      refine ⟨fun k within low high => (all k low (by omega) (by omega)).2, fun ends => ?_⟩
      obtain ⟨room, same⟩ := all name.chars.length (by omega) (by omega) (Nat.le_refl _)
      rw [LongName.stored_end, (keeps 0).mpr rfl, eq_comm, keeps] at same
      exact ⟨room, same⟩
    · rintro ⟨inner, ends⟩ k low high within
      rcases Nat.lt_or_eq_of_le within with inside | rfl
      · exact ⟨by omega, inner k inside low (by omega)⟩
      · obtain ⟨room, zero⟩ := ends (by omega)
        rw [LongName.stored_end, zero]
        exact ⟨room, rfl⟩
  rw [cmpLfn, lfnOffset, offset]
  cases eq : cmpLoop wtoupper lfnbuf dir LfnOfs 1 (13 * (n - 1)) with
  | none =>
      rw [eq] at agrees
      refine iff_of_false (by simp) fun ⟨inner, ends⟩ => ?_
      exact absurd (agrees.mpr ⟨inner, fun high => ends (by omega)⟩) (by simp)
  | some state =>
      obtain ⟨wc, i⟩ := state
      obtain ⟨inner, ends⟩ := agrees.mp (by rw [eq]; rfl)
      simp only [Bool.not_eq_true', decide_eq_false_iff_not]
      rw [part.last_iff last]
      rcases result wc i eq with ⟨more, rfl, inside⟩ | ⟨ended, beyond⟩
      · constructor
        · intro test
          refine ⟨inner, fun same => ⟨by omega, ?_⟩⟩
          rw [show name.chars.length = 13 * (n - 1) + 13 by omega]
          by_contra nonzero
          exact test ⟨same, more, nonzero⟩
        · rintro ⟨-, closed⟩ ⟨same, -, nonzero⟩
          rw [show 13 * (n - 1) + 13 = name.chars.length by omega] at nonzero
          exact nonzero (closed same).2
      · exact iff_of_true (fun test => test.2.1 ended) ⟨inner, fun _ => ends (by omega)⟩

/-- The loop of `pick_lfn` from the character `j` of the name on: it fails exactly when the end of the name does not
fit into the buffer. -/
theorem pickLoop_spec {ss : List Nat} {wc : BitVec 16} {i j : Nat} (lfnbuf : Nat → BitVec 16)
    (chars : ∀ s, (h : s < ss.length) → dirWord dir ss[s] = name.stored (j + s))
    (state : wc ≠ 0 ∧ i = j ∧ j ≤ name.chars.length ∨ wc = 0 ∧ i = name.chars.length + 1 ∧ name.chars.length < j) :
    ∃ end' lfnbuf', pickLoop dir ss wc i lfnbuf = (end', lfnbuf') ∧
      (end' = none ↔ name.chars.length = MAX_LFN ∧ j ≤ MAX_LFN ∧ MAX_LFN < j + ss.length) ∧
      (∀ i', end' = some i' → i' = min (j + ss.length) (name.chars.length + 1)) ∧
      ∀ k, lfnbuf' k = if j ≤ k ∧ k < j + ss.length ∧ k ≤ name.chars.length ∧ k < MAX_LFN then name.stored k
        else lfnbuf k := by
  have short := name.short
  induction ss generalizing wc i j lfnbuf with
  | nil =>
      refine ⟨some i, lfnbuf, rfl, iff_of_false (by simp) (by simp), ?_, fun k => (if_neg ?_).symm⟩
      · rintro i' eq
        obtain rfl : i = i' := by simpa using eq
        rw [List.length_nil]
        omega
      · simp
        omega
  | cons o ss ih =>
      have char : dirWord dir o = name.stored j := chars 0 (Nat.succ_pos _)
      have rest : ∀ s, (h : s < ss.length) → dirWord dir ss[s] = name.stored (j + 1 + s) := fun s h => by
        have next := chars (s + 1) (by simpa using h)
        rw [List.getElem_cons_succ] at next
        rw [next, show j + (s + 1) = j + 1 + s by omega]
      rw [List.length_cons, show j + (ss.length + 1) = j + 1 + ss.length by omega]
      rcases state with ⟨more, rfl, inside⟩ | ⟨ended, rfl, beyond⟩
      · by_cases full : MAX_LFN ≤ i
        · refine ⟨none, lfnbuf, by rw [pickLoop, if_pos more, if_pos full], iff_of_true rfl (by omega), ?_,
            fun k => (if_neg (by omega)).symm⟩
          intro i' none
          exact absurd none (by simp)
        · have next : name.stored i ≠ 0 ∧ i + 1 = i + 1 ∧ i + 1 ≤ name.chars.length ∨
              name.stored i = 0 ∧ i + 1 = name.chars.length + 1 ∧ name.chars.length < i + 1 := by
            rcases Nat.lt_or_eq_of_le inside with inside | ends
            · exact .inl ⟨LongName.stored_ne_zero inside, rfl, inside⟩
            · exact .inr ⟨ends ▸ LongName.stored_end, by omega, by omega⟩
          obtain ⟨end', lfnbuf', eq, none, last, content⟩ := ih (Function.update lfnbuf i (name.stored i)) rest next
          refine ⟨end', lfnbuf', by rw [pickLoop, if_pos more, if_neg full, char]; exact eq,
            none.trans (by omega), last, fun k => ?_⟩
          rw [content k]
          by_cases here : k = i
          · subst here
            rw [if_neg (by omega), Function.update_self, if_pos (by omega)]
          · rw [Function.update_of_ne here]
            congr 1
            exact propext (by omega)
      · obtain ⟨end', lfnbuf', eq, none, last, content⟩ := ih lfnbuf rest (.inr ⟨ended, rfl, by omega⟩)
        refine ⟨end', lfnbuf', ?_, none.trans (by omega), last, fun k => ?_⟩
        · rw [pickLoop, if_neg (not_not.mpr ended), char, LongName.stored_filler beyond, if_neg (by decide)]
          exact eq
        · rw [content k, if_neg (by omega), if_neg (by omega)]

/-- `pick_lfn`: it fails exactly at the last part of a name of which the end does not fit into the buffer. Else the
characters of the part are in the buffer, with the end of the name behind the last one. -/
theorem pickLfn_spec (lfnbuf : Nat → BitVec 16) (part : IsPart name sum n dir) (first : 1 ≤ n) (last : n ≤ name.parts) :
    ((pickLfn lfnbuf dir).1 = true ↔ (n = name.parts → name.chars.length + 1 < MAX_LFN)) ∧
      ((pickLfn lfnbuf dir).1 = true → ∀ k ≤ name.chars.length, 13 * (n - 1) ≤ k →
        (pickLfn lfnbuf dir).2 k = if n = name.parts ∨ k < 13 * n then name.stored k else lfnbuf k) := by
  obtain ⟨below, above, most⟩ := name.parts_bounds
  have short := name.short
  have limit : MAX_LFN = 255 := rfl
  have offset := (ord_offset n (by omega) first _ part.ord_mem).2
  have length : LfnOfs.length = 13 := rfl
  have begins : (1 : BitVec 16) ≠ 0 ∧ 13 * (n - 1) = 13 * (n - 1) ∧ 13 * (n - 1) ≤ name.chars.length ∨
      (1 : BitVec 16) = 0 ∧ 13 * (n - 1) = name.chars.length + 1 ∧ name.chars.length < 13 * (n - 1) :=
    .inl ⟨by decide, rfl, by omega⟩
  obtain ⟨end', lfnbuf', eq, none, ends, content⟩ := pickLoop_spec lfnbuf part.chars begins
  rw [length] at none ends content
  have mark := part.last_iff last
  have read : pickLfn lfnbuf dir = match (end', lfnbuf') with
      | (.none, lfnbuf) => (false, lfnbuf)
      | (.some i, lfnbuf) =>
          if dir (eofs LDIR_Ord) &&& LLE ≠ 0 then
            if MAX_LFN ≤ i then (false, lfnbuf) else (true, Function.update lfnbuf i 0)
          else (true, lfnbuf) := by
    rw [pickLfn, lfnOffset, offset, eq]
  rw [read]
  cases end' with
  | none =>
      have full := none.mp rfl
      exact ⟨iff_of_false (by simp) fun fits => absurd (fits (by omega)) (by omega), fun yes => absurd yes (by simp)⟩
  | some i =>
      have place := ends i rfl
      have fits := mt none.mpr (by simp)
      simp only [mark]
      by_cases same : n = name.parts
      · rw [if_pos same]
        by_cases full : MAX_LFN ≤ i
        · rw [if_pos full]
          exact ⟨iff_of_false (by simp) fun room => absurd (room same) (by omega), fun yes => absurd yes (by simp)⟩
        · rw [if_neg full]
          refine ⟨iff_of_true rfl fun _ => by omega, fun _ k within low => ?_⟩
          rw [if_pos (.inl same)]
          by_cases here : k = i
          · subst here
            refine (Function.update_self k 0 lfnbuf').trans ?_
            rw [show k = name.chars.length by omega, LongName.stored_end]
          · refine (Function.update_of_ne here 0 lfnbuf').trans ?_
            rw [content k, if_pos (by omega)]
      · rw [if_neg same]
        refine ⟨iff_of_true rfl fun again => absurd again same, fun _ k within low => ?_⟩
        refine (content k).trans ?_
        by_cases here : k < 13 * n
        · rw [if_pos (by omega), if_pos (.inr here)]
        · rw [if_neg (by omega), if_neg (by omega)]

end

end Cineraria.Fat
