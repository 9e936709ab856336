import Mathlib.Data.List.GetD
import Mathlib.Data.List.Infix
import Mathlib.Tactic.SplitIfs
import Mathlib.Tactic.Common

/-!
# The names of the sound files

`getfilename.c`: `get_wavfilename` reads the directory entry by entry and returns the next name that ends in
".wav". The test of the ending, `check_extwav`, goes backwards from the last character for as long as the
characters match. Only the empty name is excluded before, so that the names "v", "av" and "wav" take it in front
of the string, to whatever stands there (`checkMeets_iff`, `listsWav_iff`).
-/

namespace Cineraria.Player

/-! ## The test of the ending -/

/-- The characters of a string up to its terminator. -/
structure Name where
  text : List (BitVec 8)
  terminated : ∀ b ∈ text, b ≠ 0
  deriving DecidableEq

/-- A string in the memory. `before k` is the byte `k + 1` places in front of its first character. -/
structure CString extends Name where
  before : Nat → BitVec 8

/-- `fn[i]`, up to the terminator. -/
def CString.byteAt (fn : CString) (i : Int) : BitVec 8 :=
  if i < 0 then fn.before (-i - 1).toNat else fn.text.getD i.toNat 0

/-- What `check_extwav` returns, and what it reads after `strlen`. -/
structure Checked where
  result : Int
  reads : List Int
  deriving DecidableEq, Repr

/-- `check_extwav` -/
def checkExtwav (fn : CString) : Checked :=
  let i : Int := fn.text.length
  if i = 0 then ⟨0, []⟩
  else
    let fn0 := i - 1
    if fn.byteAt fn0 ≠ 0x76 ∧ fn.byteAt fn0 ≠ 0x56 then ⟨0, [fn0]⟩
    else
      let fn1 := fn0 - 1
      if fn.byteAt fn1 ≠ 0x61 ∧ fn.byteAt fn1 ≠ 0x41 then ⟨0, [fn0, fn1]⟩
      else
        let fn2 := fn1 - 1
        if fn.byteAt fn2 ≠ 0x77 ∧ fn.byteAt fn2 ≠ 0x57 then ⟨0, [fn0, fn1, fn2]⟩
        else
          let fn3 := fn2 - 1
          if fn.byteAt fn3 ≠ 0x2e then ⟨0, [fn0, fn1, fn2, fn3]⟩
          else ⟨1, [fn0, fn1, fn2, fn3]⟩

/-- A character in lower case. -/
def toLower (c : BitVec 8) : BitVec 8 := if 0x41 ≤ c ∧ c ≤ 0x5a then c + 0x20 else c

/-- ".wav" -/
def dotWav : List (BitVec 8) := [0x2e, 0x77, 0x61, 0x76]

/-- A text ends in ".wav", in either case. -/
def EndsInWav (text : List (BitVec 8)) : Prop := dotWav <:+ text.map toLower

instance (text : List (BitVec 8)) : Decidable (EndsInWav text) :=
  inferInstanceAs (Decidable (dotWav <:+ text.map toLower))

/-- The texts that match the ending without reaching its beginning. -/
def PartOfWav (text : List (BitVec 8)) : Prop :=
  text.map toLower = [0x76] ∨ text.map toLower = [0x61, 0x76] ∨ text.map toLower = [0x77, 0x61, 0x76]

instance (text : List (BitVec 8)) : Decidable (PartOfWav text) := inferInstanceAs (Decidable (_ ∨ _ ∨ _))

/-- The test stays inside the string and tells whether it ends in ".wav". -/
def CheckMeets (fn : CString) : Prop :=
  (∀ i ∈ (checkExtwav fn).reads, 0 ≤ i ∧ i ≤ fn.text.length) ∧
    ((checkExtwav fn).result = 1 ↔ EndsInWav fn.text)

/-! ### Characters -/

theorem toLower_v (c : BitVec 8) : toLower c = 0x76 ↔ c = 0x76 ∨ c = 0x56 := by
  revert c
  decide +kernel

theorem toLower_a (c : BitVec 8) : toLower c = 0x61 ↔ c = 0x61 ∨ c = 0x41 := by
  revert c
  decide +kernel

theorem toLower_w (c : BitVec 8) : toLower c = 0x77 ↔ c = 0x77 ∨ c = 0x57 := by
  revert c
  decide +kernel

theorem toLower_dot (c : BitVec 8) : toLower c = 0x2e ↔ c = 0x2e := by
  revert c
  decide +kernel

/-- A text that ends in ".wav" has its four characters. -/
theorem EndsInWav.length_le {text : List (BitVec 8)} (ends : EndsInWav text) : 4 ≤ text.length := by
  have bound := List.IsSuffix.length_le ends
  simpa [dotWav] using bound

/-- The ending, from the last character on. -/
theorem endsInWav_iff_reverse (text : List (BitVec 8)) :
    EndsInWav text ↔ [0x76, 0x61, 0x77, 0x2e] <+: text.reverse.map toLower := by
  rw [EndsInWav, ← List.reverse_prefix, List.map_reverse]
  rfl

theorem endsInWav_of_reverse {text rest : List (BitVec 8)} {c₀ c₁ c₂ c₃ : BitVec 8}
    (shape : text.reverse = c₀ :: c₁ :: c₂ :: c₃ :: rest) :
    EndsInWav text ↔ toLower c₀ = 0x76 ∧ toLower c₁ = 0x61 ∧ toLower c₂ = 0x77 ∧ toLower c₃ = 0x2e := by
  rw [endsInWav_iff_reverse, shape]
  simp only [List.map_cons, List.cons_prefix_cons, List.nil_prefix, and_true]
  constructor
  · rintro ⟨h₀, h₁, h₂, h₃⟩
    exact ⟨h₀.symm, h₁.symm, h₂.symm, h₃.symm⟩
  · rintro ⟨h₀, h₁, h₂, h₃⟩
    exact ⟨h₀.symm, h₁.symm, h₂.symm, h₃.symm⟩

/-- The bytes that the test goes through: those of the string from its end on, and three in front of it. -/
def CString.backwards (fn : CString) : List (BitVec 8) :=
  fn.text.reverse ++ [fn.before 0, fn.before 1, fn.before 2]

/-- The string and the three bytes in front of it. -/
def CString.withFront (fn : CString) : List (BitVec 8) :=
  [fn.before 2, fn.before 1, fn.before 0] ++ fn.text

theorem reverse_withFront (fn : CString) : fn.withFront.reverse = fn.backwards := by
  simp [CString.withFront, CString.backwards]

theorem byteAt_backwards (fn : CString) {k : Nat} (near : k < fn.text.length + 3) :
    fn.byteAt (fn.text.length - 1 - k) = fn.backwards.getD k 0 := by
  rw [CString.byteAt, CString.backwards]
  by_cases inside : k < fn.text.length
  · have mirrored : fn.text.reverse.getD k 0 = fn.text[fn.text.length - 1 - k] := by
      rw [List.getD_eq_getElem _ _ (by simpa using inside), List.getElem_reverse]
    rw [if_neg (by omega), List.getD_append _ _ _ _ (by simpa using inside), mirrored,
      show ((fn.text.length : Int) - 1 - k).toNat = fn.text.length - 1 - k by omega]
    exact List.getD_eq_getElem _ _ (by omega)
  · rw [if_pos (by omega), List.getD_append_right _ _ _ _ (by simpa using inside), List.length_reverse]
    obtain ⟨d, rfl⟩ := Nat.exists_eq_add_of_le (Nat.not_lt.mp inside)
    rw [show (-((fn.text.length : Int) - 1 - ((fn.text.length + d : Nat) : Int)) - 1).toNat = d by omega,
      Nat.add_sub_cancel_left]
    obtain rfl | rfl | rfl : d = 0 ∨ d = 1 ∨ d = 2 := by omega
    · rfl
    · rfl
    · rfl

/-- The last four bytes that the test can see. -/
theorem exists_backwards {fn : CString} (some : fn.text ≠ []) :
    ∃ c₀ c₁ c₂ c₃ rest, fn.backwards = c₀ :: c₁ :: c₂ :: c₃ :: rest ∧
      fn.byteAt (fn.text.length - 1) = c₀ ∧ fn.byteAt (fn.text.length - 1 - 1) = c₁ ∧
      fn.byteAt (fn.text.length - 1 - 1 - 1) = c₂ ∧ fn.byteAt (fn.text.length - 1 - 1 - 1 - 1) = c₃ := by
  have positive : 0 < fn.text.length := List.length_pos_of_ne_nil some
  have size : fn.backwards.length = fn.text.length + 3 := by simp [CString.backwards]
  have read : ∀ (k : Nat) (i : Int), k < 4 → i = fn.text.length - 1 - k →
      fn.byteAt i = fn.backwards.getD k 0 := by
    rintro k i near rfl
    exact byteAt_backwards fn (by omega)
  have read₀ := read 0 (fn.text.length - 1) (by decide) (by omega)
  have read₁ := read 1 (fn.text.length - 1 - 1) (by decide) (by omega)
  have read₂ := read 2 (fn.text.length - 1 - 1 - 1) (by decide) (by omega)
  have read₃ := read 3 (fn.text.length - 1 - 1 - 1 - 1) (by decide) (by omega)
  match shape : fn.backwards with
  | c₀ :: c₁ :: c₂ :: c₃ :: rest =>
      rw [shape] at read₀ read₁ read₂ read₃
      exact ⟨c₀, c₁, c₂, c₃, rest, rfl, read₀, read₁, read₂, read₃⟩
  | [] | [_] | [_, _] | [_, _, _] =>
      rw [shape] at size
      simp only [List.length_cons, List.length_nil] at size
      omega

/-- The test tells whether the string ends in ".wav" together with what stands in front of it. -/
theorem result_iff (fn : CString) :
    (checkExtwav fn).result = 1 ↔ EndsInWav fn.withFront := by
  by_cases none : fn.text = []
  · have short : ¬ EndsInWav fn.withFront := by
      intro ends
      have bound := ends.length_le
      simp [CString.withFront, none] at bound
    simp [checkExtwav, none, short]
  · obtain ⟨c₀, c₁, c₂, c₃, rest, shape, read₀, read₁, read₂, read₃⟩ := exists_backwards none
    have positive : ¬ ((fn.text.length : Int) = 0) := by
      have := List.length_pos_of_ne_nil none
      omega
    rw [endsInWav_of_reverse ((reverse_withFront fn).trans shape), toLower_v, toLower_a, toLower_w, toLower_dot]
    simp only [checkExtwav, if_neg positive, read₀, read₁, read₂, read₃]
    split_ifs with h₀ h₁ h₂ h₃
    · exact iff_of_false Int.zero_ne_one fun all => not_or.mpr h₀ all.1
    · exact iff_of_false Int.zero_ne_one fun all => not_or.mpr h₁ all.2.1
    · exact iff_of_false Int.zero_ne_one fun all => not_or.mpr h₂ all.2.2.1
    · exact iff_of_false Int.zero_ne_one fun all => h₃ all.2.2.2
    · exact iff_of_true rfl ⟨or_iff_not_and_not.mpr h₀, or_iff_not_and_not.mpr h₁, or_iff_not_and_not.mpr h₂,
        not_not.mp h₃⟩

/-- A text is a part of ".wav" if its characters match it from the end on, and it is too short for the dot. -/
theorem partOfWav_iff {fn : CString} {c₀ c₁ c₂ c₃ : BitVec 8} {rest : List (BitVec 8)}
    (shape : fn.backwards = c₀ :: c₁ :: c₂ :: c₃ :: rest) :
    PartOfWav fn.text ↔
      fn.text.length = 1 ∧ toLower c₀ = 0x76 ∨
      fn.text.length = 2 ∧ toLower c₀ = 0x76 ∧ toLower c₁ = 0x61 ∨
      fn.text.length = 3 ∧ toLower c₀ = 0x76 ∧ toLower c₁ = 0x61 ∧ toLower c₂ = 0x77 := by
  rw [CString.backwards] at shape
  rw [PartOfWav]
  match texts : fn.text with
  | [] => simp
  | [a] =>
      rw [texts] at shape
      obtain ⟨rfl, -⟩ : a = c₀ ∧ _ := by simpa using shape
      simp
  | [b, a] =>
      rw [texts] at shape
      obtain ⟨rfl, rfl, -⟩ : a = c₀ ∧ b = c₁ ∧ _ := by simpa using shape
      simp [and_comm]
  | [c, b, a] =>
      rw [texts] at shape
      obtain ⟨rfl, rfl, rfl, -⟩ : a = c₀ ∧ b = c₁ ∧ c = c₂ ∧ _ := by simpa using shape
      simp [and_comm, and_assoc]
  | d :: c :: b :: a :: more => simp

/-- The test leaves the string exactly at a part of ".wav". -/
theorem reads_inside_iff (fn : CString) :
    (∀ i ∈ (checkExtwav fn).reads, 0 ≤ i ∧ i ≤ fn.text.length) ↔ ¬ PartOfWav fn.text := by
  by_cases none : fn.text = []
  · simp [checkExtwav, none, PartOfWav]
  · obtain ⟨c₀, c₁, c₂, c₃, rest, shape, read₀, read₁, read₂, read₃⟩ := exists_backwards none
    have positive := List.length_pos_of_ne_nil none
    have some : ¬ ((fn.text.length : Int) = 0) := by omega
    rw [partOfWav_iff shape, toLower_v, toLower_a, toLower_w]
    simp only [checkExtwav, if_neg some, read₀, read₁, read₂]
    split_ifs with h₀ h₁ h₂ h₃
    all_goals simp only [List.forall_mem_cons, List.not_mem_nil, false_implies, implies_true, and_true]
    all_goals grind

/-- In front of a string of four characters or more nothing matters. -/
theorem endsInWav_append {text : List (BitVec 8)} (front : List (BitVec 8)) (long : 4 ≤ text.length) :
    EndsInWav (front ++ text) ↔ EndsInWav text := by
  rw [EndsInWav, EndsInWav, List.map_append]
  constructor
  · intro ends
    exact List.suffix_of_suffix_length_le ends (List.suffix_append _ _) (by simpa [dotWav] using long)
  · intro ends
    exact ends.trans (List.suffix_append _ _)

/-- A shorter text is completed by what stands in front of it only if it is a part of ".wav". -/
theorem partOfWav_of_completed {fn : CString} (short : fn.text.length < 4)
    (completed : (checkExtwav fn).result = 1) : PartOfWav fn.text := by
  rw [result_iff] at completed
  by_cases none : fn.text = []
  · have bound := completed.length_le
    simp [CString.withFront, none] at bound
  · obtain ⟨c₀, c₁, c₂, c₃, rest, shape, -⟩ := exists_backwards none
    have positive := List.length_pos_of_ne_nil none
    obtain ⟨h₀, h₁, h₂, -⟩ := (endsInWav_of_reverse ((reverse_withFront fn).trans shape)).mp completed
    rw [partOfWav_iff shape]
    obtain one | two | three : fn.text.length = 1 ∨ fn.text.length = 2 ∨ fn.text.length = 3 := by omega
    · exact .inl ⟨one, h₀⟩
    · exact .inr (.inl ⟨two, h₀, h₁⟩)
    · exact .inr (.inr ⟨three, h₀, h₁, h₂⟩)

/-- Where the test stays inside the string, it tells whether that ends in ".wav". -/
theorem result_iff_of_inside {fn : CString} (inside : ¬ PartOfWav fn.text) :
    (checkExtwav fn).result = 1 ↔ EndsInWav fn.text := by
  rcases Nat.lt_or_ge fn.text.length 4 with short | long
  · constructor
    · intro completed
      exact absurd (partOfWav_of_completed short completed) inside
    · intro ends
      exact absurd ends.length_le (by omega)
  · rw [result_iff]
    exact endsInWav_append _ long

/-- The test does what it should for every string but the parts of ".wav" without the dot. -/
theorem checkMeets_iff (fn : CString) : CheckMeets fn ↔ ¬ PartOfWav fn.text := by
  rw [CheckMeets, reads_inside_iff]
  constructor
  · exact fun meets => meets.1
  · exact fun inside => ⟨inside, result_iff_of_inside inside⟩

/-- The name "wav" behind a dot: the dot is read in front of the string, and the name is accepted. -/
theorem checkExtwav_wav :
    let fn : CString := ⟨⟨[0x77, 0x61, 0x76], by decide⟩, fun _ => 0x2e⟩
    checkExtwav fn = ⟨1, [2, 1, 0, -1]⟩ ∧ ¬ EndsInWav fn.text ∧ ¬ CheckMeets fn := by
  refine ⟨by decide, by decide, ?_⟩
  rintro ⟨inside, -⟩
  exact absurd (inside (-1) (by decide)) (by decide)

/-! ## The directory -/

/-- `AM_DIR` -/
def amDir : BitVec 8 := 0x10

/-- The object `fatfs_fno` and the buffer `fslfn` as `f_readdir` leaves them, with the memory in front of each. The
long name is empty where the entry has none. -/
structure Filinfo where
  fsize : BitVec 32
  fdate : BitVec 16
  ftime : BitVec 16
  fattrib : BitVec 8
  fname : Name
  lfname : Name
  beforeFno : Nat → BitVec 8
  beforeFslfn : Nat → BitVec 8

/-- The members in front of `fname`, from the last one on. -/
def Filinfo.beforeFname (fno : Filinfo) : Nat → BitVec 8
  | 0 => fno.fattrib
  | 1 => fno.ftime.extractLsb' 8 8
  | 2 => fno.ftime.extractLsb' 0 8
  | 3 => fno.fdate.extractLsb' 8 8
  | 4 => fno.fdate.extractLsb' 0 8
  | 5 => fno.fsize.extractLsb' 24 8
  | 6 => fno.fsize.extractLsb' 16 8
  | 7 => fno.fsize.extractLsb' 8 8
  | 8 => fno.fsize.extractLsb' 0 8
  | k + 9 => fno.beforeFno k

/-- `*fatfs_fno.lfname ? fatfs_fno.lfname : fatfs_fno.fname` -/
def Filinfo.fn (fno : Filinfo) : CString :=
  if fno.lfname.text ≠ [] then { fno.lfname with before := fno.beforeFslfn }
  else { fno.fname with before := fno.beforeFname }

/-- What a call of `f_readdir` comes back with. -/
inductive Readdir where
  | error
  | ok (fno : Filinfo)

/-- `open_wavdir`, for what `f_opendir` finds: an error, or a directory with the calls of `f_readdir` that
it is good for before the empty name. -/
def openWavdir (opendir : Option (List Readdir)) : Int × Option (List Readdir) :=
  match opendir with
  | none => (-1, none)
  | some dir => (0, some dir)

/-- `get_wavfilename`: the name that it returns, if any, and what is left of the directory. -/
def getWavfilename : List Readdir → Option Name × List Readdir
  | [] => (none, [])
  | .error :: rest => (none, rest)
  | .ok fno :: rest =>
      if fno.fname.text = [] then (none, rest)
      else if fno.fname.text.head? = some 0x2e then getWavfilename rest
      else if fno.fattrib &&& amDir ≠ 0 then getWavfilename rest
      else if (checkExtwav fno.fn).result = 0 then getWavfilename rest
      else (some fno.fn.toName, rest)

/-- What repeated calls return. -/
def calls : Nat → List Readdir → List (Option Name)
  | 0, _ => []
  | k + 1, dir => (getWavfilename dir).1 :: calls k (getWavfilename dir).2

/-- The entries that may be listed: no directories, and no short name that begins with a dot. -/
def Regular (fno : Filinfo) : Prop := fno.fname.text.head? ≠ some 0x2e ∧ fno.fattrib &&& amDir = 0

instance (fno : Filinfo) : Decidable (Regular fno) := inferInstanceAs (Decidable (_ ∧ _))

/-- The names to be listed. -/
def wavNames (es : List Filinfo) : List Name :=
  (es.filter fun fno => Regular fno ∧ EndsInWav fno.fn.text).map fun fno => fno.fn.toName

/-- Repeated calls list the names in order and then return nothing, and nothing is returned after an error. -/
def ListsWav (es : List Filinfo) : Prop :=
  (∃ dir, openWavdir (some (es.map .ok)) = (0, some dir) ∧
    ∀ k, calls k dir = ((wavNames es).map some ++ List.replicate k none).take k) ∧
  ∀ rest, ∃ dir, openWavdir (some (es.map .ok ++ .error :: rest)) = (0, some dir) ∧
    calls ((wavNames es).length + 1) dir = (wavNames es).map some ++ [none]

/-- The name is a part of ".wav" that what stands in front of it completes. -/
def Completed (fno : Filinfo) : Prop := PartOfWav fno.fn.text ∧ EndsInWav fno.fn.withFront

instance (fno : Filinfo) : Decidable (Completed fno) := inferInstanceAs (Decidable (_ ∧ _))

/-! ### Entries -/

/-- An entry that the function returns. -/
def Accepted (fno : Filinfo) : Prop := Regular fno ∧ EndsInWav fno.fn.withFront

instance (fno : Filinfo) : Decidable (Accepted fno) := inferInstanceAs (Decidable (_ ∧ _))

/-- An entry that the function should return. -/
def Wanted (fno : Filinfo) : Prop := Regular fno ∧ EndsInWav fno.fn.text

instance (fno : Filinfo) : Decidable (Wanted fno) := inferInstanceAs (Decidable (_ ∧ _))

theorem accepted_of_wanted {fno : Filinfo} (wanted : Wanted fno) : Accepted fno := by
  refine ⟨wanted.1, wanted.2.trans ?_⟩
  rw [CString.withFront, List.map_append]
  exact List.suffix_append _ _

theorem PartOfWav.length_le {text : List (BitVec 8)} (part : PartOfWav text) : text.length ≤ 3 := by
  rcases part with same | same | same
  all_goals
    have size := congrArg List.length same
    simp only [List.length_map, List.length_cons, List.length_nil] at size
    omega

/-- The entries that are accepted are the wanted ones, and those whose name is completed. -/
theorem accepted_iff (fno : Filinfo) : Accepted fno ↔ Wanted fno ∨ Regular fno ∧ Completed fno := by
  constructor
  · rintro ⟨regular, ends⟩
    by_cases part : PartOfWav fno.fn.text
    · exact .inr ⟨regular, part, ends⟩
    · exact .inl ⟨regular, (result_iff_of_inside part).mp ((result_iff _).mpr ends)⟩
  · rintro (wanted | ⟨regular, completed⟩)
    · exact accepted_of_wanted wanted
    · exact ⟨regular, completed.2⟩

theorem not_completed_of_wanted {fno : Filinfo} (wanted : Wanted fno) : ¬ Completed fno := by
  intro completed
  have long := wanted.2.length_le
  have short := completed.1.length_le
  omega

/-! ### One call -/

/-- The test returns zero or one. -/
theorem result_ne_zero (fn : CString) : (checkExtwav fn).result ≠ 0 ↔ (checkExtwav fn).result = 1 := by
  simp only [checkExtwav]
  split_ifs <;> simp

theorem getWavfilename_accepted {fno : Filinfo} (named : fno.fname.text ≠ []) (accepted : Accepted fno)
    (rest : List Readdir) : getWavfilename (.ok fno :: rest) = (some fno.fn.toName, rest) := by
  obtain ⟨⟨noDot, noDir⟩, ends⟩ := accepted
  have passes : (checkExtwav fno.fn).result ≠ 0 := (result_ne_zero _).mpr ((result_iff _).mpr ends)
  rw [getWavfilename, if_neg named, if_neg noDot, if_neg (by simpa using noDir), if_neg passes]

theorem getWavfilename_skipped {fno : Filinfo} (named : fno.fname.text ≠ []) (skipped : ¬ Accepted fno)
    (rest : List Readdir) : getWavfilename (.ok fno :: rest) = getWavfilename rest := by
  rw [getWavfilename, if_neg named]
  split_ifs with dot directory fails
  · rfl
  · rfl
  · rfl
  · refine absurd ⟨⟨dot, ?_⟩, ?_⟩ skipped
    · simpa using directory
    · exact (result_iff _).mp ((result_ne_zero _).mp fails)

/-! ### Repeated calls -/

theorem calls_nil (k : Nat) : calls k [] = List.replicate k none := by
  induction k with
  | zero => rfl
  | succ k ih =>
      rw [calls, List.replicate_succ]
      exact congrArg (none :: ·) ih

theorem calls_congr {dir dir' : List Readdir} (same : getWavfilename dir = getWavfilename dir') (k : Nat) :
    calls k dir = calls k dir' := by
  cases k with
  | zero => rfl
  | succ k => rw [calls, calls, same]

theorem take_calls (k m : Nat) (dir : List Readdir) : (calls (k + m) dir).take k = calls k dir := by
  induction k generalizing dir with
  | zero => rfl
  | succ k ih => rw [Nat.succ_add, calls, calls, List.take_succ_cons, ih]

/-- The names of the accepted entries. -/
def acceptedNames (es : List Filinfo) : List Name := (es.filter Accepted).map fun fno => fno.fn.toName

/-- The calls return the accepted entries, one after the other, and then what the rest of the directory
gives. -/
theorem calls_entries {es : List Filinfo} (named : ∀ fno ∈ es, fno.fname.text ≠ []) (rest : List Readdir)
    (k : Nat) :
    calls ((acceptedNames es).length + k) (es.map .ok ++ rest) = (acceptedNames es).map some ++ calls k rest := by
  induction es with
  | nil => simp [acceptedNames]
  | cons fno es ih =>
      have later := ih fun fno member => named fno (List.mem_cons_of_mem _ member)
      have here := named fno List.mem_cons_self
      by_cases accepted : Accepted fno
      · have head : acceptedNames (fno :: es) = fno.fn.toName :: acceptedNames es := by
          rw [acceptedNames, List.filter_cons_of_pos (by simpa using accepted)]
          rfl
        rw [head, List.length_cons, Nat.succ_add, calls, List.map_cons, List.cons_append,
          getWavfilename_accepted here accepted, later]
        rfl
      · have head : acceptedNames (fno :: es) = acceptedNames es := by
          rw [acceptedNames, List.filter_cons_of_neg (by simpa using accepted)]
          rfl
        rw [head, List.map_cons, List.cons_append, ← later]
        exact calls_congr (getWavfilename_skipped here accepted _) _

theorem calls_directory {es : List Filinfo} (named : ∀ fno ∈ es, fno.fname.text ≠ []) (k : Nat) :
    calls k (es.map .ok) = ((acceptedNames es).map some ++ List.replicate k none).take k := by
  have whole := calls_entries named [] k
  rw [List.append_nil, calls_nil] at whole
  rw [← whole, Nat.add_comm, take_calls]

theorem calls_error {es : List Filinfo} (named : ∀ fno ∈ es, fno.fname.text ≠ []) (rest : List Readdir) :
    calls ((acceptedNames es).length + 1) (es.map .ok ++ .error :: rest) =
      (acceptedNames es).map some ++ [none] :=
  calls_entries named (.error :: rest) 1

/-! ### Whole directories -/

/-- If as many names are accepted as are wanted, every accepted entry is wanted. -/
theorem wanted_of_length {es : List Filinfo} (same : (acceptedNames es).length ≤ (wavNames es).length)
    {fno : Filinfo} (member : fno ∈ es) (accepted : Accepted fno) : Wanted fno := by
  have sub : (es.filter Wanted).Sublist (es.filter Accepted) :=
    List.monotone_filter_right es fun fno wanted => by
      simpa using accepted_of_wanted (by simpa using wanted)
  rw [acceptedNames, List.length_map, wavNames, List.length_map] at same
  have equal := sub.eq_of_length_le same
  have inside : fno ∈ es.filter Accepted := List.mem_filter.mpr ⟨member, by simpa using accepted⟩
  rw [← equal] at inside
  simpa using (List.mem_filter.mp inside).2

theorem acceptedNames_eq {es : List Filinfo} (clean : ∀ fno ∈ es, Regular fno → ¬ Completed fno) :
    acceptedNames es = wavNames es := by
  rw [acceptedNames, wavNames]
  congr 1
  apply List.filter_congr
  intro fno member
  rw [decide_eq_decide, accepted_iff]
  exact or_iff_left fun both => clean fno member both.1 both.2

/-- Two lists of names, each followed by nothing: as long as the first goes on, so does the second. -/
theorem length_le_of_take {α : Type} {a b : List α}
    (same : (a.map some ++ List.replicate a.length none).take a.length =
      (b.map some ++ List.replicate a.length none).take a.length) : a.length ≤ b.length := by
  by_contra shorter
  have inside : b.length < a.length := Nat.lt_of_not_le shorter
  have there := congrArg (·[b.length]?) same
  rw [List.take_left' (List.length_map _)] at there
  simp only [List.getElem?_take_of_lt inside] at there
  rw [List.getElem?_append_right (by simp), List.length_map, Nat.sub_self, List.getElem?_map,
    List.getElem?_eq_getElem inside, List.getElem?_replicate_of_lt (by omega)] at there
  simp at there

/-- The names are listed as they should be exactly if no regular entry has a name "v", "av" or "wav" that what
stands in front of it in the memory completes to ".wav". -/
theorem listsWav_iff (es : List Filinfo) (named : ∀ fno ∈ es, fno.fname.text ≠ []) :
    ListsWav es ↔ ∀ fno ∈ es, Regular fno → ¬ Completed fno := by
  constructor
  · rintro ⟨⟨dir, opened, lists⟩, -⟩ fno member regular completed
    obtain rfl : es.map .ok = dir := by simpa [openWavdir] using opened
    have long := lists (acceptedNames es).length
    rw [calls_directory named] at long
    have accepted : Accepted fno := ⟨regular, completed.2⟩
    exact not_completed_of_wanted (wanted_of_length (length_le_of_take long) member accepted) completed
  · intro clean
    have same := acceptedNames_eq clean
    refine ⟨⟨_, rfl, fun k => ?_⟩, fun rest => ⟨_, rfl, ?_⟩⟩
    · rw [calls_directory named, same]
    · rw [← same]
      exact calls_error named rest

/-- A directory with two sound files, one of them by its short name, and a third file. -/
def soundDirectory : List Filinfo :=
  let name (text : List (BitVec 8)) (terminated : ∀ b ∈ text, b ≠ 0) : Name := ⟨text, terminated⟩
  let entry (fname lfname : Name) : Filinfo := ⟨0, 0, 0, 0x20, fname, lfname, fun _ => 0, fun _ => 0⟩
  [entry (name [0x41, 0x2e, 0x57, 0x41, 0x56] (by decide)) (name [] (by decide)),
    entry (name [0x57, 0x41, 0x56] (by decide)) (name [] (by decide)),
    entry (name [0x42, 0x7e, 0x31, 0x2e, 0x57, 0x41, 0x56] (by decide))
      (name [0x62, 0x20, 0x62, 0x2e, 0x77, 0x61, 0x76] (by decide))]

theorem listsWav_iff_soundDirectory : ListsWav soundDirectory ∧ (wavNames soundDirectory).length = 2 :=
  ⟨(listsWav_iff soundDirectory (by decide)).mpr (by decide), by decide⟩

/-- The file "V", with a reserved attribute bit set and written at 10:57:28: the members in front of `fname`
spell ".WA". -/
def fileV : Filinfo where
  fsize := 0
  fdate := 0
  ftime := 0x572e
  fattrib := 0x41
  fname := ⟨[0x56], by decide⟩
  lfname := ⟨[], by decide⟩
  beforeFno := fun _ => 0
  beforeFslfn := fun _ => 0

theorem getWavfilename_fileV :
    (getWavfilename [.ok fileV]).1 = some fileV.fname ∧ ¬ EndsInWav fileV.fname.text ∧ ¬ ListsWav [fileV] := by
  refine ⟨by decide, by decide, ?_⟩
  rintro ⟨⟨dir, opened, lists⟩, -⟩
  obtain rfl : [Readdir.ok fileV] = dir := by simpa [openWavdir] using opened
  exact absurd (lists 1) (by decide)

end Cineraria.Player
