import Cineraria.Mmcfs.AccessMode
import Cineraria.Mmcfs.FatFs

/-!
# Writing to a file opened with `O_APPEND`

`dev_mmcfs_open` turns `O_APPEND` into `FA_OPEN_ALWAYS`, which keeps the content of the file and sets
the file pointer to its beginning. No function moves it to the end, so the writes go over what the file
held (`appends_iff`).
-/

namespace Cineraria.FatFs

open Mmcfs

/-- `dev_mmcfs_write`; `slot` is where `fd->priv` points. The length is an `int`, so that the number of
bytes written is one as well. -/
def devMmcfsWrite (ptr : List (BitVec 8)) (slot : Nat) (fs : Volume) (d : Driver Fil) :
    Except Errno Nat × Volume × Driver Fil :=
  match fWrite ptr fs (d.devMmcfsTable slot) with
  | (res, writesize, fs, fp) =>
      let d := { d with devMmcfsTable := Function.update d.devMmcfsTable slot fp }
      match res with
      | .ok => (.ok writesize, fs, d)
      | .failed => (.error .eio, fs, d)

/-- A sequence of writes through one descriptor: the bytes that `dev_mmcfs_write` said it had written,
and what is left behind. -/
def devMmcfsWrites (slot : Nat) : List (List (BitVec 8)) → Volume → Driver Fil →
    List (BitVec 8) × Volume × Driver Fil
  | [], fs, d => ([], fs, d)
  | ptr :: ptrs, fs, d =>
      match devMmcfsWrite ptr slot fs d with
      | (.ok writesize, fs, d) =>
          let (written, fs, d) := devMmcfsWrites slot ptrs fs d
          (ptr.take writesize ++ written, fs, d)
      | (.error _, fs, d) => devMmcfsWrites slot ptrs fs d

/-- The content of the file of a slot. -/
def slotContent (slot : Nat) (d : Driver Fil) : List (BitVec 8) :=
  content (d.devMmcfsTable slot).fsize (d.devMmcfsTable slot).bytes

/-! ## One write -/

/-- A file whose content was `old` and has had `written` put over it from the beginning. -/
structure WrittenOver (old written : List (BitVec 8)) (fs : Volume) (fp : Fil) : Prop where
  ok : fp.Ok fs
  writable : fp.flag &&& FA_WRITE ≠ 0
  fptr : fp.fptr.toNat = written.length
  content : content fp.fsize fp.bytes = written ++ old.drop written.length

/-- A write puts its bytes after the ones written before. -/
theorem WrittenOver.write {old written ptr : List (BitVec 8)} {slot : Nat} {fs : Volume} {d : Driver Fil}
    (state : WrittenOver old written fs (d.devMmcfsTable slot)) (short : ptr.length < 2 ^ 31) :
    ∃ k fs' d', devMmcfsWrite ptr slot fs d = (.ok k, fs', d') ∧
      WrittenOver old (written ++ ptr.take k) fs' (d'.devMmcfsTable slot) ∧
      (d'.devMmcfsTable slot).fsize.toNat =
        max (d.devMmcfsTable slot).fsize.toNat (written ++ ptr.take k).length ∧
      (2 ^ 32 ≤ (d.devMmcfsTable slot).fsize.toNat + ptr.length → ptr.take k = []) ∧
      (ptr ≠ [] → (d.devMmcfsTable slot).fsize.toNat + ptr.length < 2 ^ 32 →
        written.length < (d.devMmcfsTable slot).fsize.toNat → ptr.take k ≠ []) := by
  obtain ⟨k, fs', fp', result, le, ok', fptr', fsize', bytes', flag', large, progress⟩ :=
    fWrite_spec state.ok state.writable (show ptr.length < 2 ^ 32 by omega)
  have slotFp : (Function.update d.devMmcfsTable slot fp') slot = fp' := Function.update_self _ _ _
  have length : (ptr.take k).length = k := List.length_take_of_le le
  have position : (written ++ ptr.take k).length = written.length + k := by
    rw [List.length_append, length]
  refine ⟨k, fs', { d with devMmcfsTable := Function.update d.devMmcfsTable slot fp' }, ?_, ?_, ?_, ?_, ?_⟩
  · simp only [devMmcfsWrite, result]
  · dsimp only
    rw [slotFp]
    refine ⟨ok', by rw [flag', and_write_written]; exact state.writable, ?_, ?_⟩
    · rw [fptr', state.fptr, position]
    · have inside := state.ok.inside
      have size : fp'.fsize.toNat = max (d.devMmcfsTable slot).fsize.toNat
          ((d.devMmcfsTable slot).fptr.toNat + (ptr.take k).length) := by
        rw [fsize', length]
      rw [bytes', content_store _ _ inside size, state.content, state.fptr, List.take_left, length, position,
        ← List.drop_drop, List.drop_left, List.drop_drop]
  · dsimp only
    rw [slotFp, fsize', state.fptr, position]
  · intro beyond
    rw [large beyond, List.take_zero]
  · intro more fits within none
    have linked : (d.devMmcfsTable slot).fptr.toNat / fs.bcs < (d.devMmcfsTable slot).clusters := by
      apply (Nat.div_lt_iff_lt_mul fs.bcs_pos).mpr
      apply Nat.lt_of_lt_of_le _ state.ok.placed.covered
      rw [state.fptr]
      exact within
    have some := progress more fits linked
    rw [none] at length
    rw [← length, List.length_nil] at some
    exact Nat.lt_irrefl 0 some

/-! ## A sequence of writes -/

/-- The writes put all their bytes over the content, from the beginning. -/
theorem WrittenOver.writes {old written : List (BitVec 8)} {slot : Nat} {fs : Volume} {d : Driver Fil}
    (ptrs : List (List (BitVec 8))) (short : ∀ ptr ∈ ptrs, ptr.length < 2 ^ 31)
    (state : WrittenOver old written fs (d.devMmcfsTable slot)) :
    slotContent slot (devMmcfsWrites slot ptrs fs d).2.2 =
      written ++ (devMmcfsWrites slot ptrs fs d).1 ++
        old.drop (written ++ (devMmcfsWrites slot ptrs fs d).1).length := by
  induction ptrs generalizing written fs d with
  | nil =>
      simp only [devMmcfsWrites, List.append_nil]
      exact state.content
  | cons ptr ptrs ih =>
      obtain ⟨k, fs', d', result, state', -⟩ := state.write (short ptr List.mem_cons_self)
      have rest := ih (fun ptr member => short ptr (List.mem_cons_of_mem _ member)) state'
      simp only [devMmcfsWrites, result]
      rw [rest, List.append_assoc written]

/-- From the beginning of a file that is not empty, nothing is written exactly if each write is of no
bytes or would make the file too long. -/
theorem WrittenOver.none_iff {old : List (BitVec 8)} {slot : Nat} {fs : Volume} {d : Driver Fil}
    (ptrs : List (List (BitVec 8))) (short : ∀ ptr ∈ ptrs, ptr.length < 2 ^ 31)
    (state : WrittenOver old [] fs (d.devMmcfsTable slot))
    (some : 0 < (d.devMmcfsTable slot).fsize.toNat) :
    (devMmcfsWrites slot ptrs fs d).1 = [] ↔
      ∀ ptr ∈ ptrs, ptr = [] ∨ 2 ^ 32 ≤ (d.devMmcfsTable slot).fsize.toNat + ptr.length := by
  induction ptrs generalizing fs d with
  | nil =>
      constructor
      · intro _ ptr member
        cases member
      · intro _
        rfl
  | cons ptr ptrs ih =>
      obtain ⟨k, fs', d', result, state', size, large, progress⟩ :=
        state.write (short ptr List.mem_cons_self)
      have short' : ∀ ptr ∈ ptrs, ptr.length < 2 ^ 31 :=
        fun ptr member => short ptr (List.mem_cons_of_mem _ member)
      simp only [devMmcfsWrites, result, List.append_eq_nil_iff, List.forall_mem_cons]
      by_cases nothing : ptr.take k = []
      · rw [nothing] at state' size
        simp only [List.append_nil, List.length_nil, Nat.max_zero] at state' size
        rw [ih short' state' (by rw [size]; exact some), size]
        constructor
        · rintro ⟨-, rest⟩
          refine ⟨?_, rest⟩
          by_contra neither
          rw [not_or, Nat.not_le] at neither
          exact progress neither.1 neither.2 some nothing
        · rintro ⟨-, rest⟩
          exact ⟨nothing, rest⟩
      · constructor
        · rintro ⟨none, -⟩
          exact absurd none nothing
        · rintro ⟨none | beyond, -⟩
          · rw [none, List.take_nil] at nothing
            exact absurd rfl nothing
          · exact absurd (large beyond) nothing

/-! ## Opening with `O_APPEND` -/

/-- The descriptor that `dev_mmcfs_open` gives with `O_APPEND` is at the beginning of the file. -/
theorem devMmcfsOpen_append {fs : Volume} {file : Entry} (ok : file.Ok fs) {flags : BitVec 32}
    (append : flags &&& O_APPEND ≠ 0) (writable : Writable flags) {fd fd' : AltFd} {d d' : Driver Fil}
    {slot : Nat} (opened : devMmcfsOpen (fOpen file) fd flags d = (.ok slot, fd', d')) :
    WrittenOver (content file.fsize file.bytes) [] fs (d'.devMmcfsTable slot) ∧
      (d'.devMmcfsTable slot).fsize = file.fsize := by
  have mode : fatfsMode flags = some (FA_OPEN_ALWAYS ||| FA_WRITE) ∨
      fatfsMode flags = some (FA_OPEN_ALWAYS ||| FA_READ ||| FA_WRITE) := by
    unfold fatfsMode
    rcases writable with writeOnly | readWrite
    · left
      change flags &&& 3 = 1 at writeOnly
      rw [writeOnly, if_neg (by decide), if_pos (by decide), if_pos append]
    · right
      change flags &&& 3 = 2 at readWrite
      rw [readWrite, if_neg (by decide), if_neg (by decide), if_pos (by decide), if_pos append]
  have result : ∃ flag, (d'.devMmcfsTable slot) = ⟨flag, file.fsize, 0, file.clusters, 0, file.bytes⟩ ∧
      flag &&& FA_ERROR = 0 ∧ flag &&& FA_WRITE ≠ 0 := by
    unfold devMmcfsOpen at opened
    split at opened
    · cases opened
    · rcases mode with mode | mode
      all_goals
        rw [mode] at opened
        simp only [fOpen] at opened
        rw [if_pos (by decide)] at opened
        cases readOnly : file.readOnly with
        | true =>
            rw [readOnly, if_pos rfl] at opened
            cases opened
        | false =>
            rw [readOnly, if_neg (by decide), if_neg (by decide), if_neg (by decide)] at opened
            cases opened
            refine ⟨_, Function.update_self _ _ _, ?_, ?_⟩
            all_goals decide
  obtain ⟨flag, table, healthy, write⟩ := result
  rw [table]
  refine ⟨⟨⟨⟨?_, ok, ?_⟩, ?_, healthy⟩, write, rfl, ?_⟩, rfl⟩
  · exact Nat.zero_le _
  · intro positive
    exact absurd positive (Nat.lt_irrefl 0)
  · exact Nat.zero_le _
  · rw [List.length_nil, List.drop_zero, List.nil_append]

/-- Writes through a descriptor opened with `O_APPEND` leave the old content followed by the bytes written
if and only if the file was empty or none of the writes could write anything: each was of no bytes, or
would have made the file too long. -/
theorem appends_iff {fs : Volume} {file : Entry} (ok : file.Ok fs) {flags : BitVec 32}
    (append : flags &&& O_APPEND ≠ 0) (writable : Writable flags) {fd fd' : AltFd} {d d' : Driver Fil}
    {slot : Nat} (opened : devMmcfsOpen (fOpen file) fd flags d = (.ok slot, fd', d'))
    (ptrs : List (List (BitVec 8))) (short : ∀ ptr ∈ ptrs, ptr.length < 2 ^ 31) :
    slotContent slot (devMmcfsWrites slot ptrs fs d').2.2 =
        content file.fsize file.bytes ++ (devMmcfsWrites slot ptrs fs d').1 ↔
      file.fsize = 0 ∨ ∀ ptr ∈ ptrs, ptr = [] ∨ 2 ^ 32 ≤ file.fsize.toNat + ptr.length := by
  obtain ⟨state, size⟩ := devMmcfsOpen_append ok append writable opened
  have left := state.writes ptrs short
  rw [List.nil_append] at left
  rw [left]
  have length := length_content file.fsize file.bytes
  by_cases empty : file.fsize = 0
  · have none : content file.fsize file.bytes = [] := by
      apply List.eq_nil_of_length_eq_zero
      rw [length, empty]
      rfl
    rw [none, List.drop_nil, List.append_nil, List.nil_append]
    exact iff_of_true rfl (.inl empty)
  · have some : 0 < (d'.devMmcfsTable slot).fsize.toNat := by
      rw [size]
      apply Nat.pos_of_ne_zero
      intro zero
      exact empty (BitVec.eq_of_toNat_eq zero)
    have nothing := state.none_iff ptrs short some
    rw [size] at nothing some
    rw [or_iff_right empty, ← nothing]
    constructor
    · intro same
      have lengths := congrArg List.length same
      rw [List.length_append, List.length_append, List.length_drop, length] at lengths
      apply List.eq_nil_of_length_eq_zero
      omega
    · intro none
      rw [none, List.length_nil, List.drop_zero, List.append_nil, List.nil_append]

/-- A disk of small clusters that is full. -/
def fullVolume : Volume := ⟨1, 0, Nat.one_pos⟩

/-- A file of one byte. -/
def oneByteFile : Entry := ⟨false, 1, 1, fun _ => 0x41⟩

/-- A descriptor as the HAL hands it to the driver. -/
def freshFd : AltFd := ⟨some .mmcfs, none, O_WRONLY ||| O_APPEND⟩

/-- The driver after a file has been opened right after `mmcfs_setup`. -/
def afterOpen (file : Entry) : Except Errno Nat × AltFd × Driver Fil :=
  devMmcfsOpen (fOpen file) freshFd (O_WRONLY ||| O_APPEND) (mmcfsSetup fun _ => ⟨0, 0, 0, 0, 0, fun _ => 0⟩)

theorem appends_iff_one_byte :
    slotContent 15 (devMmcfsWrites 15 [[0x42]] fullVolume (afterOpen oneByteFile).2.2).2.2 =
        content oneByteFile.fsize oneByteFile.bytes ++
          (devMmcfsWrites 15 [[0x42]] fullVolume (afterOpen oneByteFile).2.2).1 ↔
      oneByteFile.fsize = 0 ∨
        ∀ ptr ∈ [[(0x42 : BitVec 8)]], ptr = [] ∨ 2 ^ 32 ≤ oneByteFile.fsize.toNat + ptr.length := by
  have ok : oneByteFile.Ok fullVolume := by
    unfold Entry.Ok
    decide
  have opened : afterOpen oneByteFile = (.ok 15, (afterOpen oneByteFile).2.1, (afterOpen oneByteFile).2.2) :=
    rfl
  exact appends_iff ok (by decide) (by decide) opened [[0x42]] (by decide)

/-- A byte written to the file goes over the one that it held. -/
theorem append_overwrites :
    (afterOpen oneByteFile).1 = .ok 15 ∧
      slotContent 15 (devMmcfsWrites 15 [[0x42]] fullVolume (afterOpen oneByteFile).2.2).2.2 = [0x42] ∧
      content oneByteFile.fsize oneByteFile.bytes ++
          (devMmcfsWrites 15 [[0x42]] fullVolume (afterOpen oneByteFile).2.2).1 = [0x41, 0x42] := by
  decide

end Cineraria.FatFs
