import Cineraria.Lib.Run
import Cineraria.Fat.Session

/-!
# Runs of calls on several files

What the files are for: arrays of bytes, each with a pointer if it is open. On a drive without faults the functions do
to the volume what `Acts` says of these arrays, call after call, and a drive that is taken out after `f_sync` has them.
-/

namespace Cineraria.Fat

open Run Chain
open FatFs (FA_ERROR FA_WRITTEN FA_CREATE_NEW store)
open Mmcfs (FA_READ FA_WRITE FA_CREATE_ALWAYS FA_OPEN_ALWAYS)

/-! ## Calls -/

/-- A call on a file. A file object that is to be opened may hold anything. -/
inductive FileOp (η : Type) where
  | fopen (h : η) (mode : BitVec 8) (fp : Fil)
  | read (h : η) (btr : Nat)
  | write (h : η) (wbuff : List (BitVec 8))
  | seek (h : η) (ofs : Nat)
  | sync (h : η)
  | close (h : η)

def FileOp.file {η : Type} : FileOp η → η
  | .fopen h _ _ | .read h _ | .write h _ | .seek h _ | .sync h | .close h => h

/-- The result, what has been read, and how many bytes have been written. -/
structure Reply where
  res : FResult
  data : List (BitVec 8)
  count : Nat

section
variable {η : Type} [DecidableEq η] (faults : Faults) (v : Volume) (place : η → Nat × Nat)

/-- A call on a file that is open, as `validate` finds out. -/
def Session.onFile (s : Session η) (h : η) (f : Fil → Reply × Fatfs × Option Fil) : Reply × Session η :=
  match s.fil h with
  | none => (⟨.invalidObject, [], 0⟩, s)
  | some fp => match f fp with | (reply, fs, fil) => (reply, s.after h fs fil)

/-- One call. The entry of a file that is opened is found first, and the window shows it. -/
def call : FileOp η → Session η → Reply × Session η
  | .fopen h mode fp, s =>
      match moveWindow faults v (place h).1 s.fs with
      | (.ok, fs) =>
          match fOpen faults v mode (place h).2 fs fp with
          | (.ok, fs, fp) => (⟨.ok, [], 0⟩, s.after h fs (some fp))
          | (res, fs, _) => (⟨res, [], 0⟩, s.after h fs none)
      | (res, fs) => (⟨res, [], 0⟩, s.after h fs none)
  | .read h btr, s => s.onFile h fun fp =>
      match fRead faults v btr s.fs fp with | (res, data, fs, fp) => (⟨res, data, 0⟩, fs, some fp)
  | .write h wbuff, s => s.onFile h fun fp =>
      match fWrite faults v wbuff s.fs fp with | (res, count, fs, fp) => (⟨res, [], count⟩, fs, some fp)
  | .seek h ofs, s => s.onFile h fun fp =>
      match fLseek faults v ofs s.fs fp with | (res, fs, fp) => (⟨res, [], 0⟩, fs, some fp)
  | .sync h, s => s.onFile h fun fp =>
      match fSync faults v s.fs fp with | (res, fs, fp) => (⟨res, [], 0⟩, fs, some fp)
  | .close h, s => s.onFile h fun fp =>
      match fClose faults v s.fs fp with
      | (.ok, fs, _) => (⟨.ok, [], 0⟩, fs, none)
      | (res, fs, fp) => (⟨res, [], 0⟩, fs, some fp)

/-- A file is not opened twice, and numbers have 32 bits. -/
def FileOp.Proper : FileOp η → Session η → Prop
  | .fopen h _ _, s => s.fil h = none
  | .write _ wbuff, _ => wbuff.length < 2 ^ 32
  | .seek _ ofs, _ => ofs < 2 ^ 32
  | _, _ => True

/-! ## Files as arrays -/

/-- What an open file is: what may be done with it, and where it stands. -/
structure Handle where
  readable : Bool
  writable : Bool
  fptr : Nat

/-- A file: its bytes, its attributes, and whether it is open. -/
structure Doc where
  bytes : List (BitVec 8)
  attr : BitVec 8
  handle : Option Handle

def Fil.handle (fp : Fil) : Handle := ⟨fp.flag &&& FA_READ ≠ 0, fp.flag &&& FA_WRITE ≠ 0, fp.fptr⟩

def Session.doc (s : Session η) (h : η) : Doc := ⟨s.bytes v place h, s.attr place h, (s.fil h).map Fil.handle⟩

/-- Whether a file with these attributes may be opened. -/
def openResult (mode attr : BitVec 8) : FResult :=
  if mode &&& (FA_CREATE_ALWAYS ||| FA_OPEN_ALWAYS ||| FA_CREATE_NEW) ≠ 0 then
    if attr &&& (AM_RDO ||| AM_DIR) ≠ 0 then .denied
    else if mode &&& FA_CREATE_NEW ≠ 0 then .exist else .ok
  else if attr &&& AM_DIR ≠ 0 then .noFile
  else if mode &&& FA_WRITE ≠ 0 ∧ attr &&& AM_RDO ≠ 0 then .denied
  else .ok

/-- What a call does to its file, when `full` says that no cluster is free after it. A write and a seek stop early
only then, and not before the end of the file. A pointer that is moved beyond the end makes the file longer, with bytes
of which nothing is said. -/
inductive Acts (full : Prop) : FileOp η → Doc → Reply → Doc → Prop
  | refused {h : η} {mode attr : BitVec 8} {fp : Fil} {b : List (BitVec 8)} (no : openResult mode attr ≠ .ok) :
      Acts full (.fopen h mode fp) ⟨b, attr, none⟩ ⟨openResult mode attr, [], 0⟩ ⟨b, attr, none⟩
  | opened {h : η} {mode attr : BitVec 8} {fp : Fil} {b : List (BitVec 8)} (yes : openResult mode attr = .ok)
      (keep : mode &&& FA_CREATE_ALWAYS = 0) :
      Acts full (.fopen h mode fp) ⟨b, attr, none⟩ ⟨.ok, [], 0⟩
        ⟨b, attr, some ⟨mode &&& FA_READ ≠ 0, mode &&& FA_WRITE ≠ 0, 0⟩⟩
  | truncated {h : η} {mode attr : BitVec 8} {fp : Fil} {b : List (BitVec 8)} (yes : openResult mode attr = .ok)
      (cut : mode &&& FA_CREATE_ALWAYS ≠ 0) :
      Acts full (.fopen h mode fp) ⟨b, attr, none⟩ ⟨.ok, [], 0⟩
        ⟨[], 0, some ⟨mode &&& FA_READ ≠ 0, mode &&& FA_WRITE ≠ 0, 0⟩⟩
  | invalid {op : FileOp η} {attr : BitVec 8} {b : List (BitVec 8)} (other : ∀ h mode fp, op ≠ .fopen h mode fp) :
      Acts full op ⟨b, attr, none⟩ ⟨.invalidObject, [], 0⟩ ⟨b, attr, none⟩
  | read {h : η} {btr p : Nat} {attr : BitVec 8} {b : List (BitVec 8)} {w : Bool} :
      Acts full (.read h btr) ⟨b, attr, some ⟨true, w, p⟩⟩ ⟨.ok, (b.drop p).take btr, 0⟩
        ⟨b, attr, some ⟨true, w, p + ((b.drop p).take btr).length⟩⟩
  | unreadable {h : η} {btr p : Nat} {attr : BitVec 8} {b : List (BitVec 8)} {w : Bool} :
      Acts full (.read h btr) ⟨b, attr, some ⟨false, w, p⟩⟩ ⟨.denied, [], 0⟩ ⟨b, attr, some ⟨false, w, p⟩⟩
  | write {h : η} {wbuff : List (BitVec 8)} {p n : Nat} {attr : BitVec 8} {b : List (BitVec 8)} {r : Bool}
      (le : n ≤ wbuff.length) (large : 2 ^ 32 ≤ b.length + wbuff.length → n = 0)
      (short : n < wbuff.length → 2 ^ 32 ≤ b.length + wbuff.length ∨ full ∧ b.length ≤ p + n) :
      Acts full (.write h wbuff) ⟨b, attr, some ⟨r, true, p⟩⟩ ⟨.ok, [], n⟩
        ⟨b.take p ++ wbuff.take n ++ b.drop (p + n), attr, some ⟨r, true, p + n⟩⟩
  | unwritable {h : η} {wbuff : List (BitVec 8)} {p : Nat} {attr : BitVec 8} {b : List (BitVec 8)} {r : Bool} :
      Acts full (.write h wbuff) ⟨b, attr, some ⟨r, false, p⟩⟩ ⟨.denied, [], 0⟩ ⟨b, attr, some ⟨r, false, p⟩⟩
  | seek {h : η} {ofs p p' : Nat} {attr : BitVec 8} {b b' : List (BitVec 8)} {r w : Bool} (pre : b <+: b')
      (size : b'.length = max b.length p')
      (goal : p' = (if b.length < ofs ∧ w = false then b.length else ofs) ∨
        p' < ofs ∧ w = true ∧ full ∧ b.length ≤ p') :
      Acts full (.seek h ofs) ⟨b, attr, some ⟨r, w, p⟩⟩ ⟨.ok, [], 0⟩ ⟨b', attr, some ⟨r, w, p'⟩⟩
  | sync {h : η} {attr attr' : BitVec 8} {b : List (BitVec 8)} {hd : Handle}
      (archive : attr' = attr ∨ attr' = attr ||| AM_ARC) :
      Acts full (.sync h) ⟨b, attr, some hd⟩ ⟨.ok, [], 0⟩ ⟨b, attr', some hd⟩
  | close {h : η} {attr attr' : BitVec 8} {b : List (BitVec 8)} {hd : Handle}
      (archive : attr' = attr ∨ attr' = attr ||| AM_ARC) :
      Acts full (.close h) ⟨b, attr, some hd⟩ ⟨.ok, [], 0⟩ ⟨b, attr', none⟩

end

/-! ## One call -/

section
variable {η : Type} {v : Volume} {place : η → Nat × Nat} {s : Session η} {h : η} {fs fs' : Fatfs} {fp fp' : Fil}
variable {chain' : List Nat}

theorem length_content (v : Volume) (chain : List Nat) (fs : Fatfs) (fp : Fil) :
    (content v chain fs fp).length = fp.fsize := by
  rw [content, List.length_map, List.length_range]

theorem Session.file_open (is : s.fil h = some fp) : s.file place h = fp := by
  rw [Session.file, is, Option.getD_some]

/-- The file and its place, when it is open. -/
theorem Session.Ok.opened (ok : s.Ok v place) (is : s.fil h = some fp) :
    Filed v s.fs (place h) fp (s.chain v place h) ∧
      s.doc v place h = ⟨content v (s.chain v place h) s.fs fp, s.attr place h, some fp.handle⟩ := by
  have filed := ok.filed h
  rw [Session.file_open is] at filed
  exact ⟨filed, by rw [Session.doc, Session.bytes, Session.file_open is, is]; rfl⟩

/-- What holds of a call: the session is in order after it, the other files are as they were, and its own is as it
should be. -/
def Meets (v : Volume) (place : η → Nat × Nat) (op : FileOp η) (s : Session η) (r : Reply × Session η) : Prop :=
  r.2.Ok v place ∧ (∀ h' ≠ op.file, r.2.doc v place h' = s.doc v place h') ∧
    Acts (∀ c, links v r.2.fs.view c ≠ .free) op (s.doc v place op.file) r.1 (r.2.doc v place op.file)

theorem written_set (flag : BitVec 8) : (flag ||| FA_WRITTEN) &&& FA_WRITTEN ≠ 0 := by
  intro zero
  have bit := congrArg (fun x : BitVec 8 => x.getLsbD 5) zero
  simp [FA_WRITTEN] at bit

/-- Two entries of a sector do not overlap. -/
theorem Places.apart (places : Places v place) {h h' : η} (ne : h' ≠ h) (same : (place h').1 = (place h).1) :
    (place h').2 + 31 < (place h).2 ∨ (place h).2 + 31 < (place h').2 := by
  have mine := (places.aligned h).1
  have theirs := (places.aligned h').1
  have differ : (place h').2 ≠ (place h).2 := fun eq => ne (places.inj h' h (Prod.ext same eq))
  simp only [SZ_DIR] at mine theirs
  omega

/-- What changes the sector of one entry outside of all others spares the other files. -/
theorem Session.Ok.spares_at (ok : s.Ok v place) (places : Places v place) (windowOk : fs'.WindowOk v) (noBad : NoBad v fs')
    (window : fs'.winsect = (place h).1 ∨ fs'.winsect = 0)
    (links : ∀ c, c ∉ s.chain v place h → links v fs'.view c = links v s.fs.view c)
    (view : ∀ i, v.Primary i → v.fatbase + v.fsize ≤ i → i ≠ (place h).1 → (∀ c ∈ s.chain v place h, ¬v.InCluster c i) →
      fs'.view i = s.fs.view i)
    (entry : ∀ k < 512, k < (place h).2 ∨ (place h).2 + 31 < k →
      fs'.view (place h).1 (ofs k) = s.fs.view (place h).1 (ofs k))
    (less : ∀ c ∈ chain', c ∈ s.chain v place h) : Spares v place s h chain' fs' := by
  have apart : ∀ h', ∀ c ∈ s.chain v place h', ¬v.InCluster c (place h).1 := fun h' c mem there =>
    (ok.apart h c ((ok.filed h').range c mem).1 ((ok.filed h').range c mem).2 there).2 h' mem
  refine ⟨windowOk, noBad, fun c _ out => links c out, fun c mem => .inl (less c mem), fun h' ne c mem i inside => ?_,
    fun h' ne c mem inside => ?_, fun h' ne k lt => ?_⟩
  · have rangec := (ok.filed h').range c mem
    obtain ⟨primary, far⟩ := InCluster.primary rangec.1 rangec.2 inside
    refine view i primary far (fun eq => apart h' c mem (eq ▸ inside)) fun d mine there => ?_
    have ranged := (ok.filed h).range d mine
    have same := InCluster.unique rangec.1 rangec.2 ranged.1 ranged.2 inside there
    exact ne (ok.disjoint h' h c mem (same ▸ mine))
  · rcases window with here | zero
    · exact apart h' c mem (here ▸ inside)
    · have rangec := (ok.filed h').range c mem
      exact (InCluster.primary rangec.1 rangec.2 inside).1.pos zero
  · have within := (places.aligned h').2
    simp only [SS] at within
    by_cases same : (place h').1 = (place h).1
    · have off := places.apart ne same
      rw [same]
      exact entry _ (by omega) (by omega)
    · rw [view _ (places.primary h') (places.far h') same fun c mem there => ?_]
      have rangec := (ok.filed h).range c mem
      exact (ok.apart h' c rangec.1 rangec.2 there).2 h mem

variable [DecidableEq η] {faults : Faults} {fil' : Option Fil}

/-- The session after a call that spares the other files. -/
theorem Session.Ok.call (ok : s.Ok v place) (spares : Spares v place s h chain' fs')
    (is : (s.after h fs' fil').file place h = fp) (filed : Filed v fs' (place h) fp chain') :
    (s.after h fs' fil').Ok v place ∧ (∀ h' ≠ h, (s.after h fs' fil').doc v place h' = s.doc v place h') ∧
      (s.after h fs' fil').doc v place h =
        ⟨content v chain' fs' fp, fs'.view (place h).1 (ofs ((place h).2 + DIR_Attr)), fil'.map Fil.handle⟩ := by
  obtain ⟨after, mine⟩ := ok.step spares is filed
  refine ⟨after, fun h' ne => ?_, ?_⟩
  · obtain ⟨-, bytes, attr, fil⟩ := ok.others spares fil' ne
    rw [Session.doc, bytes, attr, fil, Session.doc]
  · rw [Session.doc, Session.bytes, mine, is]
    simp only [Session.attr, Session.after, Function.update_self]

omit [DecidableEq η] in
/-- A file object at the beginning of its file, with nothing in its buffer. -/
theorem FileOk.fresh {chain : List Nat} (ok : FileOk v fs fp chain) (clean : fp.dirty = false) (fp' : Fil)
    (empty : fp'.dirty = false) (none : fp'.dsect = 0) (begin : fp'.fptr = 0) (size : fp'.fsize = fp.fsize) (start : fp'.sclust = fp.sclust) :
    FileOk v fs fp' chain ∧ content v chain fs fp' = content v chain fs fp := by
  have room := ok.room
  refine ⟨⟨⟨ok.windowOk, ok.chained, start.trans ok.start, by rw [size, begin]; omega, ok.window, .inl none,
    fun dirty => by simp [empty] at dirty, fun _ valid => absurd none valid⟩, fun some => by omega,
    fun between => absurd (by rw [begin]; exact Nat.zero_mod SS) between⟩, ?_⟩
  rw [content, content, size]
  refine List.map_congr_left fun o _ => ?_
  rw [fileByte, fileByte, fileView_clean clean, fileView_clean empty]

omit [DecidableEq η] in
/-- A file whose entry says all is as it is without its file object. -/
theorem Filed.closed {chain : List Nat} {p : Nat × Nat} (filed : Filed v fs p fp chain)
    (unwritten : fp.flag &&& FA_WRITTEN = 0) :
    Filed v fs p (entryFil fs.view p) chain ∧ content v chain fs (entryFil fs.view p) = content v chain fs fp := by
  obtain ⟨clean, size, start⟩ := filed.settled unwritten
  obtain ⟨ok, same⟩ := filed.toFileOk.fresh clean (entryFil fs.view p) rfl rfl rfl size start
  exact ⟨⟨ok, rfl, Nat.zero_le _, by rw [size]; exact filed.size, BitVec.zero_and, fun _ => ⟨rfl, rfl, rfl⟩⟩, same⟩

omit [DecidableEq η] in
/-- The window shows the entry of a file that is closed, and nothing else has happened. -/
theorem Session.Ok.shows (healthy : ∀ k, faults k = none) (places : Places v place) (ok : s.Ok v place)
    (closed : s.fil h = none) :
    ∃ fs', moveWindow faults v (place h).1 s.fs = (.ok, fs') ∧ Spares v place s h (s.chain v place h) fs' ∧
      fs'.winsect = (place h).1 ∧ fs'.win = s.fs.view (place h).1 ∧ (∀ i, v.Primary i → fs'.view i = s.fs.view i) ∧
      entryFil fs'.view (place h) = entryFil s.fs.view (place h) ∧
      Filed v fs' (place h) (entryFil fs'.view (place h)) (s.chain v place h) ∧
      s.doc v place h = ⟨content v (s.chain v place h) fs' (entryFil fs'.view (place h)), s.attr place h, none⟩ := by
  have filed := ok.filed h
  have file : s.file place h = entryFil s.fs.view (place h) := by rw [Session.file, closed, Option.getD_none]
  rw [file] at filed
  cases run : moveWindow faults v (place h).1 s.fs with
  | mk res fs1 =>
    obtain ⟨same, ⟨-, faulty⟩ | ⟨rfl, -, shown⟩⟩ := moveWindow_spec ok.windowOk (.inr (places.primary h)) run
    · exact absurd faulty (Faults.not_some healthy)
    obtain ⟨here, win⟩ := shown (places.primary h).pos
    have entry : fs1.view (place h).1 = s.fs.view (place h).1 := same.view _ (places.primary h)
    have noBad : NoBad v fs1 := by
      rw [NoBad, same.links]
      exact ok.noBad
    have spares : Spares v place s h (s.chain v place h) fs1 :=
      ok.spares_at places same.windowOk noBad (.inl here) (fun c _ => by rw [same.links])
        (fun i primary _ _ _ => same.view i primary) (fun k _ _ => by rw [entry]) fun _ mem => mem
    have apart : ∀ c ∈ s.chain v place h, ¬v.InCluster c fs1.winsect := fun c mem there => by
      rw [here] at there
      exact (ok.apart h c (filed.range c mem).1 (filed.range c mem).2 there).2 h mem
    have file1 : entryFil fs1.view (place h) = entryFil s.fs.view (place h) := entryFil_congr fun k _ => by rw [entry]
    obtain ⟨ok1, bytes⟩ := filed.toFileOk.kept same.windowOk (fun c _ => by rw [same.links])
      (fun c mem i inside => same.view i (InCluster.primary (filed.range c mem).1 (filed.range c mem).2 inside).1) apart
    refine ⟨fs1, rfl, spares, here, win, same.view, file1, ?_, ?_⟩
    · rw [file1]
      exact ⟨ok1, rfl, Nat.zero_le _, filed.size, BitVec.zero_and, fun _ => ⟨rfl, by rw [file1], by rw [file1]⟩⟩
    · rw [Session.doc, Session.bytes, file, closed, file1, Option.map_none, content, content]
      congr 1
      refine (List.map_congr_left fun o mem => bytes o ?_).symm
      have := filed.room
      rw [List.mem_range] at mem
      omega

omit [DecidableEq η] in
/-- A file object for an entry that has been emptied, in a file that may be changed. -/
theorem Filed.empty {p : Nat × Nat} {mode : BitVec 8} (windowOk : fs.WindowOk v) (here : fs.winsect = p.1)
    (within : p.2 + 31 < 512) {win : Sector} (is : fs.win = emptyEntry p.2 win) (noError : mode &&& FA_ERROR = 0) (fp : Fil) :
    Filed v fs p (Fat.opened (mode ||| FA_WRITTEN) p.2 fs fp) [] ∧
      content v [] fs (Fat.opened (mode ||| FA_WRITTEN) p.2 fs fp) = [] := by
  have size : (Fat.opened (mode ||| FA_WRITTEN) p.2 fs fp).fsize = 0 := by
    rw [Fat.opened, is]
    exact congrArg BitVec.toNat (emptyEntry_size within)
  have start : (Fat.opened (mode ||| FA_WRITTEN) p.2 fs fp).sclust = 0 := by
    rw [Fat.opened, is]
    exact congrArg BitVec.toNat (emptyEntry_clust within)
  refine ⟨⟨⟨⟨windowOk, by simp, start, by rw [size]; exact Nat.zero_le _, by simp, .inl rfl, by simp [Fat.opened], ?_⟩,
    by simp [Fat.opened], fun between => absurd (Nat.zero_mod SS) between⟩, ?_, Nat.zero_le _, ?_,
    FatFs.healthy_written noError, fun unwritten => absurd unwritten (written_set mode)⟩, ?_⟩
  · exact fun _ valid => absurd rfl valid
  · rw [Fat.opened, here]
  · rw [size]
    exact Nat.two_pow_pos 32
  · rw [content, size, List.range_zero, List.map_nil]

end

/-! ## Runs -/

section
variable {η : Type} [DecidableEq η] {faults : Faults} {v : Volume} {place : η → Nat × Nat} {s : Session η}

omit [DecidableEq η] in
/-- A file whose entry says all, without its file object. -/
theorem Session.Ok.settled (ok : s.Ok v place) {h : η} (settled : ∀ fp, s.fil h = some fp → fp.flag &&& FA_WRITTEN = 0) :
    Filed v s.fs (place h) (entryFil s.fs.view (place h)) (s.chain v place h) ∧
      content v (s.chain v place h) s.fs (entryFil s.fs.view (place h)) = s.bytes v place h := by
  have filed := ok.filed h
  cases is : s.fil h with
  | none =>
    rw [Session.file, is, Option.getD_none] at filed
    exact ⟨filed, by rw [Session.bytes, Session.file, is, Option.getD_none]⟩
  | some fp =>
    rw [Session.file_open is] at filed
    rw [Session.bytes, Session.file_open is]
    exact filed.closed (settled fp is)

end

end Cineraria.Fat
