import Cineraria.Lib.Run
import Cineraria.Mmcfs.FatFs

/-!
# Moving the file pointer

`f_lseek` accepts every offset and clips it where the file cannot be stretched any further
(`fLseek_spec`). `dev_mmcfs_lseek` hands it a signed position, so that one before the beginning of the
file is taken for one near 4 GB (`lseek_meets_iff`).
-/

namespace Cineraria.FatFs

open Mmcfs

/-! ## Following the chain -/

/-- Where a chain ends that cannot be stretched any further. -/
def Fil.room (fs : Volume) (fp : Fil) : Nat := (fp.clusters + fs.free) * fs.bcs

/-- Where `f_lseek` clips an offset. -/
def Fil.limit (fs : Volume) (fp : Fil) : Nat :=
  if fp.flag &&& FA_WRITE = 0 then fp.fsize.toNat else fp.room fs

theorem Volume.stretched_stretched (fs : Volume) {old between new : Nat} (first : old ≤ between)
    (second : between ≤ new) : (fs.stretched old between).stretched between new = fs.stretched old new := by
  simp only [Volume.stretched]
  congr 1
  omega

/-- The file object in the middle of a walk, at the beginning of its current cluster. -/
structure Fil.Started (fs : Volume) (fp : Fil) : Prop where
  linked : fp.clust < fp.clusters
  fptr : fp.fptr.toNat = fp.clust * fs.bcs

/-- What a part of a walk to an offset does: it has come as far as `there`. -/
structure Walked (there : Nat) (fs : Volume) (fp : Fil) (fs' : Volume) (fp' : Fil) : Prop where
  clust : fp'.clust = (there - 1) / fs.bcs
  clusters : fp'.clusters = max fp.clusters (fp'.clust + 1)
  volume : fs' = fs.stretched fp.clusters fp'.clusters
  fsize : fp'.fsize = fp.fsize
  flag : fp'.flag = fp.flag
  bytes : fp'.bytes = fp.bytes

section
variable {fs : Volume} {fp : Fil}

theorem Walked.trans {here there : Nat} {fs₁ fs₂ : Volume} {fp₁ fp₂ : Fil}
    (first : Walked here fs fp fs₁ fp₁) (second : Walked there fs₁ fp₁ fs₂ fp₂)
    (forwards : fp₁.clust ≤ fp₂.clust) : Walked there fs fp fs₂ fp₂ where
  clust := by
    rw [second.clust, first.volume]
    rfl
  clusters := by
    rw [second.clusters, first.clusters]
    omega
  volume := by
    have grows : fp.clusters ≤ fp₁.clusters := by
      rw [first.clusters]
      exact le_max_left _ _
    have grows' : fp₁.clusters ≤ fp₂.clusters := by
      rw [second.clusters]
      exact le_max_left _ _
    rw [second.volume, first.volume, Volume.stretched_stretched fs grows grows']
  fsize := second.fsize.trans first.fsize
  flag := second.flag.trans first.flag
  bytes := second.bytes.trans first.bytes

/-- The offset is in a cluster if it is past its first byte and not past its end. -/
theorem cluster_eq {there clust : Nat} (past : clust * fs.bcs < there) (within : there ≤ (clust + 1) * fs.bcs) :
    clust = (there - 1) / fs.bcs := by
  symm
  apply Nat.div_eq_of_lt_le
  · omega
  · omega

/-- The chain is as long as it has to be. -/
theorem Volume.stretched_self (fs : Volume) (clusters : Nat) : fs.stretched clusters clusters = fs := by
  rw [Volume.stretched, Nat.sub_self, Nat.sub_zero]

/-- Nothing changes on the way to an offset in the current cluster. -/
theorem Fil.Started.stay {there : Nat} (started : fp.Started fs) (past : fp.clust * fs.bcs < there)
    (within : there ≤ (fp.clust + 1) * fs.bcs) : Walked there fs fp fs fp where
  clust := cluster_eq past within
  clusters := (max_eq_left started.linked).symm
  volume := (fs.stretched_self fp.clusters).symm
  fsize := rfl
  flag := rfl
  bytes := rfl

/-- The volume when the file goes on to its next cluster. -/
def Fil.nextVolume (fs : Volume) (fp : Fil) : Volume :=
  fs.stretched fp.clusters (max fp.clusters (fp.clust + 2))

/-- The file object at the beginning of the next cluster. -/
def Fil.next (fs : Volume) (fp : Fil) : Fil :=
  { fp with
    clusters := max fp.clusters (fp.clust + 2)
    clust := fp.clust + 1
    fptr := fp.fptr + BitVec.ofNat 32 fs.bcs }

/-- There is a next cluster, or one can be linked. -/
def Fil.HasNext (fs : Volume) (fp : Fil) : Prop :=
  fp.clust + 1 < fp.clusters ∨ fp.flag &&& FA_WRITE ≠ 0 ∧ fs.free ≠ 0

theorem followLoop_next {ofs : Nat} (turns : Nat) (started : fp.Started fs) (further : ofs > fs.bcs)
    (hasNext : fp.HasNext fs) :
    followLoop (turns + 1) ofs fs fp = followLoop turns (ofs - fs.bcs) (fp.nextVolume fs) (fp.next fs) := by
  rw [followLoop, if_pos further]
  by_cases writable : fp.flag &&& FA_WRITE ≠ 0
  · have room : fp.clust + 1 < fp.clusters ∨ fs.free ≠ 0 := hasNext.imp_right And.right
    rw [if_pos writable, createChain_eq _ _ _ started.linked, if_pos room]
    rfl
  · have follows : fp.clust + 1 < fp.clusters := by
      apply hasNext.resolve_right
      rintro ⟨write, -⟩
      exact writable write
    have same : max fp.clusters (fp.clust + 2) = fp.clusters := max_eq_left follows
    rw [if_neg writable, if_pos follows, Fil.nextVolume, Fil.next, same, fs.stretched_self]

theorem followLoop_last {ofs : Nat} (turns : Nat) (started : fp.Started fs) (further : ofs > fs.bcs)
    (writable : fp.flag &&& FA_WRITE ≠ 0) (none : ¬ fp.HasNext fs) :
    followLoop (turns + 1) ofs fs fp = (.ok, fs.bcs, fs, fp) := by
  have full : ¬ (fp.clust + 1 < fp.clusters ∨ fs.free ≠ 0) := by
    intro room
    exact none (room.imp_right fun free => ⟨writable, free⟩)
  rw [followLoop, if_pos further, if_pos writable, createChain_eq _ _ _ started.linked, if_neg full]

theorem toNat_next (small : fp.fptr.toNat + fs.bcs < 2 ^ 32) :
    (fp.next fs).fptr.toNat = fp.fptr.toNat + fs.bcs := by
  change (fp.fptr + BitVec.ofNat 32 fs.bcs).toNat = _
  rw [BitVec.toNat_add, BitVec.toNat_ofNat]
  omega

theorem Fil.Started.next (started : fp.Started fs) (small : fp.fptr.toNat + fs.bcs < 2 ^ 32) :
    (fp.next fs).Started (fp.nextVolume fs) where
  linked := Nat.lt_of_lt_of_le (Nat.lt_succ_self _) (le_max_right _ _)
  fptr := by
    rw [toNat_next small, started.fptr]
    exact (Nat.succ_mul _ _).symm

theorem room_next (started : fp.Started fs) (hasNext : fp.HasNext fs) :
    (fp.next fs).room (fp.nextVolume fs) = fp.room fs := by
  have linked := started.linked
  have some : fp.clust + 1 < fp.clusters ∨ fs.free ≠ 0 := hasNext.imp_right And.right
  simp only [Fil.room, Fil.next, Fil.nextVolume, Volume.stretched, Volume.bcs]
  congr 1
  omega

/-- One turn of the loop. -/
theorem Walked.next (fs : Volume) (fp : Fil) :
    Walked ((fp.clust + 2) * fs.bcs) fs fp (fp.nextVolume fs) (fp.next fs) where
  clust := cluster_eq (Nat.mul_lt_mul_of_pos_right (Nat.lt_succ_self _) fs.bcs_pos) (Nat.le_refl _)
  clusters := rfl
  volume := rfl
  fsize := rfl
  flag := rfl
  bytes := rfl

/-- The loop comes to the offset, or to the end of the last cluster that can be had. -/
theorem followLoop_spec {turns ofs : Nat} (started : fp.Started fs) (more : 0 < ofs) (enough : ofs ≤ turns)
    (small : fp.fptr.toNat + ofs < 2 ^ 32)
    (within : fp.flag &&& FA_WRITE = 0 → fp.fptr.toNat + ofs ≤ fp.clusters * fs.bcs) :
    ∃ rest fs' fp', followLoop turns ofs fs fp = (.ok, rest, fs', fp') ∧
      fp'.fptr.toNat + rest = min (fp.fptr.toNat + ofs) (fp.room fs) ∧
      Walked (fp'.fptr.toNat + rest) fs fp fs' fp' ∧ fp.clust ≤ fp'.clust := by
  induction turns generalizing ofs fs fp with
  | zero => omega
  | succ turns ih =>
      have start := started.fptr
      have positive := fs.bcs_pos
      have succ : (fp.clust + 1) * fs.bcs = fp.clust * fs.bcs + fs.bcs := Nat.succ_mul _ _
      have reaches : (fp.clust + 1) * fs.bcs ≤ fp.clusters * fs.bcs :=
        Nat.mul_le_mul_right _ started.linked
      have chain : fp.clusters * fs.bcs ≤ fp.room fs :=
        Nat.mul_le_mul_right _ (Nat.le_add_right _ _)
      by_cases further : ofs > fs.bcs
      · by_cases hasNext : fp.HasNext fs
        · have advanced : (fp.next fs).fptr.toNat = fp.fptr.toNat + fs.bcs := toNat_next (by omega)
          have within' : (fp.next fs).flag &&& FA_WRITE = 0 →
              (fp.next fs).fptr.toNat + (ofs - fs.bcs) ≤ (fp.next fs).clusters * (fp.nextVolume fs).bcs := by
            intro readOnly
            have covers := within readOnly
            have longer : fp.clusters * fs.bcs ≤ (fp.next fs).clusters * (fp.nextVolume fs).bcs :=
              Nat.mul_le_mul_right _ (le_max_left _ _)
            omega
          obtain ⟨rest, fs', fp', loop, there, walked, forwards⟩ :=
            ih (started.next (by omega)) (show 0 < ofs - fs.bcs by omega) (by omega) (by omega) within'
          refine ⟨rest, fs', fp', ?_, ?_, (Walked.next fs fp).trans walked forwards, Nat.le_of_succ_le forwards⟩
          · rw [followLoop_next turns started further hasNext]
            exact loop
          · rw [there, room_next started hasNext, advanced]
            congr 1
            omega
        · -- The file cannot be read beyond its end, so that it is one that may be written.
          have writable : fp.flag &&& FA_WRITE ≠ 0 := by
            intro readOnly
            apply hasNext
            left
            have covers := within readOnly
            exact Nat.lt_of_mul_lt_mul_right (a := fs.bcs) (by omega)
          have last : fp.room fs = (fp.clust + 1) * fs.bcs := by
            have linked := started.linked
            have none : ¬ (fp.clust + 1 < fp.clusters ∨ fs.free ≠ 0) := by
              intro room
              exact hasNext (room.imp_right fun free => ⟨writable, free⟩)
            rw [Fil.room]
            congr 1
            omega
          refine ⟨fs.bcs, fs, fp, followLoop_last turns started further writable hasNext, by omega, ?_,
            Nat.le_refl _⟩
          apply started.stay
          all_goals omega
      · refine ⟨ofs, fs, fp, ?_, by omega, ?_, Nat.le_refl _⟩
        · rw [followLoop, if_neg further]
        · apply started.stay
          all_goals omega

/-- The walk begins in the current cluster, in the first one, or not at all when there is none. -/
theorem seekStart_cases {ofs : Nat} (placed : fp.Placed fs) (more : 0 < ofs) (small : ofs < 2 ^ 32) :
    (∃ rest fs' fp', seekStart ofs fp.fptr.toNat fs fp = some (rest, fs', fp') ∧ fp'.Started fs' ∧ 0 < rest ∧
      fp'.fptr.toNat + rest = ofs ∧ Walked (fp'.fptr.toNat + 1) fs fp fs' fp' ∧
      fp'.room fs' = fp.room fs) ∨
    (seekStart ofs fp.fptr.toNat fs fp = none ∧ fp.clusters = 0 ∧ fs.free = 0) := by
  have positive := fs.bcs_pos
  unfold seekStart
  by_cases forwards : 0 < fp.fptr.toNat ∧ (ofs - 1) / fs.bcs ≥ (fp.fptr.toNat - 1) / fs.bcs
  · left
    rw [if_pos forwards]
    obtain ⟨moved, later⟩ := forwards
    have clust := placed.current moved
    have reached := placed.reached
    rw [← clust] at later ⊢
    have linked : fp.clust < fp.clusters := by
      rw [clust]
      apply (Nat.div_lt_iff_lt_mul positive).mpr
      omega
    have before : fp.clust * fs.bcs ≤ ofs - 1 := (Nat.le_div_iff_mul_le positive).mp later
    have start : (BitVec.ofNat 32 (fp.clust * fs.bcs)).toNat = fp.clust * fs.bcs := by
      rw [BitVec.toNat_ofNat]
      omega
    have started : Fil.Started fs { fp with fptr := BitVec.ofNat 32 (fp.clust * fs.bcs) } := ⟨linked, start⟩
    refine ⟨ofs - fp.clust * fs.bcs, fs, _, rfl, started, by omega, ?_, ?_, rfl⟩
    · change (BitVec.ofNat 32 (fp.clust * fs.bcs)).toNat + _ = _
      omega
    · change Walked ((BitVec.ofNat 32 (fp.clust * fs.bcs)).toNat + 1) fs _ fs _
      rw [start]
      refine ⟨cluster_eq (Nat.lt_succ_self _) ?_, (max_eq_left linked).symm, (fs.stretched_self _).symm, rfl,
        rfl, rfl⟩
      change fp.clust * fs.bcs + 1 ≤ (fp.clust + 1) * fs.bcs
      rw [Nat.succ_mul]
      omega
  · rw [if_neg forwards, createChain_eq _ _ _ (Nat.zero_le _)]
    by_cases first : 0 < fp.clusters ∨ fs.free ≠ 0
    · left
      rw [if_pos first]
      refine ⟨ofs, _, _, rfl, ⟨?_, ?_⟩, more, Nat.zero_add _, ⟨?_, rfl, rfl, rfl, rfl, rfl⟩, ?_⟩
      · exact Nat.lt_of_lt_of_le Nat.one_pos (le_max_right _ _)
      · exact (Nat.zero_mul _).symm
      · exact (Nat.zero_div _).symm
      · simp only [Fil.room, Volume.stretched, Volume.bcs]
        congr 1
        omega
    · right
      rw [if_neg first]
      exact ⟨rfl, by omega, by omega⟩

/-! ## `f_lseek` -/

/-- The clusters that a number of bytes take. -/
def Volume.clustersFor (fs : Volume) (size : Nat) : Nat := (size + fs.bcs - 1) / fs.bcs

theorem clustersFor_zero (fs : Volume) : fs.clustersFor 0 = 0 := by
  have positive := fs.bcs_pos
  apply Nat.div_eq_of_lt
  omega

theorem clustersFor_of_pos {size : Nat} (some : 0 < size) : fs.clustersFor size = (size - 1) / fs.bcs + 1 := by
  rw [← Nat.add_div_right _ fs.bcs_pos, Volume.clustersFor]
  congr 1
  omega

theorem clustersFor_le_iff {size clusters : Nat} : fs.clustersFor size ≤ clusters ↔ size ≤ clusters * fs.bcs := by
  have positive := fs.bcs_pos
  rw [Volume.clustersFor, Nat.div_le_iff_le_mul positive]
  omega

/-- What `f_lseek` does before it looks at the size of the file: the file pointer is at `there`. -/
structure Sought (there : Nat) (fs : Volume) (fp : Fil) (fs' : Volume) (fp' : Fil) : Prop where
  fptr : fp'.fptr.toNat = there
  clust : 0 < there → fp'.clust = (there - 1) / fs.bcs
  clusters : fp'.clusters = max fp.clusters (fs.clustersFor there)
  volume : fs' = fs.stretched fp.clusters fp'.clusters
  fsize : fp'.fsize = fp.fsize
  flag : fp'.flag = fp.flag
  bytes : fp'.bytes = fp.bytes

theorem Sought.beginning (fs : Volume) (fp : Fil) (clust : Nat) :
    Sought 0 fs fp fs { fp with fptr := 0, clust := clust } where
  fptr := rfl
  clust := fun some => absurd some (Nat.lt_irrefl 0)
  clusters := by rw [clustersFor_zero, Nat.max_zero]
  volume := (fs.stretched_self fp.clusters).symm
  fsize := rfl
  flag := rfl
  bytes := rfl

/-- A walk only makes the chain longer. -/
theorem Walked.covers {there size : Nat} {fs' : Volume} {fp' : Fil} (walked : Walked there fs fp fs' fp')
    (covered : size ≤ fp.clusters * fs.bcs) : size ≤ fp'.clusters * fs'.bcs := by
  refine Nat.le_trans covered ?_
  rw [walked.volume, walked.clusters]
  exact Nat.mul_le_mul_right _ (le_max_left _ _)

/-- The current cluster is a part of the room. -/
theorem Fil.Started.room_pos (started : fp.Started fs) : 0 < fp.room fs := by
  apply Nat.mul_pos
  · have linked := started.linked
    omega
  · exact fs.bcs_pos

/-- A walk that has come to a byte of the file, as a whole. -/
theorem Walked.sought {there : Nat} {fs' : Volume} {fp' : Fil} {fptr : BitVec 32} (walked : Walked there fs fp fs' fp')
    (some : 0 < there) (arrived : fptr.toNat = there) : Sought there fs fp fs' { fp' with fptr := fptr } where
  fptr := arrived
  clust := fun _ => walked.clust
  clusters := by
    rw [clustersFor_of_pos some, ← walked.clust]
    exact walked.clusters
  volume := walked.volume
  fsize := walked.fsize
  flag := walked.flag
  bytes := walked.bytes

/-- The walk comes to the offset, or to the end of the last cluster that can be had. -/
theorem seekWalk_spec {ofs : BitVec 32} (placed : fp.Placed fs)
    (within : fp.flag &&& FA_WRITE = 0 → ofs.toNat ≤ fp.fsize.toNat) :
    ∃ fs' fp', seekWalk ofs fs fp = (.ok, fs', fp') ∧ Sought (min ofs.toNat (fp.room fs)) fs fp fs' fp' := by
  unfold seekWalk
  by_cases zero : ofs = 0
  · rw [if_pos zero, zero]
    refine ⟨fs, _, rfl, ?_⟩
    change Sought (min 0 _) fs fp fs _
    rw [Nat.zero_min]
    exact Sought.beginning fs fp fp.clust
  · have more : 0 < ofs.toNat := by
      apply Nat.pos_of_ne_zero
      intro none
      exact zero (BitVec.eq_of_toNat_eq none)
    rw [if_neg zero]
    rcases seekStart_cases placed more ofs.isLt with
      ⟨rest, fs₁, fp₁, start, started, some, there, walked, room⟩ | ⟨start, none, full⟩
    · have fits : fp₁.fptr.toNat + rest < 2 ^ 32 := by
        rw [there]
        exact ofs.isLt
      have within' : fp₁.flag &&& FA_WRITE = 0 → fp₁.fptr.toNat + rest ≤ fp₁.clusters * fs₁.bcs := by
        intro readOnly
        rw [walked.flag] at readOnly
        rw [there]
        exact walked.covers (Nat.le_trans (within readOnly) placed.covered)
      obtain ⟨rest', fs', fp', loop, goal, onwards, forwards⟩ :=
        followLoop_spec started some (Nat.le_refl rest) fits within'
      have whole := walked.trans onwards forwards
      rw [there, room] at goal
      rw [goal] at whole
      have positive : 0 < min ofs.toNat (fp.room fs) := by
        have space := started.room_pos
        rw [room] at space
        exact lt_min more space
      have arrived : (fp'.fptr + BitVec.ofNat 32 rest').toNat = min ofs.toNat (fp.room fs) := by
        have bound := ofs.isLt
        rw [BitVec.toNat_add, BitVec.toNat_ofNat]
        omega
      refine ⟨fs', _, ?_, whole.sought positive arrived⟩
      simp only [start, loop]
    · have none : fp.room fs = 0 := by
        rw [Fil.room, none, full, Nat.zero_mul]
      rw [start, none, Nat.min_zero]
      exact ⟨fs, _, rfl, Sought.beginning fs fp 0⟩

theorem Sought.placed {there : Nat} {fs' : Volume} {fp' : Fil} (sought : Sought there fs fp fs' fp')
    (placed : fp.Placed fs) : fp'.Placed fs' := by
  have csize : fs'.bcs = fs.bcs := by
    rw [sought.volume]
    rfl
  refine ⟨?_, ?_, ?_⟩
  · rw [sought.fptr, csize, ← clustersFor_le_iff, sought.clusters]
    exact le_max_right _ _
  · rw [sought.fsize, csize, sought.clusters]
    exact Nat.le_trans placed.covered (Nat.mul_le_mul_right _ (le_max_left _ _))
  · rw [sought.fptr, csize]
    exact sought.clust

/-- The offset that is not beyond the end of a file that is only read. -/
def Fil.clip (ofs : BitVec 32) (fp : Fil) : BitVec 32 :=
  if ofs > fp.fsize ∧ fp.flag &&& FA_WRITE = 0 then fp.fsize else ofs

theorem clip_readOnly (ofs : BitVec 32) (readOnly : fp.flag &&& FA_WRITE = 0) :
    (fp.clip ofs).toNat = min ofs.toNat fp.fsize.toNat := by
  unfold Fil.clip
  by_cases further : ofs > fp.fsize
  · rw [if_pos ⟨further, readOnly⟩]
    exact (min_eq_right (Nat.le_of_lt (BitVec.lt_def.mp further))).symm
  · rw [if_neg fun both => further both.1]
    exact (min_eq_left (Nat.le_of_not_lt fun beyond => further (BitVec.lt_def.mpr beyond))).symm

/-- Clipped at the end of the file or at the end of the disk. -/
theorem min_clip_room (ok : fp.Ok fs) (ofs : BitVec 32) :
    min (fp.clip ofs).toNat (fp.room fs) = min ofs.toNat (fp.limit fs) := by
  have chain : fp.fsize.toNat ≤ fp.room fs :=
    Nat.le_trans ok.placed.covered (Nat.mul_le_mul_right _ (Nat.le_add_right _ _))
  unfold Fil.limit
  by_cases readOnly : fp.flag &&& FA_WRITE = 0
  · rw [if_pos readOnly, clip_readOnly ofs readOnly, min_assoc, min_eq_left chain]
  · rw [if_neg readOnly, Fil.clip, if_neg fun both => readOnly both.2]

/-- `f_lseek` puts the file pointer at the offset, or where it clips it, and stretches the file up to
there. -/
theorem fLseek_spec (ok : fp.Ok fs) (ofs : BitVec 32) :
    ∃ fs' fp', fLseek ofs fs fp = (.ok, fs', fp') ∧ fp'.Ok fs' ∧
      fp'.fptr.toNat = min ofs.toNat (fp.limit fs) ∧
      fp'.fsize.toNat = max fp.fsize.toNat (min ofs.toNat (fp.limit fs)) ∧
      fp'.clusters = max fp.clusters (fs.clustersFor (min ofs.toNat (fp.limit fs))) ∧
      fp'.flag &&& FA_WRITE = fp.flag &&& FA_WRITE ∧ fp'.bytes = fp.bytes := by
  have clipped : fp.flag &&& FA_WRITE = 0 → (fp.clip ofs).toNat ≤ fp.fsize.toNat := by
    intro readOnly
    rw [clip_readOnly ofs readOnly]
    exact min_le_right _ _
  obtain ⟨fs₁, fp₁, walk, sought⟩ := seekWalk_spec ok.placed clipped
  rw [min_clip_room ok] at sought
  have placed := sought.placed ok.placed
  have healthy : fp₁.flag &&& FA_ERROR = 0 := by
    rw [sought.flag]
    exact ok.healthy
  have result : fLseek ofs fs fp =
      (.ok, fs₁, if fp₁.fptr > fp₁.fsize then { fp₁ with fsize := fp₁.fptr, flag := fp₁.flag ||| FA_WRITTEN }
        else fp₁) := by
    rw [Fil.clip] at walk
    rw [fLseek, if_neg (not_not.mpr ok.healthy)]
    simp only [walk]
  refine ⟨fs₁, _, result, ?_⟩
  by_cases grows : fp₁.fptr > fp₁.fsize
  · have grew : fp₁.fsize.toNat < fp₁.fptr.toNat := grows
    rw [if_pos grows]
    refine ⟨⟨⟨placed.reached, placed.reached, placed.current⟩, Nat.le_refl _, healthy_written healthy⟩,
      sought.fptr, ?_, sought.clusters, ?_, sought.bytes⟩
    · rw [← sought.fptr, ← sought.fsize]
      exact (max_eq_right (Nat.le_of_lt grew)).symm
    · rw [← sought.flag]
      exact and_write_written fp₁.flag
  · have stayed : ¬ fp₁.fsize.toNat < fp₁.fptr.toNat := grows
    rw [if_neg grows]
    refine ⟨⟨placed, Nat.le_of_not_lt stayed, healthy⟩, sought.fptr, ?_, sought.clusters, ?_, sought.bytes⟩
    · rw [← sought.fptr, ← sought.fsize]
      exact (max_eq_left (Nat.le_of_not_lt stayed)).symm
    · rw [sought.flag]

end

/-- A call that may move the file pointer. -/
inductive FileCall where
  | write (buff : List (BitVec 8)) (length : buff.length < 2 ^ 32)
  | lseek (ofs : BitVec 32)

def FileCall.step : FileCall → Volume × Fil → Volume × Fil
  | .write buff _, (fs, fp) => (fWrite buff fs fp).2.2
  | .lseek ofs, (fs, fp) => (fLseek ofs fs fp).2

/-- A file object is as the functions expect it. -/
def OkState (s : Volume × Fil) : Prop := s.2.Ok s.1

/-- Every file object that the program can have is as the functions expect it. -/
theorem everyState_ok {fs : Volume} {file : Entry} (ok : file.Ok fs) {mode : BitVec 8} {fp : Fil}
    (opened : fOpen file mode = (.ok, fp)) (calls : List FileCall) :
    Run.EveryState FileCall.step OkState (fs, fp) calls := by
  have start : OkState (fs, fp) := fOpen_ok ok opened
  refine Run.everyState_of_invariant ?_ (fun _ ok => ok) start calls
  intro call s ok
  unfold OkState at ok ⊢
  cases call with
  | write buff length =>
      simp only [FileCall.step]
      by_cases writable : s.2.flag &&& FA_WRITE = 0
      · rw [fWrite, if_neg (not_not.mpr ok.healthy), if_pos writable]
        exact ok
      · obtain ⟨k, fs', fp', result, -, ok', -⟩ := fWrite_spec ok writable length
        rw [result]
        exact ok'
  | lseek ofs =>
      simp only [FileCall.step]
      obtain ⟨fs', fp', result, ok', -⟩ := fLseek_spec ok ofs
      rw [result]
      exact ok'

/-! ## `dev_mmcfs_lseek` -/

def SEEK_SET : BitVec 32 := 0
def SEEK_CUR : BitVec 32 := 1
def SEEK_END : BitVec 32 := 2

def EINVAL : BitVec 32 := 22

/-- `fpos`, by the `switch` on `dir`. -/
def seekFpos (ptr dir : BitVec 32) (fp : Fil) : Option (BitVec 32) :=
  if dir = SEEK_SET then some ptr
  else if dir = SEEK_CUR then some (fp.fptr + ptr)
  else if dir = SEEK_END then some (fp.fsize + ptr)
  else none

/-- `dev_mmcfs_lseek`; `slot` is where `fd->priv` points. The result is an `int`. -/
def devMmcfsLseek (ptr dir : BitVec 32) (slot : Nat) (fs : Volume) (d : Driver Fil) :
    BitVec 32 × Volume × Driver Fil :=
  match seekFpos ptr dir (d.devMmcfsTable slot) with
  | none => (-EINVAL, fs, d)
  | some fpos =>
      match fLseek fpos fs (d.devMmcfsTable slot) with
      | (res, fs, fp) =>
          let d := { d with devMmcfsTable := Function.update d.devMmcfsTable slot fp }
          match res with
          | .ok => (fp.fptr, fs, d)
          | .failed => (-EINVAL, fs, d)

/-- The position that a call asks for, as an integer. -/
def seekTarget (ptr dir : BitVec 32) (fp : Fil) : Option Int :=
  if dir = SEEK_SET then some ptr.toInt
  else if dir = SEEK_CUR then some (fp.fptr.toNat + ptr.toInt)
  else if dir = SEEK_END then some (fp.fsize.toNat + ptr.toInt)
  else none

/-- What a call must do: refuse a position that is not an `int` from 0 on, and go to any other in a file
that is only read. `fp` is the file object before the call and `fp'` the one after it. -/
def SeekMeets (target : Int) (fp : Fil) (rc : BitVec 32) (fp' : Fil) : Prop :=
  if target < 0 ∨ 2 ^ 31 ≤ target then
    rc.toInt < 0 ∧ fp'.fptr = fp.fptr ∧ fp'.fsize = fp.fsize ∧ fp'.clusters = fp.clusters
  else
    fp.flag &&& FA_WRITE = 0 → target ≤ fp.fsize.toNat →
      rc.toInt = target ∧ (fp'.fptr.toNat : Int) = target

instance (target : Int) (fp : Fil) (rc : BitVec 32) (fp' : Fil) : Decidable (SeekMeets target fp rc fp') := by
  unfold SeekMeets
  infer_instance

theorem ofInt_toNat_add_toInt (base ptr : BitVec 32) : BitVec.ofInt 32 (base.toNat + ptr.toInt) = base + ptr := by
  rw [BitVec.ofInt_add, BitVec.ofInt_toInt]
  congr 1
  exact BitVec.ofNat_toNat _ _

/-- The position handed to `f_lseek` is the one asked for, up to a multiple of 4 GB. -/
theorem seekFpos_eq (ptr dir : BitVec 32) (fp : Fil) :
    seekFpos ptr dir fp = (seekTarget ptr dir fp).map (BitVec.ofInt 32) := by
  unfold seekFpos seekTarget
  split_ifs
  · rw [Option.map_some, BitVec.ofInt_toInt]
  · rw [Option.map_some, ofInt_toNat_add_toInt]
  · rw [Option.map_some, ofInt_toNat_add_toInt]
  · rfl

/-- A call with any other `dir` is refused. -/
theorem devMmcfsLseek_einval {ptr dir : BitVec 32} {slot : Nat} {fs : Volume} {d : Driver Fil}
    (none : seekTarget ptr dir (d.devMmcfsTable slot) = none) :
    devMmcfsLseek ptr dir slot fs d = (-EINVAL, fs, d) := by
  unfold devMmcfsLseek
  rw [seekFpos_eq, none, Option.map_none]

/-- `dev_mmcfs_lseek` does what it must if and only if the position asked for is an `int` from 0 on, or the
one that `f_lseek` makes of it is where the file pointer already is, beyond 2 GB. -/
theorem lseek_meets_iff {fs : Volume} {d : Driver Fil} {slot : Nat} (ok : (d.devMmcfsTable slot).Ok fs)
    {ptr dir : BitVec 32} {target : Int} (seek : seekTarget ptr dir (d.devMmcfsTable slot) = some target) :
    SeekMeets target (d.devMmcfsTable slot) (devMmcfsLseek ptr dir slot fs d).1
        ((devMmcfsLseek ptr dir slot fs d).2.2.devMmcfsTable slot) ↔
      (0 ≤ target ∧ target < 2 ^ 31) ∨
        (2 ^ 31 ≤ (d.devMmcfsTable slot).fptr.toNat ∧
          min (target % 2 ^ 32).toNat ((d.devMmcfsTable slot).limit fs) = (d.devMmcfsTable slot).fptr.toNat) := by
  obtain ⟨fs', fp', result, -, fptr, fsize, clusters, -, -⟩ := fLseek_spec ok (BitVec.ofInt 32 target)
  have position : (BitVec.ofInt 32 target).toNat = (target % 2 ^ 32).toNat := by
    rw [BitVec.toNat_ofInt]
    rfl
  have call : devMmcfsLseek ptr dir slot fs d =
      (fp'.fptr, fs', { d with devMmcfsTable := Function.update d.devMmcfsTable slot fp' }) := by
    unfold devMmcfsLseek
    rw [seekFpos_eq, seek, Option.map_some]
    simp only [result]
  rw [call]
  dsimp only
  rw [Function.update_self]
  rw [position] at fptr fsize clusters
  generalize d.devMmcfsTable slot = fp at *
  unfold SeekMeets
  by_cases refused : target < 0 ∨ 2 ^ 31 ≤ target
  · rw [if_pos refused, or_iff_right (by omega), BitVec.toInt_neg_iff]
    rw [← fptr] at fsize clusters ⊢
    constructor
    · rintro ⟨negative, same, -, -⟩
      rw [← same]
      exact ⟨by omega, rfl⟩
    · rintro ⟨large, same⟩
      rw [same] at fsize clusters
      refine ⟨by omega, BitVec.eq_of_toNat_eq same, ?_, ?_⟩
      · apply BitVec.eq_of_toNat_eq
        rw [fsize]
        exact max_eq_left ok.inside
      · rw [clusters]
        exact max_eq_left (clustersFor_le_iff.mpr ok.placed.reached)
  · rw [if_neg refused]
    refine iff_of_true ?_ (.inl (by omega))
    intro readOnly within
    have clipped : fp.limit fs = fp.fsize.toNat := if_pos readOnly
    rw [clipped] at fptr
    have there : (fp'.fptr.toNat : Int) = target := by omega
    refine ⟨?_, there⟩
    rw [← there]
    apply BitVec.toInt_eq_toNat_of_lt
    omega

/-- A file of ten bytes opened for reading, in slot 0. -/
def tenBytes : Driver Fil :=
  ⟨15, fun _ => 0, fun _ => (fOpen ⟨false, 10, 1, fun _ => 0⟩ FA_READ).2⟩

/-- A disk of small clusters. -/
def smallVolume : Volume := ⟨1, 0, Nat.one_pos⟩

theorem tenBytes_ok : (tenBytes.devMmcfsTable 0).Ok smallVolume where
  placed := ⟨Nat.zero_le _, by unfold Volume.bcs; decide, fun some => absurd some (Nat.lt_irrefl 0)⟩
  inside := Nat.zero_le _
  healthy := rfl

theorem lseek_meets_iff_four :
    SeekMeets 4 (tenBytes.devMmcfsTable 0) (devMmcfsLseek 4 SEEK_SET 0 smallVolume tenBytes).1
        ((devMmcfsLseek 4 SEEK_SET 0 smallVolume tenBytes).2.2.devMmcfsTable 0) ↔
      ((0 : Int) ≤ 4 ∧ (4 : Int) < 2 ^ 31) ∨
        (2 ^ 31 ≤ (tenBytes.devMmcfsTable 0).fptr.toNat ∧
          min ((4 : Int) % 2 ^ 32).toNat ((tenBytes.devMmcfsTable 0).limit smallVolume) =
            (tenBytes.devMmcfsTable 0).fptr.toNat) :=
  lseek_meets_iff tenBytes_ok rfl

/-- A position before the beginning of the file is not refused: the file pointer is then at its end. -/
theorem lseek_before_beginning :
    seekTarget (-1) SEEK_SET (tenBytes.devMmcfsTable 0) = some (-1) ∧
      (devMmcfsLseek (-1) SEEK_SET 0 smallVolume tenBytes).1 = 10 ∧
      ((devMmcfsLseek (-1) SEEK_SET 0 smallVolume tenBytes).2.2.devMmcfsTable 0).fptr = 10 ∧
      ¬ SeekMeets (-1) (tenBytes.devMmcfsTable 0) (devMmcfsLseek (-1) SEEK_SET 0 smallVolume tenBytes).1
        ((devMmcfsLseek (-1) SEEK_SET 0 smallVolume tenBytes).2.2.devMmcfsTable 0) := by
  decide

end Cineraria.FatFs
