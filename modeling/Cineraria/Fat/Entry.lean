import Cineraria.Fat.SyncFile

/-!
# The entry of a file

What `f_sync` and `f_open` put into the entry of a directory, and what the file object made from an entry is.
-/

namespace Cineraria.Fat

/-! ## Numbers in a sector -/

section
variable {win win' : Sector} {j k : Nat}

theorem ofs_ne (ne : j ≠ k) (hj : j < 512) (hk : k < 512) : ofs j ≠ ofs k := by
  rw [Ne, ofs_inj]
  omega

theorem stWord_ofs (w : BitVec 16) (apart : j < k ∨ k + 1 < j) (hj : j < 512) (hk : k + 1 < 512) :
    stWord win k w (ofs j) = win (ofs j) := by
  rw [stWord, Function.update_of_ne (ofs_ne (by omega) hj hk), Function.update_of_ne (ofs_ne (by omega) hj (by omega))]

theorem ldWord_congr (low : win' (ofs k) = win (ofs k)) (high : win' (ofs (k + 1)) = win (ofs (k + 1))) :
    ldWord win' k = ldWord win k := by
  rw [ldWord, ldWord, low, high]

theorem ldDword_congr (same : ∀ i < 4, win' (ofs (k + i)) = win (ofs (k + i))) : ldDword win' k = ldDword win k := by
  have low : ldWord win' k = ldWord win k := ldWord_congr (same 0 (by omega)) (same 1 (by omega))
  have high : ldWord win' (k + 2) = ldWord win (k + 2) := ldWord_congr (same 2 (by omega)) (same 3 (by omega))
  rw [ldDword, ldDword, low, high]

theorem ldWord_stWord (win : Sector) (k : Nat) (w : BitVec 16) : ldWord (stWord win k w) k = w := by
  have ne : ofs k ≠ ofs (k + 1) := by
    rw [Ne, ofs_inj]
    omega
  have split := BitField.setWidth_split w 8 8
  rw [BitVec.setWidth_eq] at split
  rw [ldWord, stWord, Function.update_self, Function.update_of_ne ne, Function.update_self]
  exact split

theorem ldDword_stDword (win : Sector) (w : BitVec 32) (hk : k + 3 < 512) : ldDword (stDword win k w) k = w := by
  have split := BitField.setWidth_split w 16 16
  rw [BitVec.setWidth_eq] at split
  have low : ldWord (stDword win k w) k = w.setWidth 16 := by
    rw [stDword, ldWord_congr (stWord_ofs _ (by omega) (by omega) hk) (stWord_ofs _ (by omega) (by omega) hk),
      ldWord_stWord]
  rw [ldDword, low, stDword, ldWord_stWord]
  exact split

/-- A cluster number in an entry. -/
theorem ldClust_stClust (win : Sector) (cl : BitVec 32) (hk : k + 31 < 512) : ldClust (stClust win k cl) k = cl := by
  have low : ldWord (stClust win k cl) (k + DIR_FstClusLO) = cl.setWidth 16 := by
    simp only [stClust, DIR_FstClusLO, DIR_FstClusHI]
    rw [ldWord_congr (stWord_ofs _ (by omega) (by omega) (by omega)) (stWord_ofs _ (by omega) (by omega) (by omega)),
      ldWord_stWord]
  rw [ldClust, low, stClust, ldWord_stWord]
  apply BitVec.eq_of_getLsbD_eq
  intro i hi
  by_cases first : i < 16
  · simp [first, hi]
  · simp [first, hi, show i - 16 < 16 by omega, show 16 + (i - 16) = i by omega]

theorem ldClust_congr (same : ∀ i < 32, win' (ofs (k + i)) = win (ofs (k + i))) : ldClust win' k = ldClust win k := by
  have high : ldWord win' (k + DIR_FstClusHI) = ldWord win (k + DIR_FstClusHI) :=
    ldWord_congr (same 20 (by omega)) (same 21 (by omega))
  have low : ldWord win' (k + DIR_FstClusLO) = ldWord win (k + DIR_FstClusLO) :=
    ldWord_congr (same 26 (by omega)) (same 27 (by omega))
  rw [ldClust, ldClust, high, low]

theorem stClust_ofs (cl : BitVec 32) (outside : j < k ∨ k + 31 < j ∨ k + 28 ≤ j) (hj : j < 512) (hk : k + 31 < 512) :
    stClust win k cl (ofs j) = win (ofs j) := by
  rw [stClust, DIR_FstClusHI, DIR_FstClusLO, stWord_ofs _ (by omega) hj (by omega), stWord_ofs _ (by omega) hj (by omega)]

/-! ## The entries that are put -/

variable {fsize sclust dir : Nat}

theorem emptyEntry_size (hd : dir + 31 < 512) : ldDword (emptyEntry dir win) (dir + DIR_FileSize) = 0 := by
  simp only [emptyEntry, DIR_FileSize]
  rw [ldDword_congr fun i hi => by rw [stClust_ofs _ (by omega) (by omega) hd], ldDword_stDword _ _ (by omega)]

theorem emptyEntry_clust (hd : dir + 31 < 512) : ldClust (emptyEntry dir win) dir = 0 := ldClust_stClust _ _ hd

end

end Cineraria.Fat
