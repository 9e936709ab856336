import Cineraria.Fat.SeekFile

/-!
# Synchronising a file

`f_sync` on a drive without faults. When it returns the drive holds the file by itself: the entry of the directory
has its size and its first cluster, the FAT its chain, and the clusters its bytes.
-/

namespace Cineraria.Fat

open Chain

section
variable {v : Volume} {fs fs' : Fatfs} {fp fp' : Fil} {chain : List Nat} {faults : Faults}

/-- What leaves the clusters of a file as they are leaves the file as it is. -/
theorem FileOk.kept (ok : FileOk v fs fp chain) (windowOk : fs'.WindowOk v)
    (same : ∀ c ∈ chain, links v fs'.view c = links v fs.view c)
    (data : ∀ c ∈ chain, ∀ i, v.InCluster c i → fs'.view i = fs.view i) (window : ∀ c ∈ chain, ¬v.InCluster c fs'.winsect) :
    FileOk v fs' fp chain ∧ ∀ o < chain.length * v.bcs, fileByte v chain fs' fp o = fileByte v chain fs fp o := by
  refine ⟨⟨⟨windowOk, fun some => (ok.chained some).congr same, ok.start, ok.room, window, ok.place, ok.dirty,
    fun clean valid => ?_⟩, ok.clust, ok.here⟩, fun o inside => ?_⟩
  · obtain ⟨c, mem, here⟩ := ok.place.resolve_left valid
    rw [data c mem _ here]
    exact ok.copy clean valid
  · have mem := getD_of_lt (sector_lt inside)
    rw [fileByte, fileByte, fileView_apply, fileView_apply, data _ mem _ (fileSector_inCluster v chain (o / SS))]

end

end Cineraria.Fat
