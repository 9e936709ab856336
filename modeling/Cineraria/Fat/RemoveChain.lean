import Cineraria.Fat.CreateChain

/-!
# Removing a chain

`remove_chain` of `fatfs/ff.c`. It follows the links and frees each cluster that it leaves. As a cluster that
has been freed stops it, it ends on any FAT, also on one whose links go round in a circle.
-/

namespace Cineraria.Fat

open Chain

section
variable (faults : Faults) (v : Volume)

/-- The counters after a cluster has been freed. -/
def giveBack (fs : Fatfs) : Fatfs :=
  if fs.freeClust ≠ 0xFFFFFFFF then { fs with freeClust := fs.freeClust + 1, fsiFlag := true } else fs

/-- The loop of `remove_chain`. -/
def removeLoop : Nat → Nat → Fatfs → Option (FResult × Fatfs)
  | 0, _, _ => none
  | turns + 1, clst, fs =>
      if clst < v.nFatent then
        match getFat faults v clst fs with
        | (nxt, fs) =>
            if nxt = 0 then some (.ok, fs)
            else if nxt = 1 then some (.intErr, fs)
            else if nxt = 0xFFFFFFFF then some (.diskErr, fs)
            else
              match putFat faults v clst 0 fs with
              | (.ok, fs) => removeLoop turns nxt.toNat (giveBack fs)
              | (res, fs) => some (res, fs)
      else some (.ok, fs)

/-- `remove_chain`. The loop ends before its turns run out. -/
def removeChain (clst : Nat) (fs : Fatfs) : FResult × Fatfs :=
  if clst < 2 ∨ v.nFatent ≤ clst then (.intErr, fs)
  else (removeLoop faults v (v.nFatent + 2) clst fs).getD (.intErr, fs)

end

section
variable {faults : Faults} {v : Volume} {fs fs' : Fatfs} {clst : Nat}

theorem giveBack_spec (ok : fs.WindowOk v) :
    FatOnly v fs (giveBack fs) ∧ (giveBack fs).view = fs.view := by
  unfold giveBack
  split <;> exact ⟨⟨⟨ok.place, ok.dirty, ok.copy⟩, fun _ _ _ => rfl, .inl rfl⟩, rfl⟩

/-- The count after one more cluster has become free. -/
theorem giveBack_exact {t : Nat → Link Nat} (exact : fs.freeClust ≠ 0xFFFFFFFF →
      fs.freeClust.toNat = freeCells (Finset.range v.nFatent) t) (lt : clst < v.nFatent) (held : t clst ≠ .free)
    (freed : links v fs.view = Function.update t clst .free) : (giveBack fs).Exact v := by
  have more := freeCells_give (Finset.mem_range.mpr lt) held
  have most := freeCells_le (Finset.range v.nFatent) (Function.update t clst .free)
  rw [Finset.card_range] at most
  have small := (v.lt_pow lt).2
  have bound := (v.lt_pow (show v.nFatent - 1 < v.nFatent by omega)).2
  intro known
  unfold giveBack at known ⊢
  split
  · next was =>
    change (fs.freeClust + 1).toNat = freeCells _ (links v fs.view)
    have one : (1 : BitVec 32).toNat = 1 := rfl
    rw [freed, more, BitVec.toNat_add, one, exact was]
    omega
  · next was =>
    rw [if_neg was] at known
    exact absurd known was

/-- What `remove_chain` comes to. Clusters that are not reached keep their links; on a drive without faults
those that are reached are free after it, up to one with an entry of 1, if there is one. -/
structure Removed (faults : Faults) (v : Volume) (clst : Nat) (fs fs' : Fatfs) (res : FResult) : Prop where
  fatOnly : FatOnly v fs fs'
  others : ∀ x, ¬Reach (links v fs.view) clst x ∨ links v fs.view x = .bad → links v fs'.view x = links v fs.view x
  freed : ¬faults.Some → ∀ x, Reach (links v fs.view) clst x → links v fs.view x ≠ .bad → links v fs'.view x = .free
  exact : ¬faults.Some → fs.Exact v → fs'.Exact v
  result : res = .ok ∨ res = .diskErr ∧ faults.Some ∨
    res = .intErr ∧ ∃ x < v.nFatent, Reach (links v fs.view) clst x ∧ links v fs.view x = .bad

theorem putFat_zero {res : FResult} (ok : fs.WindowOk v) (onFat : fs.AtFat v) (lo : 2 ≤ clst)
    (hi : clst < v.nFatent) (h : putFat faults v clst 0 fs = (res, fs')) :
    FatChanged v fs fs' ∧
      (res = .ok ∧ links v fs'.view = Function.update (links v fs.view) clst .free ∨
        res = .diskErr ∧ faults.Some ∧ ∀ x ≠ clst, links v fs'.view x = links v fs.view x) := by
  obtain ⟨changed, put⟩ := putFat_spec ok (.inr onFat) h
  obtain rfl | ⟨rfl, faulty⟩ := put.ok_or_failed ⟨lo, hi⟩
  · refine ⟨changed, .inl ⟨rfl, ?_⟩⟩
    rw [put.links_eq, show (0 : BitVec 32).toNat = 0 from rfl, Nat.zero_mod, Volume.link_eq_free.mpr rfl]
  · exact ⟨changed, .inr ⟨rfl, faulty, fun x ne => put.links_kept (by simp) (.inl ne)⟩⟩

/-- A cluster has been freed, and its link followed. -/
theorem Removed.step {fs1 : Fatfs} {nxt : Nat} {res : FResult} (rest : Removed faults v nxt fs1 fs' res)
    (fatOnly : FatOnly v fs fs1) (freed : links v fs1.view = Function.update (links v fs.view) clst .free)
    (held : links v fs.view clst ≠ .free ∧ links v fs.view clst ≠ .bad)
    (link : links v fs.view clst = .next nxt ∨ links v fs.view clst = .last ∧ v.nFatent ≤ nxt)
    (exact : fs.Exact v → fs1.Exact v) :
    Removed faults v clst fs fs' res := by
  have here : links v fs1.view clst = .free := by rw [freed, Function.update_self]
  have there : ∀ x ≠ clst, links v fs1.view x = links v fs.view x := fun x ne => by
    rw [freed, Function.update_of_ne ne]
  -- Beyond the last link nothing is reached.
  have reach : ∀ x, x < v.nFatent → (Reach (links v fs.view) clst x ↔ x = clst ∨ Reach (links v fs1.view) nxt x) := by
    intro x inside
    rcases link with next | ⟨last, beyond⟩
    · rw [freed]
      exact reach_update_free next
    · have bad : links v fs1.view nxt = .bad := if_pos (.inr beyond)
      rw [reach_end (by simp [last]), reach_end (by simp [bad])]
      omega
  have bad_of_beyond : ∀ x, v.nFatent ≤ x → links v fs.view x = .bad := fun x out => if_pos (.inr out)
  refine ⟨fatOnly.trans rest.fatOnly, fun x out => ?_, fun healthy x reached notBad => ?_,
    fun healthy count => rest.exact healthy (exact count), ?_⟩
  · have ne : x ≠ clst := by
      rintro rfl
      exact out.elim (fun h => h .refl) held.2
    rw [← there x ne]
    refine rest.others x ?_
    rw [there x ne]
    rcases Nat.lt_or_ge x v.nFatent with inside | beyond
    · exact out.imp_left fun h r => h ((reach x inside).mpr (.inr r))
    · exact .inr (bad_of_beyond x beyond)
  · have inside : x < v.nFatent := by
      by_contra beyond
      exact notBad (bad_of_beyond x (by omega))
    by_cases again : Reach (links v fs1.view) nxt x
    · refine rest.freed healthy x again ?_
      by_cases eq : x = clst
      · rw [eq, here]
        simp
      · rwa [there x eq]
    · obtain rfl := ((reach x inside).mp reached).resolve_right again
      rw [rest.others x (.inl again), here]
  · rcases rest.result with done | failed | ⟨err, x, inside, reached, bad⟩
    · exact .inl done
    · exact .inr (.inl failed)
    · have ne : x ≠ clst := by
        rintro rfl
        simp [here] at bad
      exact .inr (.inr ⟨err, x, inside, (reach x inside).mpr (.inr reached), by rw [← there x ne, bad]⟩)

/-- The loop ends, whatever the links are: each turn but the last frees a cluster. -/
theorem removeLoop_spec (faults : Faults) :
    ∀ (turns clst : Nat) (fs : Fatfs), fs.WindowOk v → 2 ≤ clst →
      v.nFatent + 2 ≤ turns + freeCells (Finset.range v.nFatent) (links v fs.view) →
      ∃ res fs', removeLoop faults v turns clst fs = some (res, fs') ∧ Removed faults v clst fs fs' res := by
  intro turns
  induction turns with
  | zero =>
    intro clst fs _ _ enough
    have most := freeCells_le (Finset.range v.nFatent) (links v fs.view)
    rw [Finset.card_range] at most
    omega
  | succ turns ih =>
    intro clst fs ok lo enough
    simp only [removeLoop]
    by_cases hi : clst < v.nFatent
    swap
    · -- The last link has been followed.
      have bad : links v fs.view clst = .bad := if_pos (by omega)
      have alone : ∀ x, Reach (links v fs.view) clst x ↔ x = clst := fun x => reach_end (by simp [bad])
      refine ⟨.ok, fs, if_neg hi, (FatRead.refl ok).fatOnly, fun _ _ => rfl, fun _ x reach notBad => ?_, fun _ => id,
        .inl rfl⟩
      exact absurd ((alone x).mp reach ▸ bad) notBad
    rw [if_pos hi]
    cases hg : getFat faults v clst fs with
    | mk nxt fs1 =>
      obtain ⟨same, ⟨rfl, faulty⟩ | ⟨noError, link, onFat⟩⟩ := getFat_link ok lo hi hg
      · exact ⟨.diskErr, fs1, by simp, same.fatOnly, fun x _ => by rw [same.links], fun none => absurd faulty none,
          fun _ => same.exact, .inr (.inl ⟨rfl, faulty⟩)⟩
      by_cases free : nxt = 0
      · subst free
        have isFree : links v fs.view clst = .free := link.trans (Volume.link_eq_free.mpr rfl)
        refine ⟨.ok, fs1, by simp, same.fatOnly, fun x _ => by rw [same.links], fun _ x reach _ => ?_,
          fun _ => same.exact, .inl rfl⟩
        rw [same.links, (reach_end (by simp [isFree])).mp reach, isFree]
      by_cases bad : nxt = 1
      · subst bad
        have isBad : links v fs.view clst = .bad := link.trans (Volume.link_eq_bad.mpr rfl)
        refine ⟨.intErr, fs1, by simp, same.fatOnly, fun x _ => by rw [same.links], fun _ x reach notBad => ?_,
          fun _ => same.exact, .inr (.inr ⟨rfl, clst, hi, .refl, isBad⟩)⟩
        exact absurd ((reach_end (by simp [isBad])).mp reach ▸ isBad) notBad
      simp only [if_neg free, if_neg bad, if_neg noError]
      have held : links v fs.view clst ≠ .free ∧ links v fs.view clst ≠ .bad := by
        rw [link, ne_eq, Volume.link_eq_free, ne_eq, Volume.link_eq_bad]
        exact ⟨fun h => free (BitVec.eq_of_toNat_eq h), fun h => bad (BitVec.eq_of_toNat_eq h)⟩
      cases hp : putFat faults v clst 0 fs1 with
      | mk res2 fs2 =>
        obtain ⟨changed, ⟨rfl, freed⟩ | ⟨rfl, faulty, kept⟩⟩ := putFat_zero same.windowOk onFat lo hi hp
        swap
        · refine ⟨.diskErr, fs2, rfl, same.fatOnly.trans changed.fatOnly, fun x out => ?_, fun none => absurd faulty none,
            fun none => absurd faulty none, .inr (.inl ⟨rfl, faulty⟩)⟩
          rw [kept x, same.links]
          rintro rfl
          exact out.elim (fun h => h .refl) held.2
        rw [same.links] at freed
        obtain ⟨counted, view⟩ := giveBack_spec changed.windowOk
        have more : freeCells (Finset.range v.nFatent) (links v (giveBack fs2).view) =
            freeCells (Finset.range v.nFatent) (links v fs.view) + 1 := by
          rw [view, freed, freeCells_give (Finset.mem_range.mpr hi) held.1]
        have lo2 : 2 ≤ nxt.toNat := by
          have h0 : nxt.toNat ≠ 0 := fun h => free (BitVec.eq_of_toNat_eq h)
          have h1 : nxt.toNat ≠ 1 := fun h => bad (BitVec.eq_of_toNat_eq h)
          omega
        obtain ⟨res3, fs3, run, rest⟩ := ih nxt.toNat (giveBack fs2) counted.windowOk lo2 (by omega)
        refine ⟨res3, fs3, run, rest.step (same.fatOnly.trans (changed.fatOnly.trans counted)) (by rw [view, freed]) held
          ?_ fun exact => giveBack_exact (by rw [changed.freeClust, same.freeClust]; exact exact) hi held.1 freed⟩
        rw [link]
        by_cases inside : nxt.toNat < v.nFatent
        · exact .inl (Volume.link_eq_next.mpr ⟨rfl, lo2, inside⟩)
        · exact .inr ⟨Volume.link_eq_last.mpr (by omega), by omega⟩

/-- `remove_chain` from a cluster of the volume, on any FAT. -/
theorem removeChain_spec {res : FResult} (ok : fs.WindowOk v) (range : 2 ≤ clst ∧ clst < v.nFatent)
    (h : removeChain faults v clst fs = (res, fs')) : Removed faults v clst fs fs' res := by
  obtain ⟨res1, fs1, run, removed⟩ := removeLoop_spec faults (v.nFatent + 2) clst fs ok range.1 (by omega)
  rw [removeChain, if_neg (by omega), run] at h
  cases h
  exact removed

/-- On a drive without faults `remove_chain` ends on any FAT, also on one that goes round in a circle, and frees
exactly the clusters that the links reach. -/
theorem removeChain_frees (healthy : ¬faults.Some) (ok : fs.WindowOk v) (range : 2 ≤ clst ∧ clst < v.nFatent)
    (noBad : ∀ x, Reach (links v fs.view) clst x → links v fs.view x ≠ .bad) :
    (removeChain faults v clst fs).1 = .ok ∧
      (∀ x, Reach (links v fs.view) clst x → links v (removeChain faults v clst fs).2.view x = .free) ∧
      (∀ x, ¬Reach (links v fs.view) clst x →
        links v (removeChain faults v clst fs).2.view x = links v fs.view x) ∧
      (fs.Exact v → (removeChain faults v clst fs).2.Exact v) ∧
      ∀ i, v.Primary i → v.fatbase + v.fsize ≤ i → (removeChain faults v clst fs).2.view i = fs.view i := by
  have removed := removeChain_spec ok range (Prod.eta (removeChain faults v clst fs)).symm
  refine ⟨?_, fun x reached => removed.freed healthy x reached (noBad x reached), fun x out => removed.others x (.inl out),
    removed.exact healthy, removed.fatOnly.outside⟩
  rcases removed.result with done | ⟨-, faulty⟩ | ⟨-, x, -, reached, bad⟩
  · exact done
  · exact absurd faulty healthy
  · exact absurd bad (noBad x reached)

theorem removeChain_frees_twoChains :
    let fs' := (removeChain (fun _ => none) tiny 2 twoChains).2
    (removeChain (fun _ => none) tiny 2 twoChains).1 = .ok ∧ (∀ x ∈ [2, 5, 3], links tiny fs'.view x = .free) ∧
      links tiny fs'.view 4 = .next 6 ∧ links tiny fs'.view 6 = .last ∧ fs'.freeClust = 4 ∧ fs'.Exact tiny ∧
      ∀ i, tiny.Primary i → 2 ≤ i → fs'.view i = twoChains.view i := by
  have chain : IsChain (links tiny twoChains.view) [2, 5, 3] := ⟨by decide, by decide, show _ = Link.last by decide⟩
  have apart : ∀ x ∈ [4, 6], x ∉ [2, 5, 3] := by decide
  have second : ∀ x ∈ [4, 6], ¬Reach (links tiny twoChains.view) 2 x := fun x mem reached =>
    apart x mem (chain.reach.mp reached)
  have noBad : ∀ x ∈ [2, 5, 3], links tiny twoChains.view x ≠ .bad := by decide
  obtain ⟨done, freed, kept, exact, outside⟩ := removeChain_frees (Faults.not_some fun _ => rfl)
    (fatOf_windowOk _ _) ⟨by decide, by decide⟩ fun x reached => noBad x (chain.reach.mp reached)
  refine ⟨done, fun x mem => freed x (chain.reach.mpr mem), ?_, ?_, by decide, exact (by unfold Fatfs.Exact; decide),
    outside⟩
  · exact (kept 4 (second 4 (by decide))).trans (by decide)
  · exact (kept 6 (second 6 (by decide))).trans (by decide)

end

end Cineraria.Fat
