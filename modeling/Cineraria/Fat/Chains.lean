import Cineraria.Fat.RemoveChain

/-!
# The chains of a volume

Files and directories hold chains of clusters, and the FAT functions begin, stretch and remove them. The
ledger says what each holder has been given, by the results of the functions alone.
-/

namespace Cineraria.Fat

open Run Chain

/-- What is asked of the FAT: a chain for a holder that has none, a cluster after the one at a place of its
chain, or to give its chain up. -/
inductive ChainOp (η : Type) where
  | create (h : η)
  | stretch (h : η) (i : Nat)
  | remove (h : η)

/-- The volume, and what each holder has. -/
structure Ledger (η : Type) where
  fs : Fatfs
  files : η → List Nat

section
variable {η : Type} [DecidableEq η] (faults : Faults) (v : Volume)

/-- One operation. A result that is a cluster is added to the chain, or it was there already. -/
def chainStep : ChainOp η → Ledger η → Ledger η
  | .create h, s =>
      if s.files h = [] then
        match createChain faults v 0 s.fs with
        | (r, fs) => ⟨fs, if 2 ≤ r ∧ r < v.nFatent then Function.update s.files h [r] else s.files⟩
      else s
  | .stretch h i, s =>
      match (s.files h)[i]? with
      | none => s
      | some c =>
          match createChain faults v c s.fs with
          | (r, fs) =>
              ⟨fs, if 2 ≤ r ∧ r < v.nFatent ∧ (s.files h)[i + 1]? ≠ some r
                then Function.update s.files h ((s.files h).take i ++ [c] ++ [r]) else s.files⟩
  | .remove h, s =>
      match s.files h with
      | [] => s
      | c :: _ => ⟨(removeChain faults v c s.fs).2, Function.update s.files h []⟩

end

section
variable {η : Type} [DecidableEq η] {faults : Faults} {v : Volume}

/-- The window is in order, and each holder has a chain of its own. -/
structure Ledger.Ok (v : Volume) (s : Ledger η) : Prop where
  windowOk : s.fs.WindowOk v
  owned : Owned (links v s.fs.view) s.files

/-- A cluster at a place of a chain. -/
theorem split_at {cs : List Nat} {i c : Nat} (get : cs[i]? = some c) :
    cs = cs.take i ++ c :: cs.drop (i + 1) := by
  obtain ⟨lt, rfl⟩ := List.getElem?_eq_some_iff.mp get
  rw [List.cons_getElem_drop_succ, List.take_append_drop]

omit [DecidableEq η] in
/-- A cluster that is held can be followed or stretched. -/
theorem Ledger.Ok.held {s : Ledger η} (ok : s.Ok v) {h : η} {c : Nat} (mem : c ∈ s.files h) :
    links v s.fs.view c = .last ∨ ∃ d, links v s.fs.view c = .next d :=
  ((ok.owned.chain h (List.ne_nil_of_mem mem)).mem mem).imp_right fun ⟨d, _, link⟩ => ⟨d, link⟩

/-- The codes of `create_chain` are no clusters. -/
theorem not_cluster {code : Nat} (range : 2 ≤ code ∧ code < v.nFatent) : code ≠ 0 ∧ code ≠ 1 ∧ code ≠ 0xFFFFFFFF := by
  have := (v.lt_pow range.2).2
  omega

omit [DecidableEq η] in
/-- When `create_chain` gives no cluster, each holder still has its chain. -/
theorem Created.refused {fs fs' : Fatfs} {clst r : Nat} {files : η → List Nat}
    (created : Created faults v clst fs fs' r) (owned : Owned (links v fs.view) files)
    (wide : v.fsType ≠ .fat12 ∨ ¬faults.Some) (code : ¬(2 ≤ r ∧ r < v.nFatent)) :
    Owned (links v fs'.view) files := by
  cases created with
  | followed _ link => exact absurd (next_range link) code
  | new _ free => exact absurd (range_of_links (v := v) (by rw [free]; simp)) code
  | full _ same => rwa [same.links]
  | bad _ _ _ same => rwa [same.links]
  | failed faulty kept =>
    refine owned.congr fun h c mem => kept c (owned.not_free mem) (.inr ?_)
    exact wide.resolve_right fun healthy => healthy faulty

/-- A new chain. -/
theorem Ledger.Ok.create {s : Ledger η} (ok : s.Ok v) (wide : v.fsType ≠ .fat12 ∨ ¬faults.Some) {h : η} {r : Nat}
    {fs' : Fatfs} (none : s.files h = []) (call : createChain faults v 0 s.fs = (r, fs')) :
    (⟨fs', if 2 ≤ r ∧ r < v.nFatent then Function.update s.files h [r] else s.files⟩ : Ledger η).Ok v := by
  obtain ⟨fatOnly, created⟩ := createChain_spec ok.windowOk (fun zero => absurd rfl zero) call
  refine ⟨fatOnly.windowOk, ?_⟩
  by_cases range : 2 ≤ r ∧ r < v.nFatent
  · rw [if_pos range]
    have codes := not_cluster range
    cases created with
    | followed _ link =>
      have bad : links v s.fs.view 0 = .bad := if_pos (.inl (by omega))
      cases bad.symm.trans link
    | new _ free linked =>
      rw [linked, if_pos rfl]
      exact ok.owned.create free none
    | _ => omega
  · rw [if_neg range]
    exact created.refused ok.owned wide range

omit [DecidableEq η] in
/-- A link inside a chain leads to the next place. -/
theorem Ledger.Ok.next_place {s : Ledger η} (ok : s.Ok v) {h : η} {i c r : Nat} (get : (s.files h)[i]? = some c)
    (link : links v s.fs.view c = .next r) : (s.files h)[i + 1]? = some r := by
  have chain := ok.owned.chain h (List.ne_nil_of_mem (List.mem_of_getElem? get))
  rw [split_at get] at chain
  rw [← List.head?_drop]
  cases hd : (s.files h).drop (i + 1) with
  | nil =>
    rw [hd] at chain
    cases link.symm.trans chain.getLast
  | cons d bs =>
    rw [hd] at chain
    simpa using chain.link.symm.trans link

omit [DecidableEq η] in
/-- The mark of the last cluster is at the last place. -/
theorem Ledger.Ok.last_place {s : Ledger η} (ok : s.Ok v) {h : η} {i c : Nat} (get : (s.files h)[i]? = some c)
    (last : links v s.fs.view c = .last) : (s.files h).take i ++ [c] = s.files h := by
  have split := split_at get
  have chain := ok.owned.chain h (List.ne_nil_of_mem (List.mem_of_getElem? get))
  rw [split] at chain
  cases hd : (s.files h).drop (i + 1) with
  | nil =>
    rw [hd] at split
    exact split.symm
  | cons d bs =>
    rw [hd] at chain
    cases last.symm.trans chain.link

omit [DecidableEq η] in
theorem Ledger.Ok.ne_zero {s : Ledger η} (ok : s.Ok v) {h : η} {c : Nat} (mem : c ∈ s.files h) : c ≠ 0 := by
  rintro rfl
  have bad : links v s.fs.view 0 = .bad := if_pos (.inl (by omega))
  rcases ok.held mem with last | ⟨d, link⟩
  · cases bad.symm.trans last
  · cases bad.symm.trans link

/-- A chain followed or stretched after the cluster at a place. -/
theorem Ledger.Ok.stretch {s : Ledger η} (ok : s.Ok v) (wide : v.fsType ≠ .fat12 ∨ ¬faults.Some) {h : η}
    {i c r : Nat} {fs' : Fatfs} (get : (s.files h)[i]? = some c) (call : createChain faults v c s.fs = (r, fs')) :
    (⟨fs', if 2 ≤ r ∧ r < v.nFatent ∧ (s.files h)[i + 1]? ≠ some r
      then Function.update s.files h ((s.files h).take i ++ [c] ++ [r]) else s.files⟩ : Ledger η).Ok v := by
  have mem := List.mem_of_getElem? get
  obtain ⟨fatOnly, created⟩ := createChain_spec ok.windowOk (fun _ => ok.held mem) call
  refine ⟨fatOnly.windowOk, ?_⟩
  by_cases range : 2 ≤ r ∧ r < v.nFatent
  · have codes := not_cluster range
    cases created with
    | followed _ link same =>
      have there := ok.next_place get link
      rw [if_neg (by simp [there]), same.links]
      exact ok.owned
    | new _ free linked =>
      have fresh : (s.files h)[i + 1]? ≠ some r := fun there =>
        ok.owned.not_free (List.mem_of_getElem? there) free
      rw [if_pos ⟨range.1, range.2, fresh⟩, linked, if_neg (ok.ne_zero mem)]
      exact ok.owned.append free (split_at get)
    | _ => omega
  · rw [if_neg fun all => range ⟨all.1, all.2.1⟩]
    exact created.refused ok.owned wide range

/-- A chain given up. -/
theorem Ledger.Ok.remove {s : Ledger η} (ok : s.Ok v) {h : η} {c : Nat} {cs : List Nat} (holds : s.files h = c :: cs) :
    (⟨(removeChain faults v c s.fs).2, Function.update s.files h []⟩ : Ledger η).Ok v := by
  have chain := ok.owned.chain h (by simp [holds])
  have mem : c ∈ s.files h := by simp [holds]
  have notBad : links v s.fs.view c ≠ .bad := by rcases ok.held mem with last | ⟨d, link⟩ <;> simp [*]
  have removed := removeChain_spec ok.windowOk (range_of_links notBad) (Prod.eta (removeChain faults v c s.fs)).symm
  refine ⟨removed.fatOnly.windowOk, ok.owned.release fun h' ne x held => removed.others x (.inl fun reached => ne ?_)⟩
  rw [holds] at chain
  exact ok.owned.disjoint h' h x held (holds ▸ chain.reach.mp reached)

theorem chainStep_ok (wide : v.fsType ≠ .fat12 ∨ ¬faults.Some) (e : ChainOp η) {s : Ledger η} (ok : s.Ok v) :
    (chainStep faults v e s).Ok v := by
  cases e with
  | create h =>
    by_cases none : s.files h = []
    · simp only [chainStep, if_pos none]
      exact ok.create wide none rfl
    · simpa only [chainStep, if_neg none] using ok
  | stretch h i =>
    cases get : (s.files h)[i]? with
    | none => simpa only [chainStep, get] using ok
    | some c =>
      simp only [chainStep, get]
      exact ok.stretch wide get rfl
  | remove h =>
    cases holds : s.files h with
    | nil => simpa only [chainStep, holds] using ok
    | cons c cs =>
      simp only [chainStep, holds]
      exact ok.remove holds

/-- The allocation never leaves the FAT. -/
theorem chainStep_outside (e : ChainOp η) {s : Ledger η} (ok : s.Ok v) {i : Nat} (primary : v.Primary i)
    (beyond : v.fatbase + v.fsize ≤ i) : (chainStep faults v e s).fs.view i = s.fs.view i := by
  cases e with
  | create h =>
    by_cases none : s.files h = []
    · simp only [chainStep, if_pos none]
      exact (createChain_spec ok.windowOk (fun zero => absurd rfl zero) rfl).1.outside i primary beyond
    · simp only [chainStep, if_neg none]
  | stretch h j =>
    cases get : (s.files h)[j]? with
    | none => simp only [chainStep, get]
    | some c =>
      simp only [chainStep, get]
      exact (createChain_spec ok.windowOk (fun _ => ok.held (List.mem_of_getElem? get)) rfl).1.outside i primary beyond
  | remove h =>
    cases holds : s.files h with
    | nil => simp only [chainStep, holds]
    | cons c cs =>
      simp only [chainStep, holds]
      have notBad : links v s.fs.view c ≠ .bad := by
        rcases ok.held (h := h) (c := c) (by simp [holds]) with last | ⟨d, link⟩ <;> simp [*]
      exact (removeChain_spec ok.windowOk (range_of_links notBad) rfl).fatOnly.outside i primary beyond

/-- No cluster is ever in two chains. In every state of a run each holder has a chain that ends and that it shares
with nobody, and what lies outside the FAT is untouched, whichever operations of the drive have failed; in FAT12,
where an entry may be half written, if none has. -/
theorem chains_never_cross (wide : v.fsType ≠ .fat12 ∨ ¬faults.Some) {s : Ledger η} (ok : s.Ok v)
    (es : List (ChainOp η)) :
    EveryState (chainStep faults v)
      (fun s' => Owned (links v s'.fs.view) s'.files ∧
        ∀ i, v.Primary i → v.fatbase + v.fsize ≤ i → s'.fs.view i = s.fs.view i) s es :=
  everyState_of_invariant
    (fun e s' (inv : s'.Ok v ∧ ∀ i, v.Primary i → v.fatbase + v.fsize ≤ i → s'.fs.view i = s.fs.view i) =>
      ⟨chainStep_ok wide e inv.1, fun i primary beyond =>
        (chainStep_outside e inv.1 primary beyond).trans (inv.2 i primary beyond)⟩)
    (fun _ inv => ⟨inv.1.owned, inv.2⟩) ⟨ok, fun _ _ _ => rfl⟩ es

/-- The blank drive, and two holders that have nothing. -/
theorem blank_ledger : (⟨blank, fun _ : Bool => []⟩ : Ledger Bool).Ok tiny :=
  ⟨blank_windowOk, fun _ some => absurd rfl some, fun _ _ _ mem => by simp at mem⟩

/-- The smallest of FAT16 volumes: 4086 clusters of a sector. -/
def small16 : Volume :=
  { tiny with
    fsType := .fat16
    nFatent := 4088
    fsize := 16
    dirbase := 33
    database := 34
    nFatent_gt := by decide
    nFatent_lt := by decide
    fat_fits := by decide
    database_eq := rfl
    database_end := by decide
    dirbase_eq := fun _ => rfl
    nRootdir_iff := by decide }

/-- No cluster of it is used, and the search begins after 254. -/
def upTo254 : Fatfs := { mounted with lastClust := 254 }

/-- The second operation of the drive fails, and the eighth. -/
def twice : Faults := fun k => if k = 1 ∨ k = 7 then some fun _ _ => 0xFF else none

theorem chains_never_cross_twice :
    let es : List (ChainOp Bool) := [.create true, .stretch true 0, .stretch true 0, .stretch true 0, .create false]
    let s : Ledger Bool := ⟨upTo254, fun _ => []⟩
    EveryState (chainStep twice small16)
        (fun s' => Owned (links small16 s'.fs.view) s'.files ∧
          ∀ i, small16.Primary i → 17 ≤ i → s'.fs.view i = upTo254.view i) s es ∧
      (exec (chainStep twice small16) s es).files true = [255, 257] ∧
      (exec (chainStep twice small16) s es).files false = [258] ∧
      -- The second stretch has failed halfway.
      links small16 (exec (chainStep twice small16) s es).fs.view 256 = .last := by
  have ok : (⟨upTo254, fun _ : Bool => []⟩ : Ledger Bool).Ok small16 :=
    ⟨⟨.inl rfl, nofun, fun _ shown => absurd rfl shown⟩, fun _ some => absurd rfl some, fun _ _ _ mem => nomatch mem⟩
  exact ⟨chains_never_cross (.inl (by decide)) ok _, by decide, by decide, by decide⟩

/-! ## A drive without faults -/

/-- The free count is exact, and every cluster in use has a holder. -/
structure Ledger.Complete (v : Volume) (s : Ledger η) : Prop where
  ok : s.Ok v
  exact : s.fs.Exact v
  held : ∀ c, links v s.fs.view c ≠ .free → links v s.fs.view c ≠ .bad → ∃ h, c ∈ s.files h

omit [DecidableEq η] in
theorem Ledger.Complete.same {s : Ledger η} (complete : s.Complete v) {fs' : Fatfs} (same : FatRead v s.fs fs') :
    (⟨fs', s.files⟩ : Ledger η).Complete v :=
  ⟨⟨same.windowOk, by rw [same.links]; exact complete.ok.owned⟩, same.exact complete.exact,
    by rw [same.links]; exact complete.held⟩

theorem Ledger.Complete.create {s : Ledger η} (complete : s.Complete v) (healthy : ¬faults.Some) {h : η} {r : Nat}
    {fs' : Fatfs} (none : s.files h = []) (call : createChain faults v 0 s.fs = (r, fs')) :
    (⟨fs', if 2 ≤ r ∧ r < v.nFatent then Function.update s.files h [r] else s.files⟩ : Ledger η).Complete v := by
  have ok := complete.ok.create (.inr healthy) none call
  obtain ⟨-, created⟩ := createChain_spec complete.ok.windowOk (fun zero => absurd rfl zero) call
  refine ⟨ok, created.exact healthy (by simp) complete.exact, fun c used notBad => ?_⟩
  by_cases range : 2 ≤ r ∧ r < v.nFatent
  · have codes := not_cluster range
    simp only [if_pos range]
    cases created with
    | followed _ link =>
      have bad : links v s.fs.view 0 = .bad := if_pos (.inl (by omega))
      cases bad.symm.trans link
    | new _ free linked =>
      rw [if_pos rfl] at linked
      by_cases here : c = r
      · exact ⟨h, by simp [here]⟩
      · simp only [linked, Function.update_of_ne here] at used notBad
        obtain ⟨h', mem⟩ := complete.held c used notBad
        refine ⟨h', ?_⟩
        rwa [Function.update_of_ne]
        rintro rfl
        simp [none] at mem
    | _ => omega
  · simp only [if_neg range]
    cases created with
    | followed _ link => exact absurd (next_range link) range
    | new _ free => exact absurd (range_of_links (v := v) (by rw [free]; simp)) range
    | full _ same => exact (complete.same same).held c used notBad
    | bad _ _ _ same => exact (complete.same same).held c used notBad
    | failed faulty => exact absurd faulty healthy

/-- Stretching without faults: the chain only ever grows at its end. -/
theorem Ledger.Complete.stretch {s : Ledger η} (complete : s.Complete v) (healthy : ¬faults.Some) {h : η}
    {i c r : Nat} {fs' : Fatfs} (get : (s.files h)[i]? = some c) (call : createChain faults v c s.fs = (r, fs')) :
    (⟨fs', if 2 ≤ r ∧ r < v.nFatent ∧ (s.files h)[i + 1]? ≠ some r
      then Function.update s.files h ((s.files h).take i ++ [c] ++ [r]) else s.files⟩ : Ledger η).Complete v ∧
      (2 ≤ r ∧ r < v.nFatent ∧ (s.files h)[i + 1]? ≠ some r → (s.files h).take i ++ [c] = s.files h) := by
  have ok := complete.ok.stretch (.inr healthy) get call
  have mem := List.mem_of_getElem? get
  have link := complete.ok.held mem
  obtain ⟨-, created⟩ := createChain_spec complete.ok.windowOk (fun _ => link) call
  have exact : fs'.Exact v := created.exact healthy
    (fun _ => complete.ok.owned.not_free mem) complete.exact
  by_cases added : 2 ≤ r ∧ r < v.nFatent ∧ (s.files h)[i + 1]? ≠ some r
  · have codes := not_cluster ⟨added.1, added.2.1⟩
    cases created with
    | followed _ next => exact absurd (complete.ok.next_place get next) added.2.2
    | new _ free linked tail =>
      have whole := complete.ok.last_place get ((tail (complete.ok.ne_zero mem)).resolve_right healthy)
      refine ⟨⟨ok, exact, fun x used notBad => ?_⟩, fun _ => whole⟩
      rw [if_neg (complete.ok.ne_zero mem)] at linked
      simp only [if_pos added, whole]
      by_cases new : x = r
      · exact ⟨h, by simp [new]⟩
      · have before : ∃ h', x ∈ s.files h' := by
          by_cases here : x = c
          · exact ⟨h, here ▸ mem⟩
          · simp only [linked, Function.update_of_ne here, Function.update_of_ne new] at used notBad
            exact complete.held x used notBad
        obtain ⟨h', held⟩ := before
        refine ⟨h', ?_⟩
        by_cases mine : h' = h
        · subst mine
          rw [Function.update_self]
          exact List.mem_append_left _ held
        · rwa [Function.update_of_ne mine]
    | _ => omega
  · refine ⟨⟨ok, exact, fun x used notBad => ?_⟩, fun yes => absurd yes added⟩
    simp only [if_neg added]
    cases created with
    | followed _ _ same => exact (complete.same same).held x used notBad
    | new _ free =>
      obtain ⟨lo, hi⟩ := range_of_links (show links v s.fs.view r ≠ .bad by rw [free]; simp)
      have there : (s.files h)[i + 1]? = some r := by
        by_contra notThere
        exact added ⟨lo, hi, notThere⟩
      exact absurd free (complete.ok.owned.not_free (List.mem_of_getElem? there))
    | full _ same => exact (complete.same same).held x used notBad
    | bad _ _ _ same => exact (complete.same same).held x used notBad
    | failed faulty => exact absurd faulty healthy

theorem Ledger.Complete.remove {s : Ledger η} (complete : s.Complete v) (healthy : ¬faults.Some) {h : η} {c : Nat}
    {cs : List Nat} (holds : s.files h = c :: cs) :
    (⟨(removeChain faults v c s.fs).2, Function.update s.files h []⟩ : Ledger η).Complete v := by
  have mem : c ∈ s.files h := by simp [holds]
  have notBad : links v s.fs.view c ≠ .bad := by
    rcases complete.ok.held mem with last | ⟨d, link⟩ <;> simp [*]
  have removed := removeChain_spec complete.ok.windowOk (range_of_links notBad)
    (Prod.eta (removeChain faults v c s.fs)).symm
  refine ⟨complete.ok.remove holds, removed.exact healthy complete.exact, fun x used fine => ?_⟩
  by_cases reached : Reach (links v s.fs.view) c x
  · have chain := complete.ok.owned.chain h (by simp [holds])
    have inChain : x ∈ s.files h := by
      rw [holds] at chain ⊢
      exact chain.reach.mp reached
    refine absurd (removed.freed healthy x reached ?_) used
    rcases complete.ok.held inChain with last | ⟨d, link⟩ <;> simp [*]
  · have same := removed.others x (.inl reached)
    simp only [same] at used fine
    obtain ⟨h', held⟩ := complete.held x used fine
    refine ⟨h', ?_⟩
    change x ∈ Function.update s.files h [] h'
    rwa [Function.update_of_ne]
    rintro rfl
    have chain := complete.ok.owned.chain h' (by simp [holds])
    rw [holds] at chain held
    exact reached (chain.reach.mpr held)

theorem chainStep_complete (healthy : ¬faults.Some) (e : ChainOp η) {s : Ledger η} (complete : s.Complete v) :
    (chainStep faults v e s).Complete v ∧ ∀ h, e ≠ .remove h → s.files h <+: (chainStep faults v e s).files h := by
  cases e with
  | create h =>
    by_cases none : s.files h = []
    · simp only [chainStep, if_pos none]
      refine ⟨complete.create healthy none rfl, fun h' _ => ?_⟩
      split
      · by_cases here : h' = h
        · subst here
          simp [none]
        · rw [Function.update_of_ne here]
      · exact List.prefix_rfl
    · simp only [chainStep, if_neg none]
      exact ⟨complete, fun _ _ => List.prefix_rfl⟩
  | stretch h i =>
    cases get : (s.files h)[i]? with
    | none =>
      simp only [chainStep, get]
      exact ⟨complete, fun _ _ => List.prefix_rfl⟩
    | some c =>
      simp only [chainStep, get]
      obtain ⟨after, whole⟩ := complete.stretch healthy get rfl
      refine ⟨after, fun h' _ => ?_⟩
      split
      · next added =>
        by_cases here : h' = h
        · subst here
          rw [Function.update_self, whole added]
          exact List.prefix_append _ _
        · rw [Function.update_of_ne here]
      · exact List.prefix_rfl
  | remove h =>
    cases holds : s.files h with
    | nil =>
      simp only [chainStep, holds]
      exact ⟨complete, fun _ _ => List.prefix_rfl⟩
    | cons c cs =>
      simp only [chainStep, holds]
      refine ⟨complete.remove healthy holds, fun h' ne => ?_⟩
      rw [Function.update_of_ne]
      rintro rfl
      exact ne rfl

/-- On a drive without faults no cluster is lost: in every state of a run the free count, if it is known, is the
number of free clusters, and every cluster that is neither free nor marked as bad is in the chain of a holder. -/
theorem no_cluster_lost (healthy : ¬faults.Some) {s : Ledger η} (complete : s.Complete v) (es : List (ChainOp η)) :
    EveryState (chainStep faults v)
      (fun s' => s'.fs.Exact v ∧
        ∀ c, links v s'.fs.view c ≠ .free → links v s'.fs.view c ≠ .bad → ∃ h, c ∈ s'.files h) s es :=
  everyState_of_invariant (fun e s' (inv : s'.Complete v) => (chainStep_complete healthy e inv).1)
    (fun _ inv => ⟨inv.exact, inv.held⟩) complete es

theorem blank_complete : (⟨blank, fun _ : Bool => []⟩ : Ledger Bool).Complete tiny := by
  refine ⟨blank_ledger, fun known => absurd rfl known, fun c used fine => ?_⟩
  obtain ⟨lo, hi⟩ := range_of_links fine
  exact absurd (links_blank lo hi) used

theorem no_cluster_lost_tiny :
    EveryState (chainStep (fun _ => none) tiny)
      (fun s' => s'.fs.Exact tiny ∧
        ∀ c, links tiny s'.fs.view c ≠ .free → links tiny s'.fs.view c ≠ .bad → ∃ h, c ∈ s'.files h)
      ⟨blank, fun _ : Bool => []⟩ [.create true, .stretch true 0, .create false, .remove true] :=
  no_cluster_lost (Faults.not_some fun _ => rfl) blank_complete _

/-- On a drive without faults a chain only ever grows at its end, until it is removed. -/
theorem chains_only_grow (healthy : ¬faults.Some) {s : Ledger η} (complete : s.Complete v) (es : List (ChainOp η)) :
    EveryStep (chainStep faults v)
      (fun e s' => ∀ h, e ≠ .remove h → s'.files h <+: (chainStep faults v e s').files h) s es :=
  everyStep_of_invariant (Ledger.Complete v) (fun e _ inv => (chainStep_complete healthy e inv).1)
    (fun e _ inv => (chainStep_complete healthy e inv).2) complete es

theorem chains_only_grow_tiny :
    EveryStep (chainStep (fun _ => none) tiny)
      (fun e s' => ∀ h, e ≠ .remove h → s'.files h <+: (chainStep (fun _ => none) tiny e s').files h)
      ⟨blank, fun _ : Bool => []⟩ [.create true, .stretch true 0, .stretch true 1, .remove true] :=
  chains_only_grow (Faults.not_some fun _ => rfl) blank_complete _

/-! ## A full volume -/

/-- `create_chain` reports a full volume exactly when there is no free cluster, if there is no disk error and no
entry of 1: the search begins anywhere and misses none. -/
theorem createChain_eq_zero_iff (healthy : ¬faults.Some) {fs : Fatfs} {clst : Nat} (ok : fs.WindowOk v)
    (noBad : ∀ c, 2 ≤ c → c < v.nFatent → links v fs.view c ≠ .bad)
    (tail : clst ≠ 0 → links v fs.view clst = .last) :
    (createChain faults v clst fs).1 = 0 ↔ ∀ c, 2 ≤ c → c < v.nFatent → links v fs.view c ≠ .free := by
  cases call : createChain faults v clst fs with
  | mk r fs' =>
    obtain ⟨-, created⟩ := createChain_spec ok (fun nonzero => .inl (tail nonzero)) call
    cases created with
    | followed _ link =>
      have range := next_range link
      have last := tail (by rintro rfl; cases (if_pos (.inl (by omega)) : links v fs.view 0 = .bad).symm.trans link)
      cases last.symm.trans link
    | new _ free =>
      obtain ⟨lo, hi⟩ := range_of_links (show links v fs.view r ≠ .bad by rw [free]; simp)
      exact ⟨fun zero => by simp only at zero; omega, fun none => absurd free (none r lo hi)⟩
    | full none => exact ⟨fun _ c _ _ => none c, fun _ => rfl⟩
    | bad c range isBad => exact absurd isBad (noBad c range.1 range.2)
    | failed faulty => exact absurd faulty healthy

theorem createChain_eq_zero_noRoom :
    (createChain (fun _ => none) tiny 0 noRoom).1 = 0 ∧ (createChain (fun _ => none) tiny 3 noRoom).1 = 0 ∧
      (createChain (fun _ => none) tiny 3 twoChains).1 ≠ 0 := by
  have healthy : ¬Faults.Some fun _ => none := Faults.not_some fun _ => rfl
  have used : ∀ c < 8, 2 ≤ c → links tiny noRoom.view c ≠ .free ∧ links tiny noRoom.view c ≠ .bad := by decide
  have fine : ∀ c < 8, 2 ≤ c → links tiny twoChains.view c ≠ .bad := by decide
  refine ⟨?_, ?_, fun zero => ?_⟩
  · exact (createChain_eq_zero_iff healthy (fatOf_windowOk _ _) (fun c lo hi => (used c hi lo).2) (absurd rfl)).mpr
      fun c lo hi => (used c hi lo).1
  · exact (createChain_eq_zero_iff healthy (fatOf_windowOk _ _) (fun c lo hi => (used c hi lo).2)
      fun _ => by decide).mpr fun c lo hi => (used c hi lo).1
  · have none := (createChain_eq_zero_iff healthy (fatOf_windowOk _ _) (fun c lo hi => fine c hi lo)
      fun _ => by decide).mp zero
    exact none 7 (by decide) (by decide) (by decide)

end

end Cineraria.Fat
