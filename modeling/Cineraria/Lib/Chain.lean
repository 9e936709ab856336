import Mathlib.Data.Finset.Card
import Mathlib.Data.List.Nodup
import Mathlib.Logic.Function.Basic
import Mathlib.Logic.Relation
import Mathlib.Tactic.Common

/-!
# Linked allocation tables

A table gives every cell its link: the cell is free, is followed by another, is the last of its chain, or is
not to be used. Owners hold chains; the table is well owned if what each owner holds is a chain and no cell is
held twice. A chain stays what it is as long as its own cells keep their links, so that a cell that was free
can be appended to one chain, or be given up, without the others.
-/

namespace Cineraria.Chain

/-- The link of a cell. -/
inductive Link (ι : Type) where
  | free
  | next (c : ι)
  | last
  | bad
  deriving DecidableEq, Repr

variable {ι η : Type}

/-- The cells are linked in this order, and the last one ends the chain. -/
def IsChain (t : ι → Link ι) : List ι → Prop
  | [] => False
  | [c] => t c = .last
  | c :: d :: cs => t c = .next d ∧ IsChain t (d :: cs)

section
variable {t t' : ι → Link ι} {cs as bs : List ι} {c d f : ι}

theorem IsChain.tail (h : IsChain t (c :: d :: cs)) : IsChain t (d :: cs) := h.2

/-- Only the cells of the chain matter. -/
theorem IsChain.congr (h : IsChain t cs) (same : ∀ c ∈ cs, t' c = t c) : IsChain t' cs := by
  induction cs with
  | nil => exact h
  | cons c cs ih =>
    cases cs with
    | nil => exact (same c (by simp)).trans h
    | cons d cs => exact ⟨(same c (by simp)).trans h.1, ih h.2 fun x hx => same x (List.mem_cons_of_mem c hx)⟩

/-- A cell of a chain is the last one, or its successor is in the chain. -/
theorem IsChain.mem (h : IsChain t cs) (mem : c ∈ cs) : t c = .last ∨ ∃ d ∈ cs, t c = .next d := by
  induction cs with
  | nil => cases mem
  | cons x cs ih =>
    cases cs with
    | nil =>
      obtain rfl := List.mem_singleton.mp mem
      exact .inl h
    | cons y cs =>
      rcases List.mem_cons.mp mem with rfl | rest
      · exact .inr ⟨y, by simp, h.1⟩
      · exact (ih h.2 rest).imp_right fun ⟨d, hd, linked⟩ => ⟨d, List.mem_cons_of_mem x hd, linked⟩

/-- No cell of a chain is free. -/
theorem IsChain.not_free (h : IsChain t cs) (mem : c ∈ cs) : t c ≠ .free := by
  rcases h.mem mem with last | ⟨d, -, linked⟩ <;> simp [*]

/-- What follows a cell of a chain is a chain. -/
theorem IsChain.suffix (h : IsChain t (as ++ c :: bs)) : IsChain t (c :: bs) := by
  induction as with
  | nil => exact h
  | cons a as ih =>
    cases as with
    | nil => exact h.2
    | cons b as => exact ih h.2

/-- A chain is determined by its first cell. -/
theorem IsChain.unique (ha : IsChain t (c :: as)) (hb : IsChain t (c :: bs)) : as = bs := by
  induction as generalizing c bs with
  | nil =>
    cases bs with
    | nil => rfl
    | cons b bs => cases ha.symm.trans hb.1
  | cons a as ih =>
    cases bs with
    | nil => cases ha.1.symm.trans hb
    | cons b bs =>
      obtain rfl : a = b := by simpa using ha.1.symm.trans hb.1
      rw [ih ha.2 hb.2]

/-- A chain does not come back to a cell. -/
theorem IsChain.nodup (h : IsChain t cs) : cs.Nodup := by
  induction cs with
  | nil => exact List.nodup_nil
  | cons c cs ih =>
    cases cs with
    | nil => exact List.nodup_singleton c
    | cons d cs =>
      refine List.nodup_cons.mpr ⟨fun again => ?_, ih h.2⟩
      -- A second occurrence would begin a shorter chain at the same cell.
      obtain ⟨as, bs, split⟩ := List.append_of_mem again
      have shorter : IsChain t (c :: bs) := by
        rw [split, ← List.cons_append] at h
        exact h.suffix
      have same := h.unique shorter
      have := congrArg List.length (split.symm.trans same)
      simp only [List.length_append, List.length_cons] at this
      omega

/-- The link between two neighbours. -/
theorem IsChain.link (h : IsChain t (as ++ c :: d :: bs)) : t c = .next d := h.suffix.1

theorem IsChain.getLast (h : IsChain t (cs ++ [c])) : t c = .last := h.suffix

/-- The chain from a cell on, along at most so many links. -/
def follow (t : ι → Link ι) : Nat → ι → List ι
  | 0, _ => []
  | n + 1, c =>
      match t c with
      | .next d => c :: follow t n d
      | .last => [c]
      | _ => []

theorem IsChain.follow (h : IsChain t (c :: cs)) {n : Nat} (enough : cs.length < n) : follow t n c = c :: cs := by
  induction n generalizing c cs with
  | zero => omega
  | succ n ih =>
    cases cs with
    | nil =>
      have last : t c = .last := h
      rw [Chain.follow, last]
    | cons d cs =>
      rw [Chain.follow, h.1]
      simp only
      rw [ih h.2 (by simpa using enough)]

end

section
variable [DecidableEq ι] {t : ι → Link ι} {cs : List ι} {c f : ι}

/-- A chain is cut off after a cell. -/
theorem IsChain.cut {bs : List ι} (h : IsChain t (cs ++ c :: bs)) : IsChain (Function.update t c .last) (cs ++ [c]) := by
  have distinct := h.nodup
  induction cs with
  | nil => exact Function.update_self ..
  | cons a cs ih =>
    have ne : a ≠ c := by
      rintro rfl
      exact (List.nodup_cons.mp distinct).1 (by simp)
    have rest : IsChain t (cs ++ c :: bs) := by
      cases cs with
      | nil => exact h.2
      | cons b cs => exact h.2
    have tail := ih rest (List.nodup_cons.mp distinct).2
    cases cs with
    | nil => exact ⟨(Function.update_of_ne ne _ _).trans h.1, tail⟩
    | cons b cs => exact ⟨(Function.update_of_ne ne _ _).trans h.1, tail⟩

/-- A free cell is appended. -/
theorem IsChain.append (h : IsChain t (cs ++ [c])) (free : t f = .free) :
    IsChain (Function.update (Function.update t f .last) c (.next f)) (cs ++ [c] ++ [f]) := by
  have fresh : f ∉ cs ++ [c] := fun mem => h.not_free mem free
  have distinct := h.nodup
  induction cs with
  | nil =>
    have ne : f ≠ c := by simpa using fresh
    exact ⟨Function.update_self .., by simp [IsChain, ne]⟩
  | cons a cs ih =>
    have rest : IsChain t (cs ++ [c]) := by
      cases cs with
      | nil => exact h.2
      | cons b cs => exact h.2
    have tail := ih rest (fun mem => fresh (List.mem_cons_of_mem a mem)) (List.nodup_cons.mp distinct).2
    have away : a ≠ c ∧ a ≠ f := by
      refine ⟨fun eq => (List.nodup_cons.mp distinct).1 (by simp [eq]), fun eq => fresh (by simp [eq])⟩
    have kept : Function.update (Function.update t f .last) c (.next f) a = t a := by
      rw [Function.update_of_ne away.1, Function.update_of_ne away.2]
    cases cs with
    | nil => exact ⟨kept.trans h.1, tail⟩
    | cons b cs => exact ⟨kept.trans h.1, tail⟩

end

/-! ## Cells that are reached, and cells that are free -/

/-- The cells that the links lead to. -/
def Reach (t : ι → Link ι) : ι → ι → Prop := Relation.ReflTransGen fun c d => t c = .next d

section
variable {t : ι → Link ι} {c d x : ι}

theorem reach_end (stop : ∀ d, t c ≠ .next d) : Reach t c x ↔ x = c := by
  refine ⟨fun r => ?_, fun eq => eq ▸ .refl⟩
  rcases Relation.ReflTransGen.cases_head r with same | ⟨d, step, -⟩
  · exact same.symm
  · exact absurd step (stop d)

/-- The cells of a chain are those that are reached from its first. -/
theorem IsChain.reach {cs : List ι} (h : IsChain t (c :: cs)) : Reach t c x ↔ x ∈ c :: cs := by
  induction cs generalizing c with
  | nil =>
    rw [List.mem_singleton]
    exact reach_end fun d step => by cases step.symm.trans h
  | cons d cs ih =>
    rw [List.mem_cons, ← ih h.2]
    refine ⟨fun r => ?_, ?_⟩
    · rcases Relation.ReflTransGen.cases_head r with same | ⟨e, step, rest⟩
      · exact .inl same.symm
      · obtain rfl : d = e := by simpa using h.1.symm.trans step
        exact .inr rest
    · rintro (rfl | rest)
      · exact .refl
      · exact .head h.1 rest

variable [DecidableEq ι]

/-- Freeing a cell on the way, the rest is still reached, also on a cycle. -/
theorem reach_update_free (step : t c = .next d) :
    Reach t c x ↔ x = c ∨ Reach (Function.update t c .free) d x := by
  constructor
  · intro r
    induction r with
    | refl => exact .inl rfl
    | tail before link ih =>
      rename_i y z
      by_cases here : y = c
      · subst here
        obtain rfl : d = z := by simpa using step.symm.trans link
        exact .inr .refl
      · exact .inr ((ih.resolve_left here).tail (by rwa [Function.update_of_ne here]))
  · rintro (rfl | r)
    · exact .refl
    · induction r with
      | refl => exact .single step
      | tail before link ih =>
        rename_i y z
        have away : y ≠ c := by rintro rfl; simp at link
        rw [Function.update_of_ne away] at link
        exact ih.tail link

/-- The number of free cells among some. -/
def freeCells (s : Finset ι) (t : ι → Link ι) : Nat := (s.filter fun c => t c = .free).card

/-- A cell is taken. -/
theorem freeCells_take {s : Finset ι} {f : ι} (mem : f ∈ s) (free : t f = .free) {l : Link ι} (l_ne : l ≠ .free) :
    freeCells s (Function.update t f l) + 1 = freeCells s t := by
  have erased : (s.filter fun c => Function.update t f l c = .free) = (s.filter fun c => t c = .free).erase f := by
    ext c
    by_cases here : c = f <;> simp [here, l_ne]
  rw [freeCells, erased, Finset.card_erase_add_one (Finset.mem_filter.mpr ⟨mem, free⟩), freeCells]

/-- A cell is given back. -/
theorem freeCells_give {s : Finset ι} (mem : c ∈ s) (used : t c ≠ .free) :
    freeCells s (Function.update t c .free) = freeCells s t + 1 := by
  have inserted : (s.filter fun x => Function.update t c .free x = .free) = insert c (s.filter fun x => t x = .free) := by
    ext x
    by_cases here : x = c <;> simp [here, mem]
  rw [freeCells, inserted, Finset.card_insert_of_notMem (by simp [used]), freeCells]

/-- Another link for a cell that is not free. -/
theorem freeCells_relink {s : Finset ι} (used : t c ≠ .free) {l : Link ι} (l_ne : l ≠ .free) :
    freeCells s (Function.update t c l) = freeCells s t := by
  refine congrArg Finset.card (Finset.filter_congr fun x _ => ?_)
  by_cases here : x = c <;> simp [here, used, l_ne]

theorem freeCells_le (s : Finset ι) (t : ι → Link ι) : freeCells s t ≤ s.card := Finset.card_filter_le s _

end

/-! ## Owners -/

/-- What each owner holds is a chain, if it is anything, and no cell is held twice. -/
structure Owned (t : ι → Link ι) (files : η → List ι) : Prop where
  chain : ∀ h, files h ≠ [] → IsChain t (files h)
  disjoint : ∀ h h' c, c ∈ files h → c ∈ files h' → h = h'

section
variable {t t' : ι → Link ι} {files : η → List ι} {c f : ι} {h : η}

theorem Owned.not_free (owned : Owned t files) (mem : c ∈ files h) : t c ≠ .free :=
  (owned.chain h (List.ne_nil_of_mem mem)).not_free mem

/-- Cells that nobody holds may change. -/
theorem Owned.congr (owned : Owned t files) (same : ∀ h, ∀ c ∈ files h, t' c = t c) : Owned t' files :=
  ⟨fun h some => (owned.chain h some).congr (same h), owned.disjoint⟩

variable [DecidableEq ι] [DecidableEq η]

omit [DecidableEq η] in
/-- A free cell that gets another link and no owner. -/
theorem Owned.mark (owned : Owned t files) (free : t f = .free) (l : Link ι) :
    Owned (Function.update t f l) files :=
  owned.congr fun _ _ mem => Function.update_of_ne (by rintro rfl; exact owned.not_free mem free) _ _

omit [DecidableEq ι] in
/-- An owner gets cells that no other owner has. -/
theorem Owned.disjoint_update (owned : Owned t files) {cs : List ι}
    (mine : ∀ c ∈ cs, ∀ h', c ∈ files h' → h' ≠ h → False) {h1 h2 : η}
    (m1 : c ∈ Function.update files h cs h1) (m2 : c ∈ Function.update files h cs h2) : h1 = h2 := by
  by_cases e1 : h1 = h
  · by_cases e2 : h2 = h
    · exact e1.trans e2.symm
    · rw [e1, Function.update_self] at m1
      rw [Function.update_of_ne e2] at m2
      exact (mine c m1 h2 m2 e2).elim
  · rw [Function.update_of_ne e1] at m1
    by_cases e2 : h2 = h
    · rw [e2, Function.update_self] at m2
      exact (mine c m2 h1 m1 e1).elim
    · rw [Function.update_of_ne e2] at m2
      exact owned.disjoint h1 h2 c m1 m2

/-- An owner without a chain begins one. -/
theorem Owned.create (owned : Owned t files) (free : t f = .free) (none : files h = []) :
    Owned (Function.update t f .last) (Function.update files h [f]) := by
  have marked := owned.mark free .last
  have fresh : ∀ h, f ∉ files h := fun h mem => owned.not_free mem free
  refine ⟨fun h' some => ?_, fun h1 h2 c m1 m2 => ?_⟩
  · by_cases here : h' = h
    · subst here
      rw [Function.update_self]
      exact Function.update_self ..
    · rw [Function.update_of_ne here] at some ⊢
      exact marked.chain h' some
  · exact Owned.disjoint_update owned (fun d mem h' => by rw [List.mem_singleton.mp mem]; exact fun m _ => fresh h' m) m1 m2

/-- A free cell is linked to a cell of a chain, which loses what followed that cell. -/
theorem Owned.append (owned : Owned t files) (free : t f = .free) {as bs : List ι} (holds : files h = as ++ c :: bs) :
    Owned (Function.update (Function.update t f .last) c (.next f)) (Function.update files h (as ++ [c] ++ [f])) := by
  have fresh : ∀ h, f ∉ files h := fun h mem => owned.not_free mem free
  have held : c ≠ f := by
    rintro rfl
    exact fresh h (by simp [holds])
  refine ⟨fun h' some => ?_, fun h1 h2 x m1 m2 => owned.disjoint_update (fun x mem h' m ne => ?_) m1 m2⟩
  · by_cases here : h' = h
    · subst here
      have short : IsChain (Function.update t c .last) (as ++ [c]) := (holds ▸ owned.chain h' (by simp [holds])).cut
      have long := short.append (f := f) (by rw [Function.update_of_ne held.symm, free])
      rw [Function.update_comm held, Function.update_idem] at long
      rw [Function.update_self]
      exact long
    · rw [Function.update_of_ne here] at some ⊢
      refine (owned.chain h' some).congr fun x mem => ?_
      have notLast : x ≠ c := fun eq => here (owned.disjoint h' h x mem (by simp [holds, eq]))
      have notNew : x ≠ f := by rintro rfl; exact fresh h' mem
      rw [Function.update_of_ne notLast, Function.update_of_ne notNew]
  · rcases List.mem_append.mp mem with old | new
    · refine ne (owned.disjoint h' h x m ?_)
      rw [holds]
      rcases List.mem_append.mp old with early | last
      · exact List.mem_append_left _ early
      · exact List.mem_append_right _ (by simp [List.mem_singleton.mp last])
    · exact fresh h' (List.mem_singleton.mp new ▸ m)

omit [DecidableEq ι] in
/-- An owner gives its chain up. -/
theorem Owned.release (owned : Owned t files) (same : ∀ h' ≠ h, ∀ c ∈ files h', t' c = t c) :
    Owned t' (Function.update files h []) := by
  refine ⟨fun h' some => ?_, fun h1 h2 c m1 m2 => owned.disjoint_update (by simp) m1 m2⟩
  by_cases here : h' = h
  · subst here
    exact absurd (Function.update_self ..) some
  · rw [Function.update_of_ne here] at some ⊢
    exact (owned.chain h' some).congr (same h' here)

end

end Cineraria.Chain
