import Mathlib.Tactic.Common

/-!
# Tilings

A row of cells is cut into tiles, each of which takes cells that follow each other. A scan passes the cells one after
the other with a state, until a cell ends it. What it does to a tile is proved once for each kind of tile.
-/

namespace Cineraria.Tiling

/-- What a cell is to a scan: the end of the row, the cell that is looked for, or neither. -/
inductive Look (σ : Type) where
  | ended
  | hit (s : σ)
  | miss (s : σ)

section
variable {α σ : Type} (look : Nat → α → σ → Look σ)

/-- The scan from the cell with the index `i` on. -/
def scan : List α → Nat → σ → Look (Nat × σ)
  | [], i, s => .miss (i, s)
  | c :: cells, i, s =>
      match look i c s with
      | .ended => .ended
      | .hit s => .hit (i, s)
      | .miss s => scan cells (i + 1) s

variable {look} {as bs : List α} {i j : Nat} {s s' : σ}

theorem scan_cons_miss {c : α} (miss : look i c s = .miss s') : scan look (c :: bs) i s = scan look bs (i + 1) s' := by
  rw [scan, miss]

/-- A cell that is passed before `n` others that are. -/
theorem scan_cons_pass {c : α} {s1 : σ} {n : Nat} (miss : look i c s = .miss s1)
    (rest : scan look bs (i + 1) s1 = .miss (i + 1 + n, s')) : scan look (c :: bs) i s = .miss (i + (n + 1), s') := by
  rw [scan_cons_miss miss, rest, Nat.add_right_comm, Nat.add_assoc]

theorem scan_miss_append (miss : scan look as i s = .miss (j, s')) : scan look (as ++ bs) i s = scan look bs j s' := by
  induction as generalizing i s with
  | nil =>
      cases miss
      rfl
  | cons c as ih =>
      rw [List.cons_append, scan]
      rw [scan] at miss
      split at miss
      · cases miss
      · cases miss
      · exact ih miss

theorem scan_hit_append (hit : scan look as i s = .hit (j, s')) : scan look (as ++ bs) i s = .hit (j, s') := by
  induction as generalizing i s with
  | nil => cases hit
  | cons c as ih =>
      rw [List.cons_append, scan]
      rw [scan] at hit
      split at hit
      · cases hit
      · exact hit
      · exact ih hit

end

/-- The first member with a property, if there is one. -/
theorem first_or_none {ι : Type} (p : ι → Prop) (ts : List ι) :
    (∃ pre t post, ts = pre ++ t :: post ∧ p t ∧ ∀ u ∈ pre, ¬p u) ∨ ∀ u ∈ ts, ¬p u := by
  induction ts with
  | nil => exact .inr fun u mem => absurd mem (List.not_mem_nil)
  | cons t ts ih =>
      by_cases here : p t
      · exact .inl ⟨[], t, ts, rfl, here, fun u mem => absurd mem List.not_mem_nil⟩
      · rcases ih with ⟨pre, u, post, rfl, found, none⟩ | none
        · exact .inl ⟨t :: pre, u, post, rfl, found, List.forall_mem_cons.mpr ⟨here, none⟩⟩
        · exact .inr (List.forall_mem_cons.mpr ⟨here, none⟩)

/-- There is only one first member with a property. -/
theorem first_unique {ι : Type} {p : ι → Prop} {pre pre' post post' : List ι} {t t' : ι}
    (same : pre ++ t :: post = pre' ++ t' :: post') (none : ∀ u ∈ pre, ¬p u) (found : p t) (none' : ∀ u ∈ pre', ¬p u)
    (found' : p t') : pre = pre' ∧ t = t' ∧ post = post' := by
  induction pre generalizing pre' with
  | nil =>
      cases pre' with
      | nil => exact ⟨rfl, List.cons.inj same⟩
      | cons u pre' =>
          obtain ⟨rfl, -⟩ := List.cons.inj same
          exact absurd found (none' t List.mem_cons_self)
  | cons u pre ih =>
      cases pre' with
      | nil =>
          obtain ⟨rfl, -⟩ := List.cons.inj same
          exact absurd found' (none u List.mem_cons_self)
      | cons u' pre' =>
          obtain ⟨rfl, rest⟩ := List.cons.inj same
          obtain ⟨rfl, eq⟩ := ih rest (fun x mem => none x (List.mem_cons_of_mem u mem))
            fun x mem => none' x (List.mem_cons_of_mem u mem)
          exact ⟨rfl, eq⟩

/-- The cells are those of the tiles, behind each other. -/
inductive Tiles {ι α : Type} (Is : ι → List α → Prop) : List ι → List α → Prop
  | nil : Tiles Is [] []
  | cons {t : ι} {ts : List ι} {as bs : List α} (first : Is t as) (rest : Tiles Is ts bs) :
      Tiles Is (t :: ts) (as ++ bs)

section
variable {ι α : Type} {Is : ι → List α → Prop} {ts us : List ι} {t : ι} {as bs cells : List α}

theorem Tiles.append (front : Tiles Is ts as) (rear : Tiles Is us bs) : Tiles Is (ts ++ us) (as ++ bs) := by
  induction front with
  | nil => exact rear
  | cons first _ ih =>
      rw [List.append_assoc]
      exact .cons first ih

theorem Tiles.cell {c : α} (is : Is t [c]) (rest : Tiles Is ts bs) : Tiles Is (t :: ts) (c :: bs) := by
  have tiles := Tiles.cons is rest
  exact tiles

theorem Tiles.uncons (tiles : Tiles Is (t :: ts) cells) : ∃ as bs, cells = as ++ bs ∧ Is t as ∧ Tiles Is ts bs := by
  cases tiles with
  | cons first rest => exact ⟨_, _, rfl, first, rest⟩

theorem Tiles.split (tiles : Tiles Is (ts ++ us) cells) :
    ∃ as bs, cells = as ++ bs ∧ Tiles Is ts as ∧ Tiles Is us bs := by
  induction ts generalizing cells with
  | nil => exact ⟨[], cells, rfl, .nil, tiles⟩
  | cons t ts ih =>
      obtain ⟨as, cells, rfl, first, rest⟩ := tiles.uncons
      obtain ⟨front, rear, rfl, tiles, others⟩ := ih rest
      exact ⟨as ++ front, rear, (List.append_assoc ..).symm, .cons first tiles, others⟩

/-- Tiles of one cell that are all the same. -/
theorem Tiles.replicate (is : ∀ c ∈ cells, Is t [c]) : Tiles Is (List.replicate cells.length t) cells := by
  induction cells with
  | nil => exact .nil
  | cons c cells ih =>
      exact .cell (is c (List.mem_cons_self ..)) (ih fun d mem => is d (List.mem_cons_of_mem _ mem))

end

end Cineraria.Tiling
