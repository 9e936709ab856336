import Mathlib.Data.List.Nodup
import Mathlib.Data.List.ProdSigma
import Mathlib.Logic.Function.Basic

/-!
# Rewriting cells in place

The turns of a loop each read a cell of a store, and write it again with a value that depends on the one it had.
When no cell comes up twice, each one is rewritten on its own (`rewrite_apply`), and the order of the turns does not
matter (`rewrite_perm`).

A loop whose accesses are checked does what it does without the checks when each of its turns passes them
(`foldlM_some`).
-/

namespace Cineraria.InPlace

variable {ι α β : Type} [DecidableEq ι]

/-- The store after some turns. Turn `b` rewrites the cell `address b`. -/
def rewrite (address : β → ι) (change : β → α → α) (turns : List β) (store : ι → α) : ι → α :=
  turns.foldl (fun store b => Function.update store (address b) (change b (store (address b)))) store

section
variable {address : β → ι} {change : β → α → α} {turns turns' : List β} {store : ι → α} {i : ι} {b : β}

theorem rewrite_cons (b : β) (turns : List β) (store : ι → α) :
    rewrite address change (b :: turns) store =
      rewrite address change turns (Function.update store (address b) (change b (store (address b)))) := rfl

theorem rewrite_other (other : i ∉ turns.map address) : rewrite address change turns store i = store i := by
  induction turns generalizing store with
  | nil => rfl
  | cons b turns ih =>
      rw [List.map_cons, List.mem_cons, not_or] at other
      rw [rewrite_cons, ih other.2, Function.update_of_ne other.1]

/-- Each cell is rewritten on its own. -/
theorem rewrite_apply (once : (turns.map address).Nodup) (listed : b ∈ turns) :
    rewrite address change turns store (address b) = change b (store (address b)) := by
  induction turns generalizing store with
  | nil => exact absurd listed List.not_mem_nil
  | cons c turns ih =>
      rw [List.map_cons, List.nodup_cons] at once
      rw [rewrite_cons]
      rcases List.mem_cons.mp listed with rfl | later
      · rw [rewrite_other once.1, Function.update_self]
      · have different : address b ≠ address c := by
          intro same
          rw [← same] at once
          exact once.1 (List.mem_map_of_mem later)
        rw [ih once.2 later, Function.update_of_ne different]

/-- A cell into which every turn on it puts the same value. -/
theorem rewrite_determined {value : α} (listed : i ∈ turns.map address)
    (same : ∀ b ∈ turns, address b = i → ∀ a, change b a = value) : rewrite address change turns store i = value := by
  induction turns generalizing store with
  | nil => exact absurd listed List.not_mem_nil
  | cons b turns ih =>
      rw [List.forall_mem_cons] at same
      rw [rewrite_cons]
      by_cases later : i ∈ turns.map address
      · exact ih later same.2
      · rw [List.map_cons, List.mem_cons] at listed
        have here := listed.resolve_right later
        rw [rewrite_other later, here, Function.update_self]
        exact same.1 here.symm _

/-- The order of the turns does not matter. -/
theorem rewrite_perm (once : (turns.map address).Nodup) (once' : (turns'.map address).Nodup)
    (same : ∀ b, b ∈ turns ↔ b ∈ turns') :
    rewrite address change turns store = rewrite address change turns' store := by
  funext i
  by_cases listed : i ∈ turns.map address
  · obtain ⟨b, member, rfl⟩ := List.mem_map.mp listed
    rw [rewrite_apply once member, rewrite_apply once' ((same b).mp member)]
  · have listed' : i ∉ turns'.map address := by
      intro later
      obtain ⟨b, member, rfl⟩ := List.mem_map.mp later
      exact listed (List.mem_map_of_mem ((same b).mpr member))
    rw [rewrite_other listed, rewrite_other listed']

end

/-! ## Loops -/

section
variable {γ σ : Type}

/-- A loop that never fails a check. -/
theorem foldlM_some {f : σ → β → Option σ} {g : σ → β → σ} {turns : List β}
    (passes : ∀ b ∈ turns, ∀ s, f s b = some (g s b)) (s : σ) : turns.foldlM f s = some (turns.foldl g s) := by
  induction turns generalizing s with
  | nil => rfl
  | cons b turns ih =>
      rw [List.forall_mem_cons] at passes
      rw [List.foldlM_cons, passes.1, List.foldl_cons, ← ih passes.2]
      rfl

theorem exists_foldlM {f : σ → β → Option σ} {turns : List β} (passes : ∀ b ∈ turns, ∀ s, ∃ s', f s b = some s')
    (s : σ) : ∃ s', turns.foldlM f s = some s' := by
  induction turns generalizing s with
  | nil => exact ⟨s, rfl⟩
  | cons b turns ih =>
      rw [List.forall_mem_cons] at passes
      obtain ⟨next, passed⟩ := passes.1 s
      rw [List.foldlM_cons, passed]
      exact ih passes.2 next

/-- Two nested loops as one. -/
theorem foldl_nested (f : σ → β × γ → σ) (rows : List β) (columns : List γ) (s : σ) :
    rows.foldl (fun s y => columns.foldl (fun s x => f s (y, x)) s) s = (rows ×ˢ columns).foldl f s := by
  induction rows generalizing s with
  | nil => rfl
  | cons y rows ih => rw [List.foldl_cons, ih, List.product_cons, List.foldl_append, List.foldl_map]

end

end Cineraria.InPlace
