import Mathlib.Data.List.Nodup
import Mathlib.Tactic.Common

/-!
# Pools

Resources are either on a list of free ones or held. A pool is separate if no resource is
in two places, and complete if every resource is in one. Granting and releasing keep both;
a holder that is dropped without its resource being put back loses it for good.
-/

namespace Cineraria.Pool

variable {η ρ : Type}

/-- No resource is in two places. -/
structure Separate (free : List ρ) (holds : η → ρ → Prop) : Prop where
  distinct : free.Nodup
  disjoint : ∀ h r, holds h r → r ∉ free
  unique : ∀ h h' r, holds h r → holds h' r → h = h'

/-- Every resource is free or held. -/
def Complete (all : ρ → Prop) (free : List ρ) (holds : η → ρ → Prop) : Prop :=
  ∀ r, all r → r ∈ free ∨ ∃ h, holds h r

/-- The holders after `r` has been granted to `h`. -/
def granted (h : η) (r : ρ) (holds : η → ρ → Prop) : η → ρ → Prop :=
  fun h' r' => h' = h ∧ r' = r ∨ h' ≠ h ∧ holds h' r'

/-- The holders after `h` has given up what it holds. -/
def released (h : η) (holds : η → ρ → Prop) : η → ρ → Prop :=
  fun h' r' => h' ≠ h ∧ holds h' r'

variable {free : List ρ} {holds : η → ρ → Prop} {all : ρ → Prop} {h : η} {r : ρ}

theorem Separate.grant (sep : Separate (free ++ [r]) holds) : Separate free (granted h r holds) where
  distinct := (List.nodup_append.mp sep.distinct).1
  disjoint := by
    have fresh : r ∉ free := fun still =>
      (List.nodup_append.mp sep.distinct).2.2 r still r (List.mem_singleton.mpr rfl) rfl
    rintro h' r' (⟨-, rfl⟩ | ⟨-, has⟩) still
    · exact fresh still
    · exact sep.disjoint h' r' has (List.mem_append_left _ still)
  unique := by
    have notHeld : ∀ h', ¬ holds h' r := fun h' has => sep.disjoint h' r has (by simp)
    rintro h₁ h₂ r' (⟨rfl, rfl⟩ | ⟨-, has₁⟩) (⟨rfl, same⟩ | ⟨-, has₂⟩)
    · rfl
    · exact absurd has₂ (notHeld h₂)
    · exact absurd (same ▸ has₁) (notHeld h₁)
    · exact sep.unique h₁ h₂ r' has₁ has₂

theorem Separate.drop (sep : Separate free holds) : Separate free (released h holds) where
  distinct := sep.distinct
  disjoint := fun h' r' has => sep.disjoint h' r' has.2
  unique := fun h₁ h₂ r' has₁ has₂ => sep.unique h₁ h₂ r' has₁.2 has₂.2

theorem Separate.release (sep : Separate free holds) (has : holds h r) :
    Separate (free ++ [r]) (released h holds) where
  distinct := by
    rw [List.nodup_append_comm]
    exact List.nodup_cons.mpr ⟨sep.disjoint h r has, sep.distinct⟩
  disjoint := by
    rintro h' r' ⟨other, has'⟩ mem
    rw [List.mem_append, List.mem_singleton] at mem
    rcases mem with still | rfl
    · exact sep.disjoint h' r' has' still
    · exact other (sep.unique h' h r' has' has)
  unique := sep.drop.unique

/-- Granting keeps the pool complete, if `h` held nothing. -/
theorem Complete.grant (complete : Complete all (free ++ [r]) holds) (none : ∀ r', ¬ holds h r') :
    Complete all free (granted h r holds) := by
  intro r' isResource
  rcases complete r' isResource with mem | ⟨h', has⟩
  · rw [List.mem_append, List.mem_singleton] at mem
    rcases mem with still | rfl
    · exact .inl still
    · exact .inr ⟨h, .inl ⟨rfl, rfl⟩⟩
  · refine .inr ⟨h', .inr ⟨?_, has⟩⟩
    rintro rfl
    exact none r' has

theorem Complete.release (complete : Complete all free holds) (only : ∀ r', holds h r' → r' = r) :
    Complete all (free ++ [r]) (released h holds) := by
  intro r' isResource
  rcases complete r' isResource with still | ⟨h', has⟩
  · exact .inl (List.mem_append_left _ still)
  · by_cases same : h' = h
    · subst same
      rw [only r' has]
      exact .inl (by simp)
    · exact .inr ⟨h', same, has⟩

/-- What a dropped holder held is lost. -/
theorem Separate.drop_not_complete (sep : Separate free holds) (has : holds h r) (isResource : all r) :
    ¬ Complete all free (released h holds) := by
  intro complete
  rcases complete r isResource with still | ⟨h', other, has'⟩
  · exact sep.disjoint h r has still
  · exact other (sep.unique h' h r has' has)

end Cineraria.Pool
