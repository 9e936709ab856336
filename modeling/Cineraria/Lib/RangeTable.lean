/-!
# Numbering codes by a table of ranges

The codes of a table of closed ranges are numbered through, range after range. A code that lies in several ranges
has its number from the first one.
-/

namespace Cineraria.RangeTable

/-- A closed range of codes. -/
structure CodeRange where
  first : Nat
  last : Nat
  ordered : first ≤ last
  deriving DecidableEq, Repr

namespace CodeRange

def Contains (r : CodeRange) (c : Nat) : Prop := r.first ≤ c ∧ c ≤ r.last

instance (r : CodeRange) (c : Nat) : Decidable (r.Contains c) := inferInstanceAs (Decidable (_ ∧ _))

/-- The number of its codes. -/
def size (r : CodeRange) : Nat := r.last - r.first + 1

theorem offset_lt {r : CodeRange} {c : Nat} (inside : r.Contains c) : c - r.first < r.size := by
  have before := inside.1
  have behind := inside.2
  unfold size
  omega

end CodeRange

/-- The number of the codes of a table. -/
def total : List CodeRange → Nat
  | [] => 0
  | r :: table => r.size + total table

/-- The number of a code. -/
def index : List CodeRange → Nat → Option Nat
  | [], _ => none
  | r :: table, c => if r.Contains c then some (c - r.first) else (index table c).map (r.size + ·)

section
variable {table : List CodeRange} {r : CodeRange} {c n : Nat}

theorem index_cons_inside (inside : r.Contains c) : index (r :: table) c = some (c - r.first) := if_pos inside

theorem index_cons_outside (outside : ¬ r.Contains c) : index (r :: table) c = (index table c).map (r.size + ·) :=
  if_neg outside

/-- A code without a number lies in no range. -/
theorem index_eq_none_iff : index table c = none ↔ ∀ r ∈ table, ¬ r.Contains c := by
  induction table with
  | nil => simp [index]
  | cons r table ih =>
      rw [List.forall_mem_cons]
      by_cases inside : r.Contains c
      · rw [index_cons_inside inside]
        simp [inside]
      · rw [index_cons_outside inside, Option.map_eq_none_iff, ih]
        simp [inside]

theorem index_lt_total (found : index table c = some n) : n < total table := by
  induction table generalizing n with
  | nil => cases found
  | cons r table ih =>
      rw [total]
      by_cases inside : r.Contains c
      · rw [index_cons_inside inside] at found
        obtain rfl := Option.some.inj found
        have offset := CodeRange.offset_lt inside
        omega
      · rw [index_cons_outside inside] at found
        obtain ⟨m, numbered, rfl⟩ := Option.map_eq_some_iff.mp found
        have later := ih numbered
        omega

end

end Cineraria.RangeTable
