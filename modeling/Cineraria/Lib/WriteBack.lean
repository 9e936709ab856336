import Mathlib.Logic.Function.Basic
import Mathlib.Tactic.Common

/-!
# One line of a write-back cache

A store of cells, and one line over it: a copy of the cell at `tag`, to be written back later if it
is dirty. `view` is what a reader of store and line together sees. A dirty line hides its cell, so
that whatever happens to that cell meanwhile, a failed write for instance, changes nothing.
-/

namespace Cineraria.WriteBack

variable {ι β : Type} [DecidableEq ι]

/-- The copy of a cell. -/
structure Line (ι β : Type) where
  tag : ι
  value : β
  dirty : Bool

/-- The cells as a reader sees them. -/
def view (store : ι → β) (l : Line ι β) : ι → β :=
  if l.dirty then Function.update store l.tag l.value else store

section
variable {store : ι → β} {l : Line ι β}

@[simp] theorem view_clean (store : ι → β) (tag : ι) (value : β) : view store ⟨tag, value, false⟩ = store := rfl

@[simp] theorem view_dirty (store : ι → β) (tag : ι) (value : β) :
    view store ⟨tag, value, true⟩ = Function.update store tag value := rfl

theorem view_of_clean (clean : l.dirty = false) : view store l = store := by
  simp [view, clean]

/-- At its own cell the reader sees the line, if a clean line is a copy. -/
theorem view_tag (copy : l.dirty = false → store l.tag = l.value) : view store l l.tag = l.value := by
  cases h : l.dirty with
  | false => rw [view_of_clean h, copy h]
  | true => simp [view, h]

/-- Writing the line back. -/
theorem view_writeBack (dirty : l.dirty = true) : view store l = Function.update store l.tag l.value := by
  simp [view, dirty]

/-- Whatever is put into the cell of a dirty line. -/
theorem view_update_tag (dirty : l.dirty = true) (b : β) :
    view (Function.update store l.tag b) l = view store l := by
  simp [view, dirty]

/-- Changing the line changes its cell. -/
theorem view_modify (store : ι → β) (l : Line ι β) (b : β) :
    view store { l with value := b, dirty := true } = Function.update (view store l) l.tag b := by
  cases h : l.dirty with
  | false => simp [view, h]
  | true => simp [view, h]

end

end Cineraria.WriteBack
