import Mathlib.Data.Fintype.Basic
import Mathlib.Data.Fin.VecNotation
import Mathlib.Tactic.Common
import Cineraria.Lib.ShiftRegister

/-!
# Nine-valued logic

The values of a VHDL `std_logic` signal, the resolution of a signal that has several drivers, and
vectors of such values. An arithmetic operand with a bit that is neither a zero nor a one makes
the whole result `'X'`, as in the package `std_logic_arith`.
-/

namespace Cineraria

/-- The values of `std_logic`. -/
inductive StdLogic where
  | uninitialized | unknown | zero | one | highImpedance | weak | low | high | dontCare
  deriving DecidableEq, Repr

namespace StdLogic

def ofBool (b : Bool) : StdLogic := if b then one else zero

/-- The bit that arithmetic reads, if there is one. -/
def toBool? : StdLogic → Option Bool
  | zero | low => some false
  | one | high => some true
  | _ => none

/-- `not` -/
def not : StdLogic → StdLogic
  | uninitialized => uninitialized
  | zero | low => one
  | one | high => zero
  | _ => unknown

/-- The `resolution_table` of two drivers. -/
def resolve : StdLogic → StdLogic → StdLogic
  | uninitialized, _ | _, uninitialized => uninitialized
  | unknown, _ | _, unknown => unknown
  | dontCare, _ | _, dontCare => unknown
  | zero, one | one, zero => unknown
  | zero, _ | _, zero => zero
  | one, _ | _, one => one
  | weak, _ | _, weak => weak
  | low, high | high, low => weak
  | low, _ | _, low => low
  | high, _ | _, high => high
  | highImpedance, highImpedance => highImpedance

/-- The bit is a defined zero or one. -/
def Defined (s : StdLogic) : Prop := s = zero ∨ s = one

instance : DecidablePred Defined := fun s => inferInstanceAs (Decidable (s = zero ∨ s = one))

@[simp] theorem toBool?_ofBool (b : Bool) : (ofBool b).toBool? = some b := by
  cases b <;> rfl

theorem defined_ofBool (b : Bool) : (ofBool b).Defined := by
  cases b
  · exact .inl rfl
  · exact .inr rfl

theorem ofBool_eq_one_iff (b : Bool) : ofBool b = one ↔ b = true := by
  cases b <;> decide

/-- A driver that is unknown spoils the signal. -/
theorem not_defined_resolve_unknown (s : StdLogic) : ¬ (unknown.resolve s).Defined := by
  cases s <;> decide

end StdLogic

/-- `std_logic_vector(w - 1 downto 0)` -/
abbrev StdVector (w : Nat) := Fin w → StdLogic

namespace StdVector

open ShiftRegister

variable {v w : Nat}

def ofBitVec (b : BitVec w) : StdVector w := fun i => .ofBool (b.getLsbD i)

/-- `(others => s)` -/
def others (s : StdLogic) : StdVector w := fun _ => s

/-- The value that arithmetic reads, if all bits have one. -/
def value? (x : StdVector w) : Option (BitVec w) :=
  if ∀ i, (x i).toBool?.isSome then
    some (ofBits (fun i => if h : i < w then (x ⟨i, h⟩).toBool?.getD false else false) w)
  else none

/-- An arithmetic function of one operand. -/
def lift (f : BitVec v → BitVec w) (x : StdVector v) : StdVector w :=
  match x.value? with
  | some a => ofBitVec (f a)
  | none => others .unknown

/-- An arithmetic function of two operands. -/
def lift₂ {u : Nat} (f : BitVec u → BitVec v → BitVec w) (x : StdVector u) (y : StdVector v) : StdVector w :=
  match x.value?, y.value? with
  | some a, some b => ofBitVec (f a b)
  | _, _ => others .unknown

/-- `x(start + w - 1 downto start)` -/
def slice (start w : Nat) (x : StdVector v) (fits : start + w ≤ v := by decide) : StdVector w :=
  fun i => x ⟨start + i, by omega⟩

/-- `x & y` -/
def append (x : StdVector v) (y : StdVector w) : StdVector (v + w) :=
  fun i => if h : i < w then y ⟨i, h⟩ else x ⟨i - w, by omega⟩

/-- The value of a signal with two drivers. -/
def resolve (x y : StdVector w) : StdVector w := fun i => (x i).resolve (y i)

/-- All bits are defined zeros or ones. -/
def Defined (x : StdVector w) : Prop := ∀ i, (x i).Defined

instance (x : StdVector w) : Decidable x.Defined := inferInstanceAs (Decidable (∀ i, (x i).Defined))

@[simp] theorem ofBitVec_apply (b : BitVec w) (i : Fin w) : ofBitVec b i = .ofBool (b.getLsbD i) := rfl

theorem defined_ofBitVec (b : BitVec w) : (ofBitVec b).Defined := fun _ => StdLogic.defined_ofBool _

@[simp] theorem value?_ofBitVec (b : BitVec w) : (ofBitVec b).value? = some b := by
  rw [value?, if_pos fun i => by rw [ofBitVec_apply, StdLogic.toBool?_ofBool]; rfl]
  congr 1
  apply BitVec.eq_of_getLsbD_eq
  intro i within
  rw [getLsbD_ofBits _ within, dif_pos within, ofBitVec_apply, StdLogic.toBool?_ofBool]
  rfl

@[simp] theorem lift_ofBitVec (f : BitVec v → BitVec w) (b : BitVec v) :
    lift f (ofBitVec b) = ofBitVec (f b) := by
  rw [lift, value?_ofBitVec]

@[simp] theorem lift₂_ofBitVec {u : Nat} (f : BitVec u → BitVec v → BitVec w) (a : BitVec u)
    (b : BitVec v) : lift₂ f (ofBitVec a) (ofBitVec b) = ofBitVec (f a b) := by
  rw [lift₂, value?_ofBitVec, value?_ofBitVec]

@[simp] theorem slice_ofBitVec (start : Nat) (b : BitVec v) (fits : start + w ≤ v) :
    slice start w (ofBitVec b) fits = ofBitVec (b.extractLsb' start w) := by
  funext i
  rw [ofBitVec_apply, BitVec.getLsbD_extractLsb', decide_eq_true i.isLt]
  rfl

@[simp] theorem append_ofBitVec (a : BitVec v) (b : BitVec w) :
    append (ofBitVec a) (ofBitVec b) = ofBitVec (a ++ b) := by
  funext i
  rw [append, ofBitVec_apply, BitVec.getLsbD_append]
  split <;> rfl

end StdVector

end Cineraria
