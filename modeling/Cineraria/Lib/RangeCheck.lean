import Cineraria.Lib.Clocked

/-!
# Simulation with range checks

An integer signal of a hardware description is declared with a range. When a process assigns it a
value out of the range, the simulation fails and ends there. `Process.simulate` is a run with this
check, for a process with an asynchronous reset; without the check it is the run of the circuit
(`simulate_eq_some_iff`), and stretches without a reset are runs of its clocked part alone
(`run_react`).
-/

namespace Cineraria.RangeCheck

open Clocked

/-- `integer range left to right` -/
structure IntegerRange where
  left : Int
  right : Int
  deriving DecidableEq, Repr

def IntegerRange.Contains (r : IntegerRange) (x : Int) : Prop := r.left ≤ x ∧ x ≤ r.right

instance (r : IntegerRange) (x : Int) : Decidable (r.Contains x) :=
  inferInstanceAs (Decidable (r.left ≤ x ∧ x ≤ r.right))

/-- What makes a process with an asynchronous reset run. -/
inductive Event (ι : Type) where
  | reset
  | clock (i : ι)
  deriving DecidableEq, Repr

/-- The inputs at a clock edge. -/
def Event.inputs {ι : Type} (other : ι) : Event ι → ι
  | .reset => other
  | .clock i => i

/-- None of the `k` events after event `t` is a reset. -/
def Unreset {ι : Type} (w : Nat → Event ι) (t k : Nat) : Prop := ∀ u, t < u → u ≤ t + k → w u ≠ .reset

section
variable {ι : Type} {w : Nat → Event ι} {t k : Nat}

theorem unreset_zero (w : Nat → Event ι) (t : Nat) : Unreset w t 0 := fun u after before => by omega

theorem Unreset.next (unreset : Unreset w t k) {i : ι} (event : w (t + (k + 1)) = .clock i) :
    Unreset w t (k + 1) := by
  intro u after before
  rcases Nat.lt_or_eq_of_le before with earlier | rfl
  · exact unreset u after (by omega)
  · rw [event]
    simp

theorem not_unreset_iff : ¬ Unreset w t k ↔ ∃ u, t < u ∧ u ≤ t + k ∧ w u = .reset := by
  simp only [Unreset, not_forall, not_not, exists_prop]

end

/-- A process with an asynchronous reset, that assigns an integer signal. -/
structure Process (ι σ : Type) where
  reset : σ → σ
  clock : ι → σ → σ
  signal : σ → Int
  range : IntegerRange

namespace Process

variable {ι σ : Type} (p : Process ι σ)

/-- One run of the process. -/
def react : Event ι → σ → σ
  | .reset => p.reset
  | .clock i => p.clock i

/-- The value of the signal is in its range. -/
def InRange (s : σ) : Prop := p.range.Contains (p.signal s)

instance (s : σ) : Decidable (p.InRange s) := inferInstanceAs (Decidable (p.range.Contains (p.signal s)))

/-- The state after `n` events, or none if the simulation has failed. -/
def simulate (w : Nat → Event ι) (s : σ) : Nat → Option σ
  | 0 => some s
  | n + 1 => (simulate w s n).bind fun s => if p.InRange (p.react (w n) s) then some (p.react (w n) s) else none

section
variable {p} {w : Nat → Event ι} {s : σ} {n : Nat}

/-- As long as the simulation goes on, it is the run. -/
theorem simulate_eq_some_iff {s' : σ} :
    p.simulate w s n = some s' ↔ s' = run p.react w s n ∧ ∀ m < n, p.InRange (run p.react w s (m + 1)) := by
  induction n generalizing s' with
  | zero => simp [simulate, eq_comm]
  | succ n ih =>
      simp only [simulate, Option.bind_eq_some_iff, ih]
      constructor
      · rintro ⟨_, ⟨rfl, before⟩, passed⟩
        obtain ⟨inRange, same⟩ := Option.ite_none_right_eq_some.mp passed
        refine ⟨(Option.some.inj same).symm, fun m within => ?_⟩
        rcases Nat.lt_succ_iff_lt_or_eq.mp within with earlier | rfl
        · exact before m earlier
        · exact inRange
      · rintro ⟨rfl, always⟩
        exact ⟨_, ⟨rfl, fun m within => always m (by omega)⟩, if_pos (always n (Nat.lt_succ_self n))⟩

/-- From a value in its range, the simulation does not fail exactly if the signal stays in it. -/
theorem simulate_isSome_iff (start : p.InRange s) :
    (p.simulate w s n).isSome = true ↔ ∀ m ≤ n, p.InRange (run p.react w s m) := by
  rw [Option.isSome_iff_exists]
  constructor
  · rintro ⟨s', passed⟩ m within
    obtain ⟨-, inRange⟩ := simulate_eq_some_iff.mp passed
    cases m with
    | zero => exact start
    | succ m => exact inRange m within
  · intro inRange
    exact ⟨_, simulate_eq_some_iff.mpr ⟨rfl, fun m within => inRange (m + 1) within⟩⟩

/-- The rule for a process that never fails: an invariant of the reset and the clock that implies
the range. -/
theorem inRange_of_invariant (Inv : σ → Prop) (reset : ∀ s, Inv s → Inv (p.reset s))
    (clock : ∀ i s, Inv s → Inv (p.clock i s)) (implies : ∀ s, Inv s → p.InRange s) (start : Inv s) (m : Nat) :
    p.InRange (run p.react w s m) := by
  refine implies _ (run_invariant ?_ w start m)
  rintro (_ | i) s inv
  · exact reset s inv
  · exact clock i s inv

/-- From a clock to the next reset only the clocked part counts. -/
theorem run_react {t k : Nat} {i : ι} (event : w t = .clock i) (unreset : Unreset w t k) {j : Nat}
    (within : j ≤ k + 1) :
    run p.react w s (t + j) = run p.clock (fun u => (w (t + u)).inputs i) (run p.react w s t) j := by
  induction j with
  | zero => rfl
  | succ j ih =>
      rw [← Nat.add_assoc, run_succ, run_succ, ih (by omega)]
      cases here : w (t + j) with
      | clock i => rfl
      | reset =>
          rcases Nat.eq_zero_or_pos j with rfl | later
          · rw [Nat.add_zero, event] at here
            cases here
          · exact absurd here (unreset (t + j) (by omega) (by omega))

end

end Process

end Cineraria.RangeCheck
