import Mathlib.Data.Nat.Find
import Mathlib.Logic.Function.Iterate
import Mathlib.Tactic.Common

/-!
# Synchronous circuits

A synchronous circuit is given by its next-state function `step : ι → σ → σ`:
`σ` is the content of the registers and `ι` the inputs sampled at a clock edge.
`run step w s t` is the content of the registers after `t` edges when the inputs
follow the waveform `w : Nat → ι`. The rules below are the principles used for
every circuit: an invariant, the split of a run at an edge, what an observer
notes over a run, and a register that is loaded at regular times.
-/

namespace Cineraria.Clocked

variable {ι σ : Type}

/-- The registers after `t` clock edges from `s`, under the waveform `w`. -/
def run (step : ι → σ → σ) (w : Nat → ι) (s : σ) : Nat → σ
  | 0 => s
  | t + 1 => step (w t) (run step w s t)

/-- The waveform seen from clock edge `d` on. -/
def shift (w : Nat → ι) (d : Nat) : Nat → ι := fun t => w (d + t)

section
variable (step : ι → σ → σ) (w : Nat → ι) (s : σ)

@[simp] theorem run_zero : run step w s 0 = s := rfl

theorem run_succ (t : Nat) : run step w s (t + 1) = step (w t) (run step w s t) := rfl

@[simp] theorem shift_apply (d t : Nat) : shift w d t = w (d + t) := rfl

/-- A run splits at any edge: the rest is a run of the shifted waveform. -/
theorem run_add (a b : Nat) :
    run step w s (a + b) = run step (shift w a) (run step w s a) b := by
  induction b with
  | zero => rfl
  | succ b ih => rw [← Nat.add_assoc, run_succ, run_succ, ih, shift_apply]

end

/-- The invariant rule. -/
theorem run_invariant {step : ι → σ → σ} {Inv : σ → Prop}
    (preserved : ∀ i s, Inv s → Inv (step i s)) (w : Nat → ι) {s : σ} (start : Inv s) (t : Nat) :
    Inv (run step w s t) := by
  induction t with
  | zero => exact start
  | succ t ih => exact preserved _ _ ih

/-- A run depends on the inputs before its end only. -/
theorem run_congr {step : ι → σ → σ} {w w' : Nat → ι} {s : σ} {t : Nat} (same : ∀ u < t, w u = w' u) :
    run step w s t = run step w' s t := by
  induction t with
  | zero => rfl
  | succ t ih =>
      rw [run_succ, run_succ, ih fun u hu => same u (by omega), same t (Nat.lt_succ_self t)]

/-- The measure rule: a machine that is busy only while a measure falls at every edge is
idle at the latest when the measure is used up. -/
theorem exists_idle {step : ι → σ → σ} {w : Nat → ι} {s : σ} (busy : σ → Prop) (measure : σ → Nat)
    (falls : ∀ u, (∀ v ≤ u, busy (run step w s v)) →
      measure (run step w s (u + 1)) < measure (run step w s u)) :
    ∃ e ≤ measure s, ¬ busy (run step w s e) ∧ ∀ u < e, busy (run step w s u) := by
  have spent : ∀ n, (∀ u < n, busy (run step w s u)) → measure (run step w s n) + n ≤ measure s := by
    intro n
    induction n with
    | zero => exact fun _ => Nat.le_refl _
    | succ n ih =>
        intro before
        have left := ih fun u hu => before u (by omega)
        have fell := falls n fun v hv => before v (by omega)
        omega
  have ends : ∃ e, ¬ busy (run step w s e) := by
    by_contra always
    rw [not_exists] at always
    have long := spent (measure s + 1) fun u _ => not_not.mp (always u)
    omega
  classical
  refine ⟨Nat.find ends, ?_, Nat.find_spec ends, fun u before => not_not.mp (Nat.find_min ends before)⟩
  have := spent (Nat.find ends) fun u before => not_not.mp (Nat.find_min ends before)
  omega

/-! ## Observations -/

/-- What an observer notes at the first `t` edges of a run. -/
def observed {α : Type} (f : ι → σ → Option α) (step : ι → σ → σ) (w : Nat → ι) (s : σ) :
    Nat → List α
  | 0 => []
  | t + 1 => observed f step w s t ++ (f (w t) (run step w s t)).toList

section
variable {α : Type} {f : ι → σ → Option α} {step : ι → σ → σ} {w : Nat → ι} {s : σ}

theorem observed_succ (t : Nat) :
    observed f step w s (t + 1) = observed f step w s t ++ (f (w t) (run step w s t)).toList := rfl

/-- The notes of a run that is split at an edge. -/
theorem observed_add (a b : Nat) :
    observed f step w s (a + b) =
      observed f step w s a ++ observed f step (shift w a) (run step w s a) b := by
  induction b with
  | zero => exact (List.append_nil _).symm
  | succ b ih => rw [← Nat.add_assoc, observed_succ, observed_succ, ih, run_add, List.append_assoc,
      shift_apply]

/-- Edges at which nothing is noted. -/
theorem observed_quiet {a b : Nat} (quiet : ∀ u, a ≤ u → u < a + b → f (w u) (run step w s u) = none) :
    observed f step w s (a + b) = observed f step w s a := by
  induction b with
  | zero => rfl
  | succ b ih =>
      rw [← Nat.add_assoc, observed_succ, quiet (a + b) (by omega) (by omega),
        ih fun u hu hb => quiet u hu (by omega)]
      exact List.append_nil _

/-- Two runs of which the observer notes the same at every edge. -/
theorem observed_congr {w' : Nat → ι} {s' : σ} {t : Nat}
    (same : ∀ u < t, f (w u) (run step w s u) = f (w' u) (run step w' s' u)) :
    observed f step w s t = observed f step w' s' t := by
  induction t with
  | zero => rfl
  | succ t ih =>
      rw [observed_succ, observed_succ, ih fun u hu => same u (by omega), same t (Nat.lt_succ_self t)]

end

/-- A register loaded once in every `period` edges holds the loaded value until the next
load: after the edge `load` it reads the same for `period` cycles. -/
theorem held_until_next_load {α : Type} {x y : Nat → α} {period k load j : Nat}
    (next : ∀ u, x (u + 1) = if u % period = k then y u else x u)
    (atSlot : load % period = k) (within : j < period) : x (load + 1 + j) = y load := by
  induction j with
  | zero => rw [Nat.add_zero, next, if_pos atSlot]
  | succ j ih =>
      have elsewhere : (load + 1 + j) % period ≠ k := by
        intro same
        have aligned := Nat.sub_mod_eq_zero_of_mod_eq (same.trans atSlot.symm)
        rw [show load + 1 + j - load = j + 1 by omega, Nat.mod_eq_of_lt within] at aligned
        omega
      rw [← Nat.add_assoc, next, if_neg elsewhere, ih (by omega)]

end Cineraria.Clocked
