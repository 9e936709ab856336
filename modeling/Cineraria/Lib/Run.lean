import Mathlib.Logic.Function.Iterate
import Mathlib.Tactic.Common

/-!
# Runs of a state machine

`exec step s events` is the state after a list of events. `EveryState` speaks of all
the states a run passes through, `EveryStep` of all its steps, each with the state it
is taken in. The last rule compares the two: when one step reaches a good state exactly
if it meets a condition, a run stays good exactly if all its steps do.
-/

namespace Cineraria.Run

variable {ε σ : Type}

/-- The state after the events, in order. -/
def exec (step : ε → σ → σ) (s : σ) : List ε → σ
  | [] => s
  | e :: es => exec step (step e s) es

/-- `P` holds of every state of the run, the first and the last included. -/
def EveryState (step : ε → σ → σ) (P : σ → Prop) (s : σ) : List ε → Prop
  | [] => P s
  | e :: es => P s ∧ EveryState step P (step e s) es

/-- `C` holds of every step of the run, given the state the step is taken in. -/
def EveryStep (step : ε → σ → σ) (C : ε → σ → Prop) (s : σ) : List ε → Prop
  | [] => True
  | e :: es => C e s ∧ EveryStep step C (step e s) es

/-- The number of steps of the run that meet a condition. -/
def occurrences (step : ε → σ → σ) (C : ε → σ → Bool) (s : σ) : List ε → Nat
  | [] => 0
  | e :: es => (C e s).toNat + occurrences step C (step e s) es

instance (step : ε → σ → σ) (C : ε → σ → Prop) [∀ e s, Decidable (C e s)] :
    ∀ (s : σ) (es : List ε), Decidable (EveryStep step C s es)
  | _, [] => inferInstanceAs (Decidable True)
  | s, e :: es =>
      have := instDecidableEveryStep step C (step e s) es
      inferInstanceAs (Decidable (C e s ∧ EveryStep step C (step e s) es))

section
variable {step : ε → σ → σ} {s : σ}

/-- A run in two parts. -/
theorem exec_append (step : ε → σ → σ) (s : σ) (a b : List ε) :
    exec step s (a ++ b) = exec step (exec step s a) b := by
  induction a generalizing s with
  | nil => rfl
  | cons e a ih => exact ih (step e s)

/-- A run that repeats one event. -/
theorem exec_replicate (step : ε → σ → σ) (s : σ) (e : ε) (n : Nat) :
    exec step s (List.replicate n e) = (step e)^[n] s := by
  induction n generalizing s with
  | zero => rfl
  | succ n ih => exact ih (step e s)

/-- A step in the middle of a run. -/
theorem everyStep_append {C : ε → σ → Prop} {a b : List ε} {e : ε}
    (h : EveryStep step C s (a ++ e :: b)) : C e (exec step s a) := by
  induction a generalizing s with
  | nil => exact h.1
  | cons e a ih => exact ih h.2

/-- The invariant rule: what an invariant implies holds of every state. -/
theorem everyState_of_invariant {Inv P : σ → Prop} (kept : ∀ e s, Inv s → Inv (step e s))
    (implies : ∀ s, Inv s → P s) (start : Inv s) (es : List ε) : EveryState step P s es := by
  induction es generalizing s with
  | nil => exact implies s start
  | cons e es ih => exact ⟨implies s start, ih (kept e s start)⟩

/-- The rule for an invariant that only the steps under a condition keep. -/
theorem everyState_of_everyStep {Inv P : σ → Prop} {C : ε → σ → Prop}
    (kept : ∀ e s, Inv s → C e s → Inv (step e s)) (implies : ∀ s, Inv s → P s) (start : Inv s)
    {es : List ε} (met : EveryStep step C s es) : EveryState step P s es := by
  induction es generalizing s with
  | nil => exact implies s start
  | cons e es ih => exact ⟨implies s start, ih (kept e s start met.1) met.2⟩

/-- The countdown rule: a counter that the steps under a condition lower, as long as it is not zero. -/
theorem exec_countdown {C : ε → σ → Bool} (x : σ → Nat) (lowers : ∀ e s, x (step e s) = x s - (C e s).toNat)
    (es : List ε) : x (exec step s es) = x s - occurrences step C s es := by
  induction es generalizing s with
  | nil => rfl
  | cons e es ih => rw [exec, ih, lowers, occurrences, Nat.sub_sub]

/-- What such an invariant implies of every step under the condition. -/
theorem everyStep_imp {Inv : σ → Prop} {C D : ε → σ → Prop} (kept : ∀ e s, Inv s → C e s → Inv (step e s))
    (implies : ∀ e s, Inv s → C e s → D e s) (start : Inv s) {es : List ε} (met : EveryStep step C s es) :
    EveryStep step D s es := by
  induction es generalizing s with
  | nil => trivial
  | cons e es ih => exact ⟨implies e s start met.1, ih (kept e s start met.1) met.2⟩

theorem everyStep_of_everyStep {Inv : σ → Prop} {C D : ε → σ → Prop}
    (kept : ∀ e s, Inv s → C e s → Inv (step e s)) (implies : ∀ e s, Inv s → D e s) (start : Inv s)
    {es : List ε} (met : EveryStep step C s es) : EveryStep step D s es :=
  everyStep_imp kept (fun e s inv _ => implies e s inv) start met

/-- A condition that an invariant implies holds of every step. -/
theorem everyStep_of_invariant (Inv : σ → Prop) {C : ε → σ → Prop}
    (kept : ∀ e s, Inv s → Inv (step e s)) (meets : ∀ e s, Inv s → C e s)
    (start : Inv s) (es : List ε) : EveryStep step C s es := by
  induction es generalizing s with
  | nil => trivial
  | cons e es ih => exact ⟨meets e s start, ih (kept e s start)⟩

/-- Two conditions that an invariant makes the same. -/
theorem everyStep_congr (Inv : σ → Prop) {C D : ε → σ → Prop} (kept : ∀ e s, Inv s → Inv (step e s))
    (same : ∀ e s, Inv s → (C e s ↔ D e s)) (start : Inv s) (es : List ε) :
    EveryStep step C s es ↔ EveryStep step D s es := by
  induction es generalizing s with
  | nil => exact Iff.rfl
  | cons e es ih => exact and_congr (same e s start) (ih (kept e s start))

/-- A condition on the events alone. -/
theorem everyStep_forall {C : ε → Prop} {es : List ε} : EveryStep step (fun e _ => C e) s es ↔ ∀ e ∈ es, C e := by
  induction es generalizing s with
  | nil => simp [EveryStep]
  | cons e es ih => rw [EveryStep, ih, List.forall_mem_cons]

/-- The steps of a run that repeats one event. -/
theorem everyStep_replicate {C : ε → σ → Prop} {e : ε} {n : Nat}
    (h : EveryStep step C s (List.replicate n e)) {k : Nat} (before : k < n) :
    C e ((step e)^[k] s) := by
  induction n generalizing s k with
  | zero => omega
  | succ n ih =>
      obtain ⟨here, later⟩ := h
      cases k with
      | zero => exact here
      | succ k => exact ih later (by omega)

/-- A run stays good exactly if every step meets the condition, where `Inv` is what is
known of every state anyway and a step from a good state reaches a good state exactly if
it meets the condition. -/
theorem everyState_iff_everyStep {Inv P : σ → Prop} {C : ε → σ → Prop}
    (kept : ∀ e s, Inv s → Inv (step e s))
    (exact : ∀ e s, Inv s → P s → (P (step e s) ↔ C e s))
    (inv : Inv s) (good : P s) (es : List ε) :
    EveryState step P s es ↔ EveryStep step C s es := by
  induction es generalizing s with
  | nil => exact iff_of_true good trivial
  | cons e es ih =>
      have here := exact e s inv good
      constructor
      · rintro ⟨-, later⟩
        have next : P (step e s) := by
          cases es with
          | nil => exact later
          | cons _ _ => exact later.1
        exact ⟨here.mp next, (ih (kept e s inv) next).mp later⟩
      · rintro ⟨met, later⟩
        exact ⟨good, (ih (kept e s inv) (here.mpr met)).mpr later⟩

end

end Cineraria.Run
