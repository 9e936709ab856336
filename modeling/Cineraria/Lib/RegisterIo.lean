import Mathlib.Tactic.Common

/-!
# Programs over device registers

A driver program is a tree of register reads and writes. `poll` stands for the loop that
reads a register again and again until the word read meets a test; all other loops of a
driver are bounded and are written as recursive functions. A device is a transition system:
it says which words a read may return and which states a read or a write may leave it in.
`Runs` is the big-step meaning of a program with static variables over a device.
-/

namespace Cineraria.RegisterIo

variable {σ ν α β : Type}

/-! ## Programs -/

/-- A program that ends with a value of type `α`. -/
inductive Prog (α : Type) where
  | ret (a : α)
  | iord (reg : Nat) (next : BitVec 32 → Prog α)
  | iowr (reg : Nat) (data : BitVec 32) (next : Prog α)
  | poll (reg : Nat) (stop : BitVec 32 → Bool) (next : BitVec 32 → Prog α)

/-- One program after another. -/
def Prog.bind (f : α → Prog β) : Prog α → Prog β
  | .ret a => f a
  | .iord reg next => .iord reg fun v => (next v).bind f
  | .iowr reg data next => .iowr reg data (next.bind f)
  | .poll reg stop next => .poll reg stop fun v => (next v).bind f

/-- A program with static variables of type `ν`. -/
def Driver (ν α : Type) := ν → Prog (α × ν)

instance : Monad (Driver ν) where
  pure a := fun v => .ret (a, v)
  bind m f := fun v => (m v).bind fun p => f p.1 p.2

/-- Read a register. -/
def Driver.iord (reg : Nat) : Driver ν (BitVec 32) := fun v => .iord reg fun x => .ret (x, v)

/-- Write a register. -/
def Driver.iowr (reg : Nat) (data : BitVec 32) : Driver ν Unit :=
  fun v => .iowr reg data (.ret ((), v))

/-- Read a register until the word meets `stop`. -/
def Driver.poll (reg : Nat) (stop : BitVec 32 → Bool) : Driver ν (BitVec 32) :=
  fun v => .poll reg stop fun x => .ret (x, v)

/-- The static variables. -/
def Driver.vars : Driver ν ν := fun v => .ret (v, v)

/-- An assignment to static variables. -/
def Driver.assign (f : ν → ν) : Driver ν Unit := fun v => .ret ((), f v)

/-! ## Devices -/

/-- The reads and writes a device allows. -/
structure Device (σ : Type) where
  read : Nat → σ → BitVec 32 → σ → Prop
  write : Nat → BitVec 32 → σ → σ → Prop

/-- A device that answers at once and in one way only. -/
def Device.ofFunctions (read : Nat → σ → BitVec 32 × σ) (write : Nat → BitVec 32 → σ → σ) :
    Device σ where
  read reg s v s' := read reg s = (v, s')
  write reg data s s' := write reg data s = s'

/-- The loop of a `poll`: words that fail the test, then one that meets it. -/
inductive Polls (dev : Device σ) (reg : Nat) (stop : BitVec 32 → Bool) :
    σ → BitVec 32 → σ → Prop where
  | met {s s' : σ} {v : BitVec 32} (read : dev.read reg s v s') (test : stop v = true) :
      Polls dev reg stop s v s'
  | again {s s₁ s' : σ} {v v' : BitVec 32} (read : dev.read reg s v s₁) (test : stop v = false)
      (rest : Polls dev reg stop s₁ v' s') : Polls dev reg stop s v' s'

/-- `p` can run from `s` to its end in `s'` with the result `a`. -/
def Exec (dev : Device σ) : Prog α → σ → α → σ → Prop
  | .ret b, s, a, s' => a = b ∧ s' = s
  | .iord reg next, s, a, s' => ∃ v s₁, dev.read reg s v s₁ ∧ Exec dev (next v) s₁ a s'
  | .iowr reg data next, s, a, s' => ∃ s₁, dev.write reg data s s₁ ∧ Exec dev next s₁ a s'
  | .poll reg stop next, s, a, s' =>
      ∃ v s₁, Polls dev reg stop s v s₁ ∧ Exec dev (next v) s₁ a s'

/-- A run of a program with static variables. -/
def Runs (dev : Device σ) (m : Driver ν α) (v : ν) (s : σ) (a : α) (v' : ν) (s' : σ) : Prop :=
  Exec dev (m v) s (a, v') s'

/-! ## Rules -/

section
variable {dev : Device σ} {v v' : ν} {s s' : σ}

theorem exec_bind {p : Prog α} {f : α → Prog β} {b : β} :
    Exec dev (p.bind f) s b s' ↔ ∃ a s₁, Exec dev p s a s₁ ∧ Exec dev (f a) s₁ b s' := by
  induction p generalizing s with
  | ret a =>
      constructor
      · intro h
        exact ⟨a, s, ⟨rfl, rfl⟩, h⟩
      · rintro ⟨_, _, ⟨rfl, rfl⟩, h⟩
        exact h
  | iord reg next ih =>
      simp only [Prog.bind, Exec, ih]
      grind
  | iowr reg data next ih =>
      simp only [Prog.bind, Exec, ih]
      grind
  | poll reg stop next ih =>
      simp only [Prog.bind, Exec, ih]
      grind

theorem runs_pure {a b : α} :
    Runs dev (pure b : Driver ν α) v s a v' s' ↔ a = b ∧ v' = v ∧ s' = s := by
  simp only [Runs, pure, Exec, Prod.mk.injEq, and_assoc]

theorem runs_bind {m : Driver ν α} {f : α → Driver ν β} {b : β} :
    Runs dev (m >>= f) v s b v' s' ↔
      ∃ a v₁ s₁, Runs dev m v s a v₁ s₁ ∧ Runs dev (f a) v₁ s₁ b v' s' := by
  simp only [Runs, Bind.bind, exec_bind, Prod.exists]

theorem runs_iord {reg : Nat} {x : BitVec 32} :
    Runs dev (Driver.iord reg : Driver ν _) v s x v' s' ↔ v' = v ∧ dev.read reg s x s' := by
  simp only [Runs, Driver.iord, Exec, Prod.mk.injEq]
  grind

theorem runs_iowr {reg : Nat} {data : BitVec 32} {u : Unit} :
    Runs dev (Driver.iowr reg data : Driver ν _) v s u v' s' ↔ v' = v ∧ dev.write reg data s s' := by
  simp only [Runs, Driver.iowr, Exec, Prod.mk.injEq]
  grind

theorem runs_poll {reg : Nat} {stop : BitVec 32 → Bool} {x : BitVec 32} :
    Runs dev (Driver.poll reg stop : Driver ν _) v s x v' s' ↔
      v' = v ∧ Polls dev reg stop s x s' := by
  simp only [Runs, Driver.poll, Exec, Prod.mk.injEq]
  grind

theorem runs_vars {x : ν} :
    Runs dev (Driver.vars : Driver ν _) v s x v' s' ↔ x = v ∧ v' = v ∧ s' = s := by
  simp only [Runs, Driver.vars, Exec, Prod.mk.injEq, and_assoc]

theorem runs_assign {f : ν → ν} {u : Unit} :
    Runs dev (Driver.assign f) v s u v' s' ↔ v' = f v ∧ s' = s := by
  simp only [Runs, Driver.assign, Exec, Prod.mk.injEq, true_and]

/-- What a poll returns meets its test. -/
theorem Polls.test_met {reg : Nat} {stop : BitVec 32 → Bool} {x : BitVec 32}
    (h : Polls dev reg stop s x s') : stop x = true := by
  induction h with
  | met _ test => exact test
  | again _ _ _ ih => exact ih

/-- The last read of a poll. -/
theorem Polls.last {reg : Nat} {stop : BitVec 32 → Bool} {x : BitVec 32}
    (h : Polls dev reg stop s x s') : ∃ s₁, dev.read reg s₁ x s' := by
  induction h with
  | met read _ => exact ⟨_, read⟩
  | again _ _ _ ih => exact ih

/-- The invariant rule: what every read and every write keeps, every run keeps. -/
theorem Runs.invariant {Inv : σ → Prop}
    (read : ∀ {reg s x s'}, dev.read reg s x s' → Inv s → Inv s')
    (write : ∀ {reg data s s'}, dev.write reg data s s' → Inv s → Inv s')
    {m : Driver ν α} {a : α} (runs : Runs dev m v s a v' s') (start : Inv s) : Inv s' := by
  have polls : ∀ {reg stop s x s'}, Polls dev reg stop s x s' → Inv s → Inv s' := by
    intro reg stop s x s' h
    induction h with
    | met r _ => exact read r
    | again r _ _ ih => exact fun inv => ih (read r inv)
  have exec : ∀ {p : Prog (α × ν)} {s a s'}, Exec dev p s a s' → Inv s → Inv s' := by
    intro p
    induction p with
    | ret b =>
        rintro s a s' ⟨-, rfl⟩ inv
        exact inv
    | iord reg next ih =>
        rintro s a s' ⟨x, s₁, r, rest⟩ inv
        exact ih x rest (read r inv)
    | iowr reg data next ih =>
        rintro s a s' ⟨s₁, w, rest⟩ inv
        exact ih rest (write w inv)
    | poll reg stop next ih =>
        rintro s a s' ⟨x, s₁, p, rest⟩ inv
        exact ih x rest (polls p inv)
  exact exec runs start

/-- A poll that meets its test at the first read. -/
theorem polls_ofFunctions {read : Nat → σ → BitVec 32 × σ} {write : Nat → BitVec 32 → σ → σ}
    {reg : Nat} {stop : BitVec 32 → Bool} {x : BitVec 32}
    (test : stop (read reg s).1 = true) :
    Polls (Device.ofFunctions read write) reg stop s x s' ↔ (x, s') = read reg s := by
  constructor
  · rintro (⟨first, -⟩ | ⟨first, failed, -⟩)
    · exact first.symm
    · rw [Device.ofFunctions] at first
      rw [first] at test
      rw [test] at failed
      cases failed
  · intro h
    exact .met h.symm (by rw [← h] at test; exact test)

end

/-! ## What holds on every device -/

/-- Every result with which `p` can end, whatever the device answers, satisfies `Q`. -/
def Prog.Ensures (Q : α → Prop) : Prog α → Prop
  | .ret a => Q a
  | .iord _ next => ∀ x, (next x).Ensures Q
  | .iowr _ _ next => next.Ensures Q
  | .poll _ stop next => ∀ x, stop x = true → (next x).Ensures Q

/-- A run ends with what its program ensures. -/
theorem Prog.Ensures.exec {dev : Device σ} {Q : α → Prop} {p : Prog α} (ensures : p.Ensures Q)
    {s s' : σ} {a : α} (ran : Exec dev p s a s') : Q a := by
  induction p generalizing s with
  | ret b =>
      obtain ⟨rfl, -⟩ := ran
      exact ensures
  | iord reg next ih =>
      obtain ⟨x, _, -, rest⟩ := ran
      exact ih x (ensures x) rest
  | iowr reg data next ih =>
      obtain ⟨_, -, rest⟩ := ran
      exact ih ensures rest
  | poll reg stop next ih =>
      obtain ⟨x, _, polls, rest⟩ := ran
      exact ih x (ensures x polls.test_met) rest

theorem Prog.Ensures.mono {Q Q' : α → Prop} {p : Prog α} (ensures : p.Ensures Q)
    (weaker : ∀ a, Q a → Q' a) : p.Ensures Q' := by
  induction p with
  | ret a => exact weaker a ensures
  | iord reg next ih => exact fun x => ih x (ensures x)
  | iowr reg data next ih => exact ih ensures
  | poll reg stop next ih => exact fun x test => ih x (ensures x test)

theorem Prog.ensures_bind {Q : β → Prop} {p : Prog α} {f : α → Prog β} :
    (p.bind f).Ensures Q ↔ p.Ensures fun a => (f a).Ensures Q := by
  induction p with
  | ret a => exact Iff.rfl
  | iord reg next ih => exact forall_congr' ih
  | iowr reg data next ih => exact ih
  | poll reg stop next ih => exact forall₂_congr fun x _ => ih x

/-- Every end of `m`, started with the static variables `v`, satisfies `Q`. -/
def Driver.Ensures (m : Driver ν α) (v : ν) (Q : α → ν → Prop) : Prop :=
  (m v).Ensures fun p => Q p.1 p.2

namespace Driver

variable {m : Driver ν α} {v : ν}

theorem Ensures.runs {Q : α → ν → Prop} (ensures : m.Ensures v Q) {dev : Device σ} {s s' : σ}
    {a : α} {v' : ν} (ran : Runs dev m v s a v' s') : Q a v' :=
  Prog.Ensures.exec ensures ran

theorem Ensures.mono {Q Q' : α → ν → Prop} (ensures : m.Ensures v Q)
    (weaker : ∀ a v', Q a v' → Q' a v') : m.Ensures v Q' :=
  Prog.Ensures.mono ensures fun p => weaker p.1 p.2

theorem ensures_bind {f : α → Driver ν β} {Q : β → ν → Prop} :
    (m >>= f).Ensures v Q ↔ m.Ensures v fun a v' => (f a).Ensures v' Q := Prog.ensures_bind

/-- `m` does not change what `f` reads from the static variables. -/
structure Keeps (f : ν → β) (m : Driver ν α) : Prop where
  ensures : ∀ v, m.Ensures v fun _ v' => f v' = f v

variable {γ : Type} {f : ν → γ}

theorem Keeps.runs (keeps : Keeps f m) {dev : Device σ} {s s' : σ} {a : α} {v' : ν}
    (ran : Runs dev m v s a v' s') : f v' = f v :=
  (keeps.ensures v).runs ran

theorem Keeps.pure (a : α) : Keeps f (pure a : Driver ν α) := ⟨fun _ => rfl⟩

theorem Keeps.bind {g : α → Driver ν β} (first : Keeps f m) (rest : ∀ a, Keeps f (g a)) :
    Keeps f (m >>= g) := by
  constructor
  intro v
  rw [ensures_bind]
  refine (first.ensures v).mono fun a v' same => ?_
  exact ((rest a).ensures v').mono fun _ _ => (·.trans same)

theorem Keeps.iowr (reg : Nat) (data : BitVec 32) : Keeps f (Driver.iowr reg data) :=
  ⟨fun _ => rfl⟩

theorem Keeps.poll (reg : Nat) (stop : BitVec 32 → Bool) : Keeps f (Driver.poll reg stop) :=
  ⟨fun _ _ _ => rfl⟩

theorem Keeps.vars : Keeps f Driver.vars := ⟨fun _ => rfl⟩

theorem Keeps.assign {g : ν → ν} (same : ∀ v, f (g v) = f v) : Keeps f (Driver.assign g) := ⟨same⟩

theorem Keeps.ite {c : Prop} [Decidable c] {m n : Driver ν α} (yes : Keeps f m) (no : Keeps f n) :
    Keeps f (if c then m else n) := by
  split
  · exact yes
  · exact no

end Driver

/-! ## Triples -/

/-- Every run of `m` from a state in which `P` holds ends in one in which `Q` holds. -/
structure Triple (dev : Device σ) (P : σ → Prop) (m : Driver ν α) (Q : σ → Prop) : Prop where
  runs : ∀ {v s a v' s'}, Runs dev m v s a v' s' → P s → Q s'

namespace Triple

variable {dev : Device σ} {P Q R : σ → Prop} {m : Driver ν α}

theorem pure (a : α) : Triple dev P (pure a : Driver ν α) P := by
  constructor
  intro v s b v' s' ran holds
  obtain ⟨-, -, rfl⟩ := runs_pure.mp ran
  exact holds

theorem bind {f : α → Driver ν β} (first : Triple dev P m Q) (rest : ∀ a, Triple dev Q (f a) R) :
    Triple dev P (m >>= f) R := by
  constructor
  intro v s b v' s' ran holds
  obtain ⟨a, v₁, s₁, before, after⟩ := runs_bind.mp ran
  exact (rest a).runs after (first.runs before holds)

theorem ite {c : Prop} [Decidable c] {m n : Driver ν α} (yes : Triple dev P m Q) (no : Triple dev P n Q) :
    Triple dev P (if c then m else n) Q := by
  split
  · exact yes
  · exact no

theorem weaken {P' Q' : σ → Prop} (triple : Triple dev P m Q) (pre : ∀ s, P' s → P s)
    (post : ∀ s, Q s → Q' s) : Triple dev P' m Q' := by
  constructor
  intro v s a v' s' ran holds
  exact post s' (triple.runs ran (pre s holds))

theorem vars : Triple dev P (Driver.vars : Driver ν ν) P := by
  constructor
  intro v s a v' s' ran holds
  obtain ⟨-, -, rfl⟩ := runs_vars.mp ran
  exact holds

theorem assign (f : ν → ν) : Triple dev P (Driver.assign f) P := by
  constructor
  intro v s a v' s' ran holds
  obtain ⟨-, rfl⟩ := runs_assign.mp ran
  exact holds

theorem iord {reg : Nat} (reads : ∀ {s x s'}, dev.read reg s x s' → P s → Q s') :
    Triple dev P (Driver.iord reg : Driver ν _) Q := by
  constructor
  intro v s a v' s' ran holds
  exact reads (runs_iord.mp ran).2 holds

theorem iowr {reg : Nat} {data : BitVec 32} (writes : ∀ {s s'}, dev.write reg data s s' → P s → Q s') :
    Triple dev P (Driver.iowr reg data : Driver ν _) Q := by
  constructor
  intro v s a v' s' ran holds
  exact writes (runs_iowr.mp ran).2 holds

/-- `P` is the invariant of the loop, and `Q` follows from the read that ends it. -/
theorem poll {reg : Nat} {stop : BitVec 32 → Bool} (again : ∀ {s x s'}, dev.read reg s x s' → P s → P s')
    (last : ∀ {s x s'}, dev.read reg s x s' → stop x = true → P s → Q s') :
    Triple dev P (Driver.poll reg stop : Driver ν _) Q := by
  constructor
  intro v s a v' s' ran holds
  obtain ⟨-, polls⟩ := runs_poll.mp ran
  clear ran
  induction polls with
  | met read test => exact last read test holds
  | again read test rest ih => exact ih (again read holds)

end Triple

/-! ## Evaluation -/

section
variable (read : Nat → σ → BitVec 32 × σ) (write : Nat → BitVec 32 → σ → σ)

/-- The result of a program over a device of functions, if every poll in it meets its test at
the first read. -/
def Prog.eval : Prog α → σ → Option (α × σ)
  | .ret a, s => some (a, s)
  | .iord reg next, s => (next (read reg s).1).eval (read reg s).2
  | .iowr reg data next, s => next.eval (write reg data s)
  | .poll reg stop next, s =>
      if stop (read reg s).1 then (next (read reg s).1).eval (read reg s).2 else none

theorem exec_of_eval {p : Prog α} {s s' : σ} {a : α} (h : p.eval read write s = some (a, s')) :
    Exec (Device.ofFunctions read write) p s a s' := by
  induction p generalizing s with
  | ret b =>
      simp only [Prog.eval, Option.some.injEq, Prod.mk.injEq] at h
      exact ⟨h.1.symm, h.2.symm⟩
  | iord reg next ih => exact ⟨_, _, rfl, ih _ h⟩
  | iowr reg data next ih => exact ⟨_, rfl, ih h⟩
  | poll reg stop next ih =>
      simp only [Prog.eval] at h
      split at h
      · next test => exact ⟨_, _, .met rfl test, ih _ h⟩
      · cases h

/-- A run with what can be computed of its end. -/
theorem exists_runs_of_eval {m : Driver ν α} {v : ν} {s : σ} {f : α → β} {b : β}
    (h : ((m v).eval read write s).map (fun r => f r.1.1) = some b) :
    ∃ a v' s', Runs (Device.ofFunctions read write) m v s a v' s' ∧ f a = b := by
  obtain ⟨⟨⟨a, v'⟩, s'⟩, eval, same⟩ := Option.map_eq_some_iff.mp h
  exact ⟨a, v', s', exec_of_eval read write eval, same⟩

end

/-! ## Simulation -/

section
variable {τ : Type}

/-- The result of a program over a model that does not know what every access does, if it knows what
those of the program do and every poll meets its test at the first read. -/
def Prog.attempt (read : Nat → σ → Option (BitVec 32 × σ)) (write : Nat → BitVec 32 → σ → Option σ) :
    Prog α → σ → Option (α × σ)
  | .ret a, s => some (a, s)
  | .iord reg next, s => (read reg s).bind fun r => (next r.1).attempt read write r.2
  | .iowr reg data next, s => (write reg data s).bind fun s => next.attempt read write s
  | .poll reg stop next, s =>
      (read reg s).bind fun r => if stop r.1 then (next r.1).attempt read write r.2 else none

/-- Whatever the model does at an access the device can do. -/
structure Simulates (dev : Device τ) (read : Nat → σ → Option (BitVec 32 × σ))
    (write : Nat → BitVec 32 → σ → Option σ) (R : σ → τ → Prop) : Prop where
  read : ∀ {reg s x s' t}, read reg s = some (x, s') → R s t → ∃ t', dev.read reg t x t' ∧ R s' t'
  write : ∀ {reg data s s' t}, write reg data s = some s' → R s t → ∃ t', dev.write reg data t t' ∧ R s' t'

/-- What a program does over the model is a run of it over the device. -/
theorem Simulates.exec {dev : Device τ} {read : Nat → σ → Option (BitVec 32 × σ)}
    {write : Nat → BitVec 32 → σ → Option σ} {R : σ → τ → Prop} (simulates : Simulates dev read write R)
    {p : Prog α} {s s' : σ} {t : τ} {a : α} (attempt : p.attempt read write s = some (a, s'))
    (related : R s t) : ∃ t', Exec dev p t a t' ∧ R s' t' := by
  induction p generalizing s t with
  | ret b =>
      simp only [Prog.attempt, Option.some.injEq, Prod.mk.injEq] at attempt
      obtain ⟨rfl, rfl⟩ := attempt
      exact ⟨t, ⟨rfl, rfl⟩, related⟩
  | iord reg next ih =>
      obtain ⟨⟨x, s₁⟩, access, rest⟩ := Option.bind_eq_some_iff.mp attempt
      obtain ⟨t₁, read, related⟩ := simulates.read access related
      obtain ⟨t', exec, related⟩ := ih x rest related
      exact ⟨t', ⟨x, t₁, read, exec⟩, related⟩
  | iowr reg data next ih =>
      obtain ⟨s₁, access, rest⟩ := Option.bind_eq_some_iff.mp attempt
      obtain ⟨t₁, write, related⟩ := simulates.write access related
      obtain ⟨t', exec, related⟩ := ih rest related
      exact ⟨t', ⟨t₁, write, exec⟩, related⟩
  | poll reg stop next ih =>
      obtain ⟨⟨x, s₁⟩, access, rest⟩ := Option.bind_eq_some_iff.mp attempt
      obtain ⟨t₁, read, related⟩ := simulates.read access related
      dsimp only at rest
      split at rest
      · next test =>
          obtain ⟨t', exec, related⟩ := ih x rest related
          exact ⟨t', ⟨x, t₁, .met read test, exec⟩, related⟩
      · cases rest

/-- `dev'` is `dev` with more in its state, which `f` forgets. -/
structure Forgets (dev' : Device τ) (dev : Device σ) (f : τ → σ) : Prop where
  read : ∀ {reg t x t'}, dev'.read reg t x t' → dev.read reg (f t) x (f t')
  write : ∀ {reg data t t'}, dev'.write reg data t t' → dev.write reg data (f t) (f t')
  readBack : ∀ {reg t x s'}, dev.read reg (f t) x s' → ∃ t', f t' = s' ∧ dev'.read reg t x t'
  writeBack : ∀ {reg data t s'}, dev.write reg data (f t) s' → ∃ t', f t' = s' ∧ dev'.write reg data t t'

section
variable {dev' : Device τ} {dev : Device σ} {f : τ → σ}

theorem Forgets.polls_iff (forgets : Forgets dev' dev f) {reg : Nat} {stop : BitVec 32 → Bool} {t : τ}
    {x : BitVec 32} {s' : σ} :
    Polls dev reg stop (f t) x s' ↔ ∃ t', f t' = s' ∧ Polls dev' reg stop t x t' := by
  constructor
  · intro polls
    generalize start : f t = s at polls
    induction polls generalizing t with
    | met read test =>
        subst start
        obtain ⟨t', same, read⟩ := forgets.readBack read
        exact ⟨t', same, .met read test⟩
    | again read test _ ih =>
        subst start
        obtain ⟨t₁, same, read⟩ := forgets.readBack read
        obtain ⟨t', last, rest⟩ := ih same
        exact ⟨t', last, .again read test rest⟩
  · rintro ⟨t', rfl, polls⟩
    induction polls with
    | met read test => exact .met (forgets.read read) test
    | again read test _ ih => exact .again (forgets.read read) test ih

/-- Both devices have the same runs. -/
theorem Forgets.exec_iff (forgets : Forgets dev' dev f) {p : Prog α} {t : τ} {a : α} {s' : σ} :
    Exec dev p (f t) a s' ↔ ∃ t', f t' = s' ∧ Exec dev' p t a t' := by
  induction p generalizing t with
  | ret b =>
      constructor
      · rintro ⟨rfl, rfl⟩
        exact ⟨t, rfl, rfl, rfl⟩
      · rintro ⟨t', rfl, rfl, rfl⟩
        exact ⟨rfl, rfl⟩
  | iord reg next ih =>
      constructor
      · rintro ⟨x, _, read, rest⟩
        obtain ⟨t₁, rfl, read'⟩ := forgets.readBack read
        obtain ⟨t', same, rest'⟩ := (ih x).mp rest
        exact ⟨t', same, x, t₁, read', rest'⟩
      · rintro ⟨t', same, x, t₁, read, rest⟩
        exact ⟨x, f t₁, forgets.read read, (ih x).mpr ⟨t', same, rest⟩⟩
  | iowr reg data next ih =>
      constructor
      · rintro ⟨_, write, rest⟩
        obtain ⟨t₁, rfl, write'⟩ := forgets.writeBack write
        obtain ⟨t', same, rest'⟩ := ih.mp rest
        exact ⟨t', same, t₁, write', rest'⟩
      · rintro ⟨t', same, t₁, write, rest⟩
        exact ⟨f t₁, forgets.write write, ih.mpr ⟨t', same, rest⟩⟩
  | poll reg stop next ih =>
      constructor
      · rintro ⟨x, _, polls, rest⟩
        obtain ⟨t₁, rfl, polls'⟩ := forgets.polls_iff.mp polls
        obtain ⟨t', same, rest'⟩ := (ih x).mp rest
        exact ⟨t', same, x, t₁, polls', rest'⟩
      · rintro ⟨t', same, x, t₁, polls, rest⟩
        exact ⟨x, f t₁, forgets.polls_iff.mpr ⟨t₁, rfl, polls⟩, (ih x).mpr ⟨t', same, rest⟩⟩

end

end

end Cineraria.RegisterIo
