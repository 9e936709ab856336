import Cineraria.Lib.Run
import Cineraria.Player.Interleaving

/-!
# FatFs and the interrupt

FatFs must not be entered again while a call is under way. `play_stop` masks the interrupt before
it closes the file, and the direct call of the handler masks it too. But `play_wav` opens the new
file and reads its header before it stops the old one, and the directory functions do not mask the
interrupt at all: while a file is being played the handler can come in there.
-/

namespace Cineraria.Wav

open Run

/-- The handler is not in FatFs while the main program is. -/
def Exclusive (s : Machine) : Prop :=
  ∀ pc, s.isr = some pc → pc.inFatFs = true → s.main.inFatFs = false

/-- The condition on an event: a call other than `play_stop` begins while no file is being
played. -/
def CallsAtRest (e : Event) (s : Machine) : Prop :=
  match e with
  | .call c => s.isr = none ∧ s.main = .idle → c ≠ .playStop → s.player.gWavsize = 0
  | _ => True

instance : ∀ e s, Decidable (CallsAtRest e s)
  | .call c, s => inferInstanceAs (Decidable (s.isr = none ∧ s.main = .idle → c ≠ .playStop →
      s.player.gWavsize = 0))
  | .main _, _ | .interrupt _, _ | .isr _, _ | .drain, _ => inferInstanceAs (Decidable True)

/-- The main program is in a FatFs function that is called with the interrupt unmasked. -/
def MainPc.exposed : MainPc → Bool
  | .opening | .readingHeader _ | .rejecting | .openingDir | .readingDir => true
  | _ => false

/-- What holds while the calls begin at rest. -/
structure Guarded (s : Machine) : Prop where
  inv : s.Inv
  alone : s.main.exposed = true → s.isr = none
  idle : s.main.exposed = true → s.player.gWavsize = 0

section
variable {s : Machine}

theorem unmasked_of_exposed {main : MainPc} (exposed : main.exposed = true) : main.unmasked = true := by
  cases main <;> first | rfl | exact absurd exposed (by simp [MainPc.exposed])

/-- In every other FatFs function the interrupt is masked. -/
theorem exposed_or_masked {main : MainPc} (inFatFs : main.inFatFs = true) :
    main.exposed = true ∨ main.unmasked = false := by
  cases main <;> first
    | exact .inl rfl
    | exact .inr rfl
    | exact absurd inFatFs (by simp [MainPc.inFatFs])

/-- The exposed functions are entered from exposed ones, and change no variable. -/
theorem exposed_step {r : Reply} {main : MainPc} {p : Player} (exposed : (mainStep r main p).1.exposed = true) :
    main.exposed = true ∧ (mainStep r main p).2.gWavsize = p.gWavsize := by
  cases main with
  | opening =>
      refine ⟨rfl, ?_⟩
      rw [mainStep]
      split <;> rfl
  | readingHeader fwav =>
      refine ⟨rfl, ?_⟩
      rw [mainStep]
      split <;> rfl
  | rejecting | openingDir | readingDir => exact ⟨rfl, rfl⟩
  | idle | stopClosing _ | starting _ => simp [mainStep, MainPc.exposed] at exposed
  | accepted file =>
      rw [mainStep] at exposed
      split at exposed <;> simp [MainPc.exposed] at exposed
  | stopping next =>
      rw [mainStep] at exposed
      dsimp only at exposed
      split at exposed <;> simp [MainPc.exposed] at exposed
  | waiting next =>
      simp only [mainStep] at exposed
      split at exposed
      · simp [MainPc.exposed] at exposed
      · split at exposed <;> simp [MainPc.exposed] at exposed
  | handler pc =>
      simp only [mainStep] at exposed
      split at exposed <;> simp [MainPc.exposed] at exposed

theorem Guarded.exclusive (h : Guarded s) : Exclusive s := by
  intro pc active _
  by_contra inFatFs
  rw [Bool.not_eq_false] at inFatFs
  have alone : s.isr = none := by
    rcases exposed_or_masked inFatFs with exposed | masked
    · exact h.alone exposed
    · exact h.inv.alone masked
  exact absurd (alone.symm.trans active) (by simp)

theorem Guarded.step (h : Guarded s) {e : Event} (ok : CallsAtRest e s) : Guarded (s.step e) := by
  have inv := h.inv.step e
  cases e with
  | call c =>
      by_cases free : s.isr = none ∧ s.main = .idle
      · have rest := ok free
        simp only [Machine.step, if_pos free] at inv ⊢
        refine ⟨inv, fun _ => free.1, ?_⟩
        intro exposed
        apply rest
        intro stop
        simp [stop, Call.entry, MainPc.exposed] at exposed
      · simpa only [Machine.step, if_neg free] using h
  | main r =>
      by_cases alone : s.isr = none
      · simp only [Machine.step, if_pos alone] at inv ⊢
        refine ⟨inv, fun _ => alone, ?_⟩
        intro exposed
        obtain ⟨before, same⟩ := exposed_step exposed
        exact same.trans (h.idle before)
      · simpa only [Machine.step, if_neg alone] using h
  | interrupt lag =>
      by_cases taken : s.isr = none ∧ s.player.pcm.insIrq (s.player.pcm.fifo.length + lag) = true
      · simp only [Machine.step, if_pos taken] at inv ⊢
        have armed := insIrq_armed taken.2
        refine ⟨inv, ?_, h.idle⟩
        intro exposed
        have rest := h.inv.atRest taken.1 (unmasked_of_exposed exposed)
        exact absurd (h.idle exposed) (rest.armed armed).size
      · simpa only [Machine.step, if_neg taken] using h
  | isr fault =>
      cases active : s.isr with
      | none => simpa only [Machine.step, active] using h
      | some pc =>
          have hidden : s.main.exposed = false := by
            by_contra exposed
            have alone := h.alone (by simpa using exposed)
            exact absurd (alone.symm.trans active) (by simp)
          simp only [Machine.step, active] at inv ⊢
          exact ⟨inv, fun exposed => absurd (exposed.symm.trans hidden) (by decide),
            fun exposed => absurd (exposed.symm.trans hidden) (by decide)⟩
  | drain => exact ⟨inv, h.alone, h.idle⟩

end

theorem guarded_start : Guarded Machine.start where
  inv := inv_start
  alone _ := rfl
  idle _ := rfl

/-- In every run whose calls, other than `play_stop`, begin while no file is being played, the handler
is never in FatFs while the main program is. -/
theorem fatFs_exclusive {es : List Event} (ok : EveryStep Machine.step CallsAtRest Machine.start es) :
    EveryState Machine.step Exclusive Machine.start es :=
  everyState_of_everyStep (fun _ _ h ok => h.step ok) (fun _ h => h.exclusive) guarded_start ok

/-- The steps of the main program, with the file `wavsize` bytes long that `f_open` finds. -/
def mainSteps (wavsize : Nat) (n : Nat) : List Event :=
  List.replicate n (.finds (wavHeader (BitVec.ofNat 32 wavsize) ++ List.replicate wavsize 0))

/-- A file is played whose second block has one word; the interrupt plays it, and then the directory
is read. -/
theorem fatFs_exclusive_play :
    EveryState Machine.step Exclusive Machine.start
      (.call .playWav :: mainSteps 1028 264 ++
        .interrupt 0 :: List.replicate 5 (.isr none) ++ [.call .getWavfilename]) :=
  fatFs_exclusive (by decide +kernel)

/-- Where the main program and the handler stand. -/
def Machine.position (s : Machine) : MainPc × Option HandlerPc := (s.main, s.isr)

/-- A file is being played, and `play_wav` is in `f_open` for the next: the interrupt takes the
processor away, and its handler is in `f_read`. -/
theorem isr_enters_fatFs :
    let s := exec Machine.step Machine.start
      (.call .playWav :: mainSteps 1028 264 ++ [.call .playWav, .interrupt 0, .isr none])
    s.main = .opening ∧ s.isr = some (.reading 1 true) ∧ ¬ Exclusive s := by
  have both : (exec Machine.step Machine.start
      (.call .playWav :: mainSteps 1028 264 ++ [.call .playWav, .interrupt 0, .isr none])).position =
        (.opening, some (.reading 1 true)) := by decide +kernel
  obtain ⟨opening, reading⟩ := Prod.mk.inj both
  refine ⟨opening, reading, ?_⟩
  intro exclusive
  have outside := exclusive _ reading rfl
  rw [opening] at outside
  exact absurd outside (by decide)

end Cineraria.Wav
