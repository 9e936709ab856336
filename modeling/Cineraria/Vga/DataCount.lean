import Cineraria.Mmc.BitCount
import Cineraria.Vga.Avm

/-!
# The range of `datacount`

`vga_avm` declares `datacount` with the range `0 to BURSTCYCLE` and counts the last word as well, but the count is
below `BURSTCYCLE` until then: it is cleared when a line is requested, and the last word ends the burst. With the
count of the card interface, which is declared one too small, this is all that the two entities have of integer
signals (`simulates_iff`).
-/

namespace Cineraria.Vga

open Clocked RangeCheck Mmc

/-- The process of the bus side. -/
def Avm.process (g : Generics) : Process M1Input Avm where
  reset _ := Avm.reset
  clock := Avm.step g
  signal s := s.datacount
  range := ⟨0, g.burstcycle⟩

/-- What a simulation begins with: a signal has the first value of its type. -/
def Avm.initial (s : Avm) : Avm := { s with avmState := .idle, datacount := 0 }

theorem Avm.inRange_iff (g : Generics) (s : Avm) : (Avm.process g).InRange s ↔ s.datacount ≤ g.burstcycle := by
  simp only [Process.InRange, IntegerRange.Contains, Avm.process]
  omega

/-- The count is in its range, and below its end while words are to come. -/
structure Avm.Counting (g : Generics) (s : Avm) : Prop where
  inRange : s.datacount ≤ g.burstcycle
  unfinished : s.avmState = .readIssue ∨ s.avmState = .dataRead → s.datacount < g.burstcycle

section
variable {g : Generics} {s : Avm}

theorem Avm.counting_of_idle (idle : s.avmState = .idle) (zero : s.datacount = 0) : s.Counting g where
  inRange := by omega
  unfinished := by simp [idle]

/-- One clock, with at least one word in a burst. -/
theorem Avm.Counting.step (counting : s.Counting g) (words : 0 < g.burstcycle) (i : M1Input) :
    (s.step g i).Counting g := by
  obtain ⟨inRange, unfinished⟩ := counting
  cases st : s.avmState <;> rw [st] at unfinished <;> constructor <;> simp only [Avm.step, Avm.sequence, st]
  case idle.inRange => split <;> simp [inRange]
  case idle.unfinished => split <;> simp [words, st]
  case readIssue.inRange => split <;> simpa using inRange
  case readIssue.unfinished =>
    have before := unfinished (.inl rfl)
    split <;> exact fun _ => before
  case dataRead.inRange =>
    have before := unfinished (.inr rfl)
    split
    · exact before
    · exact inRange
  case dataRead.unfinished =>
    have before := unfinished (.inr rfl)
    split
    · -- The last word is the one that ends the burst.
      by_cases last : s.datacount + 1 = g.burstcycle
      · simp [last]
      · simp only [last, if_false]
        omega
    · exact fun _ => before
  case readDone.inRange | writeIssue.inRange | writeDone.inRange => exact inRange
  case readDone.unfinished | writeIssue.unfinished | writeDone.unfinished => simp

end

section
variable (g : Generics) (w : Nat → Event M1Input) (s : Avm)

/-- The registers after `m` events of a simulation. -/
def masterAt (m : Nat) : Avm := run (Avm.process g).react w s.initial m

/-- No word comes in the first `n` events while the master waits for one. -/
def NoWord (n : Nat) : Prop := ∀ m < n, ∀ i, w m = .clock i → (masterAt g w s m).readdatavalidSig i = false

end

section
variable {g : Generics} {w : Nat → Event M1Input} {s : Avm} {m n : Nat}

theorem masterAt_reset (event : w m = .reset) : masterAt g w s (m + 1) = Avm.reset := by
  rw [masterAt, run_succ, event]
  rfl

theorem masterAt_clock {i : M1Input} (event : w m = .clock i) :
    masterAt g w s (m + 1) = (masterAt g w s m).step g i := by
  rw [masterAt, run_succ, event]
  rfl

/-- With at least one word in a burst the count is always in its range. -/
theorem datacount_le (words : 0 < g.burstcycle) : (masterAt g w s m).datacount ≤ g.burstcycle := by
  have inRange : (Avm.process g).InRange (masterAt g w s m) :=
    Process.inRange_of_invariant (Avm.Counting g) (fun _ _ => Avm.counting_of_idle rfl rfl)
      (fun i _ counting => counting.step words i) (fun s counting => (s.inRange_iff g).mpr counting.inRange)
      (Avm.counting_of_idle rfl rfl) m
  exact (Avm.inRange_iff g _).mp inRange

/-- Without a word nothing is counted. -/
theorem datacount_zero (none : NoWord g w s n) (within : m ≤ n) : (masterAt g w s m).datacount = 0 := by
  induction m with
  | zero => rfl
  | succ m ih =>
      cases event : w m with
      | reset => rw [masterAt_reset event, Avm.reset]
      | clock i =>
          rw [masterAt_clock event, step_datacount, none m within i event, ih (by omega)]
          simp

/-- The count stays in its range exactly if a burst has a word, or none comes. -/
theorem datacount_le_iff (g : Generics) (w : Nat → Event M1Input) (s : Avm) (n : Nat) :
    (∀ m ≤ n, (masterAt g w s m).datacount ≤ g.burstcycle) ↔ 0 < g.burstcycle ∨ NoWord g w s n := by
  constructor
  · intro inRange
    rcases Nat.eq_zero_or_pos g.burstcycle with empty | words
    · right
      intro m before i event
      have bound := inRange (m + 1) before
      rw [masterAt_clock event, step_datacount] at bound
      cases word : (masterAt g w s m).readdatavalidSig i with
      | false => rfl
      | true =>
          simp only [Avm.readdatavalidSig, Bool.and_eq_true, beq_iff_eq] at word
          simp [Avm.takes, Avm.readdatavalidSig, word, empty] at bound
    · exact .inl words
  · rintro (words | none) m within
    · exact datacount_le words
    · rw [datacount_zero none within]
      exact Nat.zero_le _

/-- The simulation of `vga_avm` does not fail exactly if a burst has a word, or none comes. -/
theorem avm_simulates_iff (g : Generics) (w : Nat → Event M1Input) (s : Avm) (n : Nat) :
    ((Avm.process g).simulate w s.initial n).isSome = true ↔ 0 < g.burstcycle ∨ NoWord g w s n := by
  have start : (Avm.process g).InRange s.initial := (s.initial.inRange_iff g).mpr (Nat.zero_le _)
  rw [Process.simulate_isSome_iff start, ← datacount_le_iff]
  simp only [Avm.inRange_iff, masterAt]

end

/-! ## Both entities -/

/-- In every run, with resets at any time, the simulation of `avalonif_mmc` fails at the first transfer that lives
to its eighth bit and not before, and that of `vga_avm` never fails if a burst has a word. -/
theorem simulates_iff (g : Generics) (w : Nat → Event SpiInput) (v : Nat → Event M1Input) (s : Spi) (r : Avm)
    (n : Nat) :
    ((Spi.process.simulate w s.initial n).isSome = true ↔
      ∀ t, StartsAt w s t → eighthBit w s t < n → CutShort w s t) ∧
    (((Avm.process g).simulate v r.initial n).isSome = true ↔ 0 < g.burstcycle ∨ NoWord g v r n) :=
  ⟨spi_simulates_iff w s n, avm_simulates_iff g v r n⟩

/-- The reset, the shortest half period, and one byte to send. -/
def firstByte : Nat → Event SpiInput
  | 0 => .reset
  | 1 => .clock ⟨true, 1, true, 0, true, true, true⟩
  | 2 => .clock ⟨true, 0, true, 0x0ff, true, true, true⟩
  | _ => .clock ⟨false, 0, false, 0, true, true, true⟩

/-- The first byte that is sent makes the simulation fail. -/
theorem firstByte_fails :
    (Spi.process.simulate firstByte Mmcdma.powerOn.spi.initial 18).isSome = true ∧
    Spi.process.simulate firstByte Mmcdma.powerOn.spi.initial 19 = none ∧
    ¬ ∀ (w : Nat → Event SpiInput) (s : Spi) (n : Nat), (Spi.process.simulate w s.initial n).isSome = true := by
  refine ⟨by decide, by decide, fun passes => ?_⟩
  exact absurd (passes firstByte Mmcdma.powerOn.spi 19) (by decide)

end Cineraria.Vga
