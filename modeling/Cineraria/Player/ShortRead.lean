import Cineraria.Player.Playback
import Cineraria.Lib.Run

/-!
# Short reads of the player

`f_read` stores fewer bytes than asked for, with `FR_OK`, when the file is shorter than its
header says. The handler compares the number of bytes read with the number of words it
wanted, so it notices only reads of less than a quarter.
-/

namespace Cineraria.Wav

open Bytes Run

/-- The data bytes not read yet: what is left of the file, up to the length in its header. -/
def unreadData (p : Player) : List (BitVec 8) :=
  p.gFsobj.unread.take (p.gWavsize - p.gPlaysize).toNat

/-- An activation writes only words it has read, the next ones of the file, and after a
short read it closes the file, clears `g_wavsize` and leaves the interrupt masked. -/
structure ActivationOk (fault : Option Nat) (p : Player) : Prop where
  fresh : ∃ m, 4 * m ≤ (fRead fault p.gFsobj (4 * wordsWanted p)).bytes.length ∧
    fifoWords (isrHandlePcmfifofill fault p).trace =
      fifoWords p.trace ++ words (unreadData p) m
  shortRead : (fRead fault p.gFsobj (4 * wordsWanted p)).bytes.length < 4 * wordsWanted p →
    closes (isrHandlePcmfifofill fault p).trace = closes p.trace + 1 ∧
    (isrHandlePcmfifofill fault p).gWavsize = 0 ∧
    (isrHandlePcmfifofill fault p).pcm.irqenaReg = false

/-- If the disk does not fail, the file has either all the bytes of the words wanted, or
fewer bytes than words are wanted. -/
def Complete (fault : Option Nat) (p : Player) : Prop :=
  fault = none →
    p.gFsobj.unread.length < wordsWanted p ∨ 4 * wordsWanted p ≤ p.gFsobj.unread.length

instance (fault : Option Nat) (p : Player) : Decidable (Complete fault p) :=
  inferInstanceAs (Decidable (_ → _))

/-- A run of activations: the call by `play_wav`, then interrupts. -/
def Activations (P : Option Nat → Player → Prop) (p : Player) (first : Option Nat)
    (faults : List (Option Nat)) : Prop :=
  P first p ∧
    EveryStep interrupt (fun fault s => s.pcm.irqenaReg = true → P fault s)
      (isrHandlePcmfifofill first p) faults

instance (P : Option Nat → Player → Prop) [∀ fault p, Decidable (P fault p)] (p : Player)
    (first : Option Nat) (faults : List (Option Nat)) : Decidable (Activations P p first faults) :=
  inferInstanceAs (Decidable (_ ∧ _))

theorem activations_congr {P Q : Option Nat → Player → Prop} (same : ∀ fault p, P fault p ↔ Q fault p)
    (p : Player) (first : Option Nat) (faults : List (Option Nat)) :
    Activations P p first faults ↔ Activations Q p first faults := by
  rw [show P = Q from funext fun fault => funext fun p => propext (same fault p)]

/-! ## One activation -/

/-- The words wanted lie within the length in the header. -/
theorem wordsWanted_le (p : Player) : 4 * wordsWanted p ≤ (p.gWavsize - p.gPlaysize).toNat := by
  have left : wordsLeft p = (p.gWavsize - p.gPlaysize).toNat / 4 := by
    rw [wordsLeft, BitVec.toNat_ushiftRight, Nat.shiftRight_eq_div_pow]
  simp only [wordsWanted, left]
  split <;> omega

theorem words_unreadData {p : Player} {m : Nat} (within : m ≤ wordsWanted p) :
    words (unreadData p) m = words p.gFsobj.unread m :=
  words_take _ (Nat.le_trans (Nat.mul_le_mul_left 4 within) (wordsWanted_le p))

/-- A read that the handler takes for complete came without a fault. -/
theorem fault_eq_none {fault : Option Nat} {p : Player} (passed : ¬ReadError fault p) :
    fault = none := by
  cases fault with
  | none => rfl
  | some k => exact absurd (.inl rfl) passed

/-- On the error path nothing is written. -/
theorem activationOk_of_readError {fault : Option Nat} {p : Player} (failed : ReadError fault p) :
    ActivationOk fault p := by
  obtain ⟨wavsize, irqena, trace⟩ := isr_readError failed
  refine ⟨⟨0, Nat.zero_le _, ?_⟩, fun _ => ⟨?_, wavsize, irqena⟩⟩
  · rw [trace, fifoWords_append]
    rfl
  · rw [trace, closes_append]
    rfl

/-- An activation is right exactly if the file holds all the bytes asked for, or so few that
the handler notices. -/
theorem activationOk_iff_complete (fault : Option Nat) (p : Player) :
    ActivationOk fault p ↔ Complete fault p := by
  constructor
  · intro right unfailing
    subst unfailing
    by_cases failed : ReadError none p
    · left
      rcases failed with notOk | short
      · cases notOk
      · rw [length_bytes_none] at short
        omega
    · right
      -- As many words are written as were wanted, so all of them must have been read.
      obtain ⟨m, read, written⟩ := right.fresh
      rw [fifoWords_of_readOk failed] at written
      have count := congrArg List.length (List.append_cancel_left written)
      simp only [pushed, List.length_map, List.length_range, length_words] at count
      rw [length_bytes_none] at read
      omega
  · intro complete
    by_cases failed : ReadError fault p
    · exact activationOk_of_readError failed
    · have unfailing := fault_eq_none failed
      have enough : 4 * wordsWanted p ≤ (fRead fault p.gFsobj (4 * wordsWanted p)).bytes.length := by
        subst unfailing
        have noticed : ¬(fRead none p.gFsobj (4 * wordsWanted p)).bytes.length < wordsWanted p :=
          fun short => failed (.inr short)
        have := complete rfl
        rw [length_bytes_none] at noticed ⊢
        omega
      refine ⟨⟨wordsWanted p, enough, ?_⟩, fun short => absurd enough (by omega)⟩
      rw [fifoWords_of_readOk failed, pushed_eq enough, words_unreadData (Nat.le_refl _)]

/-! ## Runs -/

/-- A file is played right if it holds all the words of its header's length, or if it breaks
off so early in a block that the handler notices. -/
def FileOk (content : List (BitVec 8)) (wavsize : BitVec 32) : Prop :=
  4 * (wavsize.toNat / 4) ≤ content.length - 44 ∨
    (content.length - 44) % 1024 <
      min 256 (wavsize.toNat / 4 - 256 * ((content.length - 44) / 1024))

instance (content : List (BitVec 8)) (wavsize : BitVec 32) : Decidable (FileOk content wavsize) :=
  inferInstanceAs (Decidable (_ ∨ _))

section
variable {content : List (BitVec 8)} {wavsize : BitVec 32} {j : Nat} {s : Player}

theorem Playing.complete_of_fileOk (h : Playing content wavsize j s)
    (within : 1024 * j + 44 ≤ content.length) (file : FileOk content wavsize)
    (fault : Option Nat) : Complete fault s := by
  intro _
  rw [h.length_unread, h.wanted]
  simp only [FileOk] at file
  omega

/-- In the block where the file breaks off. -/
theorem Playing.not_complete (h : Playing content wavsize ((content.length - 44) / 1024) s)
    (within : 44 ≤ content.length) (file : ¬FileOk content wavsize) : ¬Complete none s := by
  intro complete
  have noticed := complete rfl
  rw [h.length_unread, h.wanted] at noticed
  simp only [FileOk] at file
  omega

/-- An activation that leaves the interrupt enabled has played a full block. -/
theorem Playing.kept (h : Playing content wavsize j s) {fault : Option Nat}
    (complete : Complete fault s)
    (irqena : (isrHandlePcmfifofill fault s).pcm.irqenaReg = true) :
    Playing content wavsize (j + 1) (isrHandlePcmfifofill fault s) ∧
    1024 * (j + 1) + 44 ≤ content.length := by
  by_cases failed : ReadError fault s
  · rw [(isr_readError failed).2.1] at irqena
    cases irqena
  · obtain ⟨-, -, -, enabled, -⟩ := isr_readOk failed
    rw [enabled, decide_eq_true_eq, h.left] at irqena
    have unfailing := fault_eq_none failed
    subst unfailing
    have noticed : ¬(fRead none s.gFsobj (4 * wordsWanted s)).bytes.length < wordsWanted s :=
      fun short => failed (.inr short)
    have full : 1024 * (j + 1) + 44 ≤ content.length := by
      have := complete rfl
      rw [length_bytes_none] at noticed
      rw [h.length_unread, h.wanted] at this noticed
      omega
    exact ⟨(h.next (by omega) full).1, full⟩

/-- The blocks before the one where the file breaks off are played. -/
theorem run_playing_block (start : Playing content wavsize 0 s) {k : Nat}
    (more : 256 * (k + 1) < wavsize.toNat / 4) (full : 1024 * (k + 1) + 44 ≤ content.length) :
    Playing content wavsize (k + 1) ((interrupt none)^[k] (isrHandlePcmfifofill none s)) ∧
    ((interrupt none)^[k] (isrHandlePcmfifofill none s)).pcm.irqenaReg = true := by
  induction k with
  | zero => exact start.next more full
  | succ k ih =>
      obtain ⟨playing, irqena⟩ := ih (by omega) (by omega)
      rw [Function.iterate_succ_apply', interrupt, if_pos irqena]
      exact playing.next more full

end

/-- Of the runs of activations that `play_wav` starts on an accepted file, all are right
exactly if the file is; one run is right exactly if all its reads are complete or noticed. -/
theorem activations_ok_iff {content : List (BitVec 8)} {headerFault : Option Nat}
    {p q : Player} {wavsize : BitVec 32}
    (started : startWav (some content) headerFault p = (some wavsize, q)) :
    ((∀ first faults, Activations ActivationOk q first faults) ↔ FileOk content wavsize) ∧
    ∀ first faults,
      Activations ActivationOk q first faults ↔ Activations Complete q first faults := by
  obtain ⟨within, start⟩ := startWav_accepted started
  refine ⟨⟨fun right => ?_, fun file first faults => ?_⟩,
    activations_congr activationOk_iff_complete q⟩
  · by_contra file
    have broken : ∀ {s}, Playing content wavsize ((content.length - 44) / 1024) s →
        ¬ActivationOk none s := fun playing ok =>
      playing.not_complete within file ((activationOk_iff_complete none _).mp ok)
    have block : 256 * ((content.length - 44) / 1024) < wavsize.toNat / 4 := by
      simp only [FileOk] at file
      omega
    obtain ⟨first, later⟩ := right none (List.replicate ((content.length - 44) / 1024) none)
    cases reached : (content.length - 44) / 1024 with
    | zero => exact broken (reached ▸ start) first
    | succ k =>
        obtain ⟨playing, irqena⟩ := run_playing_block start (by omega)
          (show 1024 * (k + 1) + 44 ≤ content.length by omega)
        exact broken (reached ▸ playing) (everyStep_replicate later (by omega) irqena)
  · rw [activations_congr activationOk_iff_complete]
    have here := start.complete_of_fileOk (by omega) file
    refine ⟨here first, everyStep_of_invariant
      (fun s => s.pcm.irqenaReg = true →
        ∃ j, Playing content wavsize j s ∧ 1024 * j + 44 ≤ content.length) ?_ ?_ ?_ faults⟩
    · intro fault s inv irqena
      rw [interrupt] at irqena ⊢
      split at irqena
      · rename_i enabled
        obtain ⟨j, playing, full⟩ := inv enabled
        rw [if_pos enabled]
        exact ⟨j + 1, playing.kept (playing.complete_of_fileOk full file fault) irqena⟩
      · rename_i masked
        exact absurd irqena masked
    · intro fault s inv irqena
      obtain ⟨j, playing, full⟩ := inv irqena
      exact playing.complete_of_fileOk full file fault
    · intro irqena
      exact ⟨1, start.kept (here first) irqena⟩

/-- A header that promises a block and two words, and `n` bytes after it. -/
def twoBlocks (n : Nat) : List (BitVec 8) := wavHeader 1032 ++ List.replicate n 7

/-- The whole file is right, and one that lacks its last word is not. -/
theorem activations_ok_iff_two_blocks :
    (∀ first faults, Activations ActivationOk (startWav (some (twoBlocks 1032)) none powerOn).2 first faults) ∧
      ¬ ∀ first faults,
        Activations ActivationOk (startWav (some (twoBlocks 1028)) none powerOn).2 first faults := by
  have length : ∀ n, (twoBlocks n).length = 44 + n := by
    intro n
    rw [twoBlocks, List.length_append, List.length_replicate]
    rfl
  have started : ∀ n, startWav (some (twoBlocks n)) none powerOn =
      (some 1032, (startWav (some (twoBlocks n)) none powerOn).2) := by
    intro n
    have accepted : checkHeader ((twoBlocks n).take 44) = some 1032 := by
      rw [twoBlocks, List.take_left' (show (wavHeader 1032).length = 44 from rfl)]
      decide
    rw [startWav_idle (by rw [length]; omega) accepted rfl]
  have whole : FileOk (twoBlocks 1032) 1032 := by
    rw [FileOk, length]
    decide
  have broken : ¬ FileOk (twoBlocks 1028) 1032 := by
    rw [FileOk, length]
    decide
  exact ⟨(activations_ok_iff (started 1032)).1.mpr whole, mt (activations_ok_iff (started 1028)).1.mp broken⟩

/-- A file with one of the two words its header promises: the second word written is what the
buffer held before. -/
theorem stale_word_written :
    (startWav (some (wavHeader 8 ++ [1, 2, 3, 4])) none (playInit powerOn)).1 = some 8 ∧
    fifoWords (playWav (some (wavHeader 8 ++ [1, 2, 3, 4])) none none (playInit powerOn)).2.trace =
      [0x04030201, 0] ∧
    ¬Activations ActivationOk
      (startWav (some (wavHeader 8 ++ [1, 2, 3, 4])) none (playInit powerOn)).2 none [] := by
  refine ⟨by decide, by decide, ?_⟩
  rw [activations_congr activationOk_iff_complete]
  decide

end Cineraria.Wav
