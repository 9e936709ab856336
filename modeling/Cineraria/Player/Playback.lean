import Cineraria.Player.PlayWav
import Mathlib.Logic.Function.Iterate

/-!
# Playing a whole file

An accepted file plays in blocks of 256 words. `Playing j` is the state before the
activation for block `j`: the numbers in the two size variables and the read pointer all
say that `j` blocks are gone. From it follow the number of words an activation asks for and
the state it leaves.
-/

namespace Cineraria.Wav

open Bytes

/-- `j` full blocks have been read and the file is still being played. -/
structure Playing (content : List (BitVec 8)) (wavsize : BitVec 32) (j : Nat) (s : Player) :
    Prop where
  content : s.gFsobj.content = content
  fptr : s.gFsobj.fptr = 1024 * j + 44
  size : s.gWavsize = wavsize
  played : s.gPlaysize.toNat = 1024 * j
  within : 1024 * j ≤ wavsize.toNat

section
variable {content : List (BitVec 8)} {wavsize : BitVec 32} {j : Nat} {s : Player}

theorem Playing.playsize_le (h : Playing content wavsize j s) : s.gPlaysize ≤ s.gWavsize := by
  rw [BitVec.le_def, h.played, h.size]
  exact h.within

theorem Playing.left (h : Playing content wavsize j s) :
    wordsLeft s = wavsize.toNat / 4 - 256 * j := by
  rw [wordsLeft, BitVec.toNat_ushiftRight, Nat.shiftRight_eq_div_pow,
    BitVec.toNat_sub_of_le h.playsize_le, h.size, h.played]
  omega

theorem Playing.wanted (h : Playing content wavsize j s) :
    wordsWanted s = min 256 (wavsize.toNat / 4 - 256 * j) := by
  rw [wordsWanted, h.left]
  split <;> omega

theorem Playing.unread (h : Playing content wavsize j s) :
    s.gFsobj.unread = content.drop (1024 * j + 44) := by
  rw [Fil.unread, h.content, h.fptr]

theorem Playing.length_unread (h : Playing content wavsize j s) :
    s.gFsobj.unread.length = content.length - (1024 * j + 44) := by
  rw [h.unread, List.length_drop]

/-- A block that is there in full and is not the last one is played and leads to the next. -/
theorem Playing.next (h : Playing content wavsize j s)
    (more : 256 * (j + 1) < wavsize.toNat / 4) (full : 1024 * (j + 1) + 44 ≤ content.length) :
    Playing content wavsize (j + 1) (isrHandlePcmfifofill none s) ∧
    (isrHandlePcmfifofill none s).pcm.irqenaReg = true := by
  have within : 1024 * (j + 1) ≤ wavsize.toNat := by omega
  have wanted : wordsWanted s = 256 := by
    rw [h.wanted]
    omega
  have notLast : ¬wordsLeft s ≤ 256 := by
    rw [h.left]
    omega
  have read : (fRead none s.gFsobj (4 * wordsWanted s)).bytes.length = 1024 := by
    have := h.length_unread
    simp only [fRead, Option.getD_none, Nat.min_self, List.length_take, wanted]
    omega
  have passed : ¬ReadError none s := by
    rintro (notOk | short)
    · cases notOk
    · omega
  obtain ⟨size, played, object, irqena, -⟩ := isr_readOk passed
  refine ⟨⟨?_, ?_, ?_, ?_, ?_⟩, ?_⟩
  · rw [object, fRead_fp_content, h.content]
  · have advanced : (fRead none s.gFsobj (4 * wordsWanted s)).fp.fptr =
        s.gFsobj.fptr + (fRead none s.gFsobj (4 * wordsWanted s)).bytes.length := rfl
    rw [object, advanced, read, h.fptr]
    omega
  · rw [size, if_neg notLast, h.size]
  · have := wavsize.isLt
    rw [played, BitVec.toNat_add, h.played, wanted, BitVec.toNat_ofNat]
    omega
  · exact within
  · rw [irqena]
    simpa using notLast

end

/-! ## The start of a file -/

/-- What an accepted file has and how its playing starts. -/
theorem startWav_accepted {content : List (BitVec 8)} {headerFault : Option Nat}
    {p q : Player} {wavsize : BitVec 32}
    (started : startWav (some content) headerFault p = (some wavsize, q)) :
    44 ≤ content.length ∧ Playing content wavsize 0 q := by
  simp only [startWav] at started
  split at started
  · cases started
  · rename_i size accepted
    split at accepted
    · rename_i read
      simp only [Prod.mk.injEq, Option.some.injEq] at started
      obtain ⟨rfl, rfl⟩ := started
      obtain ⟨rfl, within⟩ := (fRead_header headerFault content 44).mp read
      refine ⟨within, rfl, ?_, ?_, rfl, Nat.zero_le _⟩
      · exact congrArg (0 + ·) read.2
      · simp_all
    · cases accepted

/-- An accepted file on an idle player. -/
theorem startWav_idle {content : List (BitVec 8)} {p : Player} {wavsize : BitVec 32}
    (within : 44 ≤ content.length) (accepted : checkHeader (content.take 44) = some wavsize)
    (idle : p.gWavsize = 0) :
    startWav (some content) none p =
      (some wavsize, { p with
        gFsobj := ⟨content, 44⟩
        gWavsize := wavsize
        gPlaysize := 0
        trace := p.trace ++ [.fRead .fwav 44] }) := by
  simp only [startWav, fRead_whole within, List.length_take_of_le within, and_self, if_true, accepted, idle, ne_eq,
    not_true_eq_false, if_false]

/-! ## The run -/

section
variable {content : List (BitVec 8)} {wavsize : BitVec 32} {p : Player}

/-- The activations a file takes: one for each 256 words begun, and at least one. -/
def activationCount (wavsize : BitVec 32) : Nat := max 1 ((wavsize.toNat / 4 + 255) / 256)

/-- The player after `play_wav` and `m` further activations. -/
structure Playback (content : List (BitVec 8)) (wavsize : BitVec 32) (p : Player) (m : Nat)
    (s : Player) : Prop where
  activations : activations s.trace = activations p.trace + min (m + 1) (activationCount wavsize)
  noWrap : s.pcm.irqenaReg = true → s.gPlaysize ≤ s.gWavsize
  enabled : s.pcm.irqenaReg = true ↔ s.gWavsize ≠ 0
  written : fifoWords s.trace = fifoWords p.trace ++
    words (content.drop 44) (min (256 * (m + 1)) (wavsize.toNat / 4))
  closed : closes s.trace = closes p.trace + if m + 1 < activationCount wavsize then 0 else 1
  ended : activationCount wavsize ≤ m + 1 → s.gWavsize = 0

/-- The records of the run before block `j`. -/
structure Records (content : List (BitVec 8)) (p : Player) (j : Nat) (s : Player) : Prop where
  activations : activations s.trace = activations p.trace + j
  written : fifoWords s.trace = fifoWords p.trace ++ words (content.drop 44) (256 * j)
  closed : closes s.trace = closes p.trace

/-- What the activation for block `j` adds to the records. -/
theorem records_step {j : Nat} {s : Player} (h : Playing content wavsize j s)
    (records : Records content p j s) (holds : 44 + wavsize.toNat ≤ content.length)
    (begun : 256 * j ≤ wavsize.toNat / 4) :
    activations (isrHandlePcmfifofill none s).trace = activations p.trace + (j + 1) ∧
    fifoWords (isrHandlePcmfifofill none s).trace = fifoWords p.trace ++
      words (content.drop 44) (min (256 * (j + 1)) (wavsize.toNat / 4)) ∧
    closes (isrHandlePcmfifofill none s).trace =
      closes p.trace + (if wordsLeft s ≤ 256 then 1 else 0) ∧
    (isrHandlePcmfifofill none s).gWavsize = (if wordsLeft s ≤ 256 then 0 else wavsize) ∧
    (isrHandlePcmfifofill none s).pcm.irqenaReg = decide (256 < wordsLeft s) := by
  have enough : 4 * wordsWanted s ≤ (fRead none s.gFsobj (4 * wordsWanted s)).bytes.length := by
    have := h.length_unread
    rw [length_bytes_none, this, h.wanted]
    omega
  have passed : ¬ReadError none s := by
    rintro (notOk | short)
    · cases notOk
    · omega
  obtain ⟨size, -, -, irqena, trace⟩ := isr_readOk passed
  refine ⟨?_, ?_, ?_, ?_, irqena⟩
  · rw [trace, activations_append, activations_append, activations_append, records.activations,
      activations_pushes]
    split <;> rfl
  · rw [fifoWords_of_readOk passed, records.written, List.append_assoc, pushed_eq enough, h.unread,
      h.wanted, show content.drop (1024 * j + 44) = (content.drop 44).drop (4 * (256 * j)) by
        rw [List.drop_drop]; congr 1; omega, ← words_add]
    congr 2
    omega
  · rw [trace, closes_append, closes_append, closes_append, records.closed, closes_pushes]
    split <;> rfl
  · rw [size, h.size]

/-- The first activation starts at block 0 with empty records. -/
theorem playing_start (within : 44 ≤ content.length)
    (accepted : checkHeader (content.take 44) = some wavsize) (idle : p.gWavsize = 0) :
    playWav (some content) none none p =
      (wavsize.toInt, isrHandlePcmfifofill none (startWav (some content) none p).2) ∧
    Playing content wavsize 0 (startWav (some content) none p).2 ∧
    Records content p 0 (startWav (some content) none p).2 := by
  have started := startWav_idle within accepted idle
  refine ⟨?_, started ▸ (startWav_accepted started).2, ?_⟩
  · rw [playWav, started]
  · rw [started]
    exact ⟨by simp [activations], by simp [fifoWords, words], by simp [closes]⟩

/-- A block that is not the last leads to the next one. -/
theorem records_next {j : Nat} {s : Player} (h : Playing content wavsize j s)
    (records : Records content p j s) (holds : 44 + wavsize.toNat ≤ content.length)
    (more : j + 1 < activationCount wavsize) :
    Playing content wavsize (j + 1) (isrHandlePcmfifofill none s) ∧
    Records content p (j + 1) (isrHandlePcmfifofill none s) ∧
    (isrHandlePcmfifofill none s).pcm.irqenaReg = true := by
  have block : 256 * (j + 1) < wavsize.toNat / 4 := by
    simp only [activationCount] at more
    omega
  have notLast : ¬wordsLeft s ≤ 256 := by
    rw [h.left]
    omega
  obtain ⟨next, irqena⟩ := h.next block (by omega)
  obtain ⟨count, written, closed, -, -⟩ := records_step h records holds (by omega)
  refine ⟨next, ⟨count, ?_, ?_⟩, irqena⟩
  · rw [written, Nat.min_eq_left (Nat.le_of_lt block)]
  · rw [closed, if_neg notLast, Nat.add_zero]

/-- Before every block but the last the run is at `Playing`, with the records of the blocks
so far. -/
theorem run_playing (within : 44 ≤ content.length)
    (accepted : checkHeader (content.take 44) = some wavsize) (idle : p.gWavsize = 0)
    (holds : 44 + wavsize.toNat ≤ content.length) (m : Nat)
    (more : m + 1 < activationCount wavsize) :
    Playing content wavsize (m + 1) ((interrupt none)^[m] (playWav (some content) none none p).2) ∧
    Records content p (m + 1) ((interrupt none)^[m] (playWav (some content) none none p).2) ∧
    ((interrupt none)^[m] (playWav (some content) none none p).2).pcm.irqenaReg = true := by
  induction m with
  | zero =>
      obtain ⟨called, playing, records⟩ := playing_start within accepted idle
      rw [called]
      exact records_next playing records holds more
  | succ m ih =>
      obtain ⟨playing, records, irqena⟩ := ih (by omega)
      rw [Function.iterate_succ_apply', interrupt, if_pos irqena]
      exact records_next playing records holds more

/-- The activation for the last block. -/
theorem playback_last {j : Nat} {s : Player} (h : Playing content wavsize j s)
    (records : Records content p j s) (holds : 44 + wavsize.toNat ≤ content.length)
    (last : j + 1 = activationCount wavsize) :
    ∀ m, activationCount wavsize ≤ m + 1 →
      Playback content wavsize p m (isrHandlePcmfifofill none s) := by
  intro m later
  have block : wavsize.toNat / 4 ≤ 256 * (j + 1) ∧ 256 * j ≤ wavsize.toNat / 4 := by
    simp only [activationCount] at last
    omega
  have ends : wordsLeft s ≤ 256 := by
    rw [h.left]
    omega
  obtain ⟨count, written, closed, size, irqena⟩ := records_step h records holds block.2
  rw [if_pos ends] at closed size
  have masked : (isrHandlePcmfifofill none s).pcm.irqenaReg = false := by
    rw [irqena]
    simpa using ends
  refine ⟨?_, ?_, ?_, ?_, ?_, fun _ => size⟩
  · rw [count, Nat.min_eq_right later, last]
  · rw [masked]
    exact fun on => absurd on (by decide)
  · rw [masked, size]
    exact ⟨fun on => absurd on (by decide), fun on => absurd rfl on⟩
  · rw [written, Nat.min_eq_right block.1, Nat.min_eq_right (by omega)]
  · rw [closed, if_neg (by omega)]

/-- The state after the last activation. -/
theorem run_last (within : 44 ≤ content.length)
    (accepted : checkHeader (content.take 44) = some wavsize) (idle : p.gWavsize = 0)
    (holds : 44 + wavsize.toNat ≤ content.length) {n : Nat}
    (last : n + 1 = activationCount wavsize) :
    ∀ m, activationCount wavsize ≤ m + 1 →
      Playback content wavsize p m ((interrupt none)^[n] (playWav (some content) none none p).2) := by
  cases n with
  | zero =>
      obtain ⟨called, playing, records⟩ := playing_start within accepted idle
      rw [called]
      exact playback_last playing records holds last
  | succ n =>
      obtain ⟨playing, records, irqena⟩ :=
        run_playing within accepted idle holds n (by omega)
      rw [Function.iterate_succ_apply', interrupt, if_pos irqena]
      exact playback_last playing records holds last

/-- An accepted file that holds all its data plays from beginning to end: after `m` further
activations the FIFO register has been given the first `256 * (m + 1)` words of the data,
until all of them are out; the last activation closes the file. -/
theorem playWav_run (accepted : checkHeader (content.take 44) = some wavsize)
    (idle : p.gWavsize = 0) (holds : 44 + wavsize.toNat ≤ content.length) :
    (playWav (some content) none none p).1 = wavsize.toInt ∧
    (startWav (some content) none p).2.gPlaysize ≤ (startWav (some content) none p).2.gWavsize ∧
    ∀ m, Playback content wavsize p m
      ((interrupt none)^[m] (playWav (some content) none none p).2) := by
  have within : 44 ≤ content.length := by omega
  obtain ⟨called, start, -⟩ := playing_start within accepted idle
  refine ⟨by rw [called], start.playsize_le, fun m => ?_⟩
  by_cases more : m + 1 < activationCount wavsize
  · obtain ⟨playing, records, irqena⟩ := run_playing within accepted idle holds m more
    have block : 256 * (m + 1) < wavsize.toNat / 4 := by
      simp only [activationCount] at more
      omega
    have nonzero : wavsize ≠ 0 := by
      rintro rfl
      simp at block
    refine ⟨?_, fun _ => playing.playsize_le, ?_, ?_, ?_, fun done => absurd more (by omega)⟩
    · rw [records.activations, Nat.min_eq_left (Nat.le_of_lt more)]
    · rw [playing.size]
      exact iff_of_true irqena nonzero
    · rw [records.written, Nat.min_eq_left (Nat.le_of_lt block)]
    · rw [records.closed, if_pos more, Nat.add_zero]
  · have positive : 1 ≤ activationCount wavsize := Nat.le_max_left 1 _
    obtain ⟨n, last⟩ : ∃ n, n + 1 = activationCount wavsize := ⟨activationCount wavsize - 1, by omega⟩
    have ended := run_last within accepted idle holds last
    have done := ended n (Nat.le_of_eq last.symm)
    have masked : ((interrupt none)^[n] (playWav (some content) none none p).2).pcm.irqenaReg ≠ true :=
      fun on => done.enabled.mp on (done.ended (Nat.le_of_eq last.symm))
    -- Once the interrupt is masked nothing more happens.
    have still : interrupt none ((interrupt none)^[n] (playWav (some content) none none p).2) =
        (interrupt none)^[n] (playWav (some content) none none p).2 := if_neg masked
    obtain ⟨k, rfl⟩ : ∃ k, m = k + n := ⟨m - n, by omega⟩
    rw [Function.iterate_add_apply, Function.iterate_fixed still]
    exact ended (k + n) (by omega)

end

/-- A file of two words. -/
theorem playWav_run_two_words :
    (playWav (some (wavHeader 8 ++ [1, 2, 3, 4, 5, 6, 7, 8])) none none (playInit powerOn)).1 = 8 ∧
    ∀ m, Playback (wavHeader 8 ++ [1, 2, 3, 4, 5, 6, 7, 8]) 8 (playInit powerOn) m
      ((interrupt none)^[m]
        (playWav (some (wavHeader 8 ++ [1, 2, 3, 4, 5, 6, 7, 8])) none none (playInit powerOn)).2) := by
  have accepted : checkHeader ((wavHeader 8 ++ [1, 2, 3, 4, 5, 6, 7, 8]).take 44) = some 8 := by
    decide
  have idle : (playInit powerOn).gWavsize = 0 := rfl
  have run := playWav_run accepted idle (by decide)
  exact ⟨run.1, run.2.2⟩

end Cineraria.Wav
