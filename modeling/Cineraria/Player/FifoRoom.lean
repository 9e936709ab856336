import Cineraria.Lib.Run
import Cineraria.Player.Interleaving

/-!
# Room in the sample FIFO

An activation that the interrupt starts finds at most 767 words in the FIFO and writes at most
256. The direct call by `play_wav` relies on `play_stop`, which waits for an empty FIFO, but
`play_stop` is only called while `g_wavsize` is not zero: it is zero from the moment the last
block of a file has been written, while the FIFO is still full.
-/

namespace Cineraria.Wav

open Run

/-- If this event writes to the FIFO register, the FIFO is not full. -/
def NotFull (e : Event) (s : Machine) : Prop :=
  fifoWords (s.step e).player.trace ≠ fifoWords s.player.trace →
    s.player.pcm.fifo.length < fifoDepth

/-- Where `play_wav` finds no file to stop, the first block of the new one fits. -/
def MainPc.Fits (p : Player) : MainPc → Prop
  | .accepted file =>
      p.gWavsize = 0 → p.pcm.fifo.length + min 256 (file.wavsize.toNat / 4) ≤ fifoDepth
  | _ => True

instance (p : Player) : ∀ main, Decidable (MainPc.Fits p main)
  | .accepted file => inferInstanceAs (Decidable (p.gWavsize = 0 →
      p.pcm.fifo.length + min 256 (file.wavsize.toNat / 4) ≤ fifoDepth))
  | .idle | .opening | .readingHeader _ | .rejecting | .stopping _ | .stopClosing _ | .waiting _
  | .starting _ | .handler _ | .openingDir | .readingDir => inferInstanceAs (Decidable True)

/-- The condition on an event. -/
def StartsWithRoom (e : Event) (s : Machine) : Prop :=
  match e with
  | .main _ => s.isr = none → s.main.Fits s.player
  | _ => True

instance : ∀ e s, Decidable (StartsWithRoom e s)
  | .main _, s => inferInstanceAs (Decidable (s.isr = none → s.main.Fits s.player))
  | .call _, _ | .interrupt _, _ | .isr _, _ | .drain, _ => inferInstanceAs (Decidable True)

/-- There is room for what the activation has still to write. -/
def Room (pc : HandlerPc) (p : Player) : Prop :=
  match pc with
  | .mask => p.pcm.fifo.length + wordsWanted p ≤ fifoDepth
  | .reading n _ => p.pcm.fifo.length + n ≤ fifoDepth
  | .pushing i n _ => p.pcm.fifo.length + (n - i) ≤ fifoDepth
  | _ => True

/-- What holds while the files start with room. -/
structure Roomy (s : Machine) : Prop where
  inv : s.Inv
  isr : ∀ pc, s.isr = some pc → Room pc s.player
  direct : ∀ pc, s.main = .handler pc → Room pc s.player
  starting : ∀ file, s.main = .starting file →
    s.player.pcm.fifo.length + min 256 (file.wavsize.toNat / 4) ≤ fifoDepth

/-! ## One activation -/

theorem length_write_data (p : Pcm) (data : BitVec 32) :
    (p.write 2 data).fifo.length ≤ p.fifo.length + 1 := by
  simp only [Pcm.write]
  split
  · simp
  · exact Nat.le_succ _

theorem Room.step {pc : HandlerPc} {p : Player} (room : Room pc p) (fault : Option Nat) {next : HandlerPc}
    (goesOn : (handlerStep fault pc p).1 = some next) : Room next (handlerStep fault pc p).2 := by
  cases pc with
  | mask =>
      obtain rfl := Option.some.inj goesOn
      have fifo : (iowr 0 pcmStatusIrqdisable p).pcm.fifo = p.pcm.fifo := by
        simp [iowr, Pcm.write, pcmStatusIrqdisable]
      simp only [Room, handlerStep, fifo]
      exact room
  | reading n eof =>
      obtain rfl := Option.some.inj goesOn
      split
      · trivial
      · exact room
  | pushing i n eof =>
      by_cases more : i < n
      · simp only [handlerStep, if_pos more, Option.some.injEq] at goesOn ⊢
        subst goesOn
        have length := length_write_data p.pcm (Bytes.le32 p.gDatbuff i)
        simp only [Room, iowr] at room ⊢
        omega
      · simp only [handlerStep, if_neg more, Option.some.injEq] at goesOn
        subst goesOn
        split <;> trivial
  | closing | unmask => exact absurd goesOn (by simp [handlerStep])

/-- Only the copy loop writes to the FIFO register. -/
theorem handlerStep_fifoWords {pc : HandlerPc} {p : Player} {fault : Option Nat}
    (writes : fifoWords (handlerStep fault pc p).2.trace ≠ fifoWords p.trace) :
    ∃ i n eof, pc = .pushing i n eof ∧ i < n := by
  cases pc with
  | mask | reading _ _ | closing | unmask =>
      refine absurd ?_ writes
      simp only [handlerStep, iowr, fifoWords_append]
      exact List.append_nil _
  | pushing i n eof =>
      by_cases more : i < n
      · exact ⟨i, n, eof, rfl, more⟩
      · rw [handlerStep, if_neg more] at writes
        exact absurd rfl writes

theorem Room.not_full {i n : Nat} {eof : Bool} {p : Player} (room : Room (.pushing i n eof) p)
    (more : i < n) : p.pcm.fifo.length < fifoDepth := by
  simp only [Room] at room
  omega

/-! ## The machine -/

section
variable {s : Machine}

/-- The interrupt comes with room for a block. -/
theorem room_interrupt {p : Player} {lag : Nat} (raised : p.pcm.insIrq (p.pcm.fifo.length + lag) = true) :
    Room .mask p := by
  rw [Pcm.insIrq, Bool.and_eq_true] at raised
  obtain ⟨within, notFull, low⟩ := of_decide_eq_true raised.2
  have level : p.pcm.fifo.length + lag < 768 := by
    rw [fifoDepth] at within notFull
    rw [BitVec.lt_def, BitVec.toNat_ofNat, Nat.mod_eq_of_lt (by omega)] at low
    exact low
  have wanted : wordsWanted p ≤ 256 := by
    rw [wordsWanted]
    split <;> omega
  simp only [Room, fifoDepth]
  omega

/-- The main program writes to the FIFO register in the direct call of the handler only. -/
theorem mainStep_fifoWords {r : Reply} {main : MainPc} {p : Player}
    (writes : fifoWords (mainStep r main p).2.trace ≠ fifoWords p.trace) :
    ∃ pc, main = .handler pc ∧ fifoWords (handlerStep r.fault pc p).2.trace ≠ fifoWords p.trace := by
  cases main with
  | handler pc =>
      refine ⟨pc, rfl, ?_⟩
      simp only [mainStep] at writes
      generalize handlerStep r.fault pc p = result at writes ⊢
      obtain ⟨next, q⟩ := result
      cases next <;> exact writes
  | idle | accepted _ | starting _ | openingDir | readingDir => exact absurd rfl writes
  | opening =>
      rw [mainStep] at writes
      split at writes <;> exact absurd rfl writes
  | readingHeader fwav =>
      refine absurd ?_ writes
      rw [mainStep]
      split <;> simp only [fifoWords_append] <;> exact List.append_nil _
  | rejecting | stopping _ | stopClosing _ =>
      refine absurd ?_ writes
      simp only [mainStep, iowr, fifoWords_append]
      exact List.append_nil _
  | waiting next =>
      simp only [mainStep] at writes
      split at writes
      · exact absurd rfl writes
      · split at writes <;> exact absurd rfl writes

theorem Roomy.not_full (h : Roomy s) (e : Event) : NotFull e s := by
  intro writes
  cases e with
  | call c =>
      rw [Machine.step] at writes
      split at writes <;> exact absurd rfl writes
  | main r =>
      rw [Machine.step] at writes
      split at writes
      · obtain ⟨pc, main, pushes⟩ := mainStep_fifoWords writes
        obtain ⟨i, n, eof, rfl, more⟩ := handlerStep_fifoWords pushes
        exact (h.direct _ main).not_full more
      · exact absurd rfl writes
  | interrupt lag =>
      rw [Machine.step] at writes
      split at writes <;> exact absurd rfl writes
  | isr fault =>
      simp only [Machine.step] at writes
      split at writes
      · exact absurd rfl writes
      · next pc active =>
          obtain ⟨i, n, eof, rfl, more⟩ := handlerStep_fifoWords writes
          exact (h.isr _ active).not_full more
  | drain => exact absurd rfl writes

/-- A word less in the FIFO. -/
theorem Room.drain {pc : HandlerPc} {p : Player} (room : Room pc p) :
    Room pc { p with pcm := { p.pcm with fifo := p.pcm.fifo.tail } } := by
  have shorter : p.pcm.fifo.tail.length ≤ p.pcm.fifo.length := by
    rw [List.length_tail]
    exact Nat.sub_le _ _
  cases pc with
  | mask | reading _ _ | pushing _ _ _ => exact Nat.le_trans (Nat.add_le_add_right shorter _) room
  | closing | unmask => trivial

/-- The first block of a file. -/
theorem wordsWanted_start (p : Player) (file : Accepted) :
    wordsWanted { p with gFsobj := file.fwav, gWavsize := file.wavsize, gPlaysize := 0 } =
      min 256 (file.wavsize.toNat / 4) := by
  have left : wordsLeft { p with gFsobj := file.fwav, gWavsize := file.wavsize, gPlaysize := 0 } =
      file.wavsize.toNat / 4 := by
    rw [wordsLeft, BitVec.toNat_ushiftRight, Nat.shiftRight_eq_div_pow]
    simp
  rw [wordsWanted, left]
  split <;> omega

/-- The FIFO is about to be filled by the main program. -/
def MainPc.loads : MainPc → Bool
  | .starting _ | .handler _ => true
  | _ => false

theorem room_elsewhere {main : MainPc} {p : Player} (elsewhere : main.loads = false) :
    (∀ pc, main = .handler pc → Room pc p) ∧
    ∀ file, main = .starting file → p.pcm.fifo.length + min 256 (file.wavsize.toNat / 4) ≤ fifoDepth := by
  constructor
  · rintro _ rfl
    exact absurd elsewhere (by simp [MainPc.loads])
  · rintro _ rfl
    exact absurd elsewhere (by simp [MainPc.loads])

theorem room_starting {file : Accepted} {p : Player}
    (room : p.pcm.fifo.length + min 256 (file.wavsize.toNat / 4) ≤ fifoDepth) :
    (∀ pc, MainPc.starting file = .handler pc → Room pc p) ∧
    ∀ file', MainPc.starting file = .starting file' →
      p.pcm.fifo.length + min 256 (file'.wavsize.toNat / 4) ≤ fifoDepth := by
  constructor
  · rintro _ ⟨⟩
  · rintro _ ⟨⟩
    exact room

theorem room_handler {pc : HandlerPc} {p : Player} (room : Room pc p) :
    (∀ pc', MainPc.handler pc = .handler pc' → Room pc' p) ∧
    ∀ file, MainPc.handler pc = .starting file →
      p.pcm.fifo.length + min 256 (file.wavsize.toNat / 4) ≤ fifoDepth := by
  constructor
  · rintro _ ⟨⟩
    exact room
  · rintro _ ⟨⟩

theorem Roomy.mainStep (h : Roomy s) (ok : s.main.Fits s.player) (r : Reply) :
    (∀ pc, (mainStep r s.main s.player).1 = .handler pc → Room pc (mainStep r s.main s.player).2) ∧
    ∀ file, (mainStep r s.main s.player).1 = .starting file →
      (mainStep r s.main s.player).2.pcm.fifo.length + min 256 (file.wavsize.toNat / 4) ≤ fifoDepth := by
  have stopping := h.inv.stopping
  have direct := h.direct
  have starting := h.starting
  generalize s.main = main at ok stopping direct starting
  generalize s.player = p at ok stopping direct starting
  cases main with
  | idle | rejecting | stopClosing _ | openingDir =>
      exact room_elsewhere rfl
  | opening =>
      simp only [Wav.mainStep]
      split <;> exact room_elsewhere rfl
  | readingHeader fwav =>
      simp only [Wav.mainStep]
      split <;> exact room_elsewhere rfl
  | accepted file =>
      simp only [Wav.mainStep]
      split
      · exact room_elsewhere rfl
      · next ended => exact room_starting (ok (not_not.mp ended))
  | stopping next =>
      simp only [Wav.mainStep]
      split <;> exact room_elsewhere rfl
  | waiting next =>
      simp only [Wav.mainStep]
      split
      · exact room_elsewhere rfl
      · next empty =>
          cases next with
          | none => exact room_elsewhere rfl
          | some file =>
              have begun := stopping rfl
              have drained : p.pcm.fifo.length + r.lag = 0 := by
                by_contra some
                exact empty ⟨some, begun⟩
              apply room_starting
              simp only [fifoDepth]
              omega
  | starting file =>
      have room := starting file rfl
      rw [← wordsWanted_start p file] at room
      exact room_handler room
  | handler pc =>
      have step : ∀ next, (handlerStep r.fault pc p).1 = some next →
          Room next (handlerStep r.fault pc p).2 := fun next => (direct pc rfl).step r.fault
      simp only [Wav.mainStep]
      generalize handlerStep r.fault pc p = result at step
      obtain ⟨next, q⟩ := result
      cases next with
      | none => exact room_elsewhere rfl
      | some pc' => exact room_handler (step pc' rfl)
  | readingDir =>
      simp only [Wav.mainStep]
      split <;> exact room_elsewhere rfl

theorem Roomy.step (h : Roomy s) {e : Event} (ok : StartsWithRoom e s) : Roomy (s.step e) := by
  have inv := h.inv.step e
  cases e with
  | call c =>
      by_cases free : s.isr = none ∧ s.main = .idle
      · simp only [Machine.step, if_pos free] at inv ⊢
        have position : c.entry.loads = false := by cases c <;> rfl
        obtain ⟨direct, starting⟩ := room_elsewhere (p := s.player) position
        exact ⟨inv, h.isr, direct, starting⟩
      · simpa only [Machine.step, if_neg free] using h
  | main r =>
      by_cases alone : s.isr = none
      · have next := h.mainStep (ok alone) r
        simp only [Machine.step, if_pos alone] at inv ⊢
        exact ⟨inv, fun pc isr => absurd (alone.symm.trans isr) (by simp), next.1, next.2⟩
      · simpa only [Machine.step, if_neg alone] using h
  | interrupt lag =>
      by_cases taken : s.isr = none ∧ s.player.pcm.insIrq (s.player.pcm.fifo.length + lag) = true
      · simp only [Machine.step, if_pos taken] at inv ⊢
        refine ⟨inv, ?_, h.direct, h.starting⟩
        rintro _ ⟨⟩
        exact room_interrupt taken.2
      · simpa only [Machine.step, if_neg taken] using h
  | isr fault =>
      cases active : s.isr with
      | none => simpa only [Machine.step, active] using h
      | some pc =>
          have unmasked := h.inv.unmasked_of_active active
          simp only [Machine.step, active] at inv ⊢
          refine ⟨inv, ?_, ?_, ?_⟩
          · intro next goesOn
            exact (h.isr pc active).step fault goesOn
          · intro pc handler
            rw [handler] at unmasked
            exact absurd unmasked (by simp [MainPc.unmasked])
          · intro file starting
            rw [starting] at unmasked
            exact absurd unmasked (by simp [MainPc.unmasked])
  | drain =>
      refine ⟨inv, fun pc isr => (h.isr pc isr).drain, fun pc handler => (h.direct pc handler).drain, ?_⟩
      intro file starting
      have before := h.starting file starting
      have shorter : s.player.pcm.fifo.tail.length ≤ s.player.pcm.fifo.length := by
        rw [List.length_tail]
        exact Nat.sub_le _ _
      exact Nat.le_trans (Nat.add_le_add_right shorter _) before

end

theorem roomy_start : Roomy Machine.start where
  inv := inv_start
  isr := by rintro _ ⟨⟩
  direct := by rintro _ ⟨⟩
  starting := by rintro _ ⟨⟩

/-- In every run in which the FIFO has room for the first block wherever `play_wav` finds no file to
stop, no word is written to a full FIFO. -/
theorem fifo_not_full {es : List Event} (ok : EveryStep Machine.step StartsWithRoom Machine.start es) :
    EveryStep Machine.step NotFull Machine.start es :=
  everyStep_of_everyStep (fun _ _ h ok => h.step ok) (fun e _ h => h.not_full e) roomy_start ok

/-- A file with two words is played twice, and stopped. -/
theorem fifo_not_full_twice :
    let file : Event := .finds (wavHeader 8 ++ List.replicate 8 0)
    EveryStep Machine.step NotFull Machine.start
      (.call .playWav :: List.replicate 10 file ++ .drain :: .call .playWav :: List.replicate 10 file ++
        [.call .playStop, file, file, .drain, file]) :=
  fifo_not_full (by decide +kernel)

/-! ## Five short files -/

/-- A file with one block of data. -/
def shortWav : List (BitVec 8) := wavHeader 1024 ++ List.replicate 1024 0

/-- A step of the main program, where `f_open` finds this file. -/
def shortStep : Event := .finds shortWav

/-- A call of `play_wav` up to the loop that copies the block. -/
def untilCopy : List Event := .call .playWav :: List.replicate 6 shortStep

/-- A call of `play_wav`. -/
def playShort : List Event := untilCopy ++ List.replicate 256 shortStep ++ [shortStep, shortStep]

/-- The player where the handler is called for the short file. -/
def beginShort (p : Player) : Player :=
  { p with
    trace := p.trace ++ [.fRead .fwav 44]
    gFsobj := ⟨shortWav, 44⟩
    gWavsize := 1024
    gPlaysize := 0 }

/-- The header is read and accepted, and nothing is stopped. -/
theorem shortStep_begin {p : Player} (ended : p.gWavsize = 0) :
    (Machine.step shortStep)^[4] ⟨p, .opening, none⟩ = ⟨beginShort p, .handler .mask, none⟩ := by
  have header : fRead none ⟨shortWav, 0⟩ 44 = ⟨true, wavHeader 1024, ⟨shortWav, 44⟩⟩ := by
    decide +kernel
  have accepted : checkHeader (wavHeader 1024) = some 1024 := by decide +kernel
  have length : (wavHeader 1024).length = 44 := rfl
  have first : Machine.step shortStep (Machine.step shortStep ⟨p, .opening, none⟩) =
      ⟨{ p with trace := p.trace ++ [.fRead .fwav 44] }, .accepted ⟨⟨shortWav, 44⟩, 1024⟩, none⟩ := by
    simp only [shortStep, Event.finds, Machine.step, mainStep, if_true, header, length, accepted,
      and_self]
  have second : Machine.step shortStep (Machine.step shortStep
      ⟨{ p with trace := p.trace ++ [.fRead .fwav 44] }, .accepted ⟨⟨shortWav, 44⟩, 1024⟩, none⟩) =
      ⟨beginShort p, .handler .mask, none⟩ := by
    simp only [shortStep, Event.finds, Machine.step, mainStep, if_true, ended, ne_eq,
      not_true_eq_false, if_false, beginShort]
  rw [Function.iterate_succ_apply, Function.iterate_succ_apply, first]
  exact second

/-- The block is read in full. -/
theorem shortStep_read (p : Player) :
    ∃ q, (Machine.step shortStep)^[2] ⟨beginShort p, .handler .mask, none⟩ =
        ⟨q, .handler (.pushing 0 256 true), none⟩ ∧
      q.pcm.fifo = p.pcm.fifo ∧ q.pcm.fiforesetReg = false := by
  have left : wordsLeft (beginShort p) = 256 := by
    rw [wordsLeft]
    exact show ((1024#32 - 0#32) >>> 2).toNat = 256 by decide
  have object : (iowr 0 pcmStatusIrqdisable (beginShort p)).gFsobj = ⟨shortWav, 44⟩ := rfl
  have ok : (fRead none ⟨shortWav, 44⟩ (4 * 256)).ok = true := rfl
  have block : (fRead none ⟨shortWav, 44⟩ (4 * 256)).bytes.length = 1024 := by decide +kernel
  have masks : Machine.step shortStep ⟨beginShort p, .handler .mask, none⟩ =
      ⟨iowr 0 pcmStatusIrqdisable (beginShort p), .handler (.reading 256 true), none⟩ := by
    simp only [shortStep, Event.finds, Machine.step, mainStep, handlerStep, wordsWanted, left,
      Nat.le_refl, if_true, decide_true]
  rw [Function.iterate_succ_apply, masks, Function.iterate_succ_apply, Function.iterate_zero_apply]
  simp only [shortStep, Event.finds, Machine.step, mainStep, handlerStep, object, ok, block, if_true]
  refine ⟨_, rfl, ?_, ?_⟩
  · simp [beginShort, iowr, Pcm.write, pcmStatusIrqdisable]
  · simp [iowr, Pcm.write, pcmStatusIrqdisable]

theorem exec_untilCopy {p : Player} (ended : p.gWavsize = 0) :
    ∃ q, exec Machine.step ⟨p, .idle, none⟩ untilCopy = ⟨q, .handler (.pushing 0 256 true), none⟩ ∧
      q.pcm.fifo = p.pcm.fifo ∧ q.pcm.fiforesetReg = false := by
  have run : exec Machine.step ⟨p, .idle, none⟩ untilCopy =
      (Machine.step shortStep)^[2] ((Machine.step shortStep)^[4] ⟨p, .opening, none⟩) := rfl
  rw [run, shortStep_begin ended]
  exact shortStep_read p

/-- The copy loop, while the FIFO has room. -/
theorem shortStep_copy {p : Player} (running : p.pcm.fiforesetReg = false) {k : Nat} (within : k ≤ 256)
    (room : p.pcm.fifo.length + k ≤ fifoDepth) :
    ∃ q, (Machine.step shortStep)^[k] ⟨p, .handler (.pushing 0 256 true), none⟩ =
        ⟨q, .handler (.pushing k 256 true), none⟩ ∧
      q.pcm.fifo.length = p.pcm.fifo.length + k ∧ q.pcm.fiforesetReg = false := by
  induction k with
  | zero => exact ⟨p, rfl, rfl, running⟩
  | succ k ih =>
      obtain ⟨q, copied, length, running⟩ := ih (by omega) (by omega)
      have free : q.pcm.fifo.length < fifoDepth := by omega
      rw [Function.iterate_succ_apply', copied]
      simp only [shortStep, Event.finds, Machine.step, mainStep, handlerStep, if_true,
        if_pos (show k < 256 by omega)]
      refine ⟨_, rfl, ?_, ?_⟩
      · simp only [iowr, Pcm.write, if_pos (And.intro running free), List.length_append,
          List.length_singleton]
        omega
      · exact running

/-- A call of `play_wav` with the short file puts its block into the FIFO, and the file has ended. -/
theorem exec_playShort {p : Player} (ended : p.gWavsize = 0) (room : p.pcm.fifo.length + 256 ≤ fifoDepth) :
    ∃ q, exec Machine.step ⟨p, .idle, none⟩ playShort = ⟨q, .idle, none⟩ ∧
      q.pcm.fifo.length = p.pcm.fifo.length + 256 ∧ q.gWavsize = 0 := by
  obtain ⟨q, copies, fifo, running⟩ := exec_untilCopy ended
  obtain ⟨q', copied, length, -⟩ :=
    shortStep_copy running (Nat.le_refl 256) (by rw [fifo]; exact room)
  have closes : ∃ q'', exec Machine.step ⟨q', .handler (.pushing 256 256 true), none⟩
      [shortStep, shortStep] = ⟨q'', .idle, none⟩ ∧ q''.pcm = q'.pcm ∧ q''.gWavsize = 0 := by
    simp only [exec, shortStep, Event.finds, Machine.step, mainStep, handlerStep, Nat.lt_irrefl,
      if_false, if_true]
    exact ⟨_, rfl, rfl, rfl⟩
  obtain ⟨q'', closed, device, ended'⟩ := closes
  refine ⟨q'', ?_, ?_, ended'⟩
  · rw [playShort, exec_append, exec_append, copies, exec_replicate, copied, closed]
  · rw [device, length, fifo]

/-- `n` such calls, of which none waits for the FIFO to drain. -/
theorem exec_playShorts {p : Player} (ended : p.gWavsize = 0) {n : Nat}
    (room : p.pcm.fifo.length + 256 * n ≤ fifoDepth) :
    ∃ q, exec Machine.step ⟨p, .idle, none⟩ (List.replicate n playShort).flatten = ⟨q, .idle, none⟩ ∧
      q.pcm.fifo.length = p.pcm.fifo.length + 256 * n ∧ q.gWavsize = 0 := by
  induction n generalizing p with
  | zero => exact ⟨p, rfl, rfl, ended⟩
  | succ n ih =>
      rw [Nat.mul_succ, Nat.add_comm _ 256, ← Nat.add_assoc] at room ⊢
      obtain ⟨q, played, length, ended⟩ := exec_playShort ended (Nat.le_of_add_right_le room)
      obtain ⟨q', others, length', ended'⟩ := ih ended (by rw [length]; exact room)
      refine ⟨q', ?_, by rw [length', length], ended'⟩
      rw [List.replicate_succ, List.flatten_cons, exec_append, played, others]

/-- Four files fill the FIFO, and the first word of the fifth is written while it is full. -/
theorem fifth_file_overflows :
    ¬ EveryStep Machine.step NotFull Machine.start
      ((List.replicate 4 playShort).flatten ++ untilCopy ++ [shortStep]) := by
  intro notFull
  have empty : Machine.start.player.pcm.fifo.length = 0 := by decide
  obtain ⟨p, four, full, ended⟩ :=
    exec_playShorts (p := Machine.start.player) rfl (n := 4) (by rw [empty]; decide)
  obtain ⟨q, fifth, fifo, -⟩ := exec_untilCopy ended
  have reached : exec Machine.step Machine.start ((List.replicate 4 playShort).flatten ++ untilCopy) =
      ⟨q, .handler (.pushing 0 256 true), none⟩ := by
    rw [exec_append]
    exact (congrArg (exec Machine.step · untilCopy) four).trans fifth
  have last := everyStep_append notFull
  rw [reached] at last
  have length : q.pcm.fifo.length = fifoDepth := by
    rw [fifo, full, empty]
    rfl
  refine absurd (last ?_) (by simp only [length]; exact Nat.lt_irrefl _)
  simp only [shortStep, Event.finds, Machine.step, mainStep, handlerStep, if_true,
    if_pos (show 0 < 256 by decide), iowr, fifoWords_append]
  exact fun same => absurd (List.append_right_eq_self.mp same) (by simp [fifoWords])

end Cineraria.Wav
