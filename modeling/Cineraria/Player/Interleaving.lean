import Cineraria.Player.PlayWav
import Mathlib.Logic.Function.Iterate

/-!
# The player and its interrupt, step by step

The main program calls the player, and the interrupt takes the processor away from it at any
instant at which it is enabled and raised. A step is a register access or a FatFs call; while
the interrupt handler runs the main program stands. The FIFO drains at any time.

The write side of the FIFO sees its reads late: it reports the words that the FIFO holds and
`lag` words more.
-/

namespace Cineraria.Wav

open Bytes

/-! ## The handler -/

/-- Where `isr_handle_pcmfifofill` stands. `n` and `eof` are its variables, `i` the words it has
copied. -/
inductive HandlerPc where
  | mask
  | reading (n : Nat) (eof : Bool)
  | pushing (i n : Nat) (eof : Bool)
  | closing
  | unmask
  deriving DecidableEq, Repr

/-- One step of the handler; `fault` is the disk's during its `f_read`. -/
def handlerStep (fault : Option Nat) (pc : HandlerPc) (p : Player) : Option HandlerPc × Player :=
  match pc with
  | .mask =>
      (some (.reading (wordsWanted p) (decide (wordsLeft p ≤ 256))), iowr 0 pcmStatusIrqdisable p)
  | .reading n eof =>
      let r := fRead fault p.gFsobj (4 * n)
      let p := { p with
        gFsobj := r.fp
        gDatbuff := storeBytes r.bytes p.gDatbuff
        trace := p.trace ++ [.fRead .gFsobj (4 * n)] }
      (some (if !r.ok || decide (r.bytes.length < n) then .closing else .pushing 0 n eof), p)
  | .pushing i n eof =>
      if i < n then (some (.pushing (i + 1) n eof), iowr 2 (le32 p.gDatbuff i) p)
      else
        (some (if eof then .closing else .unmask),
          { p with gPlaysize := p.gPlaysize + BitVec.ofNat 32 (4 * n) })
  | .closing => (none, { p with gWavsize := 0, trace := p.trace ++ [.fClose .gFsobj] })
  | .unmask => (none, iowr 0 pcmStatusIrqenable p)

/-- The handler is in a FatFs function. -/
def HandlerPc.inFatFs : HandlerPc → Bool
  | .reading _ _ | .closing => true
  | _ => false

/-! ## The main program -/

/-- The calls of the main program. -/
inductive Call where
  | playWav | playStop | openWavdir | getWavfilename
  deriving DecidableEq, Repr

/-- A file that `play_wav` has accepted: its file object and the length of its data. -/
structure Accepted where
  fwav : Fil
  wavsize : BitVec 32
  deriving DecidableEq, Repr

/-- Where the main program stands. `play_stop` is called by the main program, or by `play_wav` with
a file to be played `next`. -/
inductive MainPc where
  | idle
  | opening
  | readingHeader (fwav : Fil)
  | rejecting
  | accepted (file : Accepted)
  | stopping (next : Option Accepted)
  | stopClosing (next : Option Accepted)
  | waiting (next : Option Accepted)
  | starting (file : Accepted)
  | handler (pc : HandlerPc)
  | openingDir
  | readingDir
  deriving DecidableEq, Repr

/-- What the surroundings answer to a step of the main program: the file that `f_open` finds, the
fault of the disk, the lag of the FIFO's write side, and whether `get_wavfilename` passes over the
directory entry. -/
structure Reply where
  file : Option (List (BitVec 8))
  fault : Option Nat
  lag : Nat
  skip : Bool
  deriving DecidableEq, Repr

/-- One step of the main program. -/
def mainStep (r : Reply) (pc : MainPc) (p : Player) : MainPc × Player :=
  match pc with
  | .idle => (.idle, p)
  | .opening =>
      match r.file with
      | none => (.idle, p)
      | some content => (.readingHeader ⟨content, 0⟩, p)
  | .readingHeader fwav =>
      let header := fRead r.fault fwav 44
      let p := { p with trace := p.trace ++ [.fRead .fwav 44] }
      match if header.ok ∧ header.bytes.length = 44 then checkHeader header.bytes else none with
      | none => (.rejecting, p)
      | some wavsize => (.accepted ⟨header.fp, wavsize⟩, p)
  | .rejecting => (.idle, { p with trace := p.trace ++ [.fClose .fwav] })
  | .accepted file => (if p.gWavsize ≠ 0 then .stopping (some file) else .starting file, p)
  | .stopping next =>
      (if p.gWavsize ≠ 0 then .stopClosing next else .waiting next, iowr 0 pcmStatusIrqdisable p)
  | .stopClosing next =>
      (.waiting next, { p with gWavsize := 0, trace := p.trace ++ [.fClose .gFsobj] })
  | .waiting next =>
      if p.pcm.fifo.length + r.lag ≠ 0 ∧ p.gPlaysize ≠ 0 then (.waiting next, p)
      else
        match next with
        | none => (.idle, p)
        | some file => (.starting file, p)
  | .starting file =>
      (.handler .mask, { p with gFsobj := file.fwav, gWavsize := file.wavsize, gPlaysize := 0 })
  | .handler pc =>
      match handlerStep r.fault pc p with
      | (some pc, p) => (.handler pc, p)
      | (none, p) => (.idle, p)
  | .openingDir => (.idle, p)
  | .readingDir => (if r.skip then .readingDir else .idle, p)

/-- The main program is in a FatFs function. -/
def MainPc.inFatFs : MainPc → Bool
  | .opening | .readingHeader _ | .rejecting | .stopClosing _ | .openingDir | .readingDir => true
  | .handler pc => pc.inFatFs
  | _ => false

/-- Where a call begins. -/
def Call.entry : Call → MainPc
  | .playWav => .opening
  | .playStop => .stopping none
  | .openWavdir => .openingDir
  | .getWavfilename => .readingDir

/-! ## Both -/

/-- The player, the main program, and the interrupt handler while it runs. -/
structure Machine where
  player : Player
  main : MainPc
  isr : Option HandlerPc

inductive Event where
  | call (c : Call)
  | main (r : Reply)
  | interrupt (lag : Nat)
  | isr (fault : Option Nat)
  | drain
  deriving DecidableEq, Repr

/-- `ins_irq`, when the write side reports `used` words. -/
def Pcm.insIrq (used : Nat) (p : Pcm) : Bool :=
  p.irqenaReg && decide (used ≤ fifoDepth ∧ used ≠ fifoDepth ∧ BitVec.ofNat 10 used < 768#10)

/-- One event. An event that cannot happen changes nothing. -/
def Machine.step (e : Event) (s : Machine) : Machine :=
  match e with
  | .call c => if s.isr = none ∧ s.main = .idle then { s with main := c.entry } else s
  | .main r =>
      if s.isr = none then
        { s with main := (mainStep r s.main s.player).1, player := (mainStep r s.main s.player).2 }
      else s
  | .interrupt lag =>
      if s.isr = none ∧ s.player.pcm.insIrq (s.player.pcm.fifo.length + lag) = true then
        { s with isr := some .mask }
      else s
  | .isr fault =>
      match s.isr with
      | none => s
      | some pc =>
          { s with isr := (handlerStep fault pc s.player).1, player := (handlerStep fault pc s.player).2 }
  | .drain => { s with player := { s.player with pcm := { s.player.pcm with fifo := s.player.pcm.fifo.tail } } }

/-- After `play_init`. -/
def Machine.start : Machine where
  player := playInit powerOn
  main := .idle
  isr := none

/-- A step of the main program, where `f_open` finds a file with this content. -/
def Event.finds (content : List (BitVec 8)) : Event :=
  .main
    { file := some content
      fault := none
      lag := 0
      skip := false }

/-! ## The steps of the handler make the handler -/

/-- A step of a handler that may have returned. -/
def handlerNext (fault : Option Nat) (s : Option HandlerPc × Player) : Option HandlerPc × Player :=
  match s.1 with
  | none => s
  | some pc => handlerStep fault pc s.2

theorem handlerNext_pushing (fault : Option Nat) (n : Nat) (eof : Bool) (p : Player) {k : Nat}
    (within : k ≤ n) :
    (handlerNext fault)^[k] (some (.pushing 0 n eof), p) = (some (.pushing k n eof), pushWords p k) := by
  induction k with
  | zero => rfl
  | succ k ih =>
      rw [Function.iterate_succ_apply', ih (by omega)]
      simp only [handlerNext, handlerStep, if_pos (show k < n by omega), pushWords]

/-- Left alone the steps are an activation. -/
theorem handlerNext_run (fault : Option Nat) (p : Player) :
    (handlerNext fault)^[wordsWanted p + 4] (some .mask, p) = (none, isrHandlePcmfifofill fault p) := by
  have same : wordsWanted (iowr 0 pcmStatusIrqdisable p) = wordsWanted p := rfl
  have left : wordsLeft (iowr 0 pcmStatusIrqdisable p) = wordsLeft p := rfl
  have object : (iowr 0 pcmStatusIrqdisable p).gFsobj = p.gFsobj := rfl
  have stays : ∀ (k : Nat) (q : Player), (handlerNext fault)^[k] (none, q) = (none, q) := by
    intro k q
    induction k with
    | zero => rfl
    | succ k ih => rw [Function.iterate_succ_apply', ih, handlerNext]
  rw [show wordsWanted p + 4 = 2 + wordsWanted p + 1 + 1 by omega, Function.iterate_succ_apply,
    Function.iterate_succ_apply]
  simp only [handlerNext, handlerStep, isrHandlePcmfifofill, same, left, object]
  by_cases err : (!(fRead fault p.gFsobj (4 * wordsWanted p)).ok ||
      decide ((fRead fault p.gFsobj (4 * wordsWanted p)).bytes.length < wordsWanted p)) = true
  · simp only [err, if_true, Bool.or_true]
    rw [show 2 + wordsWanted p = wordsWanted p + 1 + 1 by omega, Function.iterate_succ_apply]
    simp only [handlerNext, handlerStep]
    exact stays _ _
  · rw [Bool.not_eq_true] at err
    simp only [err, Bool.false_eq_true, if_false, Bool.or_false]
    rw [Function.iterate_add_apply, handlerNext_pushing fault _ _ _ (Nat.le_refl _),
      Function.iterate_succ_apply, Function.iterate_succ_apply, Function.iterate_zero_apply]
    by_cases last : wordsLeft p ≤ 256
    · simp only [handlerNext, handlerStep, Nat.lt_irrefl, if_false, last, decide_true, if_true]
    · simp only [handlerNext, handlerStep, Nat.lt_irrefl, if_false, last, decide_false,
        Bool.false_eq_true]

/-! ## What always holds -/

/-- A file is being played, and its first block has been. -/
structure InPlay (p : Player) : Prop where
  size : p.gWavsize ≠ 0
  begun : p.gPlaysize ≠ 0
  within : p.gPlaysize.toNat ≤ p.gWavsize.toNat

/-- No activation is under way: the interrupt is enabled exactly while a file is being played. -/
structure AtRest (p : Player) : Prop where
  armed : p.pcm.irqenaReg = true → InPlay p
  idle : p.pcm.irqenaReg = false → p.gWavsize = 0

theorem atRest_congr {p q : Player} (size : q.gWavsize = p.gWavsize) (played : q.gPlaysize = p.gPlaysize)
    (irqena : q.pcm.irqenaReg = p.pcm.irqenaReg) (rest : AtRest p) : AtRest q := by
  constructor
  · intro armed
    obtain ⟨nonzero, begun, within⟩ := rest.armed (irqena.symm.trans armed)
    exact ⟨by rwa [size], by rwa [played], by rwa [size, played]⟩
  · intro unarmed
    exact size.trans (rest.idle (irqena.symm.trans unarmed))

/-- The block that an activation reads: `n` words, which the file still has to give. -/
structure Block (n : Nat) (eof : Bool) (p : Player) : Prop where
  le : n ≤ 256
  within : p.gPlaysize.toNat + 4 * n ≤ p.gWavsize.toNat
  full : eof = false → n = 256

/-- What holds at each step of an activation. -/
def HandlerInv (pc : HandlerPc) (p : Player) : Prop :=
  match pc with
  | .mask => p.gPlaysize.toNat ≤ p.gWavsize.toNat
  | .reading n eof => p.pcm.irqenaReg = false ∧ Block n eof p
  | .pushing i n eof => p.pcm.irqenaReg = false ∧ Block n eof p ∧ i ≤ n
  | .closing => p.pcm.irqenaReg = false
  | .unmask => p.pcm.irqenaReg = false ∧ InPlay p

theorem handlerInv_congr {pc : HandlerPc} {p q : Player} (size : q.gWavsize = p.gWavsize)
    (played : q.gPlaysize = p.gPlaysize) (irqena : q.pcm.irqenaReg = p.pcm.irqenaReg)
    (h : HandlerInv pc p) : HandlerInv pc q := by
  have block : ∀ {n : Nat} {eof : Bool}, Block n eof p → Block n eof q := fun ⟨le, within, full⟩ =>
    ⟨le, by rwa [size, played], full⟩
  cases pc with
  | mask => rwa [HandlerInv, size, played]
  | reading n eof => exact ⟨irqena.trans h.1, block h.2⟩
  | pushing i n eof => exact ⟨irqena.trans h.1, block h.2.1, h.2.2⟩
  | closing => exact irqena.trans h
  | unmask =>
      obtain ⟨masked, nonzero, begun, within⟩ := h
      exact ⟨irqena.trans masked, by rwa [size], by rwa [played], by rwa [size, played]⟩

/-- The block that the handler asks for. -/
theorem block_wanted {p : Player} (within : p.gPlaysize.toNat ≤ p.gWavsize.toNat) :
    Block (wordsWanted p) (decide (wordsLeft p ≤ 256)) p := by
  have left : wordsLeft p = (p.gWavsize.toNat - p.gPlaysize.toNat) / 4 := by
    rw [wordsLeft, BitVec.toNat_ushiftRight, Nat.shiftRight_eq_div_pow,
      BitVec.toNat_sub_of_le (BitVec.le_def.mpr within)]
  refine ⟨?_, ?_, ?_⟩
  · rw [wordsWanted]
    split <;> omega
  · rw [wordsWanted]
    split <;> omega
  · intro more
    rw [wordsWanted, if_neg (by simpa using more)]

/-- The sum of the sizes does not wrap. -/
theorem Block.played {n : Nat} {eof : Bool} {p : Player} (block : Block n eof p) :
    (p.gPlaysize + BitVec.ofNat 32 (4 * n)).toNat = p.gPlaysize.toNat + 4 * n := by
  have := block.le
  have := block.within
  have := p.gWavsize.isLt
  rw [BitVec.toNat_add, BitVec.toNat_ofNat]
  omega

/-- What a step of an activation leads to. -/
structure HandlerStep (next : Option HandlerPc) (p q : Player) : Prop where
  goesOn : ∀ pc, next = some pc → HandlerInv pc q ∧ q.pcm.irqenaReg = false
  returns : next = none → AtRest q
  begun : p.gPlaysize ≠ 0 → q.gPlaysize ≠ 0

theorem handlerStep_goesOn {pc : HandlerPc} {p q : Player} (inv : HandlerInv pc q)
    (masked : q.pcm.irqenaReg = false) (begun : p.gPlaysize ≠ 0 → q.gPlaysize ≠ 0) :
    HandlerStep (some pc) p q where
  goesOn := by
    rintro _ ⟨⟩
    exact ⟨inv, masked⟩
  returns := by rintro ⟨⟩
  begun := begun

theorem handlerStep_returns {p q : Player} (rest : AtRest q)
    (begun : p.gPlaysize ≠ 0 → q.gPlaysize ≠ 0) : HandlerStep none p q where
  goesOn := by rintro _ ⟨⟩
  returns _ := rest
  begun := begun

/-- A block that has been copied counts as played, unless it is empty. -/
theorem Block.begun {n : Nat} {eof : Bool} {p : Player} (block : Block n eof p)
    (some : 0 < p.gPlaysize.toNat + 4 * n) : p.gPlaysize + BitVec.ofNat 32 (4 * n) ≠ 0 := by
  intro zero
  have played := block.played
  rw [zero] at played
  exact absurd played (Nat.ne_of_lt some)

/-- A full block that is not the last has been played. -/
theorem Block.inPlay {n : Nat} {p q : Player} (block : Block n false p)
    (played : q.gPlaysize = p.gPlaysize + BitVec.ofNat 32 (4 * n)) (size : q.gWavsize = p.gWavsize) :
    InPlay q := by
  have full := block.full rfl
  have within := block.within
  refine ⟨?_, ?_, ?_⟩
  · intro zero
    rw [← size, show q.gWavsize.toNat = 0 by rw [zero]; rfl] at within
    omega
  · rw [played]
    apply block.begun
    omega
  · rw [played, size, block.played]
    exact within

theorem toNat_pos {x : BitVec 32} (nonzero : x ≠ 0) : 0 < x.toNat := by
  apply Nat.pos_of_ne_zero
  intro zero
  apply nonzero
  exact BitVec.eq_of_toNat_eq zero

theorem HandlerInv.step {pc : HandlerPc} {p : Player} (h : HandlerInv pc p) (fault : Option Nat) :
    HandlerStep (handlerStep fault pc p).1 p (handlerStep fault pc p).2 := by
  cases pc with
  | mask =>
      have masked : (iowr 0 pcmStatusIrqdisable p).pcm.irqenaReg = false := by
        simp [iowr, Pcm.write, pcmStatusIrqdisable]
      obtain ⟨le, within, full⟩ := block_wanted h
      refine handlerStep_goesOn ?_ masked id
      exact ⟨masked, le, within, full⟩
  | reading n eof =>
      obtain ⟨masked, block⟩ := h
      refine handlerStep_goesOn ?_ masked id
      split
      · exact masked
      · exact ⟨masked, ⟨block.le, block.within, block.full⟩, Nat.zero_le n⟩
  | pushing i n eof =>
      obtain ⟨masked, block, pushed⟩ := h
      by_cases more : i < n
      · simp only [handlerStep, if_pos more]
        refine handlerStep_goesOn ?_ masked id
        exact ⟨masked, ⟨block.le, block.within, block.full⟩, more⟩
      · simp only [handlerStep, if_neg more]
        refine handlerStep_goesOn ?_ masked ?_
        · cases eof with
          | true => exact masked
          | false => exact ⟨masked, block.inPlay rfl rfl⟩
        · intro begun
          apply block.begun
          have := toNat_pos begun
          omega
  | closing =>
      refine handlerStep_returns ?_ id
      constructor
      · intro armed
        exact absurd (armed.symm.trans h) (by decide)
      · intro _
        rfl
  | unmask =>
      obtain ⟨masked, size, begun, within⟩ := h
      refine handlerStep_returns ?_ id
      constructor
      · intro _
        exact ⟨size, begun, within⟩
      · simp [handlerStep, iowr, Pcm.write, pcmStatusIrqenable]

/-- The interrupt may be enabled: not between the masking in `play_stop` and the end of the call. -/
def MainPc.unmasked : MainPc → Bool
  | .stopClosing _ | .waiting _ | .starting _ | .handler _ => false
  | _ => true

/-- `play_wav` is stopping a file to play the next. -/
def MainPc.stopsFor : MainPc → Bool
  | .stopping (some _) | .stopClosing (some _) | .waiting (some _) => true
  | _ => false

/-- What holds of every state. -/
structure Machine.Inv (s : Machine) : Prop where
  atRest : s.isr = none → s.main.unmasked = true → AtRest s.player
  alone : s.main.unmasked = false → s.isr = none
  masked : s.main.unmasked = false → s.player.pcm.irqenaReg = false
  direct : ∀ pc, s.main = .handler pc → HandlerInv pc s.player
  isr : ∀ pc, s.isr = some pc → HandlerInv pc s.player ∧ s.player.gPlaysize ≠ 0
  stopping : s.main.stopsFor = true → s.player.gPlaysize ≠ 0
  stopped : ∀ next, s.main = .waiting next → s.player.gWavsize = 0

theorem inv_start : Machine.start.Inv where
  atRest _ _ := ⟨fun armed => absurd armed (by decide), fun _ => rfl⟩
  alone _ := rfl
  masked unmasked := absurd unmasked (by decide)
  direct := by rintro _ ⟨⟩
  isr := by rintro _ ⟨⟩
  stopping stops := absurd stops (by decide)
  stopped := by rintro _ ⟨⟩

/-- What a step of the main program leads to. -/
structure MainStep (main : MainPc) (p : Player) : Prop where
  atRest : main.unmasked = true → AtRest p
  masked : main.unmasked = false → p.pcm.irqenaReg = false
  direct : ∀ pc, main = .handler pc → HandlerInv pc p
  stopping : main.stopsFor = true → p.gPlaysize ≠ 0
  stopped : ∀ next, main = .waiting next → p.gWavsize = 0

section
variable {s : Machine}

/-- To a position outside `play_stop` and the handler, with nothing changed. -/
theorem mainStep_atRest {main : MainPc} {p : Player} (rest : AtRest p) (unmasked : main.unmasked = true)
    (stops : main.stopsFor = true → p.gPlaysize ≠ 0) : MainStep main p where
  atRest _ := rest
  masked contrary := absurd (unmasked.symm.trans contrary) (by decide)
  direct pc handler := by
    rw [handler] at unmasked
    exact absurd unmasked (by simp [MainPc.unmasked])
  stopping := stops
  stopped next waiting := by
    rw [waiting] at unmasked
    exact absurd unmasked (by simp [MainPc.unmasked])

/-- To a position of `play_stop` behind the masking, or of the direct call of the handler. -/
theorem mainStep_masked {main : MainPc} {p : Player} (masked : p.pcm.irqenaReg = false)
    (unmasked : main.unmasked = false) (direct : ∀ pc, main = .handler pc → HandlerInv pc p)
    (stops : main.stopsFor = true → p.gPlaysize ≠ 0)
    (stopped : ∀ next, main = .waiting next → p.gWavsize = 0) : MainStep main p where
  atRest contrary := absurd (contrary.symm.trans unmasked) (by decide)
  masked _ := masked
  direct := direct
  stopping := stops
  stopped := stopped

@[simp] theorem stopsFor_stopping (next : Option Accepted) :
    (MainPc.stopping next).stopsFor = next.isSome := by
  cases next <;> rfl

@[simp] theorem stopsFor_stopClosing (next : Option Accepted) :
    (MainPc.stopClosing next).stopsFor = next.isSome := by
  cases next <;> rfl

@[simp] theorem stopsFor_waiting (next : Option Accepted) :
    (MainPc.waiting next).stopsFor = next.isSome := by
  cases next <;> rfl

theorem mainStep_stopClosing {next : Option Accepted} {p : Player} (masked : p.pcm.irqenaReg = false)
    (stops : next.isSome = true → p.gPlaysize ≠ 0) : MainStep (.stopClosing next) p := by
  apply mainStep_masked masked rfl
  · rintro _ ⟨⟩
  · rwa [stopsFor_stopClosing]
  · rintro _ ⟨⟩

theorem mainStep_waiting {next : Option Accepted} {p : Player} (masked : p.pcm.irqenaReg = false)
    (stops : next.isSome = true → p.gPlaysize ≠ 0) (stopped : p.gWavsize = 0) :
    MainStep (.waiting next) p := by
  apply mainStep_masked masked rfl
  · rintro _ ⟨⟩
  · rwa [stopsFor_waiting]
  · intro _ _
    exact stopped

theorem mainStep_starting {file : Accepted} {p : Player} (masked : p.pcm.irqenaReg = false) :
    MainStep (.starting file) p := by
  apply mainStep_masked masked rfl
  · rintro _ ⟨⟩
  · rintro ⟨⟩
  · rintro _ ⟨⟩

theorem mainStep_handler {pc : HandlerPc} {p : Player} (masked : p.pcm.irqenaReg = false)
    (direct : HandlerInv pc p) : MainStep (.handler pc) p := by
  apply mainStep_masked masked rfl
  · rintro _ ⟨⟩
    exact direct
  · rintro ⟨⟩
  · rintro _ ⟨⟩

theorem Machine.Inv.mainStep (inv : s.Inv) (alone : s.isr = none) (r : Reply) :
    MainStep (mainStep r s.main s.player).1 (mainStep r s.main s.player).2 := by
  have atRest := inv.atRest alone
  have masked := inv.masked
  have direct := inv.direct
  have stopping := inv.stopping
  have stopped := inv.stopped
  generalize s.main = main at atRest masked direct stopping stopped
  generalize s.player = p at atRest masked direct stopping stopped
  cases main with
  | idle => exact mainStep_atRest (atRest rfl) rfl (by simp [Wav.mainStep, MainPc.stopsFor])
  | opening =>
      rw [Wav.mainStep]
      split
      · exact mainStep_atRest (atRest rfl) rfl (by simp [MainPc.stopsFor])
      · exact mainStep_atRest (atRest rfl) rfl (by simp [MainPc.stopsFor])
  | readingHeader fwav =>
      have rest := atRest rfl
      rw [Wav.mainStep]
      split
      · exact mainStep_atRest (atRest_congr (p := p) rfl rfl rfl rest) rfl (by simp [MainPc.stopsFor])
      · exact mainStep_atRest (atRest_congr (p := p) rfl rfl rfl rest) rfl (by simp [MainPc.stopsFor])
  | rejecting =>
      have rest := atRest rfl
      exact mainStep_atRest (atRest_congr (p := p) rfl rfl rfl rest) rfl
        (by simp [Wav.mainStep, MainPc.stopsFor])
  | accepted file =>
      have rest := atRest rfl
      simp only [Wav.mainStep]
      split
      · next playing =>
          apply mainStep_atRest rest rfl
          intro _
          cases irqena : p.pcm.irqenaReg with
          | false => exact absurd (rest.idle irqena) playing
          | true => exact (rest.armed irqena).begun
      · next ended =>
          apply mainStep_starting
          cases irqena : p.pcm.irqenaReg with
          | false => rfl
          | true => exact absurd (rest.armed irqena).size ended
  | stopping next =>
      have off : (iowr 0 pcmStatusIrqdisable p).pcm.irqenaReg = false := by
        simp [iowr, Pcm.write, pcmStatusIrqdisable]
      rw [stopsFor_stopping] at stopping
      simp only [Wav.mainStep]
      split
      · exact mainStep_stopClosing off stopping
      · next ended => exact mainStep_waiting off stopping (not_not.mp ended)
  | stopClosing next =>
      rw [stopsFor_stopClosing] at stopping
      exact mainStep_waiting (masked rfl) stopping rfl
  | waiting next =>
      have size := stopped next rfl
      have off := masked rfl
      simp only [Wav.mainStep]
      split
      · rw [stopsFor_waiting] at stopping
        exact mainStep_waiting off stopping size
      · cases next with
        | none =>
            have rest : AtRest p :=
              ⟨fun armed => absurd (armed.symm.trans off) (by decide), fun _ => size⟩
            exact mainStep_atRest rest rfl (by simp [MainPc.stopsFor])
        | some file => exact mainStep_starting off
  | starting file =>
      have direct' : HandlerInv .mask
          { p with gFsobj := file.fwav, gWavsize := file.wavsize, gPlaysize := 0 } := Nat.zero_le _
      exact mainStep_handler (masked rfl) direct'
  | handler pc =>
      have step := (direct pc rfl).step r.fault
      simp only [Wav.mainStep]
      generalize handlerStep r.fault pc p = result at step
      obtain ⟨next, q⟩ := result
      cases next with
      | none => exact mainStep_atRest (step.returns rfl) rfl (by simp [MainPc.stopsFor])
      | some pc' =>
          obtain ⟨inv', off⟩ := step.goesOn pc' rfl
          exact mainStep_handler off inv'
  | openingDir => exact mainStep_atRest (atRest rfl) rfl (by simp [Wav.mainStep, MainPc.stopsFor])
  | readingDir =>
      rw [Wav.mainStep]
      split <;> exact mainStep_atRest (atRest rfl) rfl (by simp [MainPc.stopsFor])

/-- The interrupt is raised only while it is enabled. -/
theorem insIrq_armed {p : Pcm} {used : Nat} (raised : p.insIrq used = true) : p.irqenaReg = true := by
  simp only [Pcm.insIrq, Bool.and_eq_true] at raised
  exact raised.1

/-- The interrupt has come at a point at which it was not masked. -/
theorem Machine.Inv.unmasked_of_active (inv : s.Inv) {pc : HandlerPc} (active : s.isr = some pc) :
    s.main.unmasked = true := by
  by_contra masked
  have alone := inv.alone (by simpa using masked)
  exact absurd (alone.symm.trans active) (by simp)

theorem entry_unmasked (c : Call) : c.entry.unmasked = true := by
  cases c <;> rfl

theorem entry_stopsFor (c : Call) : c.entry.stopsFor = false := by
  cases c <;> rfl

/-- A call begins outside the masking and the handler. -/
theorem Machine.Inv.call (inv : s.Inv) (c : Call) (rest : AtRest s.player) :
    Machine.Inv { s with main := c.entry } where
  atRest _ _ := rest
  alone masked := absurd ((entry_unmasked c).symm.trans masked) (by decide)
  masked masked := absurd ((entry_unmasked c).symm.trans masked) (by decide)
  direct := by cases c <;> rintro _ ⟨⟩
  isr := inv.isr
  stopping stops := absurd ((entry_stopsFor c).symm.trans stops) (by decide)
  stopped := by cases c <;> rintro _ ⟨⟩

/-- Every event keeps what always holds. -/
theorem Machine.Inv.step (inv : s.Inv) (e : Event) : (s.step e).Inv := by
  cases e with
  | call c =>
      by_cases free : s.isr = none ∧ s.main = .idle
      · have rest := inv.atRest free.1 (by rw [free.2]; rfl)
        simp only [Machine.step, if_pos free]
        exact inv.call c rest
      · simpa only [Machine.step, if_neg free] using inv
  | main r =>
      by_cases alone : s.isr = none
      · obtain ⟨atRest, masked, direct, stopping, stopped⟩ := inv.mainStep alone r
        simp only [Machine.step, if_pos alone]
        exact ⟨fun _ => atRest, fun _ => alone, masked, direct,
          fun pc isr => absurd (alone.symm.trans isr) (by simp), stopping, stopped⟩
      · simpa only [Machine.step, if_neg alone] using inv
  | interrupt lag =>
      by_cases taken : s.isr = none ∧ s.player.pcm.insIrq (s.player.pcm.fifo.length + lag) = true
      · have armed := insIrq_armed taken.2
        have unmasked : s.main.unmasked = true := by
          by_contra masked
          exact absurd (armed.symm.trans (inv.masked (by simpa using masked))) (by decide)
        obtain ⟨size, begun, within⟩ := (inv.atRest taken.1 unmasked).armed armed
        simp only [Machine.step, if_pos taken]
        refine ⟨by rintro ⟨⟩, ?_, inv.masked, inv.direct, ?_, inv.stopping, inv.stopped⟩
        · intro masked
          exact absurd (unmasked.symm.trans masked) (by decide)
        · rintro _ ⟨⟩
          exact ⟨within, begun⟩
      · simpa only [Machine.step, if_neg taken] using inv
  | isr fault =>
      cases active : s.isr with
      | none => simpa only [Machine.step, active] using inv
      | some pc =>
          obtain ⟨here, begun⟩ := inv.isr pc active
          have next := here.step fault
          have unmasked := inv.unmasked_of_active active
          have notHandler : ∀ pc, s.main ≠ .handler pc := fun pc handler => by
            rw [handler] at unmasked
            exact absurd unmasked (by simp [MainPc.unmasked])
          have notWaiting : ∀ next, s.main ≠ .waiting next := fun next waiting => by
            rw [waiting] at unmasked
            exact absurd unmasked (by simp [MainPc.unmasked])
          simp only [Machine.step, active]
          exact ⟨fun returned _ => next.returns returned,
            fun masked => absurd (unmasked.symm.trans masked) (by decide),
            fun masked => absurd (unmasked.symm.trans masked) (by decide),
            fun pc handler => absurd handler (notHandler pc),
            fun pc isr => ⟨(next.goesOn pc isr).1, next.begun begun⟩, fun _ => next.begun begun,
            fun pc waiting => absurd waiting (notWaiting pc)⟩
  | drain =>
      exact ⟨fun alone unmasked => atRest_congr (p := s.player) rfl rfl rfl (inv.atRest alone unmasked), inv.alone,
        inv.masked, fun pc handler => handlerInv_congr (p := s.player) rfl rfl rfl (inv.direct pc handler),
        fun pc isr => ⟨handlerInv_congr (p := s.player) rfl rfl rfl (inv.isr pc isr).1, (inv.isr pc isr).2⟩,
        inv.stopping, inv.stopped⟩

end

end Cineraria.Wav
