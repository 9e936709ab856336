import Cineraria.Lib.Bytes

/-!
# The WAV player

`cineraria_wavplay/playwav.c` over the registers and the FIFO of `pcm_component.v`: the
interrupt handler that refills the sample FIFO, `play_wav`, `play_stop` and the small
calls around them.

A file object is the content of its file and the read pointer. `f_read` is FatFs's: it
stores as many of the requested bytes as the file still has and reports `FR_OK`, also when
that is fewer than requested; a fault of the disk after some bytes makes it fail. `trace`
records the register writes and FatFs calls in order.
-/

namespace Cineraria.Wav

open Bytes

/-! ## FatFs -/

/-- A file object: the content of the file and the read pointer. -/
structure Fil where
  content : List (BitVec 8)
  fptr : Nat
  deriving DecidableEq, Repr

/-- The bytes not read yet. -/
def Fil.unread (fp : Fil) : List (BitVec 8) := fp.content.drop fp.fptr

/-- The result of `f_read`. -/
structure FRead where
  ok : Bool
  bytes : List (BitVec 8)
  fp : Fil
  deriving DecidableEq, Repr

/-- `f_read` of `btr` bytes; with `fault = some k` the disk fails after `k` bytes. -/
def fRead (fault : Option Nat) (fp : Fil) (btr : Nat) : FRead :=
  let got := fp.unread.take (min btr (fault.getD btr))
  { ok := fault.isNone
    bytes := got
    fp := { fp with fptr := fp.fptr + got.length } }

/-- A header is read as a whole if it is there and the disk does not fail. -/
theorem fRead_header (fault : Option Nat) (content : List (BitVec 8)) (n : Nat) :
    (fRead fault ⟨content, 0⟩ n).ok = true ∧ (fRead fault ⟨content, 0⟩ n).bytes.length = n ↔
      fault = none ∧ n ≤ content.length := by
  cases fault with
  | none =>
      simp only [fRead, Fil.unread, Option.isNone_none, Option.getD_none, Nat.min_self, List.drop_zero,
        List.length_take, true_and]
      omega
  | some k => simp [fRead]

theorem fRead_whole {content : List (BitVec 8)} {n : Nat} (long : n ≤ content.length) :
    fRead none ⟨content, 0⟩ n = { ok := true, bytes := content.take n, fp := ⟨content, n⟩ } := by
  simp only [fRead, Fil.unread, Option.isNone_none, Option.getD_none, Nat.min_self, List.drop_zero,
    List.length_take_of_le long, Nat.zero_add]

/-! ## State -/

/-- The two file objects of the player. -/
inductive Handle where
  | gFsobj | fwav
  deriving DecidableEq, Repr

/-- What the player does to its surroundings. -/
inductive Action where
  | iowr (reg : Nat) (data : BitVec 32)
  | fRead (file : Handle) (btr : Nat)
  | fClose (file : Handle)
  deriving DecidableEq, Repr

/-- The registers of `pcm_component` and the words in its FIFO, oldest first. -/
structure Pcm where
  irqenaReg : Bool
  fiforesetReg : Bool
  muteReg : Bool
  volumeLReg : BitVec 15
  volumeRReg : BitVec 15
  fifo : List (BitVec 32)
  deriving DecidableEq, Repr

/-- The static variables of `playwav.c` and the device. -/
structure Player where
  gWavsize : BitVec 32
  gPlaysize : BitVec 32
  gFsobj : Fil
  gDatbuff : Nat → BitVec 8
  pcm : Pcm
  trace : List Action

/-! ## The device -/

def pcmSamplefreq : BitVec 32 := 48000
def pcmStatusPlayMask : BitVec 32 := 1#32 <<< 2
def pcmStatusIrqenable : BitVec 32 := 1#32 <<< 31
def pcmStatusIrqdisable : BitVec 32 := 0#32 <<< 31
def pcmStatusFiforst : BitVec 32 := 1#32 <<< 0

/-- The number of words the FIFO holds. -/
def fifoDepth : Nat := 1024

/-- A bus write to `pcm_component`. A write to a full FIFO, or to one held in reset, is
lost. -/
def Pcm.write (reg : Nat) (data : BitVec 32) (p : Pcm) : Pcm :=
  match reg with
  | 0 =>
      { p with
        irqenaReg := data.getLsbD 31
        fiforesetReg := data.getLsbD 0
        fifo := if data.getLsbD 0 then [] else p.fifo }
  | 1 =>
      { p with
        muteReg := data.getLsbD 31
        volumeRReg := data.extractLsb' 16 15
        volumeLReg := data.extractLsb' 0 15 }
  | 2 =>
      { p with
        fifo := if p.fiforesetReg = false ∧ p.fifo.length < fifoDepth then p.fifo ++ [data] else p.fifo }
  | _ => p

/-- `fifoirq_sig`: not full, and the 10-bit fill count below 768. -/
def Pcm.fifoirqSig (p : Pcm) : Bool :=
  decide (p.fifo.length ≠ fifoDepth ∧ BitVec.ofNat 10 p.fifo.length < 768#10)

/-- The status register as the bus reads it. -/
def Pcm.status (p : Pcm) : BitVec 32 :=
  BitVec.ofBool p.irqenaReg ++ 0#28 ++ BitVec.ofBool (!p.fifo.isEmpty) ++
    BitVec.ofBool p.fifoirqSig ++ BitVec.ofBool p.fiforesetReg

/-- `IOWR(dev_pcm, reg, data)` -/
def iowr (reg : Nat) (data : BitVec 32) (p : Player) : Player :=
  { p with pcm := p.pcm.write reg data, trace := p.trace ++ [.iowr reg data] }

/-! ## The interrupt handler -/

/-- `(g_wavsize - g_playsize) >> 2` -/
def wordsLeft (p : Player) : Nat := ((p.gWavsize - p.gPlaysize) >>> 2).toNat

/-- `n`: the words asked for in this activation. -/
def wordsWanted (p : Player) : Nat := if wordsLeft p ≤ 256 then wordsLeft p else 256

/-- The buffer after `f_read` stored `bytes` at its start. -/
def storeBytes (bytes : List (BitVec 8)) (buff : Nat → BitVec 8) : Nat → BitVec 8 :=
  fun k => bytes[k]?.getD (buff k)

/-- The loop that copies the first `n` words of the buffer to the FIFO register. -/
def pushWords (p : Player) : Nat → Player
  | 0 => p
  | n + 1 => let q := pushWords p n; iowr 2 (le32 q.gDatbuff n) q

/-- `isr_handle_pcmfifofill`; `fault` is the disk's during its `f_read`. -/
def isrHandlePcmfifofill (fault : Option Nat) (p : Player) : Player :=
  let p := iowr 0 pcmStatusIrqdisable p
  let n := wordsWanted p
  let eof := decide (wordsLeft p ≤ 256)
  let r := fRead fault p.gFsobj (4 * n)
  let p := { p with
    gFsobj := r.fp
    gDatbuff := storeBytes r.bytes p.gDatbuff
    trace := p.trace ++ [.fRead .gFsobj (4 * n)] }
  let err := !r.ok || decide (r.bytes.length < n)
  let p :=
    if err then p
    else let q := pushWords p n; { q with gPlaysize := q.gPlaysize + BitVec.ofNat 32 (4 * n) }
  if eof || err then
    { p with gWavsize := 0, trace := p.trace ++ [.fClose .gFsobj] }
  else iowr 0 pcmStatusIrqenable p

/-! ## The calls of the main program -/

/-- The program's variables and the device after a reset. -/
def powerOn : Player :=
  { gWavsize := 0
    gPlaysize := 0
    gFsobj := { content := [], fptr := 0 }
    gDatbuff := fun _ => 0
    pcm :=
      { irqenaReg := false
        fiforesetReg := true
        muteReg := true
        volumeLReg := 0
        volumeRReg := 0
        fifo := [] }
    trace := [] }

/-- `play_init` -/
def playInit (p : Player) : Player :=
  { iowr 0 (pcmStatusIrqdisable ||| pcmStatusFiforst) (iowr 1 0 p) with
    gWavsize := 0
    gPlaysize := 0 }

/-- `play_status` -/
def playStatus (p : Player) : BitVec 32 :=
  if p.pcm.status &&& pcmStatusPlayMask ≠ 0 then p.gPlaysize else 0

/-- `play_stop`. The final loop waits until `play_status` is zero: while some data has been
played that is until the FIFO has drained. -/
def playStop (p : Player) : Player :=
  let p := iowr 0 pcmStatusIrqdisable p
  let p :=
    if p.gWavsize ≠ 0 then { p with gWavsize := 0, trace := p.trace ++ [.fClose .gFsobj] } else p
  if playStatus p ≠ 0 then { p with pcm := { p.pcm with fifo := [] } } else p

/-- The header check of `play_wav`: the length of the data, if the file is accepted. Only
the low byte of the format tag, the channel count and the sample size, and the low two
bytes of the sample rate are looked at. -/
def checkHeader (wavbuff : List (BitVec 8)) : Option (BitVec 32) :=
  let b := ofList wavbuff
  if b 8 = 0x57 ∧ b 9 = 0x41 ∧ b 10 = 0x56 ∧ b 11 = 0x45 ∧ b 20 = 0x01 then
    let stmono := b 22
    let wavfreq := (b 25).setWidth 32 <<< 8 ||| (b 24).setWidth 32
    let samplebit := b 34
    let wavsize := le32 b 10
    if stmono = 2 ∧ samplebit = 16 ∧ wavfreq = pcmSamplefreq then some wavsize else none
  else none

/-- `play_wav` up to the first activation of the handler. `file` is what `f_open` finds.
The result is the length of the data when the file is accepted. -/
def startWav (file : Option (List (BitVec 8))) (fault : Option Nat) (p : Player) :
    Option (BitVec 32) × Player :=
  match file with
  | none => (none, p)
  | some content =>
      let r := fRead fault { content := content, fptr := 0 } 44
      let p := { p with trace := p.trace ++ [.fRead .fwav 44] }
      match if r.ok ∧ r.bytes.length = 44 then checkHeader r.bytes else none with
      | none => (none, { p with trace := p.trace ++ [.fClose .fwav] })
      | some wavsize =>
          let p := if p.gWavsize ≠ 0 then playStop p else p
          (some wavsize, { p with gFsobj := r.fp, gWavsize := wavsize, gPlaysize := 0 })

/-- `play_wav`: `-1`, or the length of the data after the handler has been called once. -/
def playWav (file : Option (List (BitVec 8))) (headerFault fault : Option Nat) (p : Player) :
    Int × Player :=
  match startWav file headerFault p with
  | (none, p) => (-1, p)
  | (some wavsize, p) => (wavsize.toInt, isrHandlePcmfifofill fault p)

/-- The interrupt: it is taken only while it is enabled. -/
def interrupt (fault : Option Nat) (p : Player) : Player :=
  if p.pcm.irqenaReg then isrHandlePcmfifofill fault p else p

/-! ## Observations -/

/-- The words written to the FIFO register, in order. -/
def fifoWords (trace : List Action) : List (BitVec 32) :=
  trace.filterMap fun
    | .iowr 2 data => some data
    | _ => none

/-- How often `f_close` was called. -/
def closes (trace : List Action) : Nat :=
  trace.countP fun
    | .fClose _ => true
    | _ => false

/-- How often the handler has run: each activation reads the file being played once. -/
def activations (trace : List Action) : Nat :=
  trace.countP fun
    | .fRead .gFsobj _ => true
    | _ => false

@[simp] theorem fifoWords_append (a b : List Action) :
    fifoWords (a ++ b) = fifoWords a ++ fifoWords b := List.filterMap_append

@[simp] theorem closes_append (a b : List Action) : closes (a ++ b) = closes a + closes b :=
  List.countP_append

@[simp] theorem activations_append (a b : List Action) :
    activations (a ++ b) = activations a + activations b := List.countP_append

/-- The header of a 48 kHz, 16-bit stereo file with `wavsize` bytes of data. -/
def wavHeader (wavsize : BitVec 32) : List (BitVec 8) :=
  [0x52, 0x49, 0x46, 0x46, 0x24, 0x00, 0x00, 0x00, 0x57, 0x41, 0x56, 0x45, 0x66, 0x6d, 0x74, 0x20,
    0x10, 0x00, 0x00, 0x00, 0x01, 0x00, 0x02, 0x00, 0x80, 0xbb, 0x00, 0x00, 0x00, 0xee, 0x02, 0x00,
    0x04, 0x00, 0x10, 0x00, 0x64, 0x61, 0x74, 0x61, wavsize.extractLsb' 0 8,
    wavsize.extractLsb' 8 8, wavsize.extractLsb' 16 8, wavsize.extractLsb' 24 8]

/-! ## What one activation does -/

@[simp] theorem fRead_fp_content (fault : Option Nat) (fp : Fil) (btr : Nat) :
    (fRead fault fp btr).fp.content = fp.content := rfl

/-- What `f_read` stores is the beginning of what was unread. -/
theorem fRead_bytes (fault : Option Nat) (fp : Fil) (btr : Nat) :
    (fRead fault fp btr).bytes = fp.unread.take (fRead fault fp btr).bytes.length := by
  simp only [fRead]
  rw [List.length_take, Nat.min_comm, ← List.take_eq_take_min]

/-- The copy loop writes the first words of the buffer and nothing else. -/
theorem pushWords_spec (p : Player) (n : Nat) :
    (pushWords p n).gWavsize = p.gWavsize ∧ (pushWords p n).gPlaysize = p.gPlaysize ∧
    (pushWords p n).gFsobj = p.gFsobj ∧ (pushWords p n).gDatbuff = p.gDatbuff ∧
    (pushWords p n).pcm.irqenaReg = p.pcm.irqenaReg ∧
    (pushWords p n).trace =
      p.trace ++ (List.range n).map fun i => .iowr 2 (le32 p.gDatbuff i) := by
  induction n with
  | zero => simp [pushWords]
  | succ n ih =>
      obtain ⟨wavsize, playsize, fsobj, datbuff, irqena, trace⟩ := ih
      refine ⟨wavsize, playsize, fsobj, datbuff, irqena, ?_⟩
      simp only [pushWords, iowr, trace, datbuff, List.range_succ, List.map_append, List.map_cons,
        List.map_nil, List.append_assoc]

/-- The words of the buffer after a read of at least `4 * m` bytes are the next `m` unread
words of the file. -/
theorem words_storeBytes (bytes : List (BitVec 8)) (buff : Nat → BitVec 8) {m : Nat}
    (enough : 4 * m ≤ bytes.length) :
    (List.range m).map (le32 (storeBytes bytes buff)) = words bytes m := by
  refine List.map_congr_left fun i hi => le32_congr fun k _ hk => ?_
  have within : k < bytes.length := by
    have := List.mem_range.mp hi
    omega
  simp [storeBytes, ofList, within]

theorem fifoWords_pushes (l : List (BitVec 32)) :
    fifoWords (l.map fun data => .iowr 2 data) = l := by
  induction l with
  | nil => rfl
  | cons data l ih => simp only [List.map_cons, fifoWords, List.filterMap_cons] at ih ⊢; rw [ih]

theorem closes_pushes (l : List (BitVec 32)) : closes (l.map fun data => .iowr 2 data) = 0 := by
  simp [closes, List.countP_eq_zero]

theorem activations_pushes (l : List (BitVec 32)) :
    activations (l.map fun data => .iowr 2 data) = 0 := by
  simp [activations, List.countP_eq_zero]

/-- The handler's test for a failed read. -/
def ReadError (fault : Option Nat) (p : Player) : Prop :=
  (fRead fault p.gFsobj (4 * wordsWanted p)).ok = false ∨
    (fRead fault p.gFsobj (4 * wordsWanted p)).bytes.length < wordsWanted p

instance (fault : Option Nat) (p : Player) : Decidable (ReadError fault p) :=
  inferInstanceAs (Decidable (_ ∨ _))

/-- The words an activation writes when it takes its read for complete. -/
def pushed (fault : Option Nat) (p : Player) : List (BitVec 32) :=
  (List.range (wordsWanted p)).map
    (le32 (storeBytes (fRead fault p.gFsobj (4 * wordsWanted p)).bytes p.gDatbuff))

/-- An activation on its error path. -/
theorem isr_readError {fault : Option Nat} {p : Player} (failed : ReadError fault p) :
    (isrHandlePcmfifofill fault p).gWavsize = 0 ∧
    (isrHandlePcmfifofill fault p).pcm.irqenaReg = false ∧
    (isrHandlePcmfifofill fault p).trace = p.trace ++
      [.iowr 0 pcmStatusIrqdisable, .fRead .gFsobj (4 * wordsWanted p), .fClose .gFsobj] := by
  have err : (!(fRead fault p.gFsobj (4 * wordsWanted p)).ok ||
      decide ((fRead fault p.gFsobj (4 * wordsWanted p)).bytes.length < wordsWanted p)) = true := by
    simpa [ReadError] using failed
  have same : wordsWanted (iowr 0 pcmStatusIrqdisable p) = wordsWanted p := rfl
  have object : (iowr 0 pcmStatusIrqdisable p).gFsobj = p.gFsobj := rfl
  simp only [isrHandlePcmfifofill, same, object, err, Bool.or_true, if_true]
  refine ⟨trivial, ?_, ?_⟩
  · simp [iowr, Pcm.write, pcmStatusIrqdisable]
  · simp [iowr]

/-- An activation that takes its read for complete. -/
theorem isr_readOk {fault : Option Nat} {p : Player} (passed : ¬ReadError fault p) :
    (isrHandlePcmfifofill fault p).gWavsize = (if wordsLeft p ≤ 256 then 0 else p.gWavsize) ∧
    (isrHandlePcmfifofill fault p).gPlaysize =
      p.gPlaysize + BitVec.ofNat 32 (4 * wordsWanted p) ∧
    (isrHandlePcmfifofill fault p).gFsobj = (fRead fault p.gFsobj (4 * wordsWanted p)).fp ∧
    (isrHandlePcmfifofill fault p).pcm.irqenaReg = decide (256 < wordsLeft p) ∧
    (isrHandlePcmfifofill fault p).trace = p.trace ++
      [.iowr 0 pcmStatusIrqdisable, .fRead .gFsobj (4 * wordsWanted p)] ++
      (pushed fault p).map (fun data => .iowr 2 data) ++
      [if wordsLeft p ≤ 256 then .fClose .gFsobj else .iowr 0 pcmStatusIrqenable] := by
  have err : (!(fRead fault p.gFsobj (4 * wordsWanted p)).ok ||
      decide ((fRead fault p.gFsobj (4 * wordsWanted p)).bytes.length < wordsWanted p)) = false := by
    simpa [ReadError] using passed
  have left : wordsLeft (iowr 0 pcmStatusIrqdisable p) = wordsLeft p := rfl
  have same : wordsWanted (iowr 0 pcmStatusIrqdisable p) = wordsWanted p := rfl
  have object : (iowr 0 pcmStatusIrqdisable p).gFsobj = p.gFsobj := rfl
  have buffer : (iowr 0 pcmStatusIrqdisable p).gDatbuff = p.gDatbuff := rfl
  have disabled : (iowr 0 pcmStatusIrqdisable p).pcm.irqenaReg = false := by
    simp [iowr, Pcm.write, pcmStatusIrqdisable]
  obtain ⟨wavsize, playsize, fsobj, -, irqena, trace⟩ := pushWords_spec
    { iowr 0 pcmStatusIrqdisable p with
      gFsobj := (fRead fault p.gFsobj (4 * wordsWanted p)).fp
      gDatbuff := storeBytes (fRead fault p.gFsobj (4 * wordsWanted p)).bytes p.gDatbuff
      trace := (iowr 0 pcmStatusIrqdisable p).trace ++ [.fRead .gFsobj (4 * wordsWanted p)] }
    (wordsWanted p)
  dsimp only at wavsize playsize fsobj irqena trace
  simp only [isrHandlePcmfifofill, same, left, object, buffer, err, Bool.or_false, decide_eq_true_eq,
    Bool.false_eq_true, if_false]
  by_cases last : wordsLeft p ≤ 256
  · simp only [if_pos last]
    refine ⟨trivial, ?_, fsobj, ?_, ?_⟩
    · exact congrArg (· + BitVec.ofNat 32 (4 * wordsWanted p)) playsize
    · rw [irqena.trans disabled]
      simp [last]
    · rw [trace]
      simp [iowr, pushed, List.map_map, Function.comp_def]
  · simp only [if_neg last]
    refine ⟨wavsize, ?_, fsobj, ?_, ?_⟩
    · exact congrArg (· + BitVec.ofNat 32 (4 * wordsWanted p)) playsize
    · simp [iowr, Pcm.write, pcmStatusIrqenable, show 256 < wordsLeft p by omega]
    · simp only [iowr] at trace ⊢
      rw [trace]
      simp [pushed, List.map_map, Function.comp_def]

theorem length_bytes_none (p : Player) :
    (fRead none p.gFsobj (4 * wordsWanted p)).bytes.length =
      min (4 * wordsWanted p) p.gFsobj.unread.length := by
  simp [fRead]

/-- The words an activation has written when its read passed the test. -/
theorem fifoWords_of_readOk {fault : Option Nat} {p : Player} (passed : ¬ReadError fault p) :
    fifoWords (isrHandlePcmfifofill fault p).trace = fifoWords p.trace ++ pushed fault p := by
  obtain ⟨-, -, -, -, trace⟩ := isr_readOk passed
  have last : fifoWords [if wordsLeft p ≤ 256 then Action.fClose .gFsobj
      else .iowr 0 pcmStatusIrqenable] = [] := by
    split <;> rfl
  rw [trace, fifoWords_append, fifoWords_append, fifoWords_append, fifoWords_pushes, last]
  simp [fifoWords]

/-- A read of all the bytes pushes the next words of the file. -/
theorem pushed_eq {fault : Option Nat} {p : Player}
    (enough : 4 * wordsWanted p ≤ (fRead fault p.gFsobj (4 * wordsWanted p)).bytes.length) :
    pushed fault p = words p.gFsobj.unread (wordsWanted p) := by
  rw [pushed, words_storeBytes _ _ enough, fRead_bytes, words_take _ enough]

end Cineraria.Wav
