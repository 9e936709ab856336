import Cineraria.Lib.FixedWidth
import Cineraria.Player.Playback

/-!
# Which files are played

`play_wav` looks at the header of a file and plays the file or refuses it. The header has fields of 16 and 32
bits, of which `play_wav` looks at the low bytes only, and it returns the length of the data as an `int`. What the
fields say is therefore not always what it does (`playWav_meets_iff`).
-/

namespace Cineraria.Wav

open Bytes

/-- `WAVE` -/
def IsWave (content : List (BitVec 8)) : Prop :=
  byteAt content 8 = 0x57 ∧ byteAt content 9 = 0x41 ∧ byteAt content 10 = 0x56 ∧ byteAt content 11 = 0x45

instance (content : List (BitVec 8)) : Decidable (IsWave content) := inferInstanceAs (Decidable (_ ∧ _))

/-- The header of a file that can be played. -/
structure Qualifies (content : List (BitVec 8)) : Prop where
  long : 44 ≤ content.length
  wave : IsWave content
  format : field16 content 20 = 1
  channels : field16 content 22 = 2
  sampleRate : field32 content 24 = 48000
  bits : field16 content 34 = 16

/-- The low bytes of the fields are those of a file that can be played. -/
structure LowBytes (content : List (BitVec 8)) : Prop where
  long : 44 ≤ content.length
  wave : IsWave content
  format : byteAt content 20 = 1
  channels : byteAt content 22 = 2
  sampleRate : field16 content 24 = 48000
  bits : byteAt content 34 = 16

/-- The other bytes of the fields are zero. -/
structure HighBytes (content : List (BitVec 8)) : Prop where
  format : byteAt content 21 = 0
  channels : byteAt content 23 = 0
  sampleRate : field16 content 26 = 0
  bits : byteAt content 35 = 0

theorem qualifies_iff (content : List (BitVec 8)) : Qualifies content ↔ LowBytes content ∧ HighBytes content := by
  have bound := byteAt_lt content
  constructor
  · rintro ⟨long, wave, format, channels, sampleRate, bits⟩
    have h20 := bound 20
    have h22 := bound 22
    have h24 := bound 24
    have h25 := bound 25
    have h34 := bound 34
    simp only [field32, field16, Nat.reduceAdd] at format channels sampleRate bits
    refine ⟨⟨long, wave, by omega, by omega, ?_, by omega⟩, by omega, by omega, ?_, by omega⟩
    · simp only [field16, Nat.reduceAdd]
      omega
    · simp only [field16, Nat.reduceAdd]
      omega
  · rintro ⟨⟨long, wave, format, channels, sampleRate, bits⟩, format', channels', sampleRate', bits'⟩
    refine ⟨long, wave, ?_, ?_, ?_, ?_⟩
    · rw [field16, format, format', Nat.mul_zero, Nat.add_zero]
    · rw [field16, channels, channels', Nat.mul_zero, Nat.add_zero]
    · rw [field32, sampleRate, sampleRate', Nat.mul_zero, Nat.add_zero]
    · rw [field16, bits, bits', Nat.mul_zero, Nat.add_zero]

/-! ## What `play_wav` must do -/

/-- The playing of a file has begun. -/
def Started (content : List (BitVec 8)) (fault : Option Nat) (s : Player) : Prop :=
  ∃ q : Player, s = isrHandlePcmfifofill fault q ∧ q.gFsobj = { content := content, fptr := 44 } ∧
    q.gWavsize.toNat = field32 content 40 ∧ q.gPlaysize = 0

/-- A file is refused: `play_wav` fails and leaves a stream that is being played alone. -/
structure Refused (p : Player) (calls : List Action) (outcome : Int × Player) : Prop where
  failed : outcome.1 = -1
  fsobj : outcome.2.gFsobj = p.gFsobj
  wavsize : outcome.2.gWavsize = p.gWavsize
  playsize : outcome.2.gPlaysize = p.gPlaysize
  pcm : outcome.2.pcm = p.pcm
  trace : outcome.2.trace = p.trace ++ calls

/-- What `play_wav` must do. A header that the disk does not deliver is not there. -/
def PlayWavMeets (file : Option (List (BitVec 8))) (headerFault fault : Option Nat) (p : Player) : Prop :=
  match file with
  | none => Refused p [] (playWav file headerFault fault p)
  | some content =>
      (headerFault = none ∧ Qualifies content →
        Started content fault (playWav file headerFault fault p).2 ∧ 0 ≤ (playWav file headerFault fault p).1) ∧
      (¬ (headerFault = none ∧ Qualifies content) →
        Refused p [.fRead .fwav 44, .fClose .fwav] (playWav file headerFault fault p))

/-- What the bytes that `play_wav` does not look at must be. -/
def HeaderFits (file : Option (List (BitVec 8))) (headerFault : Option Nat) : Prop :=
  ∀ content, file = some content → headerFault = none → LowBytes content →
    HighBytes content ∧ field32 content 40 < 2 ^ 31

/-! ## What it does -/

/-- The header check accepts what has the right low bytes. -/
theorem checkHeader_take (content : List (BitVec 8)) (long : 44 ≤ content.length) :
    (LowBytes content → checkHeader (content.take 44) = some (le32 (ofList content) 10)) ∧
    (¬ LowBytes content → checkHeader (content.take 44) = none) := by
  have wavsize : le32 (ofList (content.take 44)) 10 = le32 (ofList content) 10 := by
    apply le32_congr
    intro k _ below
    exact ofList_take (by omega)
  have rate : (ofList content 25).setWidth 32 <<< 8 ||| (ofList content 24).setWidth 32 = pcmSamplefreq ↔
      field16 content 24 = 48000 := by
    have frequency : pcmSamplefreq.toNat = 48000 := rfl
    rw [← BitVec.toNat_inj, FixedWidth.toNat_shift_or (by decide), frequency]
    simp only [field16, byteAt, Nat.reduceAdd]
    omega
  unfold checkHeader
  simp only [ofList_take (by decide : 8 < 44), ofList_take (by decide : 9 < 44), ofList_take (by decide : 10 < 44),
    ofList_take (by decide : 11 < 44), ofList_take (by decide : 20 < 44), ofList_take (by decide : 22 < 44),
    ofList_take (by decide : 24 < 44), ofList_take (by decide : 25 < 44), ofList_take (by decide : 34 < 44),
    wavsize, rate, ofList_eq_iff]
  constructor
  · rintro ⟨_, ⟨h8, h9, h10, h11⟩, format, channels, sampleRate, bits⟩
    rw [if_pos ⟨h8, h9, h10, h11, format⟩, if_pos ⟨channels, bits, sampleRate⟩]
  · intro other
    split
    · next first =>
        obtain ⟨h8, h9, h10, h11, format⟩ := first
        rw [if_neg]
        rintro ⟨channels, bits, sampleRate⟩
        exact other ⟨long, ⟨h8, h9, h10, h11⟩, format, channels, sampleRate, bits⟩
    · rfl

section
variable {content : List (BitVec 8)} {headerFault : Option Nat}

/-- An activation reads the stream once. -/
theorem activations_isr (fault : Option Nat) (p : Player) :
    activations (isrHandlePcmfifofill fault p).trace = activations p.trace + 1 := by
  by_cases failed : ReadError fault p
  · rw [(isr_readError failed).2.2, activations_append]
    rfl
  · have last : activations [if wordsLeft p ≤ 256 then Action.fClose .gFsobj else .iowr 0 pcmStatusIrqenable] = 0 := by
      split
      · rfl
      · rfl
    rw [(isr_readOk failed).2.2.2.2, activations_append, activations_append, activations_append, activations_pushes, last]
    rfl

theorem activations_playStop (p : Player) : activations (playStop p).trace = activations p.trace := by
  unfold playStop iowr
  dsimp only
  split_ifs
  all_goals simp [activations]

theorem startWav_accepts (low : LowBytes content) (p : Player) :
    ∃ q : Player, startWav (some content) none p = (some (le32 (ofList content) 10), q) ∧
      q.gFsobj = { content := content, fptr := 44 } ∧ q.gWavsize = le32 (ofList content) 10 ∧ q.gPlaysize = 0 ∧
      activations q.trace = activations p.trace := by
  have accepted := (checkHeader_take content low.long).1 low
  simp only [startWav, fRead_whole low.long, List.length_take_of_le low.long, and_self, if_true, accepted]
  refine ⟨_, rfl, rfl, rfl, rfl, ?_⟩
  dsimp only
  split
  · rw [activations_playStop, activations_append]
    rfl
  · rw [activations_append]
    rfl

theorem toNat_le32 (content : List (BitVec 8)) : (le32 (ofList content) 10).toNat = field32 content 40 := by
  rw [le32, FixedWidth.toNat_append_add, FixedWidth.toNat_append_add, FixedWidth.toNat_append_add]
  simp only [field32, field16, byteAt, Nat.reduceMul, Nat.reduceAdd]
  omega

theorem playWav_accepts (low : LowBytes content) (fault : Option Nat) (p : Player) :
    Started content fault (playWav (some content) none fault p).2 ∧
      (playWav (some content) none fault p).1 = (le32 (ofList content) 10).toInt ∧
      activations (playWav (some content) none fault p).2.trace = activations p.trace + 1 := by
  obtain ⟨q, started, fsobj, wavsize, playsize, idle⟩ := startWav_accepts low p
  rw [playWav, started]
  refine ⟨⟨q, rfl, fsobj, ?_, playsize⟩, rfl, ?_⟩
  · rw [wavsize, toNat_le32]
  · rw [activations_isr, idle]

theorem playWav_refuses (other : ¬ (headerFault = none ∧ LowBytes content)) (fault : Option Nat) (p : Player) :
    Refused p [.fRead .fwav 44, .fClose .fwav] (playWav (some content) headerFault fault p) := by
  have rejected : (if (fRead headerFault ⟨content, 0⟩ 44).ok ∧ (fRead headerFault ⟨content, 0⟩ 44).bytes.length = 44
      then checkHeader (fRead headerFault ⟨content, 0⟩ 44).bytes else none) = none := by
    split
    · next read =>
        obtain ⟨rfl, long⟩ := (fRead_header headerFault content 44).mp read
        rw [fRead_whole long]
        exact (checkHeader_take content long).2 (fun low => other ⟨rfl, low⟩)
    · rfl
  have start : startWav (some content) headerFault p =
      (none, { p with trace := p.trace ++ [.fRead .fwav 44] ++ [.fClose .fwav] }) := by
    simp only [startWav, rejected]
  rw [playWav, start]
  refine ⟨rfl, rfl, rfl, rfl, rfl, ?_⟩
  exact List.append_assoc ..

end

/-- The length of the data is an `int`. -/
theorem toInt_le32_nonneg (content : List (BitVec 8)) :
    0 ≤ (le32 (ofList content) 10).toInt ↔ field32 content 40 < 2 ^ 31 := by
  have below := (le32 (ofList content) 10).isLt
  rw [BitVec.toInt_eq_toNat_cond, ← toNat_le32]
  split
  · omega
  · omega

theorem headerFits_some {content : List (BitVec 8)} (low : LowBytes content) :
    HeaderFits (some content) none ↔ HighBytes content ∧ field32 content 40 < 2 ^ 31 := by
  constructor
  · intro fits
    exact fits content rfl rfl low
  · rintro fits content' found _ _
    rw [← Option.some.inj found]
    exact fits

/-- `play_wav` is right if and only if the bytes that it does not look at are zero and the length of the data fits
an `int`, in a file that it plays. -/
theorem playWav_meets_iff (file : Option (List (BitVec 8))) (headerFault fault : Option Nat) (p : Player) :
    PlayWavMeets file headerFault fault p ↔ HeaderFits file headerFault := by
  cases file with
  | none =>
      refine iff_of_true ⟨rfl, rfl, rfl, rfl, rfl, (List.append_nil _).symm⟩ ?_
      intro content found
      exact absurd found (by simp)
  | some content =>
      by_cases played : headerFault = none ∧ LowBytes content
      · obtain ⟨rfl, low⟩ := played
        obtain ⟨started, result, reads⟩ := playWav_accepts low fault p
        have nonnegative := toInt_le32_nonneg content
        rw [headerFits_some low]
        constructor
        · rintro ⟨plays, refuses⟩
          by_cases qualifies : Qualifies content
          · obtain ⟨_, returned⟩ := plays ⟨rfl, qualifies⟩
            rw [result] at returned
            exact ⟨((qualifies_iff content).mp qualifies).2, nonnegative.mp returned⟩
          · -- The file is played all the same.
            have trace := (refuses (fun wanted => qualifies wanted.2)).trace
            rw [trace, activations_append] at reads
            exact absurd (Nat.add_left_cancel reads) (by decide)
        · rintro ⟨high, small⟩
          have qualifies := (qualifies_iff content).mpr ⟨low, high⟩
          refine ⟨fun _ => ⟨started, ?_⟩, fun other => absurd ⟨rfl, qualifies⟩ other⟩
          rw [result]
          exact nonnegative.mpr small
      · have refused := playWav_refuses played fault p
        refine iff_of_true ⟨?_, fun _ => refused⟩ ?_
        · rintro ⟨sound, qualifies⟩
          exact absurd ⟨sound, ((qualifies_iff content).mp qualifies).1⟩ played
        · rintro content' found sound low
          rw [← Option.some.inj found] at low
          exact absurd ⟨sound, low⟩ played

/-- A file of 3 GB with a header as streaming writers make it: it is played, and the result is negative. -/
theorem playWav_negative :
    (playWav (some (wavHeader 0xc0000000)) none none powerOn).1 = -0x40000000 ∧
      ¬ PlayWavMeets (some (wavHeader 0xc0000000)) none none powerOn := by
  have result : (playWav (some (wavHeader 0xc0000000)) none none powerOn).1 = -0x40000000 := by decide
  refine ⟨result, ?_⟩
  intro meets
  have qualifies : Qualifies (wavHeader 0xc0000000) := ⟨by decide, by decide, by decide, by decide, by decide, by decide⟩
  have returned := (meets.1 ⟨rfl, qualifies⟩).2
  rw [result] at returned
  exact absurd returned (by decide)

end Cineraria.Wav
