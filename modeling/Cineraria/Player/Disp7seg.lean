import Mathlib.Tactic.IntervalCases
import Cineraria.Lib.Run
import Cineraria.Player.PlayWav

/-!
# The time on the seven-segment display

`cineraria_wavplay/disp7seg.c`: 32 times a second `hal_alarm_callback` takes the number of bytes played and shows
minutes and seconds on two displays of two digits each, and a turning disc on a third one.

`play_status` returns the unsigned `g_playsize` as an `int`. From 2^31 bytes on, that is after more than three
hours, it is negative, and so are the indices into the table of the digits (`alarm_meets_iff`).
-/

namespace Cineraria.Disp7seg

open Wav Run

/-- `led7seg_enc` -/
def led7segEnc (a b c d e f g : BitVec 32) : BitVec 32 :=
  ((a &&& 1) <<< 0) ||| ((b &&& 1) <<< 1) ||| ((c &&& 1) <<< 2) ||| ((d &&& 1) <<< 3) ||| ((e &&& 1) <<< 4) |||
    ((f &&& 1) <<< 5) ||| ((g &&& 1) <<< 6)

/-- `ptn_disc` -/
def ptnDisc : List (BitVec 32) :=
  [((1#32 <<< 0) ||| (1#32 <<< 1)) ||| (((1#32 <<< 3) ||| (1#32 <<< 4)) <<< 8),
    ((1#32 <<< 1) ||| (1#32 <<< 2)) ||| (((1#32 <<< 4) ||| (1#32 <<< 5)) <<< 8),
    ((1#32 <<< 2) ||| (1#32 <<< 3)) ||| (((1#32 <<< 5) ||| (1#32 <<< 0)) <<< 8),
    ((1#32 <<< 3) ||| (1#32 <<< 0)) ||| (((1#32 <<< 0) ||| (1#32 <<< 3)) <<< 8)]

/-- `ptn_number`: the ten digits and a dark one. -/
def ptnNumber : List (BitVec 32) :=
  [led7segEnc 1 1 1 1 1 1 0, led7segEnc 0 1 1 0 0 0 0, led7segEnc 1 1 0 1 1 0 1, led7segEnc 1 1 1 1 0 0 1,
    led7segEnc 0 1 1 0 0 1 1, led7segEnc 1 0 1 1 0 1 1, led7segEnc 1 0 1 1 1 1 1, led7segEnc 1 1 1 0 0 1 0,
    led7segEnc 1 1 1 1 1 1 1, led7segEnc 1 1 1 1 0 1 1, led7segEnc 0 0 0 0 0 0 0]

/-- An access to a table, if it is inside. -/
def entry (table : List (BitVec 32)) (i : Int) : Option (BitVec 32) :=
  if 0 ≤ i then table[i.toNat]? else none

/-- What a call writes to the three displays, the counter it leaves, and the ticks to the next call. -/
structure Alarm where
  seg0 : BitVec 32
  seg1 : BitVec 32
  seg2 : BitVec 32
  disccnt : BitVec 32
  ticks : BitVec 32
  deriving DecidableEq, Repr

/-- `hal_alarm_callback`, if every access is inside its table. -/
def halAlarmCallback (ticksPerSecond : BitVec 32) (p : Player) (disccnt : BitVec 32) : Option Alarm := do
  let point := (playStatus p).toInt.tdiv (48000 * 4)
  let disc ← entry ptnDisc (disccnt.sshiftRight 2).toInt
  if point ≠ 0 then
    let point := if point > 99 * 60 + 59 then 99 * 60 + 59 else point
    let sec := point.tmod 60
    let min := point.tdiv 60
    let min1 := min.tmod 10
    let min10 := if min.tdiv 10 = 0 then 10 else min.tdiv 10
    let seconds10 ← entry ptnNumber (sec.tdiv 10)
    let seconds1 ← entry ptnNumber (sec.tmod 10)
    let minutes10 ← entry ptnNumber min10
    let minutes1 ← entry ptnNumber min1
    return {
      seg0 := ~~~((seconds10 <<< 8) ||| seconds1)
      seg1 := ~~~((minutes10 <<< 8) ||| minutes1)
      seg2 := ~~~disc
      disccnt := (disccnt + 1) &&& 15
      ticks := ticksPerSecond / 32 }
  else
    return {
      seg0 := ~~~((1#32 <<< 6) ||| (1#32 <<< (6 + 8)))
      seg1 := ~~~((1#32 <<< 6) ||| (1#32 <<< (6 + 8)))
      seg2 := ~~~disc
      disccnt := disccnt
      ticks := ticksPerSecond / 32 }

/-- The counter after a call. -/
def nextDisccnt (ticksPerSecond : BitVec 32) (p : Player) (disccnt : BitVec 32) : BitVec 32 :=
  match halAlarmCallback ticksPerSecond p disccnt with
  | some a => a.disccnt
  | none => disccnt

/-! ## Reading the display -/

/-- The segments of a digit that are lit. The registers are active low. -/
def lit (data : BitVec 32) (digit : Nat) : BitVec 8 := (~~~data).extractLsb' (8 * digit) 8

/-- The number that a digit shows. -/
def readDigit (data : BitVec 32) (digit : Nat) : Option Nat :=
  (List.range 10).find? fun n => ptnNumber[n]? = some ((lit data digit).setWidth 32)

/-- The minutes and seconds on the display. The first digit of the minutes may be dark. -/
def shown (a : Alarm) : Option (Nat × Nat) := do
  let minutes10 ← if lit a.seg1 1 = 0 then some 0 else readDigit a.seg1 1
  let minutes1 ← readDigit a.seg1 0
  let seconds10 ← readDigit a.seg0 1
  let seconds1 ← readDigit a.seg0 0
  return (10 * minutes10 + minutes1, 10 * seconds10 + seconds1)

/-- The PLAY flag of the status register. -/
def Playing (p : Player) : Prop := p.pcm.status &&& pcmStatusPlayMask ≠ 0

instance (p : Player) : Decidable (Playing p) := inferInstanceAs (Decidable (_ ≠ _))

/-- The seconds that have been played, as far as they can be shown. -/
def seconds (p : Player) : Nat := min (p.gPlaysize.toNat / 192000) 5999

/-- What a call must do: no access is outside a table, and the display shows the time. -/
def AlarmMeets (ticksPerSecond : BitVec 32) (p : Player) (disccnt : BitVec 32) : Prop :=
  ∃ a, halAlarmCallback ticksPerSecond p disccnt = some a ∧
    (Playing p → 192000 ≤ p.gPlaysize.toNat → shown a = some (seconds p / 60, seconds p % 60))

/-- The bytes played are fewer than 2^31. -/
def FitsInt (p : Player) : Prop := Playing p → p.gPlaysize.toNat < 2 ^ 31

/-! ## The tables -/

/-- An entry of the table of the digits. -/
def pattern (n : Nat) : BitVec 32 := ptnNumber.getD n 0

theorem entry_ptnNumber {n : Nat} (within : n < 11) : entry ptnNumber n = some (pattern n) := by
  have length : ptnNumber.length = 11 := rfl
  rw [entry, if_pos (Int.natCast_nonneg n), Int.toNat_natCast, pattern, List.getD_eq_getElem?_getD,
    List.getElem?_eq_getElem (by omega)]
  rfl

theorem entry_negative {table : List (BitVec 32)} {i : Int} (negative : i < 0) : entry table i = none :=
  if_neg (Int.not_le.mpr negative)

/-- Two digits on one display. -/
def digits (a b : Nat) : BitVec 32 := ~~~((pattern a <<< 8) ||| pattern b)

/-- They are read back. -/
theorem read_digits : ∀ a < 11, ∀ b < 10, readDigit (digits a b) 0 = some b ∧
    if a = 10 then lit (digits a b) 1 = 0 else lit (digits a b) 1 ≠ 0 ∧ readDigit (digits a b) 1 = some a := by
  decide +kernel

theorem entry_ptnDisc : ∀ n < 16, (entry ptnDisc ((BitVec.ofNat 32 n).sshiftRight 2).toInt).isSome := by
  decide

/-- The disc has a picture for each value of the counter. -/
theorem exists_disc {disccnt : BitVec 32} (turning : disccnt.toNat < 16) :
    ∃ disc, entry ptnDisc (disccnt.sshiftRight 2).toInt = some disc := by
  have here := entry_ptnDisc disccnt.toNat turning
  rw [BitVec.ofNat_toNat, BitVec.setWidth_eq] at here
  exact Option.isSome_iff_exists.mp here

/-! ## The time -/

section
variable {ticksPerSecond disccnt disc : BitVec 32} {p : Player}

/-- The dashes are no digits. -/
theorem read_dashes : shown {
    seg0 := ~~~((1#32 <<< 6) ||| (1#32 <<< (6 + 8)))
    seg1 := ~~~((1#32 <<< 6) ||| (1#32 <<< (6 + 8)))
    seg2 := ~~~disc
    disccnt := disccnt
    ticks := ticksPerSecond / 32 } = none := by
  have dark : lit (~~~((1#32 <<< 6) ||| (1#32 <<< (6 + 8)))) 1 ≠ 0 := by decide
  have dash : readDigit (~~~((1#32 <<< 6) ||| (1#32 <<< (6 + 8)))) 1 = none := by decide
  unfold shown
  simp only [if_neg dark, dash]
  rfl

/-- What is shown while less than a second has been played. -/
theorem callback_zero (picture : entry ptnDisc (disccnt.sshiftRight 2).toInt = some disc)
    (none : (playStatus p).toInt.tdiv (48000 * 4) = 0) :
    ∃ a, halAlarmCallback ticksPerSecond p disccnt = some a ∧ shown a = Option.none ∧ a.disccnt = disccnt := by
  unfold halAlarmCallback
  simp only [picture, none]
  exact ⟨_, rfl, read_dashes, rfl⟩

/-- Two displays of two digits are read back as the minutes and seconds. -/
theorem read_time (alarm : Alarm) {a b c d : Nat} (ha : a < 10) (hb : b < 10) (hc : c < 10) (hd : d < 10)
    (seg0 : alarm.seg0 = digits c d)
    (seg1 : alarm.seg1 = digits (if a = 0 then 10 else a) b) :
    shown alarm = some (10 * a + b, 10 * c + d) := by
  have right := read_digits c (by omega) d hd
  rw [← seg0, if_neg (by omega)] at right
  by_cases zero : a = 0
  · rw [if_pos zero] at seg1
    have left := read_digits 10 (by decide) b hb
    rw [← seg1, if_pos rfl] at left
    rw [shown, if_pos left.2, left.1, right.1, right.2.2, zero]
    rfl
  · rw [if_neg zero] at seg1
    have left := read_digits a (by omega) b hb
    rw [← seg1, if_neg (by omega)] at left
    rw [shown, if_neg left.2.1, left.2.2, left.1, right.1, right.2.2]
    rfl

/-- What is shown after some seconds. -/
theorem callback_positive {n : Nat} (picture : entry ptnDisc (disccnt.sshiftRight 2).toInt = some disc)
    (point : (playStatus p).toInt.tdiv (48000 * 4) = n) (positive : 0 < n) :
    ∃ a, halAlarmCallback ticksPerSecond p disccnt = some a ∧
      shown a = some (min n 5999 / 60, min n 5999 % 60) ∧ a.disccnt = (disccnt + 1) &&& 15 := by
  have clamped : (if (n : Int) > 99 * 60 + 59 then (99 * 60 + 59 : Int) else n) = (min n 5999 : Nat) := by
    split
    · omega
    · omega
  have some : (n : Int) ≠ 0 := by omega
  unfold halAlarmCallback
  simp only [picture, point, clamped]
  have bounded : min n 5999 < 6000 := by omega
  generalize min n 5999 = t at bounded
  have sec10 : ((t : Int).tmod 60).tdiv 10 = (t % 60 / 10 : Nat) := rfl
  have sec1 : ((t : Int).tmod 60).tmod 10 = (t % 60 % 10 : Nat) := rfl
  have min1 : ((t : Int).tdiv 60).tmod 10 = (t / 60 % 10 : Nat) := rfl
  have min10 : (if ((t : Int).tdiv 60).tdiv 10 = 0 then 10 else ((t : Int).tdiv 60).tdiv 10) =
      (if t / 60 / 10 = 0 then 10 else t / 60 / 10 : Nat) := by
    have same : ((t : Int).tdiv 60).tdiv 10 = (t / 60 / 10 : Nat) := rfl
    rw [same]
    split
    · next zero => rw [if_pos (Int.ofNat_eq_zero.mp zero)]; rfl
    · next other => rw [if_neg (fun zero => other (by rw [zero]; rfl))]
  have place : t / 60 / 10 < 10 := by omega
  have leading : (if t / 60 / 10 = 0 then 10 else t / 60 / 10) < 11 := by
    split
    · omega
    · omega
  rw [sec10, sec1, min1, min10, entry_ptnNumber (by omega), entry_ptnNumber (by omega), entry_ptnNumber leading,
    entry_ptnNumber (by omega)]
  simp only [if_pos some]
  refine ⟨_, rfl, ?_, rfl⟩
  have time := fun alarm => read_time alarm place (by omega : t / 60 % 10 < 10)
    (by omega : t % 60 / 10 < 10) (by omega : t % 60 % 10 < 10)
  rw [time _ rfl rfl, Option.some.injEq, Prod.mk.injEq]
  omega

/-- A negative number of seconds leads out of the table. -/
theorem callback_negative {n : Nat} (point : (playStatus p).toInt.tdiv (48000 * 4) = -n) (positive : 0 < n) :
    halAlarmCallback ticksPerSecond p disccnt = none := by
  rw [Option.eq_none_iff_forall_ne_some]
  intro alarm ran
  have clamped : (if -(n : Int) > 99 * 60 + 59 then (99 * 60 + 59 : Int) else -n) = -n := if_neg (by omega)
  have some : -(n : Int) ≠ 0 := by omega
  have sec10 : ((-(n : Int)).tmod 60).tdiv 10 = -(n % 60 / 10 : Nat) := by
    rw [Int.neg_tmod, Int.neg_tdiv]
    rfl
  have sec1 : ((-(n : Int)).tmod 60).tmod 10 = -(n % 60 % 10 : Nat) := by
    rw [Int.neg_tmod, Int.neg_tmod]
    rfl
  have min10 : ((-(n : Int)).tdiv 60).tdiv 10 = -(n / 60 / 10 : Nat) := by
    rw [Int.neg_tdiv, Int.neg_tdiv]
    rfl
  have min1 : ((-(n : Int)).tdiv 60).tmod 10 = -(n / 60 % 10 : Nat) := by
    rw [Int.neg_tdiv, Int.neg_tmod]
    rfl
  have inside {i : Int} {pattern : BitVec 32} (found : entry ptnNumber i = Option.some pattern) : 0 ≤ i := by
    by_contra negative
    rw [entry_negative (Int.not_le.mp negative)] at found
    exact absurd found (by simp)
  unfold halAlarmCallback at ran
  simp only [point, clamped, if_pos some, Option.bind_eq_bind, Option.bind_eq_some_iff] at ran
  obtain ⟨disc, _, s10, inSec10, s1, inSec1, m10, inMin10, m1, inMin1, _⟩ := ran
  have one := inside inSec10
  have two := inside inSec1
  have three := inside inMin10
  have four := inside inMin1
  rw [sec10] at one
  rw [sec1] at two
  rw [min10] at three
  rw [min1] at four
  split at three
  · omega
  · omega

end

/-! ## Every call -/

theorem nextDisccnt_lt (ticksPerSecond : BitVec 32) (p : Player) {disccnt : BitVec 32}
    (turning : disccnt.toNat < 16) : (nextDisccnt ticksPerSecond p disccnt).toNat < 16 := by
  obtain ⟨disc, picture⟩ := exists_disc turning
  unfold nextDisccnt
  rcases Int.lt_trichotomy ((playStatus p).toInt.tdiv (48000 * 4)) 0 with negative | zero | positive
  · obtain ⟨n, point⟩ := Int.exists_eq_neg_ofNat (Int.le_of_lt negative)
    rw [callback_negative point (by omega)]
    exact turning
  · obtain ⟨alarm, ran, _, still⟩ := callback_zero picture zero
    rw [ran]
    dsimp only
    rw [still]
    exact turning
  · obtain ⟨n, point⟩ := Int.eq_ofNat_of_zero_le (Int.le_of_lt positive)
    obtain ⟨alarm, ran, _, turned⟩ := callback_positive picture point (by omega)
    rw [ran]
    dsimp only
    rw [turned, BitVec.toNat_and]
    exact Nat.lt_of_le_of_lt Nat.and_le_right (by decide)

theorem playStatus_playing {p : Player} (playing : Playing p) : playStatus p = p.gPlaysize := if_pos playing

theorem playStatus_stopped {p : Player} (stopped : ¬ Playing p) : playStatus p = 0 := if_neg stopped

/-- A call shows the time if and only if the bytes played are fewer than 2^31. -/
theorem alarmMeets_of_turning (ticksPerSecond : BitVec 32) (p : Player) {disccnt : BitVec 32}
    (turning : disccnt.toNat < 16) : AlarmMeets ticksPerSecond p disccnt ↔ FitsInt p := by
  obtain ⟨disc, picture⟩ := exists_disc turning
  by_cases playing : Playing p
  · have status := playStatus_playing playing
    unfold FitsInt
    by_cases fits : p.gPlaysize.toNat < 2 ^ 31
    · refine iff_of_true ?_ (fun _ => fits)
      have value : p.gPlaysize.toInt = p.gPlaysize.toNat := BitVec.toInt_eq_toNat_of_lt (by omega)
      have point : (playStatus p).toInt.tdiv (48000 * 4) = (p.gPlaysize.toNat / 192000 : Nat) := by
        rw [status, value]
        rfl
      rcases Nat.eq_zero_or_pos (p.gPlaysize.toNat / 192000) with zero | positive
      · rw [zero] at point
        obtain ⟨alarm, ran, _, _⟩ := callback_zero picture point
        refine ⟨alarm, ran, ?_⟩
        intro _ elapsed
        omega
      · obtain ⟨alarm, ran, time, _⟩ := callback_positive picture point positive
        exact ⟨alarm, ran, fun _ _ => time⟩
    · refine iff_of_false ?_ (fun small => fits (small playing))
      rintro ⟨alarm, ran, time⟩
      have time := time playing (by omega)
      have below := p.gPlaysize.isLt
      have value : p.gPlaysize.toInt = -((2 ^ 32 - p.gPlaysize.toNat : Nat) : Int) := by
        rw [BitVec.toInt_eq_toNat_cond, if_neg (by omega)]
        omega
      have point : (playStatus p).toInt.tdiv (48000 * 4) = -((2 ^ 32 - p.gPlaysize.toNat) / 192000 : Nat) := by
        rw [status, value, Int.neg_tdiv]
        rfl
      rcases Nat.eq_zero_or_pos ((2 ^ 32 - p.gPlaysize.toNat) / 192000) with zero | positive
      · rw [zero] at point
        obtain ⟨alarm', ran', dashes, _⟩ := callback_zero picture point
        rw [ran] at ran'
        rw [Option.some.inj ran', dashes] at time
        exact absurd time (by simp)
      · rw [callback_negative point positive] at ran
        exact absurd ran (by simp)
  · refine iff_of_true ?_ (fun started => absurd started playing)
    have point : (playStatus p).toInt.tdiv (48000 * 4) = 0 := by
      rw [playStatus_stopped playing]
      rfl
    obtain ⟨alarm, ran, _, _⟩ := callback_zero picture point
    exact ⟨alarm, ran, fun started => absurd started playing⟩

/-- The display is right in every call if and only if in none of them 2^31 bytes or more have been played. -/
theorem alarm_meets_iff (ticksPerSecond : BitVec 32) (calls : List Player) :
    EveryStep (nextDisccnt ticksPerSecond) (AlarmMeets ticksPerSecond) 0 calls ↔ ∀ p ∈ calls, FitsInt p := by
  have same : EveryStep (nextDisccnt ticksPerSecond) (AlarmMeets ticksPerSecond) 0 calls ↔
      EveryStep (nextDisccnt ticksPerSecond) (fun p _ => FitsInt p) 0 calls := by
    apply everyStep_congr (fun disccnt => disccnt.toNat < 16)
    · intro p disccnt turning
      exact nextDisccnt_lt ticksPerSecond p turning
    · intro p disccnt turning
      exact alarmMeets_of_turning ticksPerSecond p turning
    · decide
  rw [same, everyStep_forall]

/-- A player in the fourth hour of a stream. -/
def longPlayed : Player :=
  { powerOn with gPlaysize := 0x80000000, pcm := { powerOn.pcm with fifo := [0] } }

theorem alarm_long : halAlarmCallback 1000 longPlayed 0 = none ∧
    ¬ EveryStep (nextDisccnt 1000) (AlarmMeets 1000) 0 [longPlayed] := by
  have outside : halAlarmCallback 1000 longPlayed 0 = none := by decide
  refine ⟨outside, ?_⟩
  rintro ⟨⟨alarm, ran, _⟩, _⟩
  rw [outside] at ran
  exact absurd ran (by simp)

end Cineraria.Disp7seg
