import Cineraria.Lib.Run
import Cineraria.Vga.DataCount
import Cineraria.Vga.LineAddress
import Cineraria.Vga.Picture

/-!
# The frame on the display

The whole way from the framebuffer to the video outputs. A line pulse passes three registers of the bus clock, is
answered with a burst, and the words of the burst are read from the line buffer when the active part of the line comes.
While no word is read before it has come, every master that the pulse finds is idle, so that the row of the framebuffer
that is fetched is the one of the line.
-/

namespace Cineraria.Vga

open Clocked Run

/-! ## The line pulses of a frame -/

/-- The line whose sync pulse has come last. -/
def Syncgen.line (t : Timing) (s : Syncgen) : Nat :=
  if s.hcount < t.hEnd then s.vcount
  else if s.vcount = 0 then t.vTotal - 1
  else s.vcount - 1

/-- The line pulses that the frame has had so far. -/
def Syncgen.rows (t : Timing) (s : Syncgen) : Nat :=
  if s.scanenaReg then min (s.line t + 1 - t.vStart) t.vActive else 0

section
variable {t : Timing} {s : Syncgen}

theorem rows_frame (left : s.hcount = 0) (top : s.vcount = 0) : s.rows t = 0 := by
  obtain ⟨⟨hStart, hEnd, -, hSync, -⟩, ⟨vStart, -, -, vSync, vBackp, -⟩⟩ := t.parts
  have first : s.line t = 0 := by
    rw [Syncgen.line, left, if_pos (by omega), top]
  rw [Syncgen.rows, first]
  split <;> omega

theorem Syncgen.Scans.rows {c v : Nat} (scans : s.Scans c v) (active : t.ActiveLine v) (within : c < t.hEnd) :
    s.rows t = v - t.vStart + 1 := by
  obtain ⟨left, top, on⟩ := scans
  obtain ⟨-, ⟨-, vEnd, -⟩⟩ := t.parts
  obtain ⟨below, above⟩ := active
  rw [Syncgen.rows, if_pos on, Syncgen.line, left, if_pos within, top]
  omega

theorem Syncgen.Aligned.rows_line (aligned : s.Aligned t) (i : ScanInput) {v : Nat} (active : t.ActiveLine v)
    (scans : (s.step t i).Scans 0 v) : (s.step t i).rows t = s.rows t + 1 := by
  obtain ⟨⟨hStart, hEnd, hFits, hSync, -⟩, ⟨vStart, vEnd, vFits, vSync, vBackp, -⟩⟩ := t.parts
  obtain ⟨below, above⟩ := active
  rw [scans.rows ⟨below, above⟩ (by omega)]
  obtain ⟨left, top, on⟩ := scans
  have hcount := aligned.hcount_lt
  simp only [Syncgen.step] at left top on
  have wraps : s.hcount + 1 = t.hTotal := by
    by_contra more
    rw [if_neg more] at left
    omega
  have row : s.vcount = v := by
    rw [if_neg (by omega)] at top
    exact top
  rw [if_neg (by omega)] at on
  rw [Syncgen.rows, if_pos on, Syncgen.line, if_neg (by omega), if_neg (by omega), row]
  omega

theorem Syncgen.Aligned.rows_quiet (aligned : s.Aligned t) (i : ScanInput)
    (noFrame : ¬ ((s.step t i).hcount = 0 ∧ (s.step t i).vcount = 0))
    (noLine : ∀ v, t.ActiveLine v → ¬ (s.step t i).Scans 0 v) : (s.step t i).rows t = s.rows t := by
  obtain ⟨⟨hStart, hEnd, hFits, hSync, hBackp, -⟩, ⟨vStart, vEnd, vFits, vSync, vBackp, -⟩⟩ := t.parts
  have hcount := aligned.hcount_lt
  have vcount := aligned.vcount_lt
  by_cases origin : s.hcount = 0 ∧ s.vcount = 0
  · -- The enable is taken over, but no line of the row is active.
    have left : (s.step t i).hcount = 1 := (if_neg (by omega)).trans (by omega)
    have top : (s.step t i).vcount = 0 := (if_neg (by omega)).trans origin.2
    have first : (s.step t i).line t = 0 := by rw [Syncgen.line, left, if_pos (by omega), top]
    rw [rows_frame origin.1 origin.2, Syncgen.rows, first]
    split <;> omega
  · have enable : (s.step t i).scanenaReg = s.scanenaReg := if_neg origin
    rw [Syncgen.rows, Syncgen.rows, enable]
    by_cases on : s.scanenaReg = true
    · rw [if_pos on, if_pos on]
      by_cases wraps : s.hcount + 1 = t.hTotal
      · have left : (s.step t i).hcount = 0 := if_pos wraps
        have top : (s.step t i).vcount = s.vcount := if_neg (by omega)
        have inactive : ¬ t.ActiveLine s.vcount := fun active =>
          noLine s.vcount active ⟨left, top, enable.trans on⟩
        have below : s.vcount ≠ 0 := fun zero => noFrame ⟨left, top.trans zero⟩
        rw [Timing.ActiveLine] at inactive
        rw [Syncgen.line, Syncgen.line, left, top, if_pos (by omega), if_neg (by omega), if_neg below]
        omega
      · have same : (s.step t i).line t = s.line t := by
          simp only [Syncgen.line, Syncgen.step]
          grind
        rw [same]
    · rw [if_neg on, if_neg on]

end

/-- What is known of the timing from clock to clock. -/
structure Scanning (t : Timing) (sync : Nat → Syncgen) : Prop where
  aligned : ∀ n, (sync n).Aligned t
  pulse : ∀ n, (sync n).LinePulse t
  next : ∀ n, ∃ i, sync (n + 1) = (sync n).step t i
  start : (sync 0).vcount ≠ 0 ∧ (sync 0).scanenaReg = false

namespace Scanning
variable {t : Timing} {sync : Nat → Syncgen} (scanning : Scanning t sync)
include scanning

theorem frame_rises (n : Nat) :
    Rises (fun k => (sync k).frameReg) n ↔ (sync (n + 1)).hcount = 0 ∧ (sync (n + 1)).vcount = 0 := by
  obtain ⟨i, next⟩ := scanning.next n
  rw [Rises, next]
  exact (scanning.aligned n).frame_rises i

theorem line_rises (n : Nat) :
    Rises (fun k => (sync k).lineReg) n ↔ ∃ v, t.ActiveLine v ∧ (sync (n + 1)).Scans 0 v := by
  obtain ⟨i, next⟩ := scanning.next n
  rw [Rises, next]
  exact (scanning.aligned n).line_rises (scanning.pulse n) i

theorem rows_line {n v : Nat} (active : t.ActiveLine v) (scans : (sync (n + 1)).Scans 0 v) :
    (sync (n + 1)).rows t = (sync n).rows t + 1 := by
  obtain ⟨i, next⟩ := scanning.next n
  rw [next] at scans ⊢
  exact (scanning.aligned n).rows_line i active scans

theorem rows_quiet {n : Nat} (noFrame : ¬ Rises (fun k => (sync k).frameReg) n)
    (noLine : ¬ Rises (fun k => (sync k).lineReg) n) : (sync (n + 1)).rows t = (sync n).rows t := by
  rw [scanning.frame_rises] at noFrame
  rw [scanning.line_rises] at noLine
  obtain ⟨i, next⟩ := scanning.next n
  rw [next] at noFrame noLine ⊢
  exact (scanning.aligned n).rows_quiet i noFrame fun v active scans => noLine ⟨v, active, scans⟩

/-- A line goes on. -/
theorem scans_add {m c v : Nat} (active : t.ActiveLine v) (scans : (sync m).Scans c v) {k : Nat}
    (within : c + k < t.hEnd) : (sync (m + k)).Scans (c + k) v := by
  induction k with
  | zero => exact scans
  | succ k ih =>
      obtain ⟨i, next⟩ := scanning.next (m + k)
      rw [← Nat.add_assoc, ← Nat.add_assoc, next]
      exact ((scanning.aligned (m + k)).scans_step i active within).mpr (ih (by omega))

/-- Every clock of a line comes after the sync pulse of the line. -/
theorem scans_back {c v : Nat} (active : t.ActiveLine v) {n : Nat} (scans : (sync n).Scans c v)
    (within : c < t.hEnd) : ∃ m, n = m + c ∧ (sync m).Scans 0 v := by
  induction c generalizing n with
  | zero => exact ⟨n, rfl, scans⟩
  | succ c ih =>
      cases n with
      | zero => exact absurd (scanning.start.2.symm.trans scans.2.2) (by decide)
      | succ n =>
          obtain ⟨i, next⟩ := scanning.next n
          rw [next, (scanning.aligned n).scans_step i active within] at scans
          obtain ⟨m, rfl, first⟩ := ih scans (by omega)
          exact ⟨m, rfl, first⟩

/-- No frame begins within a line. -/
theorem frame_before {f m n v : Nat} (origin : (sync f).hcount = 0 ∧ (sync f).vcount = 0) (active : t.ActiveLine v)
    (scans : (sync m).Scans 0 v) (within : n < m + t.hEnd) (after : f ≤ n) : f ≤ m := by
  obtain ⟨-, ⟨vStart, -, -, vSync, -⟩⟩ := t.parts
  by_contra later
  have inside := scanning.scans_add active scans (k := f - m) (by omega)
  rw [show m + (f - m) = f by omega, Syncgen.Scans, origin.2] at inside
  have := active.1
  omega

/-- The row in which a frame begins is not active. -/
theorem frame_row {f : Nat} (origin : (sync f).hcount = 0 ∧ (sync f).vcount = 0) {k : Nat} (within : k < t.hEnd) :
    (sync (f + k)).hcount = k ∧ (sync (f + k)).vcount = 0 := by
  obtain ⟨⟨-, -, hFits, -⟩, -⟩ := t.parts
  induction k with
  | zero => exact origin
  | succ k ih =>
      obtain ⟨left, top⟩ := ih (by omega)
      obtain ⟨i, next⟩ := scanning.next (f + k)
      rw [← Nat.add_assoc, next]
      simp only [Syncgen.step, left, top]
      rw [if_neg (by omega), if_neg (by omega)]
      exact ⟨rfl, rfl⟩

end Scanning

/-! ## The pulses on the bus side -/

/-- In clock `n` of the video side, the registers of the bus clock hold the pulses of the clocks `a`, `b` and `c`. -/
structure Sampled (sync : Nat → Syncgen) (n a b c : Nat) (s : Screen) : Prop where
  now : s.sync = sync n
  frame : s.fs0Reg = (sync a).frameReg ∧ s.fs1Reg = (sync b).frameReg ∧ s.fs2Reg = (sync c).frameReg
  line : s.ls0Reg = (sync a).lineReg ∧ s.ls1Reg = (sync b).lineReg ∧ s.ls2Reg = (sync c).lineReg
  order : c ≤ b ∧ b ≤ a ∧ a ≤ n
  near : n ≤ a + 1 ∧ a ≤ b + 1 ∧ b ≤ c + 1

/-- Two successive samples of a signal that miss no clock. -/
theorem edge_iff {x : Nat → Bool} {b c : Nat} (order : c ≤ b) (near : b ≤ c + 1) :
    (!x c && x b) = true ↔ b = c + 1 ∧ Rises x c := by
  rw [Rises, Bool.and_eq_true, Bool.not_eq_true']
  constructor
  · rintro ⟨down, up⟩
    rcases Nat.le_iff_lt_or_eq.mp order with later | rfl
    · obtain rfl : b = c + 1 := by omega
      exact ⟨rfl, down, up⟩
    · exact absurd (down.symm.trans up) (by decide)
  · rintro ⟨rfl, rises⟩
    exact rises

namespace Sampled
variable {t : Timing} {d : Display} {sync : Nat → Syncgen} {n a b c f : Nat} {s : Screen}

theorem bus (sampled : Sampled sync n a b c s) (i : BusInput) : Sampled sync n n a b (s.step d (.m1 i)) where
  now := sampled.now
  frame := ⟨congrArg Syncgen.frameReg sampled.now, sampled.frame.1, sampled.frame.2.1⟩
  line := ⟨congrArg Syncgen.lineReg sampled.now, sampled.line.1, sampled.line.2.1⟩
  order := ⟨sampled.order.2.1, sampled.order.2.2, Nat.le_refl n⟩
  near := ⟨Nat.le_succ n, sampled.near.1, sampled.near.2.1⟩

theorem video (sampled : Sampled sync n n b c s) {i : ScanInput} (next : sync (n + 1) = s.sync.step d.timing i) :
    Sampled sync (n + 1) n b c (s.step d (.video i)) where
  now := next.symm
  frame := sampled.frame
  line := sampled.line
  order := ⟨sampled.order.1, sampled.order.2.1, Nat.le_succ n⟩
  near := ⟨Nat.le_refl _, sampled.near.2⟩

theorem linestart_iff (sampled : Sampled sync n a b c s) (i : BusInput) :
    (s.m1Input i).linestart = true ↔ b = c + 1 ∧ Rises (fun k => (sync k).lineReg) c := by
  rw [← edge_iff sampled.order.1 sampled.near.2.2, ← sampled.line.2.1, ← sampled.line.2.2]
  rfl

theorem framestart_iff (sampled : Sampled sync n a b c s) (i : BusInput) :
    (s.m1Input i).framestart = true ↔ b = c + 1 ∧ Rises (fun k => (sync k).frameReg) c := by
  rw [← edge_iff sampled.order.1 sampled.near.2.2, ← sampled.frame.2.1, ← sampled.frame.2.2]
  rfl

/-- Without a pulse the two clocks belong to the same line. -/
theorem quiet (sampled : Sampled sync n a b c s) (scanning : Scanning t sync)
    (origin : (sync f).hcount = 0 ∧ (sync f).vcount = 0) {i : BusInput}
    (noFrame : ¬ (s.m1Input i).framestart = true) (noLine : ¬ (s.m1Input i).linestart = true) :
    (sync b).rows t = (sync c).rows t ∧ (f ≤ b → f ≤ c) := by
  rw [sampled.framestart_iff, not_and] at noFrame
  rw [sampled.linestart_iff, not_and] at noLine
  rcases Nat.le_iff_lt_or_eq.mp sampled.order.1 with later | rfl
  · obtain rfl : b = c + 1 := by have := sampled.near.2.2; omega
    refine ⟨scanning.rows_quiet (noFrame rfl) (noLine rfl), ?_⟩
    intro started
    by_contra before
    obtain rfl : f = c + 1 := by omega
    exact noFrame rfl ((scanning.frame_rises c).mpr origin)
  · exact ⟨rfl, id⟩

end Sampled

/-! ## The master -/

/-- The states that the master takes. -/
def Avm.Live (s : Avm) : Prop := s.avmState = .idle ∨ s.avmState = .readIssue ∨ s.avmState = .dataRead

section
variable (g : Generics) (i : M1Input) (s : Avm)

theorem Avm.takes_iff : s.takes i = true ↔ s.avmState = .idle ∧ i.linestart = true := by
  rw [Avm.takes, Bool.and_eq_true, beq_iff_eq]

theorem Avm.Live.step (live : s.Live) : (s.step g i).Live := by
  rcases live with st | st | st <;> simp only [Avm.Live, Avm.step, Avm.sequence, st] <;> split <;> simp [st]
  by_cases last : s.datacount + 1 = g.burstcycle <;> simp [last]

/-- Only a pulse that is taken makes the master busy. -/
theorem Avm.busy_of_step (busy : (s.step g i).avmState ≠ .idle) : s.takes i = true ∨ s.avmState ≠ .idle := by
  rw [or_iff_not_imp_right, not_not]
  intro idle
  rw [s.takes_iff]
  refine ⟨idle, ?_⟩
  by_contra quiet
  refine busy ?_
  simp only [Avm.step, Avm.sequence, idle]
  rw [if_neg quiet]
  exact idle

theorem Avm.step_addrReg : (s.step g i).addrReg =
    if s.takes i then s.topaddrReg.extractLsb' 2 30 + s.lineoffsReg.extractLsb' 2 30 else s.addrReg := by
  cases st : s.avmState <;> simp only [Avm.step, Avm.sequence, Avm.takes, st]
  case idle => cases i.linestart <;> simp
  case readIssue => split <;> simp
  case dataRead => split <;> simp
  all_goals simp

theorem Avm.step_m1Address (kept : ¬ s.takes i = true) : (s.step g i).m1Address = s.m1Address := by
  rw [Avm.m1Address, Avm.step_addrReg, if_neg kept, Avm.m1Address]

theorem Avm.step_lineoffsReg : (s.step g i).lineoffsReg =
    if i.framestart then 0
    else if s.takes i then s.lineoffsReg + BitVec.ofInt 32 g.lineoffsetbytes
    else s.lineoffsReg := by
  simp only [s.takes_iff]
  rfl

/-- All words of the burst have come. -/
theorem Avm.Counting.idle {g : Generics} {s : Avm} (counting : s.Counting g) (live : s.Live)
    (whole : g.burstcycle ≤ s.datacount) : s.avmState = .idle := by
  rcases live with idle | reads
  · exact idle
  · exact absurd (counting.unfinished reads) (by omega)

end

/-! ## The fetched line -/

/-- The word at an address, whose lower half has the lower address. -/
def wordAt (memory : BitVec 32 → BitVec 16) (a : BitVec 32) : BitVec 32 := memory (a + 2) ++ memory a

/-- The address of a row of the framebuffer. -/
def Display.rowAddress (d : Display) (base : BitVec 32) (y : Nat) : BitVec 32 :=
  base + BitVec.ofInt 32 (y * d.lineoffsetbytes)

/-- The address of the word of the burst that comes next. -/
def Avm.nextAddress (s : Avm) : BitVec 32 := s.m1Address + BitVec.ofNat 32 (4 * s.datacount)

/-- The slave port holds the base, and the memory answers a burst with its words in order. -/
structure Feeds (memory : BitVec 32 → BitVec 16) (base : BitVec 32) (i : BusInput) (s : Screen) : Prop where
  held : i.framebuffAddr = base
  answered : s.avm.readdatavalidSig (s.m1Input i) = true → i.readdata = wordAt memory s.avm.nextAddress

/-- A line pulse finds the master idle, and the burst that answers it begins at the row of the line that is scanned. -/
def Answered (d : Display) (base : BitVec 32) (i : BusInput) (s : Screen) : Prop :=
  (s.m1Input i).linestart = true → s.avm.avmState = .idle ∧ ∃ v k, d.timing.ActiveLine v ∧ k ≤ 2 ∧ s.sync.Scans k v ∧
    (s.avm.step d.generics (s.m1Input i)).m1Address = d.rowAddress base (v - d.timing.vStart)

/-- The bus side, in a frame that has begun in clock `f`. While the master is busy it fetches the line of clock `n`,
and what it has fetched is of the row of the pulse that it has answered last. -/
structure Fetching (d : Display) (memory : BitVec 32 → BitVec 16) (base : BitVec 32) (sync : Nat → Syncgen)
    (f n a b c : Nat) (s : Screen) : Prop where
  live : s.avm.Live
  counting : s.avm.Counting d.generics
  busy : s.avm.avmState ≠ .idle → f ≤ c ∧ ∃ v k, d.timing.ActiveLine v ∧ k < d.timing.hEnd ∧
    (sync n).Scans k v ∧ (sync c).rows d.timing = v - d.timing.vStart + 1
  top : f ≤ a → s.avm.topaddrReg = base
  offset : f ≤ c → s.avm.lineoffsReg = BitVec.ofInt 32 ((sync c).rows d.timing * d.lineoffsetbytes)
  address : f ≤ c → ∀ y, (sync c).rows d.timing = y + 1 → s.avm.m1Address = d.rowAddress base y
  content : f ≤ c → 0 < (sync c).rows d.timing → ∀ k < s.avm.datacount,
    s.buffer.mem (BitVec.ofNat 9 k) = wordAt memory (s.avm.m1Address + BitVec.ofNat 32 (4 * k))

namespace Fetching
variable {d : Display} {memory : BitVec 32 → BitVec 16} {base : BitVec 32} {sync : Nat → Syncgen}
  {f n a b c : Nat} {s : Screen} (fetching : Fetching d memory base sync f n a b c s)
  (scanning : Scanning d.timing sync) (sampled : Sampled sync n a b c s)
  (origin : (sync f).hcount = 0 ∧ (sync f).vcount = 0) (started : f ≤ n)
include fetching scanning sampled origin started

/-- A line pulse finds the master idle. -/
theorem pulse {i : BusInput} (linestart : (s.m1Input i).linestart = true) :
    s.avm.avmState = .idle ∧ b = c + 1 ∧ f ≤ c ∧ ∃ v, d.timing.ActiveLine v ∧ (sync b).Scans 0 v := by
  obtain ⟨⟨hStart, hEnd, -, hSync, hBackp, hActive⟩, ⟨vStart, -, -, vSync, -⟩⟩ := d.timing.parts
  obtain ⟨rfl, rises⟩ := (sampled.linestart_iff i).mp linestart
  obtain ⟨v, active, scans⟩ := (scanning.line_rises c).mp rises
  have near : n ≤ (c + 1) + 2 := by have := sampled.near; omega
  have after : c + 1 ≤ n := by have := sampled.order; omega
  have within : f ≤ c + 1 := scanning.frame_before origin active scans (by omega) started
  have first : f ≤ c := by
    by_contra later
    obtain rfl : f = c + 1 := by omega
    have top := scans.2.1.symm.trans origin.2
    have := active.1
    omega
  refine ⟨?_, rfl, first, v, active, scans⟩
  by_contra busy
  obtain ⟨-, u, k, inside, before, now, rows⟩ := fetching.busy busy
  -- The line of clock `n` is that of the pulse, which would have been taken before.
  have here := scanning.scans_add active scans (k := n - (c + 1)) (by omega)
  rw [show c + 1 + (n - (c + 1)) = n by omega] at here
  obtain rfl : u = v := now.2.1.symm.trans here.2.1
  have next := scanning.rows_line active scans
  rw [scans.rows active (by omega)] at next
  omega

omit origin started in
/-- A frame pulse finds the master idle. -/
theorem framePulse {i : BusInput} (framestart : (s.m1Input i).framestart = true) :
    s.avm.avmState = .idle ∧ (sync b).rows d.timing = 0 := by
  obtain ⟨⟨hStart, hEnd, -, hSync, hBackp, hActive⟩, ⟨vStart, -, -, vSync, -⟩⟩ := d.timing.parts
  obtain ⟨rfl, rises⟩ := (sampled.framestart_iff i).mp framestart
  have row := (scanning.frame_rises c).mp rises
  have near : n ≤ (c + 1) + 2 := by have := sampled.near; omega
  have after : c + 1 ≤ n := by have := sampled.order; omega
  refine ⟨?_, rows_frame row.1 row.2⟩
  by_contra busy
  obtain ⟨-, v, k, active, before, now, -⟩ := fetching.busy busy
  have here := scanning.frame_row row (k := n - (c + 1)) (by omega)
  rw [show c + 1 + (n - (c + 1)) = n by omega, now.2.1] at here
  have := active.1
  omega

/-- An edge of the bus clock. -/
theorem bus {i : BusInput} (feeds : Feeds memory base i s) (words : 0 < d.generics.burstcycle)
    (fits : d.generics.burstcycle ≤ 512) (word : base.toNat % 4 = 0) (aligned : 4 ∣ d.lineoffsetbytes) :
    Fetching d memory base sync f n n a b (s.step d (.m1 i)) := by
  obtain ⟨⟨hStart, hEnd, -, hSync, hBackp, hActive⟩, -⟩ := d.timing.parts
  have order := sampled.order
  have near := sampled.near
  have pulse := fetching.pulse scanning sampled origin started (i := i)
  have framePulse := fetching.framePulse scanning sampled (i := i)
  have quiet := sampled.quiet scanning origin (i := i)
  constructor
  case live => exact fetching.live.step _ _ _
  case counting => exact fetching.counting.step words _
  case top => exact fun _ => feeds.held
  case busy =>
    intro busy
    rcases Avm.busy_of_step _ _ _ busy with takes | before
    · obtain ⟨-, rfl, first, v, active, scans⟩ := pulse ((Avm.takes_iff _ _).mp takes).2
      have here := scanning.scans_add active scans (k := n - (c + 1)) (by omega)
      rw [show c + 1 + (n - (c + 1)) = n by omega, Nat.zero_add] at here
      exact ⟨by omega, v, n - (c + 1), active, by omega, here, scans.rows active (by omega)⟩
    · have noLine : ¬ (s.m1Input i).linestart = true := fun line => before (pulse line).1
      have noFrame : ¬ (s.m1Input i).framestart = true := fun frame => before (framePulse frame).1
      obtain ⟨first, v, k, active, within, scans, rows⟩ := fetching.busy before
      exact ⟨by omega, v, k, active, within, scans, (quiet noFrame noLine).1.trans rows⟩
  case offset =>
    intro first
    refine (Avm.step_lineoffsReg _ _ _).trans ?_
    by_cases frame : (s.m1Input i).framestart = true
    · rw [if_pos frame, (framePulse frame).2]
      simp
    · rw [if_neg frame]
      by_cases line : (s.m1Input i).linestart = true
      · obtain ⟨idle, rfl, earlier, v, active, scans⟩ := pulse line
        rw [if_pos ((Avm.takes_iff _ _).mpr ⟨idle, line⟩), fetching.offset earlier, scanning.rows_line active scans,
          ← BitVec.ofInt_add]
        congr 1
        push_cast
        exact (Int.add_mul _ _ _ |>.trans (by rw [Int.one_mul]; rfl)).symm
      · rw [if_neg (fun takes => line ((Avm.takes_iff _ _).mp takes).2), (quiet frame line).1]
        exact fetching.offset ((quiet frame line).2 first)
  case address =>
    intro first y row
    by_cases line : (s.m1Input i).linestart = true
    · obtain ⟨idle, rfl, earlier, v, active, scans⟩ := pulse line
      have before : (sync c).rows d.timing = y := by
        have next := scanning.rows_line active scans
        omega
      refine (congrArg (· ++ 0#2) (Avm.step_addrReg _ _ _)).trans ?_
      rw [if_pos ((Avm.takes_iff _ _).mpr ⟨idle, line⟩), fetching.top (by omega), fetching.offset earlier, before]
      exact append_word word (ofInt_word (Dvd.dvd.mul_left aligned _))
    · have frame : ¬ (s.m1Input i).framestart = true := fun frame => by
        have := (framePulse frame).2
        omega
      obtain ⟨same, earlier⟩ := quiet frame line
      refine (Avm.step_m1Address _ _ _ fun takes => line ((Avm.takes_iff _ _).mp takes).2).trans ?_
      exact fetching.address (earlier first) y (same.symm.trans row)
  case content =>
    intro first pulses k below
    have frame : ¬ (s.m1Input i).framestart = true := fun frame => by
      have := (framePulse frame).2
      omega
    have counts := step_datacount d.generics (s.m1Input i) s.avm
    by_cases takes : s.avm.takes (s.m1Input i) = true
    · rw [if_pos takes] at counts
      exact absurd (counts ▸ below) (Nat.not_lt_zero k)
    · have line : ¬ (s.m1Input i).linestart = true := fun line =>
        takes ((Avm.takes_iff _ _).mpr ⟨(pulse line).1, line⟩)
      obtain ⟨same, earlier⟩ := quiet frame line
      have content := fetching.content (earlier first) (by omega)
      rw [if_neg takes] at counts
      change k < (s.avm.step d.generics (s.m1Input i)).datacount at below
      change (if _ then _ else _) = wordAt memory ((s.avm.step d.generics (s.m1Input i)).m1Address + _)
      rw [Avm.step_m1Address _ _ _ takes]
      rw [counts] at below
      by_cases valid : s.avm.readdatavalidSig (s.m1Input i) = true
      · rw [if_pos valid] at below
        have room : s.avm.datacount < d.generics.burstcycle := by
          have reads := valid
          rw [Avm.readdatavalidSig, Bool.and_eq_true, beq_iff_eq] at reads
          exact fetching.counting.unfinished (.inr reads.1)
        by_cases last : k = s.avm.datacount
        · rw [if_pos ⟨valid, by rw [last]⟩, feeds.answered valid, Avm.nextAddress, last]
        · rw [if_neg]
          · exact content k (by omega)
          · rintro ⟨-, same⟩
            have := congrArg BitVec.toNat same
            rw [BitVec.toNat_ofNat, BitVec.toNat_ofNat] at this
            omega
      · rw [if_neg valid] at below
        rw [if_neg fun both => valid both.1]
        exact content k below

/-- A pulse is answered with the row of its line. -/
theorem answered {i : BusInput} (feeds : Feeds memory base i s) (words : 0 < d.generics.burstcycle)
    (fits : d.generics.burstcycle ≤ 512) (word : base.toNat % 4 = 0) (aligned : 4 ∣ d.lineoffsetbytes) :
    Answered d base i s := by
  intro linestart
  obtain ⟨⟨hStart, hEnd, -, hSync, hBackp, hActive⟩, -⟩ := d.timing.parts
  obtain ⟨idle, rfl, first, v, active, scans⟩ := fetching.pulse scanning sampled origin started linestart
  have order := sampled.order
  have near := sampled.near
  have here := scanning.scans_add active scans (k := n - (c + 1)) (by omega)
  rw [show c + 1 + (n - (c + 1)) = n by omega, Nat.zero_add, ← sampled.now] at here
  have next := fetching.bus scanning sampled origin started feeds words fits word aligned
  refine ⟨idle, v, n - (c + 1), active, by omega, here, ?_⟩
  exact next.address (by omega) _ (scans.rows active (by omega))

omit origin started in
/-- An edge of the video clock, if the words that the pixels need have come. -/
theorem video (i : ScanInput)
    (ahead : s.sync.pixelena = true → (s.sync.hcount - d.timing.hStart) / 2 < s.avm.datacount) :
    Fetching d memory base sync f (n + 1) a b c (s.step d (.video i)) where
  live := fetching.live
  counting := fetching.counting
  top := fetching.top
  offset := fetching.offset
  address := fetching.address
  content := fetching.content
  busy := by
    intro busy
    obtain ⟨⟨hStart, hEnd, -, hSync, hBackp, hActive⟩, -⟩ := d.timing.parts
    obtain ⟨first, v, k, active, within, scans, rows⟩ := fetching.busy busy
    -- At the last pixel of the line the burst is over.
    by_cases last : k + 1 = d.timing.hEnd
    · refine absurd (fetching.counting.idle fetching.live ?_) busy
      have ena : s.sync.pixelena = true := by
        rw [sampled.now, pixelena_iff (scanning.aligned n), scans.1, scans.2.1]
        exact ⟨scans.2.2, by omega, active⟩
      have enough := ahead ena
      rw [sampled.now, scans.1] at enough
      have half : d.generics.burstcycle = d.timing.hActive / 2 := rfl
      omega
    · exact ⟨first, v, k + 1, active, by omega, scanning.scans_add active scans (k := 1) (by omega), rows⟩

end Fetching

/-! ## Runs -/

/-- What comes in one clock of the video side: the framebuffer, and the words that the pixel of the clock needs. -/
structure Supplied (d : Display) (memory : BitVec 32 → BitVec 16) (base : BitVec 32) (c : VideoClock) (p : Picture) :
    Prop where
  feeds : EveryStep (fun i p => p.busEdge d i) (fun i p => Feeds memory base i p.screen) p c.bus
  ahead : p.screen.sync.pixelena = true →
    (p.screen.sync.hcount - d.timing.hStart) / 2 < (p.settled d c).screen.avm.datacount

section
variable {d : Display} {sync : Nat → Syncgen} {n a b c f : Nat}

theorem sampled_settled {bus : List BusInput} {p : Picture} (clocked : bus ≠ [])
    (sampled : Sampled sync n a b c p.screen) :
    ∃ b c, Sampled sync n n b c (bus.foldl (Picture.busEdge d) p).screen := by
  induction bus generalizing p a b c with
  | nil => exact absurd rfl clocked
  | cons i is ih =>
      have first : Sampled sync n n a b (p.busEdge d i).screen := sampled.bus i
      cases is with
      | nil => exact ⟨a, b, first⟩
      | cons j js => exact ih (List.cons_ne_nil j js) first

theorem counting_settled (words : 0 < d.generics.burstcycle) {bus : List BusInput} {p : Picture}
    (live : p.screen.avm.Live) (counting : p.screen.avm.Counting d.generics) :
    (bus.foldl (Picture.busEdge d) p).screen.avm.Live ∧
      (bus.foldl (Picture.busEdge d) p).screen.avm.Counting d.generics := by
  induction bus generalizing p with
  | nil => exact ⟨live, counting⟩
  | cons i is ih => exact ih (live.step _ _ _) (counting.step words _)

variable {memory : BitVec 32 → BitVec 16} {base : BitVec 32}

theorem fetching_settled (scanning : Scanning d.timing sync) (words : 0 < d.generics.burstcycle)
    (fits : d.generics.burstcycle ≤ 512) (word : base.toNat % 4 = 0) (aligned : 4 ∣ d.lineoffsetbytes)
    (origin : (sync f).hcount = 0 ∧ (sync f).vcount = 0) (started : f ≤ n) {bus : List BusInput} {p : Picture}
    (clocked : bus ≠ [])
    (feeds : EveryStep (fun i p => p.busEdge d i) (fun i p => Feeds memory base i p.screen) p bus)
    (sampled : Sampled sync n a b c p.screen) (fetching : Fetching d memory base sync f n a b c p.screen) :
    ∃ b c, Sampled sync n n b c (bus.foldl (Picture.busEdge d) p).screen ∧
      Fetching d memory base sync f n n b c (bus.foldl (Picture.busEdge d) p).screen := by
  induction bus generalizing p a b c with
  | nil => exact absurd rfl clocked
  | cons i is ih =>
      have first : Sampled sync n n a b (p.busEdge d i).screen := sampled.bus i
      have next := fetching.bus scanning sampled origin started feeds.1 words fits word aligned
      cases is with
      | nil => exact ⟨a, b, first, next⟩
      | cons j js => exact ih (List.cons_ne_nil j js) feeds.2 first next

theorem answered_settled (scanning : Scanning d.timing sync) (words : 0 < d.generics.burstcycle)
    (fits : d.generics.burstcycle ≤ 512) (word : base.toNat % 4 = 0) (aligned : 4 ∣ d.lineoffsetbytes)
    (origin : (sync f).hcount = 0 ∧ (sync f).vcount = 0) (started : f ≤ n) {bus : List BusInput} {p : Picture}
    (feeds : EveryStep (fun i p => p.busEdge d i) (fun i p => Feeds memory base i p.screen) p bus)
    (sampled : Sampled sync n a b c p.screen) (fetching : Fetching d memory base sync f n a b c p.screen) :
    EveryStep (fun i p => p.busEdge d i) (fun i p => Answered d base i p.screen) p bus := by
  induction bus generalizing p a b c with
  | nil => exact trivial
  | cons i is ih =>
      have next := fetching.bus scanning sampled origin started feeds.1 words fits word aligned
      have here := fetching.answered scanning sampled origin started feeds.1 words fits word aligned
      exact ⟨here, ih feeds.2 (sampled.bus i) next⟩

end

section
variable (d : Display) (w : Nat → VideoClock) (scanout : Scanout) (buffer : Linebuffer) (de hs vs : BitVec 3)

theorem scanning_pictureAt :
    Scanning d.timing fun n => (pictureAt d w scanout buffer de hs vs n).screen.sync where
  aligned := pictureAt_aligned
  pulse n := by
    rw [pictureAt_sync]
    exact linePulse_run _ _ n
  next n := ⟨_, by rw [pictureAt_succ, Picture.step_sync]⟩
  start := by
    obtain ⟨-, ⟨vStart, vEnd, vFits, vSync, -⟩⟩ := d.timing.parts
    exact ⟨show d.timing.vTotal - 1 ≠ 0 by omega, rfl⟩

theorem sampled_pictureAt {w : Nat → VideoClock} (clocked : ∀ n, (w n).bus ≠ []) (n : Nat) :
    ∃ a b c, Sampled (fun n => (pictureAt d w scanout buffer de hs vs n).screen.sync) n a b c
      (pictureAt d w scanout buffer de hs vs n).screen := by
  induction n with
  | zero => exact ⟨0, 0, 0, rfl, ⟨rfl, rfl, rfl⟩, ⟨rfl, rfl, rfl⟩, ⟨le_rfl, le_rfl, le_rfl⟩, by decide⟩
  | succ n ih =>
      obtain ⟨a, b, c, sampled⟩ := ih
      obtain ⟨b, c, settled⟩ := sampled_settled (d := d) (clocked n) sampled
      exact ⟨n, b, c, settled.video rfl⟩

theorem counting_pictureAt (words : 0 < d.generics.burstcycle) (n : Nat) :
    (pictureAt d w scanout buffer de hs vs n).screen.avm.Live ∧
      (pictureAt d w scanout buffer de hs vs n).screen.avm.Counting d.generics := by
  induction n with
  | zero => exact ⟨.inl rfl, Avm.counting_of_idle rfl rfl⟩
  | succ n ih => exact counting_settled words ih.1 ih.2

end

section
variable {d : Display} {w : Nat → VideoClock} {scanout : Scanout} {buffer : Linebuffer} {de hs vs : BitVec 3}
  {memory : BitVec 32 → BitVec 16} {base : BitVec 32} {f N : Nat}
  (words : 0 < d.generics.burstcycle) (fits : d.generics.burstcycle ≤ 512) (word : base.toNat % 4 = 0)
  (aligned : 4 ∣ d.lineoffsetbytes) (clocked : ∀ n, (w n).bus ≠ [])
  (origin : (pictureAt d w scanout buffer de hs vs f).screen.sync.hcount = 0 ∧
    (pictureAt d w scanout buffer de hs vs f).screen.sync.vcount = 0)
  (idle : (pictureAt d w scanout buffer de hs vs f).screen.avm.avmState = .idle)
  (supplied : ∀ n, f ≤ n → n ≤ N → Supplied d memory base (w n) (pictureAt d w scanout buffer de hs vs n))
include words fits word aligned clocked origin idle supplied

/-- The invariant of a frame. -/
theorem fetching_pictureAt {n : Nat} (after : f ≤ n) (before : n ≤ N) :
    ∃ a b c, Sampled (fun n => (pictureAt d w scanout buffer de hs vs n).screen.sync) n a b c
        (pictureAt d w scanout buffer de hs vs n).screen ∧
      Fetching d memory base (fun n => (pictureAt d w scanout buffer de hs vs n).screen.sync) f n a b c
        (pictureAt d w scanout buffer de hs vs n).screen := by
  induction n, after using Nat.le_induction with
  | base =>
      -- The pulse of the frame has not been sampled yet.
      cases f with
      | zero => exact absurd origin.2 (scanning_pictureAt d w scanout buffer de hs vs).start.1
      | succ f =>
          obtain ⟨a, b, c, earlier⟩ := sampled_pictureAt d scanout buffer de hs vs clocked f
          obtain ⟨b, c, settled⟩ := sampled_settled (d := d) (clocked f) earlier
          obtain ⟨live, counting⟩ := counting_pictureAt d w scanout buffer de hs vs words (f + 1)
          have order := settled.order
          refine ⟨f, b, c, settled.video rfl, live, counting, fun busy => absurd idle busy, ?_, ?_, ?_, ?_⟩
          all_goals
            intro first
            omega
  | succ n after ih =>
      obtain ⟨a, b, c, sampled, fetching⟩ := ih (by omega)
      obtain ⟨feeds, ahead⟩ := supplied n after (by omega)
      have scanning := scanning_pictureAt d w scanout buffer de hs vs
      obtain ⟨b, c, settled, fetched⟩ := fetching_settled scanning words fits word aligned origin after (clocked n)
        feeds sampled fetching
      refine ⟨n, b, c, settled.video rfl, fetched.video scanning settled _ ?_⟩
      have same : ((w n).bus.foldl (Picture.busEdge d) (pictureAt d w scanout buffer de hs vs n)).screen.sync = _ :=
        ((pictureAt d w scanout buffer de hs vs n).sameVideo_settled (w n)).sync
      rw [same]
      exact ahead

/-- What the pixel `k` of a line is read from. -/
theorem pixel_fetched (porch : 3 ≤ d.timing.hStart) {n v : Nat} (active : d.timing.ActiveLine v)
    (starts : (pictureAt d w scanout buffer de hs vs n).screen.sync.Scans d.timing.hStart v) (after : f ≤ n) {k : Nat}
    (within : k < d.timing.hActive) (before : n + k ≤ N) :
    memAt d w scanout buffer de hs vs (n + k) (BitVec.ofNat 9 (k / 2)) =
      wordAt memory (d.rowAddress base (v - d.timing.vStart) + BitVec.ofNat 32 (4 * (k / 2))) := by
  have scanning := scanning_pictureAt d w scanout buffer de hs vs
  obtain ⟨⟨-, hEnd, -, -, -, hActive⟩, -⟩ := d.timing.parts
  obtain ⟨a, b, c, earlier, fetching⟩ :=
    fetching_pictureAt words fits word aligned clocked origin idle supplied (n := n + k) (by omega) before
  obtain ⟨feeds, ahead⟩ := supplied (n + k) (by omega) before
  obtain ⟨b, c, settled, fetched⟩ := fetching_settled scanning words fits word aligned origin (by omega)
    (clocked (n + k)) feeds earlier fetching
  -- The sampled clock lies in the line, after its pulse.
  obtain ⟨m, rfl, pulse⟩ := scanning.scans_back active starts (by omega)
  have first : f ≤ m := scanning.frame_before origin active pulse (by omega) after
  have order := settled.order
  have near := settled.near
  have sampled := scanning.scans_add active pulse (k := c - m) (by omega)
  rw [show m + (c - m) = c by omega] at sampled
  have rows := sampled.rows active (by omega)
  have ena := pixelena_line active starts within
  have column := (scans_on active starts (k := k) (by omega)).1
  have enough := ahead ena
  rw [column, Nat.add_sub_cancel_left] at enough
  rw [← fetched.address (by omega) _ rows]
  exact fetched.content (by omega) (by omega) _ enough

end

/-- A half of a word of the framebuffer. -/
theorem halfword_wordAt {mem : BitVec 9 → BitVec 32} {memory : BitVec 32 → BitVec 16} {a : BitVec 32} {k : Nat}
    (word : mem (BitVec.ofNat 9 (k / 2)) = wordAt memory (a + BitVec.ofNat 32 (4 * (k / 2)))) :
    halfword mem k = memory (a + BitVec.ofNat 32 (2 * k)) := by
  rw [halfword, word, wordAt]
  rcases Nat.mod_two_eq_zero_or_one k with even | odd
  · rw [if_pos even, BitVec.extractLsb'_append_eq_right, show 4 * (k / 2) = 2 * k by omega]
  · have upper : BitVec.ofNat 32 (2 * k) = BitVec.ofNat 32 (4 * (k / 2)) + 2 := by
      rw [show 2 * k = 4 * (k / 2) + 2 by omega, BitVec.ofNat_add]
      rfl
    rw [if_neg (by omega), BitVec.extractLsb'_append_eq_left, BitVec.add_assoc, ← upper]

/-- The picture is the framebuffer. In a frame that begins with the master idle, with the base held, a memory that
answers every burst with its words, and every word there when the pixels that need it are read, every line pulse is
answered with the row of its line, and the display shows the rows of the framebuffer in their lines, each pixel at its
column, for every waveform of the enable and every traffic on the bus. -/
theorem frame_shown (d : Display) (words : 2 ≤ d.timing.hActive) (fits : d.timing.hActive ≤ 1024)
    (porch : 3 ≤ d.timing.hStart) (aligned : 4 ∣ d.lineoffsetbytes) (memory : BitVec 32 → BitVec 16)
    (base : BitVec 32) (word : base.toNat % 4 = 0) (w : Nat → VideoClock) (clocked : ∀ n, (w n).bus ≠ [])
    (scanout : Scanout) (buffer : Linebuffer) (de hs vs : BitVec 3) {f N : Nat} :
    let p := pictureAt d w scanout buffer de hs vs
    (p f).screen.sync.hcount = 0 ∧ (p f).screen.sync.vcount = 0 → (p f).screen.avm.avmState = .idle →
    (∀ n, f ≤ n → n ≤ N → Supplied d memory base (w n) (p n)) →
      (∀ n, f ≤ n → n ≤ N →
        EveryStep (fun i p => p.busEdge d i) (fun i p => Answered d base i p.screen) (p n) (w n).bus) ∧
      ∀ n v, f ≤ n → d.timing.ActiveLine v → (p n).screen.sync.Scans d.timing.hStart v →
        ∀ k < d.timing.hActive, n + k ≤ N →
          (p (n + 3 + k)).videoEnable = true ∧ (p (n + 3 + k)).rgb =
            colours (memory (d.rowAddress base (v - d.timing.vStart) + BitVec.ofNat 32 (2 * k))) := by
  intro p origin idle supplied
  have burst : d.generics.burstcycle = d.timing.hActive / 2 := rfl
  constructor
  · intro n after before
    obtain ⟨a, b, c, sampled, fetching⟩ := fetching_pictureAt (by omega) (by omega) word aligned clocked origin idle
      supplied after before
    exact answered_settled (scanning_pictureAt d w scanout buffer de hs vs) (by omega) (by omega) word aligned origin
      after (supplied n after before).feeds sampled fetching
  intro n v after active starts k within before
  have ena := pixelena_line active starts within
  have fetched := pixel_fetched (by omega) (by omega) word aligned clocked origin idle supplied porch active starts
    after within before
  rw [Nat.add_right_comm n 3 k]
  refine ⟨(videoEnable_shown (n + k)).trans (visible_of_pixelena ena), ?_⟩
  refine (pixel_shown (n + k)).trans ?_
  rw [if_pos ena, pixeladdr_line active starts within, pixel_eq_halfword _ (by omega)]
  exact congrArg colours (halfword_wordAt fetched)

instance (memory : BitVec 32 → BitVec 16) (base : BitVec 32) (i : BusInput) (s : Screen) :
    Decidable (Feeds memory base i s) :=
  decidable_of_iff (i.framebuffAddr = base ∧
    (s.avm.readdatavalidSig (s.m1Input i) = true → i.readdata = wordAt memory s.avm.nextAddress))
    ⟨fun ⟨held, answered⟩ => ⟨held, answered⟩, fun ⟨held, answered⟩ => ⟨held, answered⟩⟩

instance (d : Display) (memory : BitVec 32 → BitVec 16) (base : BitVec 32) (c : VideoClock) (p : Picture) :
    Decidable (Supplied d memory base c p) :=
  decidable_of_iff (EveryStep (fun i p => p.busEdge d i) (fun i p => Feeds memory base i p.screen) p c.bus ∧
    (p.screen.sync.pixelena = true →
      (p.screen.sync.hcount - d.timing.hStart) / 2 < (p.settled d c).screen.avm.datacount))
    ⟨fun ⟨feeds, ahead⟩ => ⟨feeds, ahead⟩, fun ⟨feeds, ahead⟩ => ⟨feeds, ahead⟩⟩

/-- A display of two lines of four pixels. -/
def twoLines : Display where
  timing :=
    { hTotal := 10
      hSync := 2
      hBackp := 2
      hActive := 4
      vTotal := 6
      vSync := 1
      vBackp := 1
      vActive := 2
      hSync_pos := Nat.two_pos
      hBackp_pos := Nat.two_pos
      hActive_pos := Nat.succ_pos 3
      vSync_pos := Nat.one_pos
      vBackp_pos := Nat.one_pos
      vActive_pos := Nat.two_pos
      hFits := Nat.le_succ 9
      vFits := Nat.le_succ 5 }
  lineoffsetbytes := 8

/-- A bus with an edge in every clock, on which the words of a line come at its first two pixels, each halfword with
its address. -/
def punctual (n : Nat) : VideoClock where
  bus := [{
    waitrequest := false
    readdata := wordAt (BitVec.setWidth 16) (BitVec.ofNat 32 (0x100 + 8 * ((n - 35) / 10) + 4 * ((n - 35) % 10)))
    readdatavalid := true
    framebuffAddr := 0x100 }]
  scanEna := true

/-- The pulses of the frame are answered, and the second pixel of the second row is shown. -/
theorem frame_shown_punctual :
    let p := pictureAt twoLines punctual ⟨0, 0, 0, 0, 0, 0, false⟩ ⟨fun _ => 0, 0, 0⟩ 0 0 0
    (∀ n, 11 ≤ n → n ≤ 48 → EveryStep (fun i p => p.busEdge twoLines i)
      (fun i p => Answered twoLines 0x100 i p.screen) (p n) (punctual n).bus) ∧
      (p 49).videoEnable = true ∧ (p 49).rgb = (0, 8, 10) := by
  intro p
  have supplied : ∀ n < 49, 11 ≤ n → Supplied twoLines (BitVec.setWidth 16) 0x100 (punctual n) (p n) := by
    decide +kernel
  obtain ⟨answered, shown⟩ := frame_shown twoLines (by decide) (by decide) (by decide) (by decide)
    (BitVec.setWidth 16) 0x100 (by decide) punctual (fun n => List.cons_ne_nil _ _) ⟨0, 0, 0, 0, 0, 0, false⟩
    ⟨fun _ => 0, 0, 0⟩ 0 0 0 (f := 11) (N := 48) (by decide +kernel) (by decide +kernel)
    (fun n after before => supplied n (by omega) after)
  exact ⟨answered, shown 45 3 (by decide) (by decide) ⟨by decide +kernel, by decide +kernel, by decide +kernel⟩ 1
    (by decide) (by decide)⟩

end Cineraria.Vga
