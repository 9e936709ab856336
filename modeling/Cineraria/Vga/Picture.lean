import Cineraria.Vga.Component
import Cineraria.Vga.ScanEnable

/-!
# The picture

The outputs of `ip/vga_component/vga_component.vhd`. A pixel leaves the address counter, passes
two registers in the line buffer and one at the output, which a tap of the enable's delay line
clears. The enable and the sync signals of the display pass a delay line of their own. In one clock
of the video side any number of edges of the bus clock may come first.
-/

namespace Cineraria.Vga

open Clocked

/-- The registers of both clocks, and the delay lines of the video outputs. -/
structure Picture where
  screen : Screen
  deDelayReg : BitVec 3
  hsDelayReg : BitVec 3
  vsDelayReg : BitVec 3

/-- What comes in one clock of the video side: the edges of the bus clock before its edge, and the
enable in the slave port. -/
structure VideoClock where
  bus : List BusInput
  scanEna : Bool

/-- `reg(1 downto 0) & x` -/
def delayed (x : Bool) (r : BitVec 3) : BitVec 3 := r.extractLsb' 0 2 ++ BitVec.ofBool x

/-- An edge of the bus clock. -/
def Picture.busEdge (d : Display) (p : Picture) (i : BusInput) : Picture :=
  { p with screen := p.screen.step d (.m1 i) }

/-- The registers before the edge of the video clock. -/
def Picture.settled (d : Display) (c : VideoClock) (p : Picture) : Picture := c.bus.foldl (Picture.busEdge d) p

/-- An edge of the video clock. The port map ties the enable of the dither to zero. -/
def Picture.videoEdge (d : Display) (scanEna : Bool) (p : Picture) : Picture where
  screen := p.screen.step d (.video ⟨scanEna, false⟩)
  deDelayReg := delayed (!p.screen.sync.hblankReg && !p.screen.sync.vblankReg) p.deDelayReg
  hsDelayReg := delayed p.screen.sync.hsyncReg p.hsDelayReg
  vsDelayReg := delayed p.screen.sync.vsyncReg p.vsDelayReg

/-- One clock of the video side. -/
def Picture.step (d : Display) (c : VideoClock) (p : Picture) : Picture :=
  (p.settled d c).videoEdge d c.scanEna

/-- The video outputs have been idle for the length of their delay lines. -/
structure Picture.Drained (p : Picture) : Prop where
  valid : p.screen.scanout.validReg = 0
  dark : p.screen.scanout.routReg = 0 ∧ p.screen.scanout.goutReg = 0 ∧ p.screen.scanout.boutReg = 0

/-! ## The outputs -/

def Picture.videoEnable (p : Picture) : Bool := p.deDelayReg.getLsbD 2

def Picture.videoHsyncN (p : Picture) : Bool := !p.hsDelayReg.getLsbD 2

def Picture.videoVsyncN (p : Picture) : Bool := !p.vsDelayReg.getLsbD 2

/-- `video_rout`, `video_gout` and `video_bout` -/
def Picture.rgb (p : Picture) : BitVec 5 × BitVec 5 × BitVec 5 :=
  (p.screen.scanout.routReg, p.screen.scanout.goutReg, p.screen.scanout.boutReg)

/-- The halfword `k` of a line, the lower half of a word first. -/
def halfword (mem : BitVec 9 → BitVec 32) (k : Nat) : BitVec 16 :=
  (mem (BitVec.ofNat 9 (k / 2))).extractLsb' (if k % 2 = 0 then 0 else 16) 16

/-- The colours of a pixel. -/
def colours (pixel : BitVec 16) : BitVec 5 × BitVec 5 × BitVec 5 :=
  (pixel.extractLsb' 10 5, pixel.extractLsb' 5 5, pixel.extractLsb' 0 5)

/-! ## The delay lines -/

section
variable (x : Bool) (r : BitVec 3)

@[simp] theorem delayed_zero : (delayed x r).getLsbD 0 = x := by
  revert x r
  decide

@[simp] theorem delayed_one : (delayed x r).getLsbD 1 = r.getLsbD 0 := by
  revert x r
  decide

@[simp] theorem delayed_two : (delayed x r).getLsbD 2 = r.getLsbD 1 := by
  revert x r
  decide

end

/-- A signal comes out of its delay line after three clocks. -/
theorem delay_line {x : Nat → Bool} {r : Nat → BitVec 3} (next : ∀ n, r (n + 1) = delayed (x n) (r n))
    (n : Nat) : (r (n + 3)).getLsbD 2 = x n := by
  rw [next, delayed_two, next, delayed_one, next, delayed_zero]

/-! ## One clock -/

/-- The registers of the video side are the same. -/
structure Picture.SameVideo (p p' : Picture) : Prop where
  sync : p'.screen.sync = p.screen.sync
  scanout : p'.screen.scanout = p.screen.scanout
  taken : p'.screen.buffer.taken = p.screen.buffer.taken
  q : p'.screen.buffer.q = p.screen.buffer.q
  deDelayReg : p'.deDelayReg = p.deDelayReg
  hsDelayReg : p'.hsDelayReg = p.hsDelayReg
  vsDelayReg : p'.vsDelayReg = p.vsDelayReg

section
variable {d : Display} (c : VideoClock) (p : Picture)

/-- The bus clock touches no register of the video side. -/
theorem Picture.sameVideo_settled : p.SameVideo (p.settled d c) := by
  unfold Picture.settled
  induction c.bus generalizing p with
  | nil => exact ⟨rfl, rfl, rfl, rfl, rfl, rfl, rfl⟩
  | cons i is ih =>
      obtain ⟨sync, scanout, taken, q, de, hs, vs⟩ := ih (p.busEdge d i)
      exact ⟨sync, scanout, taken, q, de, hs, vs⟩

theorem Picture.step_sync :
    (p.step d c).screen.sync = p.screen.sync.step d.timing ⟨c.scanEna, false⟩ := by
  rw [← (p.sameVideo_settled (d := d) c).sync]
  rfl

theorem Picture.step_deDelayReg : (p.step d c).deDelayReg = delayed p.screen.sync.visible p.deDelayReg := by
  rw [← (p.sameVideo_settled (d := d) c).sync, ← (p.sameVideo_settled (d := d) c).deDelayReg]
  rfl

theorem Picture.step_hsDelayReg :
    (p.step d c).hsDelayReg = delayed p.screen.sync.hsyncReg p.hsDelayReg := by
  rw [← (p.sameVideo_settled (d := d) c).sync, ← (p.sameVideo_settled (d := d) c).hsDelayReg]
  rfl

theorem Picture.step_vsDelayReg :
    (p.step d c).vsDelayReg = delayed p.screen.sync.vsyncReg p.vsDelayReg := by
  rw [← (p.sameVideo_settled (d := d) c).sync, ← (p.sameVideo_settled (d := d) c).vsDelayReg]
  rfl

theorem Picture.step_validReg :
    (p.step d c).screen.scanout.validReg =
      delayed p.screen.sync.pixelena p.screen.scanout.validReg := by
  rw [← (p.sameVideo_settled (d := d) c).sync, ← (p.sameVideo_settled (d := d) c).scanout]
  rfl

theorem Picture.step_pixeladdrReg :
    (p.step d c).screen.scanout.pixeladdrReg =
      if p.screen.sync.pixelena = false then 0 else p.screen.scanout.pixeladdrReg + 1 := by
  rw [← (p.sameVideo_settled (d := d) c).sync, ← (p.sameVideo_settled (d := d) c).scanout]
  rfl

/-- The word is taken from the line buffer as the bus clock has left it. -/
theorem Picture.step_taken :
    (p.step d c).screen.buffer.taken =
      (p.settled d c).screen.buffer.pixel p.screen.scanout.pixeladdrReg := by
  rw [← (p.sameVideo_settled (d := d) c).scanout]
  rfl

theorem Picture.step_q : (p.step d c).screen.buffer.q = p.screen.buffer.taken := by
  rw [← (p.sameVideo_settled (d := d) c).taken]
  rfl

/-- Without dither a colour is passed on, or cleared. -/
theorem Picture.step_rgb (plain : p.screen.sync.ditherReg = false) :
    (p.step d c).rgb =
      if p.screen.scanout.validReg.getLsbD 1 then colours p.screen.buffer.q else (0, 0, 0) := by
  rw [← (p.sameVideo_settled (d := d) c).sync] at plain
  rw [← (p.sameVideo_settled (d := d) c).scanout, ← (p.sameVideo_settled (d := d) c).q]
  simp only [Picture.rgb, Picture.step, Picture.videoEdge, Screen.step, Scanout.step, plain, dithered,
    Bool.false_eq_true, and_false, if_false, colours]
  split <;> rfl

end

theorem pixel_eq_halfword (b : Linebuffer) {k : Nat} (fits : k < 1024) :
    b.pixel (BitVec.ofNat 10 k) = halfword b.mem k := by
  have word : (BitVec.ofNat 10 k).extractLsb' 1 9 = BitVec.ofNat 9 (k / 2) := by
    apply BitVec.eq_of_toNat_eq
    rw [BitVec.extractLsb'_toNat, BitVec.toNat_ofNat, BitVec.toNat_ofNat, Nat.shiftRight_eq_div_pow]
    omega
  have half : (BitVec.ofNat 10 k).getLsbD 0 = decide (k % 2 = 1) := by
    rw [BitVec.getLsbD_ofNat, Nat.testBit_zero]
    rfl
  rw [Linebuffer.pixel, halfword, word, half]
  rcases Nat.mod_two_eq_zero_or_one k with even | odd
  · simp [even]
  · simp [odd]

/-! ## Runs -/

section
variable (d : Display) (w : Nat → VideoClock) (scanout : Scanout) (buffer : Linebuffer) (de hs vs : BitVec 3)

/-- The registers after `n` clocks of the video side. The video outputs have no reset. -/
def pictureAt (n : Nat) : Picture := run (Picture.step d) w ⟨.reset d scanout buffer, de, hs, vs⟩ n

/-- The content of the line buffer at the edge with which clock `n` ends. -/
def memAt (n : Nat) : BitVec 9 → BitVec 32 :=
  ((pictureAt d w scanout buffer de hs vs n).settled d (w n)).screen.buffer.mem

end

section
variable {d : Display} {w : Nat → VideoClock} {scanout : Scanout} {buffer : Linebuffer} {de hs vs : BitVec 3}

theorem pictureAt_succ (n : Nat) : pictureAt d w scanout buffer de hs vs (n + 1) =
    (pictureAt d w scanout buffer de hs vs n).step d (w n) := rfl

/-- Without traffic on the bus the line buffer keeps its content. -/
theorem memAt_quiet (quiet : ∀ n, (w n).bus = []) (n : Nat) :
    memAt d w scanout buffer de hs vs n = buffer.mem := by
  induction n with
  | zero => rw [memAt, Picture.settled, quiet]; rfl
  | succ n ih => rw [memAt, Picture.settled, quiet, ← ih]; rfl

/-- The timing runs by itself. -/
theorem pictureAt_sync (n : Nat) : (pictureAt d w scanout buffer de hs vs n).screen.sync =
    run (Syncgen.step d.timing) (fun n => ⟨(w n).scanEna, false⟩) (.reset d.timing) n := by
  induction n with
  | zero => rfl
  | succ n ih => rw [pictureAt_succ, Picture.step_sync, ih, run_succ]

theorem pictureAt_plain (n : Nat) :
    (pictureAt d w scanout buffer de hs vs n).screen.sync.dithenaReg = false ∧
      (pictureAt d w scanout buffer de hs vs n).screen.sync.ditherReg = false := by
  induction n with
  | zero => exact ⟨rfl, rfl⟩
  | succ n ih =>
      rw [pictureAt_succ, Picture.step_sync]
      refine ⟨rfl, ?_⟩
      simp only [Syncgen.step, ih.1, Bool.false_and]

theorem pictureAt_rgb (n : Nat) : (pictureAt d w scanout buffer de hs vs (n + 1)).rgb =
    if (pictureAt d w scanout buffer de hs vs n).screen.scanout.validReg.getLsbD 1 then
      colours (pictureAt d w scanout buffer de hs vs n).screen.buffer.q else (0, 0, 0) :=
  Picture.step_rgb _ _ (pictureAt_plain n).2

/-- A pixel comes out after three clocks. -/
theorem pixel_shown (n : Nat) : (pictureAt d w scanout buffer de hs vs (n + 3)).rgb =
    if (pictureAt d w scanout buffer de hs vs n).screen.sync.pixelena then
      colours (((pictureAt d w scanout buffer de hs vs n).settled d (w n)).screen.buffer.pixel
        (pictureAt d w scanout buffer de hs vs n).screen.scanout.pixeladdrReg) else (0, 0, 0) := by
  rw [pictureAt_rgb, pictureAt_succ, Picture.step_validReg, delayed_one, Picture.step_q, pictureAt_succ,
    Picture.step_validReg, delayed_zero, Picture.step_taken]

theorem videoEnable_shown (n : Nat) : (pictureAt d w scanout buffer de hs vs (n + 3)).videoEnable =
    (pictureAt d w scanout buffer de hs vs n).screen.sync.visible :=
  delay_line (x := fun n => (pictureAt d w scanout buffer de hs vs n).screen.sync.visible)
    (r := fun n => (pictureAt d w scanout buffer de hs vs n).deDelayReg)
    (fun n => Picture.step_deDelayReg (w n) _) n

theorem syncs_shown (n : Nat) :
    (pictureAt d w scanout buffer de hs vs (n + 3)).videoHsyncN =
        !(pictureAt d w scanout buffer de hs vs n).screen.sync.hsyncReg ∧
      (pictureAt d w scanout buffer de hs vs (n + 3)).videoVsyncN =
        !(pictureAt d w scanout buffer de hs vs n).screen.sync.vsyncReg :=
  ⟨congrArg not (delay_line (x := fun n => (pictureAt d w scanout buffer de hs vs n).screen.sync.hsyncReg)
      (r := fun n => (pictureAt d w scanout buffer de hs vs n).hsDelayReg)
      (fun n => Picture.step_hsDelayReg (w n) _) n),
    congrArg not (delay_line (x := fun n => (pictureAt d w scanout buffer de hs vs n).screen.sync.vsyncReg)
      (r := fun n => (pictureAt d w scanout buffer de hs vs n).vsDelayReg)
      (fun n => Picture.step_vsDelayReg (w n) _) n)⟩

/-- No pixel is enabled in the blanks. -/
theorem visible_of_pixelena {s : Syncgen} (ena : s.pixelena = true) : s.visible = true := by
  rw [Syncgen.pixelena, Bool.and_assoc, Bool.and_eq_true] at ena
  exact ena.2

/-- Outside the active part the outputs are dark. -/
theorem dark_shown {n : Nat} (filled : 3 ≤ n ∨ Picture.Drained ⟨.reset d scanout buffer, de, hs, vs⟩)
    (blank : (pictureAt d w scanout buffer de hs vs n).videoEnable = false) :
    (pictureAt d w scanout buffer de hs vs n).rgb = (0, 0, 0) := by
  by_cases late : 3 ≤ n
  · obtain ⟨n, rfl⟩ := Nat.exists_eq_add_of_le' late
    rw [videoEnable_shown] at blank
    rw [pixel_shown, if_neg]
    intro ena
    exact absurd (visible_of_pixelena ena) (by rw [blank]; decide)
  · obtain ⟨valid, red, green, blue⟩ := filled.resolve_left late
    have empty : (pictureAt d w scanout buffer de hs vs 0).screen.scanout.validReg = 0 := valid
    obtain rfl | rfl | rfl : n = 0 ∨ n = 1 ∨ n = 2 := by omega
    · exact Prod.ext red (Prod.ext green blue)
    · exact (pictureAt_rgb 0).trans (by rw [empty, if_neg (by decide)])
    · refine (pictureAt_rgb 1).trans ?_
      rw [pictureAt_succ 0, Picture.step_validReg, delayed_one, empty, if_neg (by decide)]

/-! ## A line -/

theorem pictureAt_aligned (n : Nat) : (pictureAt d w scanout buffer de hs vs n).screen.sync.Aligned d.timing := by
  rw [pictureAt_sync]
  exact aligned_run _ _ n

theorem scans_on {c v n : Nat} (active : d.timing.ActiveLine v)
    (scans : (pictureAt d w scanout buffer de hs vs n).screen.sync.Scans c v) {k : Nat}
    (within : c + k < d.timing.hEnd) :
    (pictureAt d w scanout buffer de hs vs (n + k)).screen.sync.Scans (c + k) v := by
  induction k with
  | zero => exact scans
  | succ k ih =>
      rw [← Nat.add_assoc, ← Nat.add_assoc, pictureAt_succ, Picture.step_sync]
      exact ((pictureAt_aligned (n + k)).scans_step _ active within).mpr (ih (by omega))

section
variable {v n : Nat} (active : d.timing.ActiveLine v)
  (starts : (pictureAt d w scanout buffer de hs vs n).screen.sync.Scans d.timing.hStart v)
include active starts

theorem pixelena_line {k : Nat} (within : k < d.timing.hActive) :
    (pictureAt d w scanout buffer de hs vs (n + k)).screen.sync.pixelena = true := by
  obtain ⟨left, top, on⟩ := scans_on active starts (k := k) (Nat.add_lt_add_left within _)
  rw [pixelena_iff (pictureAt_aligned (n + k))]
  exact ⟨on, ⟨by omega, by rw [left]; exact Nat.add_lt_add_left within _⟩, top ▸ active⟩

/-- The clock before the active part of the line. -/
theorem blank_before : ∃ m, n = m + 1 ∧
    (pictureAt d w scanout buffer de hs vs m).screen.sync.visible = false := by
  obtain ⟨⟨hStart, hEnd, hFits, hSync, -, hActive⟩, -⟩ := d.timing.parts
  cases n with
  | zero =>
      have left : d.timing.hTotal - 1 = d.timing.hStart := starts.1
      omega
  | succ m =>
      refine ⟨m, rfl, ?_⟩
      have back : (d.timing.hStart - 1) + 1 = d.timing.hStart := by omega
      rw [pictureAt_succ, Picture.step_sync, ← back] at starts
      obtain ⟨left, -⟩ := ((pictureAt_aligned m).scans_step _ active (by omega)).mp starts
      have aligned : (pictureAt d w scanout buffer de hs vs m).screen.sync.Aligned d.timing :=
        pictureAt_aligned m
      rw [Syncgen.visible, Bool.and_eq_false_iff, Bool.not_eq_false', ← Bool.not_eq_false, aligned.hblank]
      left
      omega

/-- The clock after the active part of the line. -/
theorem blank_after :
    (pictureAt d w scanout buffer de hs vs (n + d.timing.hActive)).screen.sync.visible = false := by
  obtain ⟨⟨hStart, hEnd, hFits, hSync, -, hActive⟩, -⟩ := d.timing.parts
  obtain ⟨k, last⟩ : ∃ k, d.timing.hActive = k + 1 := ⟨d.timing.hActive - 1, by omega⟩
  obtain ⟨left, -⟩ := scans_on active starts (k := k) (by omega)
  have aligned : (pictureAt d w scanout buffer de hs vs (n + (k + 1))).screen.sync.Aligned d.timing :=
    pictureAt_aligned (n + (k + 1))
  have next : (pictureAt d w scanout buffer de hs vs (n + (k + 1))).screen.sync.hcount = d.timing.hEnd := by
    rw [← Nat.add_assoc, pictureAt_succ, Picture.step_sync]
    exact (if_neg (by omega)).trans (by omega)
  rw [last, Syncgen.visible, Bool.and_eq_false_iff, Bool.not_eq_false', ← Bool.not_eq_false, aligned.hblank, next]
  left
  omega

/-- The address counts the pixels of the line. -/
theorem pixeladdr_line {k : Nat} (within : k < d.timing.hActive) :
    (pictureAt d w scanout buffer de hs vs (n + k)).screen.scanout.pixeladdrReg = BitVec.ofNat 10 k := by
  induction k with
  | zero =>
      obtain ⟨m, rfl, blank⟩ := blank_before active starts
      rw [Nat.add_zero, pictureAt_succ, Picture.step_pixeladdrReg, if_pos]
      · rfl
      · rw [← Bool.not_eq_true]
        intro ena
        exact absurd (visible_of_pixelena ena) (by rw [blank]; decide)
  | succ k ih =>
      rw [← Nat.add_assoc, pictureAt_succ, Picture.step_pixeladdrReg,
        pixelena_line active starts (Nat.lt_of_succ_lt within), if_neg (by decide), ih (by omega),
        BitVec.ofNat_add]
      rfl

end

end

/-- The video outputs of `vga_component`, for every waveform of the enable and every traffic on the
bus. A line that begins to be scanned in clock `n` is shown three clocks later, and is the content
that the line buffer has at its beginning if it is not written before its end. -/
theorem picture_shown (d : Display) (fits : d.timing.hActive ≤ 1024) (w : Nat → VideoClock)
    (scanout : Scanout) (buffer : Linebuffer) (de hs vs : BitVec 3) :
    let p := pictureAt d w scanout buffer de hs vs
    let mem := memAt d w scanout buffer de hs vs
    (∀ n v, d.timing.ActiveLine v → (p n).screen.sync.Scans d.timing.hStart v →
      (∀ k < d.timing.hActive, mem (n + k) = mem n) →
        (p (n + 2)).videoEnable = false ∧
        (∀ k < d.timing.hActive, (p (n + 3 + k)).videoEnable = true ∧
          (p (n + 3 + k)).rgb = colours (halfword (mem n) k)) ∧
        (p (n + 3 + d.timing.hActive)).videoEnable = false) ∧
    (∀ n, 3 ≤ n ∨ (p 0).Drained → (p n).videoEnable = false → (p n).rgb = (0, 0, 0)) ∧
    ∀ n, (p (n + 3)).videoHsyncN = !(p n).screen.sync.hsyncReg ∧
      (p (n + 3)).videoVsyncN = !(p n).screen.sync.vsyncReg := by
  intro p mem
  refine ⟨?_, fun n => dark_shown, syncs_shown⟩
  intro n v active starts unwritten
  refine ⟨?_, ?_, ?_⟩
  · obtain ⟨m, rfl, blank⟩ := blank_before active starts
    exact (videoEnable_shown m).trans blank
  · intro k within
    have ena := pixelena_line active starts within
    rw [Nat.add_right_comm n 3 k]
    refine ⟨(videoEnable_shown (n + k)).trans (visible_of_pixelena ena), ?_⟩
    refine (pixel_shown (n + k)).trans ?_
    rw [if_pos ena, pixeladdr_line active starts within, pixel_eq_halfword _ (by omega)]
    exact congrArg (fun content => colours (halfword content k)) (unwritten k within)
  · rw [Nat.add_right_comm n 3]
    exact (videoEnable_shown _).trans (blank_after active starts)

/-- The first line of `tinyTiming`, with two pixels in every word of the line buffer. -/
theorem picture_shown_tiny :
    let p := pictureAt ⟨tinyTiming, 16⟩ (fun _ => ⟨[], true⟩) ⟨0, 0, 0, 0, 0, 0, false⟩
      ⟨fun _ => 0x7c00001f, 0, 0⟩ 0 0 0
    (p 20).videoEnable = false ∧
      ((p 21).videoEnable = true ∧ (p 21).rgb = (0, 0, 31)) ∧
      ((p 22).videoEnable = true ∧ (p 22).rgb = (31, 0, 0)) ∧
      (p 23).videoEnable = false := by
  intro p
  have kept : ∀ n, memAt ⟨tinyTiming, 16⟩ (fun _ => ⟨[], true⟩) ⟨0, 0, 0, 0, 0, 0, false⟩
      ⟨fun _ => 0x7c00001f, 0, 0⟩ 0 0 0 n = fun _ => 0x7c00001f := memAt_quiet fun _ => rfl
  obtain ⟨before, line, after⟩ := (picture_shown ⟨tinyTiming, 16⟩ (by decide) (fun _ => ⟨[], true⟩)
    ⟨0, 0, 0, 0, 0, 0, false⟩ ⟨fun _ => 0x7c00001f, 0, 0⟩ 0 0 0).1 18 2 (by decide)
    ⟨by decide +kernel, by decide +kernel, by decide +kernel⟩ fun k _ => by rw [kept, kept]
  rw [kept] at line
  have first := line 0 (by decide)
  have second := line 1 (by decide)
  exact ⟨before, first, second, after⟩

end Cineraria.Vga
