import Mathlib.Tactic.Common

/-!
# The video timing

`ip/vga_component/vga_syncgen.vhd`: two counters and the registers that they set and clear. A
line begins with its sync pulse, when `hcount` wraps; `vcount` advances at the end of the active
part of a line. The enable of the scan is taken over once in a frame.
-/

namespace Cineraria.Vga

/-- The generics of a video timing: every part takes at least a clock, and so do the two front
porches. -/
structure Timing where
  hTotal : Nat
  hSync : Nat
  hBackp : Nat
  hActive : Nat
  vTotal : Nat
  vSync : Nat
  vBackp : Nat
  vActive : Nat
  hSync_pos : 0 < hSync
  hBackp_pos : 0 < hBackp
  hActive_pos : 0 < hActive
  vSync_pos : 0 < vSync
  vBackp_pos : 0 < vBackp
  vActive_pos : 0 < vActive
  hFits : hSync + hBackp + hActive < hTotal
  vFits : vSync + vBackp + vActive < vTotal

/-- The clock of a line from which its active part begins. -/
def Timing.hStart (t : Timing) : Nat := t.hSync + t.hBackp

/-- The clock of a line in which its active part has ended. -/
def Timing.hEnd (t : Timing) : Nat := t.hStart + t.hActive

/-- The signals that `vga_syncgen` samples. -/
structure ScanInput where
  scanEna : Bool
  ditherEna : Bool
  deriving DecidableEq, Repr

/-- The registers of `vga_syncgen`. -/
structure Syncgen where
  hcount : Nat
  vcount : Nat
  scanInReg : Bool
  scanenaReg : Bool
  dithenaReg : Bool
  frameReg : Bool
  lineReg : Bool
  hsyncReg : Bool
  vsyncReg : Bool
  hblankReg : Bool
  vblankReg : Bool
  ditherReg : Bool
  deriving DecidableEq, Repr

/-- `pixelena` -/
def Syncgen.pixelena (s : Syncgen) : Bool := s.scanenaReg && !s.hblankReg && !s.vblankReg

/-- One edge of `video_clk` out of reset. -/
def Syncgen.step (t : Timing) (i : ScanInput) (s : Syncgen) : Syncgen where
  hcount := if s.hcount + 1 = t.hTotal then 0 else s.hcount + 1
  vcount :=
    if s.hcount + 1 = t.hEnd then
      if s.vcount + 1 = t.vTotal then 0 else s.vcount + 1
    else s.vcount
  scanInReg := i.scanEna
  scanenaReg := if s.hcount = 0 ∧ s.vcount = 0 then s.scanInReg else s.scanenaReg
  dithenaReg := i.ditherEna
  frameReg :=
    if s.hcount + 1 = t.hTotal then s.vcount == 0
    else if s.hcount + 1 = t.hSync then false
    else s.frameReg
  lineReg :=
    if s.hcount + 1 = t.hTotal then !s.vblankReg && s.scanenaReg
    else if s.hcount + 1 = t.hSync then false
    else s.lineReg
  hsyncReg :=
    if s.hcount + 1 = t.hTotal then true
    else if s.hcount + 1 = t.hSync then false
    else s.hsyncReg
  vsyncReg :=
    if s.hcount + 1 = t.hEnd then
      if s.vcount + 1 = t.vTotal then true
      else if s.vcount + 1 = t.vSync then false
      else s.vsyncReg
    else s.vsyncReg
  hblankReg :=
    if s.hcount + 1 = t.hStart then false
    else if s.hcount + 1 = t.hEnd then true
    else s.hblankReg
  vblankReg :=
    if s.hcount + 1 = t.hEnd then
      if s.vcount + 1 = t.vSync + t.vBackp then false
      else if s.vcount + 1 = t.vSync + t.vBackp + t.vActive then true
      else s.vblankReg
    else s.vblankReg
  ditherReg := s.dithenaReg && s.hcount % 2 != s.vcount % 2

/-- The registers after reset. -/
def Syncgen.reset (t : Timing) : Syncgen where
  hcount := t.hTotal - 1
  vcount := t.vTotal - 1
  scanInReg := false
  scanenaReg := false
  dithenaReg := false
  frameReg := false
  lineReg := false
  hsyncReg := false
  vsyncReg := false
  hblankReg := true
  vblankReg := true
  ditherReg := false

/-- Out of the horizontal blank `hcount` is in the active part of the line. -/
def Syncgen.InActive (t : Timing) (s : Syncgen) : Prop :=
  s.hblankReg = false → t.hStart ≤ s.hcount ∧ s.hcount < t.hEnd

section
variable {t : Timing} {s : Syncgen}

theorem inActive_reset (t : Timing) : (Syncgen.reset t).InActive t := fun h => by
  simp [Syncgen.reset] at h

theorem inActive_step (i : ScanInput) (active : s.InActive t) : (s.step t i).InActive t := by
  intro unblanked
  have fits := t.hFits
  have part := t.hActive_pos
  have ending : t.hEnd = t.hSync + t.hBackp + t.hActive := rfl
  have starting : t.hStart = t.hSync + t.hBackp := rfl
  simp only [Syncgen.step] at unblanked ⊢
  split at unblanked
  · split <;> omega
  · split at unblanked
    · exact absurd unblanked (by decide)
    · have := active unblanked
      split <;> omega

/-- The pixels go on until the end of the active part. -/
theorem pixelena_step (i : ScanInput) (active : s.InActive t) (ena : s.pixelena = true)
    (more : s.hcount + 1 ≠ t.hEnd) : (s.step t i).pixelena = true := by
  obtain ⟨⟨scan, hblank⟩, vblank⟩ : (s.scanenaReg = true ∧ s.hblankReg = false) ∧ s.vblankReg = false := by
    simpa [Syncgen.pixelena] using ena
  have started := (active hblank).1
  have sync := t.hSync_pos
  have later : ¬ (s.hcount = 0 ∧ s.vcount = 0) := by
    rintro ⟨zero, -⟩
    rw [Timing.hStart] at started
    omega
  have within : s.hcount + 1 ≠ t.hStart := by omega
  simp only [Syncgen.pixelena, Syncgen.step, if_neg later, if_neg within, if_neg more, scan, hblank, vblank]
  rfl

end

end Cineraria.Vga
