import Cineraria.Lib.Run
import Cineraria.Vga.Component

/-!
# The overrun flag

The video side compares the number of words that the fetch has written, sampled one clock
before, with the word it reads. The word is there when the number is larger; the flag is raised
when it is smaller. The registers are watched here by counters that no circuit has: the number
of the line, carried along with its pulse, and for every word of the line buffer the line
whose burst has written it.
-/

namespace Cineraria.Vga

open Run

/-- The registers, and what is watched of them. -/
structure Watched where
  screen : Screen
  line : Nat
  ls0Line : Nat
  ls1Line : Nat
  burstLine : Option Nat
  memLine : BitVec 9 → Option Nat
  stale : Bool

/-- The word at the address is not of the line that is displayed. -/
def Watched.staleRead (s : Watched) : Bool := s.memLine s.screen.scanout.word != some s.line

/-- One edge. `line` counts the lines from their sync pulse, `stale` says that a stale word has
been read in the active part of the line. -/
def Watched.step (d : Display) (e : Edge) (s : Watched) : Watched :=
  match e with
  | .m1 i =>
      { s with
        screen := s.screen.step d e
        ls0Line := s.line
        ls1Line := s.ls0Line
        burstLine := if s.screen.avm.takes (s.screen.m1Input i) then some s.ls1Line else s.burstLine
        memLine := fun a =>
          if s.screen.avm.readdatavalidSig (s.screen.m1Input i) ∧
            a = BitVec.ofNat 9 s.screen.avm.datacount then s.burstLine else s.memLine a }
  | .video _ =>
      { s with
        screen := s.screen.step d e
        line := if s.screen.sync.hcount + 1 = d.timing.hTotal then s.line + 1 else s.line
        stale := s.screen.sync.pixelena && (s.stale || s.staleRead) }

/-- After reset no line has been fetched. -/
def Watched.reset (d : Display) (scanout : Scanout) (buffer : Linebuffer) : Watched where
  screen := .reset d scanout buffer
  line := 0
  ls0Line := 0
  ls1Line := 0
  burstLine := none
  memLine := fun _ => none
  stale := false

/-- When the active part of a line is over in which a stale word has been read, the flag is up. -/
def Reported (s : Watched) : Prop :=
  s.stale = true → s.screen.sync.pixelena = false → s.screen.scanout.overrunReg = true

/-- At a pixel of the display: the line's own burst has been started, the word has not been
written since its first pixel was read, and at the last pixel it has been written. -/
structure Comparable (d : Display) (s : Watched) : Prop where
  own : s.burstLine = some s.line
  whole : s.screen.scanout.pixeladdrReg.toNat % 2 = 1 →
    s.screen.scanout.pixelcountReg = s.screen.scanout.word →
    s.screen.avm.datacount ≤ s.screen.scanout.word.toNat
  last : s.screen.sync.hcount + 1 = d.timing.hEnd ∨ s.screen.scanout.pixeladdrReg = 1023 →
    s.screen.scanout.word.toNat < s.screen.avm.datacount

/-- The condition on an edge. When the flag is up already, nothing is asked of the rest of the line. -/
def EdgeOk (d : Display) : Edge → Watched → Prop
  | .m1 _, _ => True
  | .video _, s => s.screen.sync.pixelena = true → s.screen.scanout.overrunReg = false → Comparable d s

instance (d : Display) (s : Watched) : Decidable (Comparable d s) :=
  decidable_of_iff (s.burstLine = some s.line ∧
    (s.screen.scanout.pixeladdrReg.toNat % 2 = 1 →
      s.screen.scanout.pixelcountReg = s.screen.scanout.word →
      s.screen.avm.datacount ≤ s.screen.scanout.word.toNat) ∧
    (s.screen.sync.hcount + 1 = d.timing.hEnd ∨ s.screen.scanout.pixeladdrReg = 1023 →
      s.screen.scanout.word.toNat < s.screen.avm.datacount))
    ⟨fun ⟨own, whole, last⟩ => ⟨own, whole, last⟩, fun ⟨own, whole, last⟩ => ⟨own, whole, last⟩⟩

instance (d : Display) : ∀ e s, Decidable (EdgeOk d e s)
  | .m1 _, _ => inferInstanceAs (Decidable True)
  | .video _, s => inferInstanceAs
      (Decidable (s.screen.sync.pixelena = true → s.screen.scanout.overrunReg = false → Comparable d s))

/-- What holds of every state: the words below the count are those of the burst, and where a stale
word has been read the flag is up, or the next pixels raise it. -/
structure Overtaken (d : Display) (s : Watched) : Prop where
  written : ∀ i < s.screen.avm.datacount, s.memLine (BitVec.ofNat 9 i) = s.burstLine
  active : s.screen.sync.InActive d.timing
  flagged : s.stale = true → s.screen.scanout.overrunReg = true ∨
    (s.screen.sync.pixelena = true ∧
      s.screen.scanout.pixelcountReg.toNat < (s.screen.scanout.pixeladdrReg.toNat + 1) / 2)

section
variable {d : Display} {s : Watched}

theorem word_toNat (s : Scanout) : s.word.toNat = s.pixeladdrReg.toNat / 2 := by
  have := s.pixeladdrReg.isLt
  rw [Scanout.word, BitVec.extractLsb'_toNat, Nat.shiftRight_eq_div_pow]
  omega

theorem Overtaken.m1 (h : Overtaken d s) (i : BusInput) : Overtaken d (s.step d (.m1 i)) := by
  refine ⟨?_, h.active, h.flagged⟩
  intro k below
  change k < (s.screen.avm.step d.generics (s.screen.m1Input i)).datacount at below
  rw [step_datacount] at below
  simp only [Watched.step]
  by_cases takes : s.screen.avm.takes (s.screen.m1Input i) = true
  · rw [if_pos takes] at below
    omega
  · rw [if_neg takes] at below ⊢
    split
    · rfl
    · next elsewhere =>
        refine h.written k ?_
        split at below
        · next valid =>
            rcases Nat.lt_succ_iff_lt_or_eq.mp below with before | rfl
            · exact before
            · exact absurd ⟨valid, rfl⟩ elsewhere
        · exact below

/-- A word that the line's burst has not written is not below the count. -/
theorem Overtaken.datacount_le (h : Overtaken d s) (own : s.burstLine = some s.line)
    (stale : s.staleRead = true) : s.screen.avm.datacount ≤ s.screen.scanout.word.toNat := by
  by_contra below
  have written := h.written _ (Nat.lt_of_not_le below)
  rw [BitVec.ofNat_toNat, BitVec.setWidth_eq, own] at written
  simp [Watched.staleRead, written] at stale

theorem Overtaken.video (h : Overtaken d s) (i : ScanInput) (ok : EdgeOk d (.video i) s) :
    Overtaken d (s.step d (.video i)) := by
  refine ⟨h.written, inActive_step i h.active, ?_⟩
  intro stale
  obtain ⟨ena, before⟩ : s.screen.sync.pixelena = true ∧ (s.stale = true ∨ s.staleRead = true) := by
    simpa [Watched.step] using stale
  by_cases raised : s.screen.scanout.overrunReg = true
  · left
    simp only [Watched.step, Screen.step, Scanout.step, ena, Bool.true_eq_false, if_false, raised, ite_self]
  obtain ⟨own, whole, last⟩ := ok ena (Bool.eq_false_iff.mpr raised)
  have word := word_toNat s.screen.scanout
  -- Either the flag is raised now, or the word is not there yet.
  have behind : (s.screen.scanout.overrunReg = true ∨
      s.screen.scanout.pixelcountReg < s.screen.scanout.word) ∨
      s.screen.avm.datacount ≤ s.screen.scanout.word.toNat := by
    rcases before with earlier | now
    · rcases h.flagged earlier with up | ⟨-, below⟩
      · exact .inl (.inl up)
      · by_cases less : s.screen.scanout.pixelcountReg < s.screen.scanout.word
        · exact .inl (.inr less)
        · rw [BitVec.lt_def] at less
          refine .inr (whole (by omega) (BitVec.eq_of_toNat_eq (by omega)))
    · exact .inr (h.datacount_le own now)
  rcases behind with up | short
  · left
    simp only [Watched.step, Screen.step, Scanout.step, ena, Bool.true_eq_false, if_false]
    rcases up with already | now
    · rw [already, ite_self]
    · rw [if_pos now]
  · right
    obtain ⟨more, inside⟩ : s.screen.sync.hcount + 1 ≠ d.timing.hEnd ∧
        s.screen.scanout.pixeladdrReg ≠ 1023 := by
      rw [← not_or]
      intro ending
      have := last ending
      omega
    refine ⟨pixelena_step i h.active ena more, ?_⟩
    have address : (s.screen.scanout.pixeladdrReg + 1).toNat = s.screen.scanout.pixeladdrReg.toNat + 1 := by
      have bound := s.screen.scanout.pixeladdrReg.isLt
      have : s.screen.scanout.pixeladdrReg.toNat ≠ 1023 := fun same =>
        inside (BitVec.eq_of_toNat_eq same)
      rw [BitVec.toNat_add, show (1 : BitVec 10).toNat = 1 from rfl]
      omega
    simp only [Watched.step, Screen.step, Scanout.step, ena, Bool.true_eq_false, if_false, address,
      BitVec.toNat_ofNat]
    have := Nat.mod_le s.screen.avm.datacount (2 ^ 9)
    omega

theorem Overtaken.step (h : Overtaken d s) {e : Edge} (ok : EdgeOk d e s) :
    Overtaken d (s.step d e) := by
  cases e with
  | m1 i => exact h.m1 i
  | video i => exact h.video i ok

theorem Overtaken.reported (h : Overtaken d s) : Reported s := by
  intro stale ended
  rcases h.flagged stale with up | ⟨ena, -⟩
  · exact up
  · exact absurd (ended.symm.trans ena) (by decide)

theorem overtaken_reset (d : Display) (scanout : Scanout) (buffer : Linebuffer) :
    Overtaken d (.reset d scanout buffer) where
  written i below := absurd below (Nat.not_lt_zero i)
  active := inActive_reset d.timing
  flagged stale := absurd stale (by simp [Watched.reset])

end

/-- In every interleaving of the two clocks, on every bus: if all pixels of the run meet the
condition, the flag reports every line of which a stale word has been shown. -/
theorem overrun_reported (d : Display) (scanout : Scanout) (buffer : Linebuffer) {es : List Edge}
    (ok : EveryStep (Watched.step d) (EdgeOk d) (.reset d scanout buffer) es) :
    EveryState (Watched.step d) Reported (.reset d scanout buffer) es :=
  everyState_of_everyStep (fun _ _ h ok => h.step ok) (fun _ h => h.reported)
    (overtaken_reset d scanout buffer) ok

/-- A display of one line of eight pixels. -/
def smallDisplay : Display where
  timing :=
    { hTotal := 11
      hSync := 1
      hBackp := 1
      hActive := 8
      vTotal := 4
      vSync := 1
      vBackp := 1
      vActive := 1
      hSync_pos := by decide
      hBackp_pos := by decide
      hActive_pos := by decide
      vSync_pos := by decide
      vBackp_pos := by decide
      vActive_pos := by decide
      hFits := by decide
      vFits := by decide }
  lineoffsetbytes := 16

/-- The registers of `smallDisplay` after reset. -/
def smallReset : Watched :=
  .reset smallDisplay ⟨0, 0, 0, 0, 0, 0, false⟩ ⟨fun _ => 0, 0, 0⟩

/-- Edges of the video clock, with the scan enabled. -/
def scan (n : Nat) : List Edge := List.replicate n (.video ⟨true, false⟩)

/-- Edges of the bus clock, on a bus that neither stalls nor waits. -/
def fetch (n : Nat) : List Edge := List.replicate n (.m1 ⟨false, 0, true, 0⟩)

/-- The line pulse comes after 34 clocks, and four bus clocks later the burst is under way. One word
is there when the pixels begin, the others come after the fourth pixel: the third is stale, and
the flag reports it. -/
theorem overrun_reported_late_burst :
    EveryState (Watched.step smallDisplay) Reported smallReset
      (scan 34 ++ fetch 5 ++ scan 6 ++ fetch 3 ++ scan 4) ∧
    (exec (Watched.step smallDisplay) smallReset
      (scan 34 ++ fetch 5 ++ scan 6 ++ fetch 3 ++ scan 4)).stale = true :=
  ⟨overrun_reported smallDisplay _ _ (by decide +kernel), by decide +kernel⟩

/-- All words but the last are there in time, and the last is missing to the end of the line: it is
read with three words written, and three is not smaller than three. -/
theorem last_word_unreported :
    let s := exec (Watched.step smallDisplay) smallReset (scan 34 ++ fetch 7 ++ scan 10)
    s.burstLine = some s.line ∧ s.screen.avm.datacount = 3 ∧ s.screen.avm.avmState = .dataRead ∧
      s.stale = true ∧ s.screen.sync.pixelena = false ∧ s.screen.scanout.overrunReg = false ∧
      ¬ Reported s := by
  refine ⟨by decide +kernel, by decide +kernel, by decide +kernel, by decide +kernel, by decide +kernel,
    by decide +kernel, fun reported => ?_⟩
  exact absurd (reported (by decide +kernel) (by decide +kernel)) (by decide +kernel)

end Cineraria.Vga
