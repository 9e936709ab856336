import Mathlib.Data.List.Intervals
import Cineraria.Vga.LineAddress

/-!
# The words of a burst

The count of the words that have come is the address of the next one, and ends the burst. On
every bus, and with any gaps between the words, the words of a burst are written to the line
buffer in the order in which they come, each at its own number.
-/

namespace Cineraria.Vga

/-- What the master writes into the line buffer at an edge: the address, and the word. -/
def Avm.written (i : M1Input) (s : Avm) : Option (Nat × BitVec 32) :=
  if s.readdatavalidSig i then some ((BitVec.ofNat 9 s.datacount).toNat, i.readdata) else none

/-- What the master writes from clock `t` on and before clock `u`. -/
def writtenIn (g : Generics) (w : Nat → M1Input) (t u : Nat) : List (Nat × BitVec 32) :=
  (List.Ico t u).filterMap fun v => (avmAt g w v).written (w v)

/-- The words that come from clock `t` on and before clock `u`. -/
def arrivedIn (w : Nat → M1Input) (t u : Nat) : List (BitVec 32) :=
  (List.Ico t u).filterMap fun v => if (w v).readdatavalid then some (w v).readdata else none

/-- The words with their numbers. -/
def numbered (words : List (BitVec 32)) : List (Nat × BitVec 32) :=
  words.zipIdx.map fun word => (word.2, word.1)

theorem numbered_append (words : List (BitVec 32)) (word : BitVec 32) :
    numbered (words ++ [word]) = numbered words ++ [(words.length, word)] := by
  simp [numbered, List.zipIdx_append]

section
variable {g : Generics} {w : Nat → M1Input}

theorem writtenIn_self (t : Nat) : writtenIn g w t t = [] := by
  rw [writtenIn, List.Ico.self_empty, List.filterMap_nil]

theorem writtenIn_succ {t u : Nat} (after : t ≤ u) :
    writtenIn g w t (u + 1) = writtenIn g w t u ++ ((avmAt g w u).written (w u)).toList := by
  rw [writtenIn, List.Ico.succ_top after, List.filterMap_append, ← writtenIn]
  cases written : (avmAt g w u).written (w u) <;> simp [written]

theorem arrivedIn_self (t : Nat) : arrivedIn w t t = [] := by
  rw [arrivedIn, List.Ico.self_empty, List.filterMap_nil]

theorem arrivedIn_succ {t u : Nat} (after : t ≤ u) :
    arrivedIn w t (u + 1) =
      arrivedIn w t u ++ if (w u).readdatavalid then [(w u).readdata] else [] := by
  rw [arrivedIn, List.Ico.succ_top after, List.filterMap_append, ← arrivedIn]
  cases valid : (w u).readdatavalid <;> simp [valid]

/-- Only a master that reads writes. -/
theorem written_eq_none {i : M1Input} {s : Avm} (elsewhere : s.avmState ≠ .dataRead) :
    s.written i = none := by
  simp [Avm.written, Avm.readdatavalidSig, elsewhere]

theorem writtenIn_requested {t u : Nat} (requested : Requested g w t u) : writtenIn g w t u = [] := by
  obtain ⟨taken, after, waits⟩ := requested
  have idle : (avmAt g w t).avmState = .idle := by
    have accepted := taken
    simp only [takenAt, Avm.takes, Bool.and_eq_true, beq_iff_eq] at accepted
    exact accepted.1
  induction u, after using Nat.le_induction with
  | base =>
      rw [writtenIn_succ (Nat.le_refl t), writtenIn_self, written_eq_none (by rw [idle]; decide)]
      rfl
  | succ u after ih =>
      have before : Requested g w t u := ⟨taken, after, fun v low high => waits v low (by omega)⟩
      have issued := (requested_addrReg before).1
      rw [writtenIn_succ (by omega), ih before.waits, written_eq_none (by rw [issued]; decide)]
      rfl

/-- The registers before clock `u`, the request of clock `t` having been accepted in clock `a`:
words are still to come. -/
structure Delivering (g : Generics) (w : Nat → M1Input) (t a u : Nat) : Prop where
  reads : (avmAt g w u).avmState = .dataRead
  datacount : (avmAt g w u).datacount = (arrivedIn w (a + 1) u).length
  written : writtenIn g w t u = numbered (arrivedIn w (a + 1) u)

/-- The registers before clock `u`, all words of the burst having come before clock `e`. -/
structure Delivered (g : Generics) (w : Nat → M1Input) (t a e u : Nat) : Prop where
  idle : (avmAt g w u).avmState = .idle
  written : writtenIn g w t u = numbered (arrivedIn w (a + 1) e)

/-- The master does not begin with a word already counted. -/
theorem requested_datacount {t u : Nat} (requested : Requested g w t u) :
    (avmAt g w u).datacount = 0 := by
  obtain ⟨taken, after, waits⟩ := requested
  induction u, after using Nat.le_induction with
  | base =>
      simp only [takenAt, Avm.takes, Bool.and_eq_true, beq_iff_eq] at taken
      rw [avmAt_succ]
      simp only [Avm.step, Avm.sequence, taken.1, taken.2, if_true]
  | succ u after ih =>
      have before : Requested g w t u := ⟨taken, after, fun v low high => waits v low (by omega)⟩
      have issued := (requested_addrReg before).1
      have stalled := waits u after (Nat.lt_succ_self u)
      rw [avmAt_succ, ← ih before.waits]
      simp only [Avm.step, Avm.sequence, issued, stalled, Bool.true_eq_false, if_false]

theorem delivering_accepted {t a : Nat} (requested : Requested g w t a)
    (accepted : (w a).waitrequest = false) : Delivering g w t a (a + 1) := by
  have issued := (requested_addrReg requested).1
  have after := requested.after
  constructor
  case reads =>
    rw [avmAt_succ]
    simp only [Avm.step, Avm.sequence, issued, accepted, if_true]
  case datacount =>
    rw [avmAt_succ, arrivedIn_self, List.length_nil, ← requested_datacount requested]
    simp only [Avm.step, Avm.sequence, issued, accepted, if_true]
  case written =>
    rw [writtenIn_succ (by omega), writtenIn_requested requested,
      written_eq_none (by rw [issued]; decide), arrivedIn_self]
    rfl

/-- A word that comes is written at its number. -/
theorem Delivering.writes {t a u : Nat} (now : Delivering g w t a u) (fits : g.burstcycle ≤ 511)
    (order : t ≤ u) (after : a + 1 ≤ u) (more : (arrivedIn w (a + 1) u).length < g.burstcycle) :
    writtenIn g w t (u + 1) = numbered (arrivedIn w (a + 1) (u + 1)) := by
  rw [writtenIn_succ order, arrivedIn_succ after, now.written, Avm.written, Avm.readdatavalidSig,
    now.reads, now.datacount, BitVec.toNat_ofNat, Nat.mod_eq_of_lt (by omega)]
  cases (w u).readdatavalid
  · simp
  · simp [numbered_append]

theorem Delivering.next {t a u : Nat} (now : Delivering g w t a u) (fits : g.burstcycle ≤ 511)
    (order : t ≤ u) (after : a + 1 ≤ u)
    (more : (arrivedIn w (a + 1) (u + 1)).length < g.burstcycle) : Delivering g w t a (u + 1) := by
  have grows := arrivedIn_succ (w := w) after
  have before : (arrivedIn w (a + 1) u).length < g.burstcycle := by
    rw [grows, List.length_append] at more
    omega
  have written := now.writes fits order after before
  cases valid : (w u).readdatavalid
  · rw [valid, if_neg Bool.false_ne_true, List.append_nil] at grows
    refine ⟨?_, ?_, written⟩ <;> rw [avmAt_succ] <;>
      simp only [Avm.step, Avm.sequence, now.reads, valid, Bool.false_eq_true, if_false]
    rw [now.datacount, grows]
  · rw [valid, if_pos rfl] at grows
    have count : (arrivedIn w (a + 1) (u + 1)).length = (arrivedIn w (a + 1) u).length + 1 := by
      rw [grows, List.length_append, List.length_singleton]
    have unfinished : (avmAt g w u).datacount + 1 ≠ g.burstcycle := by
      rw [now.datacount]
      omega
    refine ⟨?_, ?_, written⟩ <;> rw [avmAt_succ] <;>
      simp only [Avm.step, Avm.sequence, now.reads, valid, if_true, if_neg unfinished]
    rw [now.datacount, count]

/-- The last word ends the burst. -/
theorem Delivering.last {t a u : Nat} (now : Delivering g w t a u) (fits : g.burstcycle ≤ 511)
    (order : t ≤ u) (after : a + 1 ≤ u)
    (last : (arrivedIn w (a + 1) u).length + 1 = g.burstcycle)
    (valid : (w u).readdatavalid = true) : Delivered g w t a (u + 1) (u + 1) := by
  refine ⟨?_, now.writes fits order after (by omega)⟩
  have ends : (avmAt g w u).datacount + 1 = g.burstcycle := by rw [now.datacount, last]
  rw [avmAt_succ]
  simp only [Avm.step, Avm.sequence, now.reads, valid, if_true, if_pos ends]

/-- Without a pulse the master stays idle. -/
theorem Delivered.next {t a e u : Nat} (now : Delivered g w t a e u) (order : t ≤ u)
    (quiet : (w u).linestart = false) : Delivered g w t a e (u + 1) := by
  constructor
  case idle =>
    rw [avmAt_succ]
    simp only [Avm.step, Avm.sequence, now.idle, quiet, Bool.false_eq_true, if_false]
  case written =>
    rw [writtenIn_succ order, written_eq_none (by rw [now.idle]; decide), now.written]
    exact List.append_nil _

theorem delivering_run {t a : Nat} (fits : g.burstcycle ≤ 511) (requested : Requested g w t a)
    (accepted : (w a).waitrequest = false) {u : Nat} (after : a + 1 ≤ u)
    (more : (arrivedIn w (a + 1) u).length < g.burstcycle) : Delivering g w t a u := by
  have order := requested.after
  induction u, after using Nat.le_induction with
  | base => exact delivering_accepted requested accepted
  | succ u after ih =>
      have before : (arrivedIn w (a + 1) u).length < g.burstcycle := by
        rw [arrivedIn_succ after, List.length_append] at more
        omega
      exact (ih before).next fits (by omega) after more

theorem delivered_run {t a e : Nat} (order : t ≤ e) (done : Delivered g w t a e e) {u : Nat}
    (after : e ≤ u) (quiet : ∀ v, e ≤ v → v < u → (w v).linestart = false) :
    Delivered g w t a e u := by
  induction u, after using Nat.le_induction with
  | base => exact done
  | succ u after ih =>
      have before := ih fun v low high => quiet v low (by omega)
      exact before.next (by omega) (quiet u after (Nat.lt_succ_self u))

/-- The read signal is down in every other state. -/
theorem readReg_eq_false {u : Nat} (elsewhere : (avmAt g w u).avmState ≠ .readIssue) :
    (avmAt g w u).readReg = false := by
  rw [avmAt_readReg, beq_eq_false_iff_ne]
  exact elsewhere

end

/-- Every burst that the master issues, on every bus. Address and read signal are held until the
request is accepted. Then the words are written at their numbers as they come, and nothing else
is, until the last one; with it the master is idle, and stays so until the next pulse. -/
theorem burst_words (g : Generics) (fits : g.burstcycle ≤ 511) (w : Nat → M1Input) (t : Nat) :
    (∀ u, Requested g w t u →
      (avmAt g w u).readReg = true ∧ (avmAt g w u).m1Address = (avmAt g w (t + 1)).m1Address ∧
        writtenIn g w t u = []) ∧
    ∀ a, Requested g w t a → (w a).waitrequest = false →
      (avmAt g w (a + 1)).readReg = false ∧
      (∀ u, a + 1 ≤ u → (arrivedIn w (a + 1) u).length < g.burstcycle →
        (avmAt g w u).avmState = .dataRead ∧ (avmAt g w u).readReg = false ∧
          writtenIn g w t u = numbered (arrivedIn w (a + 1) u)) ∧
      ∀ e, a + 1 ≤ e → (arrivedIn w (a + 1) e).length + 1 = g.burstcycle →
        (w e).readdatavalid = true →
          (arrivedIn w (a + 1) (e + 1)).length = g.burstcycle ∧
          ∀ u, e + 1 ≤ u → (∀ v, e + 1 ≤ v → v < u → (w v).linestart = false) →
            (avmAt g w u).avmState = .idle ∧ (avmAt g w u).readReg = false ∧
              writtenIn g w t u = numbered (arrivedIn w (a + 1) (e + 1)) := by
  constructor
  · intro u requested
    obtain ⟨issued, address⟩ := requested_addrReg requested
    have first : Requested g w t (t + 1) :=
      ⟨requested.taken, Nat.lt_succ_self t, fun v low high => by omega⟩
    refine ⟨by rw [avmAt_readReg, issued]; rfl, ?_, writtenIn_requested requested⟩
    rw [Avm.m1Address, Avm.m1Address, address, (requested_addrReg first).2]
  · intro a requested accepted
    have order := requested.after
    refine ⟨readReg_eq_false ?_, ?_, ?_⟩
    · rw [(delivering_accepted requested accepted).reads]
      decide
    · intro u after more
      have now := delivering_run fits requested accepted after more
      exact ⟨now.reads, readReg_eq_false (by rw [now.reads]; decide), now.written⟩
    · intro e after last valid
      have now := delivering_run fits requested accepted after (by omega)
      have done := now.last fits (by omega) after last valid
      refine ⟨?_, ?_⟩
      · rw [arrivedIn_succ after, if_pos valid, List.length_append, last.symm]
        rfl
      · intro u later quiet
        have idle := delivered_run (by omega) done later quiet
        exact ⟨idle.idle, readReg_eq_false (by rw [idle.idle]; decide), idle.written⟩

/-- A burst of two words, accepted in clock 2, with gaps before both words. -/
def gappedBurst (u : Nat) : M1Input where
  waitrequest := u < 2
  readdata := BitVec.ofNat 32 (100 + u)
  readdatavalid := u % 2 == 0
  framebuffAddr := 0
  framestart := false
  linestart := u == 0

theorem burst_words_gapped :
    let g : Generics := ⟨2, 2048⟩
    (avmAt g gappedBurst 9).avmState = .idle ∧ (avmAt g gappedBurst 9).readReg = false ∧
      writtenIn g gappedBurst 0 9 = numbered [104, 106] := by
  intro g
  have requested : Requested g gappedBurst 0 2 :=
    ⟨by decide +kernel, by decide, fun v low high => decide_eq_true high⟩
  have ended := ((burst_words g (by decide) gappedBurst 0).2 2 requested (by decide)).2.2 6
    (by decide) (by decide +kernel) (by decide)
  exact ended.2 9 (by decide) fun v low high => beq_eq_false_iff_ne.mpr (by omega)

end Cineraria.Vga
