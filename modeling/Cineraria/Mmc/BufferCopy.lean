import Cineraria.Lib.Bytes
import Cineraria.Mmc.SpiDriver

/-!
# Copying the buffer

What the two loops of `mmc_spi_DmaRecv` store, on any device that shows a buffer in its registers. The loop for
the rest reads a word when the number of bytes left is a multiple of four. For a number of bytes that is no
multiple of four it begins without a word: the first bytes that it stores come from none.
-/

namespace Cineraria.Mmc

open RegisterIo Bytes

/-- A device that shows the words of a buffer in the registers from `mmcregReadbuff` on, while `Inv` holds. -/
structure ShowsBuffer {σ : Type} (dev : Device σ) (byte : σ → Nat → BitVec 8) (Inv : σ → Prop) : Prop where
  read : ∀ {n s x s'}, n < 128 → dev.read (mmcregReadbuff + n) s x s' → Inv s →
    x = le32 (byte s) n ∧ byte s' = byte s ∧ Inv s'

/-- Some bytes of the buffer, from `a` on. -/
def bytesFrom (byte : Nat → BitVec 8) (a n : Nat) : List (Option (BitVec 8)) :=
  (List.range n).map fun k => some (byte (a + k))

theorem bytesFrom_succ (byte : Nat → BitVec 8) (a n : Nat) :
    bytesFrom byte a (n + 1) = some (byte a) :: bytesFrom byte (a + 1) n := by
  unfold bytesFrom
  rw [List.range_succ_eq_map, List.map_cons, List.map_map]
  refine congrArg (_ :: ·) (List.map_congr_left fun k _ => ?_)
  rw [Function.comp, Nat.add_assoc, Nat.add_comm 1 k]

theorem bytesFrom_length (byte : Nat → BitVec 8) (a n : Nat) : (bytesFrom byte a n).length = n := by
  rw [bytesFrom, List.length_map, List.length_range]

theorem none_not_mem_bytesFrom (byte : Nat → BitVec 8) (a n : Nat) : none ∉ bytesFrom byte a n := by
  simp [bytesFrom]

/-- The bytes of a word of the buffer. -/
theorem wordBytes_le32 (b : Nat → BitVec 8) (n : Nat) :
    wordBytes (le32 b n) = [b (4 * n), b (4 * n + 1), b (4 * n + 2), b (4 * n + 3)] := by
  have byte : ∀ {j}, j < 4 → (le32 b n).extractLsb' (8 * j) 8 = b (4 * n + j) := fun within => by
    rw [← BitVec.setWidth_ushiftRight_eq_extractLsb, le32_byte b n within]
  rw [wordBytes, show List.range 4 = [0, 1, 2, 3] from rfl]
  simp only [List.map_cons, List.map_nil, byte (show 0 < 4 by decide),
    byte (show 1 < 4 by decide), byte (show 2 < 4 by decide), byte (show 3 < 4 by decide)]
  rfl

/-! ## The loops -/

section
variable {σ : Type} {dev : Device σ} {byte : σ → Nat → BitVec 8} {Inv : σ → Prop} {v v' : Vars} {s s' : σ}

/-- A run that has stored some bytes and changed nothing that matters. -/
structure Stores (byte : σ → Nat → BitVec 8) (Inv : σ → Prop) (v v' : Vars) (s s' : σ)
    (stored expected : List (Option (BitVec 8))) : Prop where
  stored : stored = expected
  vars : v' = v
  byte : byte s' = byte s
  inv : Inv s'

theorem ShowsBuffer.iord (shows : ShowsBuffer dev byte Inv) (inv : Inv s) {n : Nat} (within : n < 128)
    {x : BitVec 32} (ran : Runs dev (iord (mmcregReadbuff + n)) v s x v' s') :
    x = le32 (byte s) n ∧ v' = v ∧ byte s' = byte s ∧ Inv s' := by
  obtain ⟨same, read⟩ := runs_iord.mp ran
  obtain ⟨word, kept, inv'⟩ := shows.read within read inv
  exact ⟨word, same, kept, inv'⟩

/-- The rest loop stores the bytes of the buffer from `a` on: the bytes of a word that are not yet stored are in
`data32`. -/
theorem copyBytes_held (shows : ShowsBuffer dev byte Inv) (inv : Inv s) {n dnum a : Nat}
    {data32 : Option (BitVec 32)} {stored : List (Option (BitVec 8))} (place : 4 * dnum = a + n % 4)
    (fits : a + n ≤ 512) (data : n % 4 ≠ 0 → data32 = some (le32 (byte s) (dnum - 1) >>> (8 * (4 - n % 4))))
    (copied : Runs dev (copyBytes dnum data32 n) v s stored v' s') :
    Stores byte Inv v v' s s' stored (bytesFrom (byte s) a n) := by
  induction n generalizing dnum a data32 stored v v' s s' with
  | zero =>
      obtain ⟨none, same, rfl⟩ := runs_pure.mp copied
      exact ⟨none, same, rfl, inv⟩
  | succ n ih =>
      rw [copyBytes] at copied
      split at copied
      case isTrue whole =>
        obtain ⟨x, v₁, s₁, read, copied⟩ := runs_bind.mp copied
        obtain ⟨rest, v₂, s₂, run, ended⟩ := runs_bind.mp copied
        obtain ⟨rfl, rfl, rfl⟩ := runs_pure.mp ended
        obtain ⟨rfl, rfl, kept, inv₁⟩ := shows.iord inv (show dnum < 128 by omega) read
        have onward := ih inv₁ (a := a + 1) (by omega) (by omega) (fun _ => by
          rw [kept, show 4 - n % 4 = 1 by omega, Nat.add_sub_cancel]) run
        have first := le32_byte (byte s) dnum (show 0 < 4 by decide)
        rw [show 4 * dnum + 0 = a by omega] at first
        refine ⟨?_, onward.vars, onward.byte.trans kept, onward.inv⟩
        rw [bytesFrom_succ, onward.stored, kept, ← first]
        rfl
      case isFalse part =>
        obtain ⟨rest, v₁, s₁, run, ended⟩ := runs_bind.mp copied
        obtain ⟨rfl, rfl, rfl⟩ := runs_pure.mp ended
        rw [data part, Option.map_some, ← BitVec.shiftRight_add,
          show 8 * (4 - (n + 1) % 4) + 8 = 8 * (4 - n % 4) by omega] at run
        have onward := ih inv (a := a + 1) (by omega) (by omega) (fun _ => rfl) run
        have next := le32_byte (byte s) (dnum - 1) (show 4 - (n + 1) % 4 < 4 by omega)
        rw [show 4 * (dnum - 1) + (4 - (n + 1) % 4) = a by omega] at next
        refine ⟨?_, onward.vars, onward.byte, onward.inv⟩
        rw [bytesFrom_succ, onward.stored, data part, Option.map_some, next]

/-- Without a word at its beginning the rest loop stores bytes of none until it reads the first. -/
theorem copyBytes_stored (shows : ShowsBuffer dev byte Inv) (inv : Inv s) {n dnum : Nat}
    {stored : List (Option (BitVec 8))} (fits : 4 * dnum + n ≤ 512)
    (copied : Runs dev (copyBytes dnum none n) v s stored v' s') :
    Stores byte Inv v v' s s' stored
      (List.replicate (n % 4) none ++ bytesFrom (byte s) (4 * dnum) (4 * (n / 4))) := by
  induction n generalizing stored v' s' with
  | zero =>
      obtain ⟨none, same, rfl⟩ := runs_pure.mp copied
      exact ⟨none, same, rfl, inv⟩
  | succ n ih =>
      by_cases whole : (n + 1) % 4 = 0
      · rw [whole, show 4 * ((n + 1) / 4) = n + 1 by omega]
        exact copyBytes_held shows inv (by omega) fits (fun part => absurd whole part) copied
      · rw [copyBytes, if_neg whole] at copied
        obtain ⟨rest, v₁, s₁, run, ended⟩ := runs_bind.mp copied
        obtain ⟨rfl, rfl, rfl⟩ := runs_pure.mp ended
        have onward := ih (by omega) run
        refine ⟨?_, onward.vars, onward.byte, onward.inv⟩
        rw [onward.stored, show (n + 1) % 4 = n % 4 + 1 by omega, show (n + 1) / 4 = n / 4 by omega,
          List.replicate_succ]
        rfl

/-- The word loop stores whole words and leaves fewer than four bytes. -/
theorem copyWords_stored (shows : ShowsBuffer dev byte Inv) (inv : Inv s) {cycle dnum : Nat}
    {r : Nat × Nat × List (Option (BitVec 8))} (fits : 4 * dnum + cycle ≤ 512)
    (copied : Runs dev (copyWords dnum cycle) v s r v' s') :
    r.1 = cycle % 4 ∧ r.2.1 = dnum + cycle / 4 ∧
      Stores byte Inv v v' s s' r.2.2 (bytesFrom (byte s) (4 * dnum) (4 * (cycle / 4))) := by
  induction dnum, cycle using copyWords.induct generalizing r v v' s s' with
  | case1 dnum cycle ih =>
      rw [copyWords] at copied
      obtain ⟨x, v₁, s₁, read, copied⟩ := runs_bind.mp copied
      obtain ⟨rest, v₂, s₂, run, ended⟩ := runs_bind.mp copied
      obtain ⟨rfl, rfl, rfl⟩ := runs_pure.mp ended
      obtain ⟨rfl, rfl, kept, inv₁⟩ := shows.iord inv (show dnum < 128 by omega) read
      obtain ⟨left, next, onward⟩ := ih inv₁ (by omega) run
      refine ⟨?_, ?_, ?_, onward.vars, onward.byte.trans kept, onward.inv⟩
      · exact left.trans (Nat.add_mod_right cycle 4).symm
      · exact next.trans (by omega)
      · dsimp only
        rw [onward.stored, kept, wordBytes_le32, show (cycle + 4) / 4 = cycle / 4 + 1 by omega,
          show 4 * (cycle / 4 + 1) = 4 * (cycle / 4) + 1 + 1 + 1 + 1 by omega]
        simp only [bytesFrom_succ]
        rfl
  | case2 dnum cycle small =>
      have few : cycle < 4 := by
        by_contra many
        exact small (cycle - 4) (by omega)
      rw [copyWords.eq_2 _ _ small] at copied
      obtain ⟨rfl, same, rfl⟩ := runs_pure.mp copied
      rw [Nat.mod_eq_of_lt few, Nat.div_eq_of_lt few]
      exact ⟨rfl, rfl, rfl, same, rfl, inv⟩

/-- What `mmc_spi_DmaRecv` stores of a buffer: the whole words, and for the rest bytes of no word. -/
def copiedBytes (byte : Nat → BitVec 8) (aligned : Bool) (cycle : Nat) : List (Option (BitVec 8)) :=
  let whole := bytesFrom byte 0 (4 * (cycle / 4))
  let unread := List.replicate (cycle % 4) none
  if aligned then whole ++ unread else unread ++ whole

theorem copyBuffer_stored (shows : ShowsBuffer dev byte Inv) (inv : Inv s) {aligned : Bool} {cycle : Nat}
    {stored : List (Option (BitVec 8))} (fits : cycle ≤ 512)
    (ran : Runs dev (copyBuffer aligned cycle) v s stored v' s') :
    Stores byte Inv v v' s s' stored (copiedBytes (byte s) aligned cycle) := by
  unfold copyBuffer at ran
  cases aligned with
  | false =>
      rw [if_neg Bool.false_ne_true] at ran
      obtain ⟨r, v₁, s₁, first, ran⟩ := runs_bind.mp ran
      obtain ⟨bytes, v₂, s₂, second, ended⟩ := runs_bind.mp ran
      obtain ⟨rfl, rfl, rfl⟩ := runs_pure.mp ended
      obtain ⟨rfl, rfl, rfl⟩ := runs_pure.mp first
      have within : 4 * 0 + cycle ≤ 512 := by omega
      exact copyBytes_stored shows inv within second
  | true =>
      rw [if_pos rfl] at ran
      obtain ⟨r, v₁, s₁, first, ran⟩ := runs_bind.mp ran
      obtain ⟨bytes, v₂, s₂, second, ended⟩ := runs_bind.mp ran
      obtain ⟨rfl, rfl, rfl⟩ := runs_pure.mp ended
      obtain ⟨few, next, wordLoop⟩ := copyWords_stored shows inv (by omega) first
      have within : 4 * r.2.1 + r.1 ≤ 512 := by omega
      have rest := copyBytes_stored shows wordLoop.inv within second
      refine ⟨?_, rest.vars.trans wordLoop.vars, rest.byte.trans wordLoop.byte, rest.inv⟩
      rw [rest.stored, wordLoop.stored, few, Nat.mod_mod, Nat.div_eq_of_lt (Nat.mod_lt _ (by decide))]
      rw [copiedBytes, if_pos rfl, Nat.mul_zero, bytesFrom, bytesFrom, List.range_zero, List.map_nil, List.append_nil]

end

/-! ## What was asked for -/

theorem copiedBytes_length (byte : Nat → BitVec 8) (aligned : Bool) (cycle : Nat) :
    (copiedBytes byte aligned cycle).length = cycle := by
  cases aligned
  all_goals
    simp only [copiedBytes, if_true, Bool.false_eq_true, if_false, List.length_append, List.length_replicate,
      bytesFrom_length]
    omega

/-- The bytes of the buffer are stored if and only if they are a whole number of words. -/
theorem copiedBytes_eq_iff (byte : Nat → BitVec 8) (aligned : Bool) (cycle : Nat) :
    copiedBytes byte aligned cycle = bytesFrom byte 0 cycle ↔ cycle % 4 = 0 := by
  constructor
  · intro same
    by_contra part
    have unread : none ∈ copiedBytes byte aligned cycle := by
      have listed : (none : Option (BitVec 8)) ∈ List.replicate (cycle % 4) none :=
        List.mem_replicate.mpr ⟨part, rfl⟩
      cases aligned with
      | false => exact List.mem_append_left _ listed
      | true => exact List.mem_append_right _ listed
    rw [same] at unread
    exact none_not_mem_bytesFrom byte 0 cycle unread
  · intro whole
    have words : 4 * (cycle / 4) = cycle := by omega
    cases aligned
    all_goals simp [copiedBytes, whole, words]

theorem cycleOf_pos (wc : BitVec 8) : 0 < cycleOf wc := by
  unfold cycleOf
  split
  case isTrue nonzero =>
    have : wc.toNat ≠ 0 := fun zero => nonzero (BitVec.eq_of_toNat_eq zero)
    rw [Nat.shiftLeft_eq]
    omega
  case isFalse => decide

theorem cycleOf_le (wc : BitVec 8) : cycleOf wc ≤ 512 := by
  unfold cycleOf
  split
  · have := wc.isLt
    rw [Nat.shiftLeft_eq]
    omega
  · decide

theorem cycleOf_whole_iff (wc : BitVec 8) : cycleOf wc % 4 = 0 ↔ wc.toNat % 2 = 0 := by
  unfold cycleOf
  split
  case isTrue nonzero =>
    rw [Nat.shiftLeft_eq]
    omega
  case isFalse zero =>
    rw [not_not.mp zero]
    decide

end Cineraria.Mmc
