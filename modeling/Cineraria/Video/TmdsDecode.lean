import Cineraria.Video.TmdsEncoder

/-!
# The T.M.D.S. symbols decode

The receiver of the standard link, written here as the specification: a symbol that
is one of the four control codes is a pair of control bits; any other symbol has its
inversion (bit 9) and its chaining (bit 8) undone. `decode_encodeData` is the inverse
law on data, for any disparity state. The two kinds of symbol cannot be confused:
the choice of chaining leaves at most three level changes in the low byte of a data
symbol (`changes_qmByte_encodeIn`), every control code has six.
-/

namespace Cineraria.Tmds

open Clocked LineCode ShiftRegister

/-- What one symbol carries. -/
inductive Symbol where
  | control (c1 c0 : Bool)
  | data (d : BitVec 8)
  deriving DecidableEq, Repr

/-- The four control codes of the link. -/
def controlCodes : List (BitVec 10) :=
  [0b1101010100#10, 0b0010101011#10, 0b0101010100#10, 0b1010101011#10]

/-- The data byte of a symbol: undo the inversion, then the chaining. -/
def decodeByte (q : BitVec 10) : BitVec 8 :=
  let low := if q.getLsbD 9 then ~~~q.setWidth 8 else q.setWidth 8
  ofBits (unchain (!q.getLsbD 8) low.getLsbD) 8

/-- The standard decoder of one symbol. -/
def decode (q : BitVec 10) : Symbol :=
  if q = 0b1101010100#10 then .control false false
  else if q = 0b0010101011#10 then .control false true
  else if q = 0b0101010100#10 then .control true false
  else if q = 0b1010101011#10 then .control true true
  else .data (decodeByte q)

/-- What the encoder was given at one clock edge. -/
def Input.symbol (i : Input) : Symbol :=
  if i.deIn then .data i.dIn else .control i.c1In i.c0In

/-! ## The inverse law -/

theorem symbol_bit9 (q9 q8 : Bool) (q : BitVec 8) : (symbol q9 q8 q).getLsbD 9 = q9 := by
  rw [symbol, BitVec.getLsbD_cons, if_pos rfl]

theorem symbol_bit8 (q9 q8 : Bool) (q : BitVec 8) : (symbol q9 q8 q).getLsbD 8 = q8 := by
  rw [symbol, BitVec.getLsbD_cons, if_neg (by decide), BitVec.getLsbD_cons, if_pos rfl]

theorem symbol_low (q9 q8 : Bool) (q : BitVec 8) : (symbol q9 q8 q).setWidth 8 = q := by
  apply BitVec.eq_of_getLsbD_eq
  intro i hi
  rw [BitVec.getLsbD_setWidth, symbol, BitVec.getLsbD_cons, if_neg (by omega),
    BitVec.getLsbD_cons, if_neg (by omega)]
  simp [hi]

/-- The data branch always sends `qm_reg`, plain with bit 9 clear or inverted with bit 9
set. -/
theorem encodeData_symbol (cnt : Int) (qm : BitVec 9) :
    ∃ invert, (encodeData cnt qm).1 =
      symbol invert (qm8 qm) (if invert then ~~~qmByte qm else qmByte qm) := by
  unfold encodeData
  dsimp only
  split_ifs with h1 h2 h3
  · exact ⟨!qm8 qm, by simp [h2]⟩
  · exact ⟨!qm8 qm, by simp [h2]⟩
  · exact ⟨true, rfl⟩
  · exact ⟨true, rfl⟩
  · exact ⟨false, rfl⟩
  · exact ⟨false, rfl⟩

/-- Undoing the inversion gives back the chained byte. -/
theorem decodeByte_symbol (invert q8 : Bool) (q : BitVec 8) :
    decodeByte (symbol invert q8 (if invert then ~~~q else q)) =
      ofBits (unchain (!q8) q.getLsbD) 8 := by
  unfold decodeByte
  rw [symbol_bit9, symbol_bit8, symbol_low]
  cases invert <;> simp

theorem getLsbD_chainByte (inv : Bool) (d : BitVec 8) (i : Nat) (hi : i < 8) :
    (chainByte inv d).getLsbD i = chain inv d.getLsbD i :=
  getLsbD_ofBits _ hi

theorem unchain_chainByte (inv : Bool) (d : BitVec 8) :
    ofBits (unchain inv (chainByte inv d).getLsbD) 8 = d := by
  apply BitVec.eq_of_getLsbD_eq
  intro i hi
  have agree : ∀ j ≤ i, (chainByte inv d).getLsbD j = chain inv d.getLsbD j :=
    fun j hj => getLsbD_chainByte inv d j (by omega)
  rw [getLsbD_ofBits _ hi, unchain_congr agree, unchain_chain]

/-- The input process is one of the two chainings, told apart by bit 8. -/
theorem encodeIn_eq (d : BitVec 8) :
    ∃ inv, qm8 (encodeIn d) = !inv ∧ qmByte (encodeIn d) = chainByte inv d ∧
      (inv = true ↔ number1s d > 4 ∨ (number1s d = 4 ∧ d.getLsbD 0 = false)) := by
  have parts : ∀ (b : Bool) (q : BitVec 8), qm8 (q.cons b) = b ∧ qmByte (q.cons b) = q := by
    intro b q
    refine ⟨by rw [qm8, BitVec.getLsbD_cons, if_pos rfl], ?_⟩
    apply BitVec.eq_of_getLsbD_eq
    intro i hi
    rw [qmByte, BitVec.getLsbD_setWidth, BitVec.getLsbD_cons, if_neg (by omega)]
    simp [hi]
  unfold encodeIn
  split_ifs with h
  · exact ⟨true, (parts _ _).1, (parts _ _).2, iff_of_true rfl h⟩
  · exact ⟨false, (parts _ _).1, (parts _ _).2, iff_of_false (by simp) h⟩

/-- Every data byte survives, whatever the disparity state. -/
theorem decodeByte_encodeData (cnt : Int) (d : BitVec 8) :
    decodeByte (encodeData cnt (encodeIn d)).1 = d := by
  obtain ⟨invert, sent⟩ := encodeData_symbol cnt (encodeIn d)
  obtain ⟨inv, bit8, byte, -⟩ := encodeIn_eq d
  rw [sent, decodeByte_symbol, byte, bit8, Bool.not_not, unchain_chainByte]

/-! ## Separation of data and control symbols -/

/-- The ones of a byte above bit 0. -/
theorem ones_eq_low_add (d : BitVec 8) :
    ones d = (d.getLsbD 0).toNat + (List.range 7).countP fun i => d.getLsbD (i + 1) := by
  simp only [ones, BitVec.toNat_cpop, BitVec.cpopNatRec_succ, BitVec.cpopNatRec_zero_self,
    List.range_succ, List.range_zero, List.nil_append, List.countP_append, List.countP_cons,
    List.countP_nil]
  cases d.getLsbD 0 <;> cases d.getLsbD 1 <;> cases d.getLsbD 2 <;> cases d.getLsbD 3 <;>
    cases d.getLsbD 4 <;> cases d.getLsbD 5 <;> cases d.getLsbD 6 <;> cases d.getLsbD 7 <;> rfl

/-- A chained byte changes level once for each data bit above bit 0 that differs from
the complement flag. -/
theorem changes_chainByte (inv : Bool) (d : BitVec 8) :
    changes (chainByte inv d) = (List.range 7).countP fun i => d.getLsbD (i + 1) != inv := by
  apply List.countP_congr
  intro i hi
  have h7 : i < 7 := List.mem_range.mp hi
  rw [getLsbD_chainByte inv d i (by omega), getLsbD_chainByte inv d (i + 1) (by omega),
    chain_changes]

/-- The chaining is chosen so that at most three level changes remain. -/
theorem changes_qmByte_encodeIn (d : BitVec 8) : changes (qmByte (encodeIn d)) ≤ 3 := by
  obtain ⟨inv, -, byte, choice⟩ := encodeIn_eq d
  have split := ones_eq_low_add d
  have zeros : (List.range 7).countP (fun i => d.getLsbD (i + 1)) +
      (List.range 7).countP (fun i => !d.getLsbD (i + 1)) = 7 := by
    have complement := List.length_eq_countP_add_countP (fun i => d.getLsbD (i + 1))
      (l := List.range 7)
    simpa using complement.symm
  rw [byte, changes_chainByte]
  rw [number1s_eq] at choice
  -- With bit 0 set one of the ones is not counted, with bit 0 clear none of the zeros is.
  cases inv with
  | true =>
      have chosen := choice.mp rfl
      simp only [Bool.bne_true]
      cases h0 : d.getLsbD 0 <;> rw [h0] at split chosen <;> simp at split chosen <;> omega
  | false =>
      have chosen := mt choice.mpr (by simp)
      simp only [Bool.bne_false]
      cases h0 : d.getLsbD 0 <;> rw [h0] at split chosen <;> simp at split chosen <;> omega

/-- Every control code has six level changes in its low byte. -/
theorem changes_controlCode (q : BitVec 10) (control : q ∈ controlCodes) :
    changes (q.setWidth 8) = 6 := by
  simp only [controlCodes, List.mem_cons, List.not_mem_nil, or_false] at control
  rcases control with rfl | rfl | rfl | rfl <;> rfl

/-- No data symbol is a control code. -/
theorem encodeData_not_mem_controlCodes (cnt : Int) (d : BitVec 8) :
    (encodeData cnt (encodeIn d)).1 ∉ controlCodes := by
  intro control
  obtain ⟨invert, sent⟩ := encodeData_symbol cnt (encodeIn d)
  have six := changes_controlCode _ control
  have few := changes_qmByte_encodeIn d
  rw [sent, symbol_low] at six
  cases invert with
  | false => simp only [Bool.false_eq_true, if_false] at six; omega
  | true => simp only [if_true, changes_not] at six; omega

theorem decode_of_not_mem (q : BitVec 10) (data : q ∉ controlCodes) :
    decode q = .data (decodeByte q) := by
  simp only [controlCodes, List.mem_cons, List.not_mem_nil, or_false, not_or] at data
  obtain ⟨h00, h01, h10, h11⟩ := data
  simp [decode, h00, h01, h10, h11]

theorem decode_encodeData (cnt : Int) (d : BitVec 8) :
    decode (encodeData cnt (encodeIn d)).1 = .data d := by
  rw [decode_of_not_mem _ (encodeData_not_mem_controlCodes cnt d), decodeByte_encodeData]

theorem decode_controlSymbol (c1 c0 : Bool) :
    decode (controlSymbol (BitVec.ofBool c1 ++ BitVec.ofBool c0)) = .control c1 c0 := by
  cases c1 <;> cases c0 <;> rfl

/-! ## Streams -/

/-- The symbol register two edges after an input. -/
theorem run_qoutReg (w : Nat → Input) (s : Regs) (t : Nat) :
    (run step w s (t + 2)).qoutReg =
      if (w t).deIn then (encodeData (run step w s (t + 1)).cnt (encodeIn (w t).dIn)).1
      else controlSymbol (BitVec.ofBool (w t).c1In ++ BitVec.ofBool (w t).c0In) := by
  rw [run_succ step w s (t + 1), run_succ step w s t]
  rfl

/-- A symbol comes out two edges after its input, and tells what the input was. -/
theorem decode_qoutReg (w : Nat → Input) (s : Regs) (t : Nat) :
    decode (run step w s (t + 2)).qoutReg = (w t).symbol ∧
    ((w t).deIn = true → (run step w s (t + 2)).qoutReg ∉ controlCodes) := by
  rw [run_qoutReg]
  cases de : (w t).deIn with
  | true =>
      simp only [if_true, Input.symbol, de, forall_const]
      exact ⟨decode_encodeData _ _, encodeData_not_mem_controlCodes _ _⟩
  | false =>
      simp only [Bool.false_eq_true, if_false, Input.symbol, de]
      exact ⟨decode_controlSymbol _ _, fun h => h.elim⟩

/-- The decoder recovers the input stream, delayed by the two register stages, and a
data symbol is never one of the control codes. -/
theorem decode_stream (w : Nat → Input) (s : Regs) (t : Nat) :
    decode (run step w s (t + 2)).qoutReg = (w t).symbol ∧
    ((w t).deIn = true → (run step w s (t + 2)).qoutReg ∉ controlCodes) :=
  decode_qoutReg w s t

/-- The second symbol after a white pixel. -/
theorem decode_stream_white :
    (run step (fun _ => ⟨true, false, false, 0xff⟩) ⟨0, 0, false, 0, 0⟩ 2).qoutReg ∉ controlCodes :=
  (decode_stream (fun _ => ⟨true, false, false, 0xff⟩) ⟨0, 0, false, 0, 0⟩ 0).2 rfl

end Cineraria.Tmds
