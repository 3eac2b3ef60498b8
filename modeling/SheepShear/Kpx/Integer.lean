import SheepShear.Kpx.Flags

/-!
# Interpreter and translator agree on the integer instructions

Both engines compute the exact outcome of every integer instruction: first the
semantic actions of the interpreter, family by family, then the sequences of ops
that the translator generates.
-/

namespace SheepShear.Kpx

open Word

-- ---------------------------------------------------------------------------
-- Outcomes in a register file
-- ---------------------------------------------------------------------------

theorem recordCr_eq (r : Regs) (crf : BitVec 3) (v : Int) :
    r.recordCr crf v = { r with cr := crOrdering r.cr crf (compare v 0) r.xer.so } := by
  rw [Regs.recordCr, crSetSo_crCompute]

/-- An outcome written step by step, in the order of the semantic actions. -/
theorem commit_eq (o : Outcome) (dest : BitVec 5) (rc : Bool) (r : Regs) :
    o.commit dest rc r =
      (let r : Regs := { r with xer := r.xer.after o }
       let r := if rc then r.recordCr0 o.value else r
       r.setGpr dest o.value) := by
  have hgpr : Function.update r.gpr dest o.value =
      fun k => if k = dest then o.value else r.gpr k := by
    funext k
    rw [Function.update_apply]
  cases rc <;> simp [Outcome.commit, Regs.recordCr0, recordCr_eq, Regs.setGpr, hgpr]

@[simp] theorem keep_value (o : Outcome) (ca oe : Bool) : (o.keep ca oe).value = o.value := rfl

-- ---------------------------------------------------------------------------
-- The interpreter
-- ---------------------------------------------------------------------------

theorem executeAddition_eq (RA RB RC : Operand) (CA OE Rc : Predicate) (opcode : Word) (r : Regs) :
    executeAddition RA RB RC CA OE Rc opcode r =
      ((additionOutcome (RA r opcode) (RB r opcode) (RC r opcode)).keep (CA opcode)
        (OE opcode)).commit (rDField opcode) (Rc opcode) r := by
  rw [commit_eq, additionOutcome, after_keep, executeAddition]
  cases CA opcode <;> cases OE opcode <;> rfl

theorem executeGenericArith_eq (op : Word → Word → Word → Word)
    (overflow : Word → Word → Word → Bool) (RD : Word → BitVec 5) (RA RB RC : Operand)
    (OE Rc : Predicate) (opcode : Word) (r : Regs) :
    executeGenericArith op overflow RD RA RB RC OE Rc opcode r =
      (Outcome.keep ⟨op (RA r opcode) (RB r opcode) (RC r opcode), none,
        some (overflow (RA r opcode) (RB r opcode) (RC r opcode))⟩ false
        (OE opcode)).commit (RD opcode) (Rc opcode) r := by
  rw [commit_eq, after_keep_ov, executeGenericArith]
  cases OE opcode <;> rfl

theorem executeRlwimi_eq (SH MA : Operand) (Rc : Predicate) (opcode : Word) (r : Regs) :
    executeRlwimi SH MA Rc opcode r =
      (Outcome.plain (opPpcRlwimi (operandRS r opcode) (SH r opcode) (MA r opcode)
        (operandRA r opcode))).commit (rAField opcode) (Rc opcode) r := by
  rw [commit_eq, Outcome.plain, after_none, executeRlwimi]

theorem executeDivide_eq (sb : Bool) (OE Rc : Predicate) (opcode : Word) (r : Regs) (o : Outcome)
    (h : doExecuteDivide sb (OE opcode) r.xer (operandRA r opcode) (operandRB r opcode) =
      (o.value, r.xer.after (o.keep false (OE opcode)))) :
    executeDivide sb OE Rc opcode r =
      (o.keep false (OE opcode)).commit (rDField opcode) (Rc opcode) r := by
  rw [commit_eq, executeDivide]
  simp only [h, keep_value]

theorem executeCompare_eq (RB : Operand) (lt : Word → Word → Bool) (opcode : Word) (r : Regs)
    (o : Ordering)
    (h : compare (if lt (operandRA r opcode) (RB r opcode) then (-1 : Int)
      else if lt (RB r opcode) (operandRA r opcode) then 1 else 0) 0 = o) :
    executeCompare RB lt opcode r =
      { r with cr := crOrdering r.cr (crfDField opcode) o r.xer.so } := by
  rw [executeCompare, recordCr_eq, h]

/-- The sign of the three-way comparison is the ordering. -/
theorem compare_sign {α : Type} [LinearOrder α] (x y : α) :
    compare (if x < y then (-1 : Int) else if y < x then 1 else 0) 0 = compare x y := by
  rcases lt_trichotomy x y with h | rfl | h
  · rw [if_pos h, compare_lt_iff_lt.mpr h]
    rfl
  · rw [if_neg (lt_irrefl x), if_neg (lt_irrefl x)]
    exact (compare_eq_iff_eq.mpr (rfl : x = x)).symm
  · rw [if_neg h.not_gt, if_pos h, compare_gt_iff_gt.mpr h]
    rfl

theorem compare_slt (a b : Word) :
    compare (if a.slt b then (-1 : Int) else if b.slt a then 1 else 0) 0 =
      compare a.toInt b.toInt := by
  simp only [← compare_sign a.toInt b.toInt, BitVec.slt, decide_eq_true_eq]

theorem compare_ult (a b : Word) :
    compare (if a.ult b then (-1 : Int) else if b.ult a then 1 else 0) 0 =
      compare a.toNat b.toNat := by
  simp only [← compare_sign a.toNat b.toNat, BitVec.ult, decide_eq_true_eq]

/-- A write of one CR bit. -/
theorem crBit_eq (cr v : Word) (d : BitVec 5) (x : Bool) (hx : v.getLsbD 0 = x) :
    (cr &&& ~~~(1#32 <<< (31 - d.toNat))) ||| ((v &&& 1) <<< (31 - d.toNat)) =
      BitVec.ofFnBE fun i => if i.val = d.toNat then x else cr.getMsbD i := by
  have hd : d.toNat < 32 := d.isLt
  have hone : ∀ k, (1#32).getLsbD k = decide (k = 0) := by
    intro k
    rw [← BitVec.twoPow_zero, BitVec.getLsbD_twoPow]
    simp [eq_comm]
  apply BitVec.eq_of_getLsbD_eq
  intro i hi
  have hrev : (Fin.rev ⟨i, hi⟩ : Fin 32).val = 31 - i := by
    change 32 - (i + 1) = 31 - i
    omega
  have hcr : cr.getMsbD (31 - i) = cr.getLsbD i := by
    rw [BitVec.getMsbD, show 32 - 1 - (31 - i) = i by omega]
    simp [show 31 - i < 32 by omega]
  rw [BitVec.getLsbD_ofFnBE, dif_pos hi, hrev, hcr]
  simp only [BitVec.getLsbD_or, BitVec.getLsbD_and, BitVec.getLsbD_not, BitVec.getLsbD_shiftLeft,
    BitVec.ofNat_eq_ofNat, hone, hi, decide_true, Bool.true_and]
  rcases lt_trichotomy i (31 - d.toNat) with h | rfl | h
  · rw [if_neg (by omega)]
    simp [h]
  · rw [if_pos (by omega), Nat.sub_self, hx]
    simp
  · rw [if_neg (by omega)]
    simp [show ¬i - (31 - d.toNat) = 0 by omega]

theorem crBit_getLsbD (cr : Word) (a : BitVec 5) :
    ((cr >>> (31 - a.toNat)) &&& 1).getLsbD 0 = cr.getMsbD a.toNat := by
  have ha : a.toNat < 32 := a.isLt
  rw [BitVec.getLsbD_and, BitVec.getLsbD_ushiftRight, BitVec.getMsbD]
  simp [ha]

theorem crCombine_eq (op : Word → Word → Word) (f : Bool → Bool → Bool) (cr : Word)
    (d a b : BitVec 5)
    (h : ∀ x y : Word, (op x y).getLsbD 0 = f (x.getLsbD 0) (y.getLsbD 0)) :
    (cr &&& ~~~(1#32 <<< (31 - d.toNat))) |||
        ((op ((cr >>> (31 - a.toNat)) &&& 1) ((cr >>> (31 - b.toNat)) &&& 1) &&& 1) <<<
          (31 - d.toNat)) =
      crCombine f cr d a b := by
  apply crBit_eq
  rw [h, crBit_getLsbD, crBit_getLsbD]

theorem executeCrOp_eq (op : Word → Word → Word) (f : Bool → Bool → Bool) (opcode : Word)
    (r : Regs) (h : ∀ x y : Word, (op x y).getLsbD 0 = f (x.getLsbD 0) (y.getLsbD 0)) :
    executeCrOp op opcode r = { r with
      cr := crCombine f r.cr (crbDField opcode) (crbAField opcode) (crbBField opcode) } := by
  rw [executeCrOp, crCombine_eq op f _ _ _ _ h]

theorem executeMultiply_eq (hi sb : Bool) (OE Rc : Predicate) (opcode : Word) (r : Regs) :
    executeMultiply hi sb OE Rc opcode r =
      (let d : BitVec 64 :=
        if sb then (operandRA r opcode).signExtend 64 * (operandRB r opcode).signExtend 64
        else (operandRA r opcode).setWidth 64 * (operandRB r opcode).setWidth 64
       (Outcome.keep ⟨(if hi then d >>> 32 else d).setWidth 32, none,
        some (d &&& 0xffffffff80000000#64 != 0 &&
          d &&& 0xffffffff80000000#64 != 0xffffffff80000000#64)⟩ false
        (OE opcode)).commit (rDField opcode) (Rc opcode) r) := by
  simp only [commit_eq, after_keep_ov, executeMultiply]
  cases OE opcode <;> rfl

-- ---------------------------------------------------------------------------
-- Shifts right
-- ---------------------------------------------------------------------------

theorem signBit_eq (s : Word) : s >>> 31 = if s.toInt < 0 then 1 else 0 := by
  have hs := s.isLt
  apply BitVec.eq_of_toNat_eq
  rw [BitVec.toNat_ushiftRight, Nat.shiftRight_eq_div_pow, toInt_eq]
  split <;> split <;> simp <;> omega

theorem and_signBit (s : Word) : (s &&& 0x80000000#32 != 0) = isNeg s := by
  have hbit : s.getLsbD 31 = isNeg s := by
    have hs := s.isLt
    rw [isNeg_eq, BitVec.getLsbD, Nat.testBit_eq_decide_div_mod_eq, decide_eq_decide]
    omega
  have h : s &&& 0x80000000#32 = s &&& BitVec.twoPow 32 31 := rfl
  rw [h, BitVec.and_twoPow, hbit]
  cases isNeg s <;> decide

/-- A count of 32 or more leaves the sign. -/
theorem exactShiftRight_of_le (s : Word) (n : Nat) (hn : 32 ≤ n) :
    exactShiftRight s n = ⟨-(s >>> 31), some (s >>> 31 != 0), none⟩ := by
  obtain ⟨hl, hu⟩ := toInt_bounds s
  have hpow : (2 : Int) ^ 32 ≤ 2 ^ n := pow_le_pow_right₀ (by norm_num) hn
  rw [exactShiftRight, signBit_eq]
  rcases lt_or_ge s.toInt 0 with h | h
  · have hdiv : s.toInt / 2 ^ n = -1 := by
      rw [Int.ediv_eq_iff_of_pos (by positivity)]
      constructor <;> linarith
    have hmod : s.toInt % 2 ^ n ≠ 0 := by
      intro h0
      have := Int.emod_add_mul_ediv s.toInt (2 ^ n)
      rw [hdiv, h0] at this
      linarith
    simp [h, hdiv, hmod]
  · have hdiv : s.toInt / 2 ^ n = 0 := Int.ediv_eq_zero_of_lt h (by linarith)
    simp [hdiv, not_lt.mpr h]

/-- A count below 32 shifts, and CA collects the bits that are lost. -/
theorem exactShiftRight_of_lt (s n : Word) (hn : n.toNat < 32) :
    exactShiftRight s n.toNat =
      ⟨sar s n, some (isNeg s && s &&& ~~~(shl 0xffffffff#32 n) != 0), none⟩ := by
  have hca : decide (s.toInt < 0 ∧ s.toInt % 2 ^ n.toNat ≠ 0) =
      (isNeg s && s &&& ~~~(shl 0xffffffff#32 n) != 0) := by
    rw [shl, Nat.mod_eq_of_lt hn, lostBits_eq, isNeg, toInt_emod_two_pow s _ hn.le, Bool.decide_and]
    norm_cast
  rw [exactShiftRight, hca, sar, Nat.mod_eq_of_lt hn, sshiftRight_eq]

theorem executeShift_eq (op : ShiftOp) (RD : Word → BitVec 5) (RA SH : Operand) (so : Word)
    (CA Rc : Predicate) (opcode : Word) (s : Regs) :
    executeShift op RD RA SH so CA Rc opcode s =
      (let n := SH s opcode &&& so
       let r := RA s opcode
       let d := if n &&& 0x20#32 ≠ 0 then op.invalid r else op.apply r n
       let ca := if n &&& 0x20#32 ≠ 0 then d >>> 31 != 0
         else r &&& 0x80000000#32 != 0 && r &&& ~~~(shl 0xffffffff#32 n) != 0
       Outcome.commit ⟨d, if CA opcode then some ca else none, none⟩ (RD opcode) (Rc opcode) s) := by
  simp only [commit_eq, executeShift]
  cases CA opcode with
  | true =>
    simp only [if_true, after_ca]
    by_cases h : SH s opcode &&& so &&& 0x20#32 ≠ 0
    · simp only [if_pos h]
      rfl
    · simp only [if_neg h]
      rfl
  | false => simp only [after_none, if_false, Bool.false_eq_true]

theorem sraw_outcome (r n : Word) (m : Nat) (hm : n.toNat = m) (h : n &&& 0x20#32 ≠ 0 ↔ 32 ≤ m) :
    (⟨if n &&& 0x20#32 ≠ 0 then ShiftOp.shra.invalid r else ShiftOp.shra.apply r n,
      some (if n &&& 0x20#32 ≠ 0 then
        (if n &&& 0x20#32 ≠ 0 then ShiftOp.shra.invalid r else ShiftOp.shra.apply r n) >>> 31 != 0
        else r &&& 0x80000000#32 != 0 && r &&& ~~~(shl 0xffffffff#32 n) != 0), none⟩ : Outcome) =
      exactShiftRight r m := by
  subst hm
  rcases lt_or_ge n.toNat 32 with hn | hn
  · simp only [h, not_le.mpr hn, if_false, and_signBit]
    exact (exactShiftRight_of_lt r n hn).symm
  · simp only [h, hn, if_true]
    rw [exactShiftRight_of_le r _ hn, ShiftOp.invalid, signBit_eq]
    split <;> rfl

-- ---------------------------------------------------------------------------
-- Every instruction in the interpreter
-- ---------------------------------------------------------------------------

theorem toWord_ofNat_imm (v : BitVec 16) : v.setWidth 32 = BitVec.ofNat 32 v.toNat := by
  rw [BitVec.ofNat_toNat]

theorem simmShifted_eq (v : BitVec 16) :
    v.signExtend 32 <<< 16 = BitVec.ofInt 32 (v.toInt * 2 ^ 16) := by
  rw [BitVec.ofInt_mul, BitVec.signExtend, BitVec.shiftLeft_eq_mul_twoPow]
  rfl

theorem uimmShifted_eq (v : BitVec 16) :
    v.setWidth 32 <<< 16 = BitVec.ofNat 32 (v.toNat * 2 ^ 16) := by
  rw [BitVec.ofNat_mul, ← toWord_ofNat_imm, BitVec.shiftLeft_eq_mul_twoPow]
  rfl

theorem signExtend_low (s : Word) (w : Nat) :
    (s.setWidth w).signExtend 32 = BitVec.ofInt 32 ((s.toNat : Int).bmod (2 ^ w)) := by
  rw [BitVec.signExtend, BitVec.toInt_setWidth]

section

variable {RA RB RC : Operand} {CA OE Rc : Predicate} {opcode : Word} {r : Regs}

theorem executeAddition_exactAdd (a b : Word) (cin : Bool) (ha : RA r opcode = a)
    (hb : RB r opcode = b) (hc : RC r opcode = carryIn cin) :
    executeAddition RA RB RC CA OE Rc opcode r =
      ((exactAdd a b cin).keep (CA opcode) (OE opcode)).commit (rDField opcode) (Rc opcode) r := by
  rw [executeAddition_eq, ha, hb, hc, additionOutcome_carryIn]

theorem executeAddition_exactSub (a b : Word) (cin : Bool) (ha : RA r opcode = ~~~a)
    (hb : RB r opcode = b) (hc : RC r opcode = carryIn cin) :
    executeAddition RA RB RC CA OE Rc opcode r =
      ((exactSub a b cin).keep (CA opcode) (OE opcode)).commit (rDField opcode) (Rc opcode) r := by
  rw [exactSub_eq, executeAddition_exactAdd (~~~a) b cin ha hb hc]

/-- `subfme` and `subfze` add the carry second. -/
theorem executeAddition_exactSub_swap (a b : Word) (cin : Bool) (ha : RA r opcode = ~~~a)
    (hb : RB r opcode = carryIn cin) (hc : RC r opcode = b) :
    executeAddition RA RB RC CA OE Rc opcode r =
      ((exactSub a b cin).keep (CA opcode) (OE opcode)).commit (rDField opcode) (Rc opcode) r := by
  rw [executeAddition_eq, ha, hb, hc, additionOutcome_swap, additionOutcome_carryIn, exactSub_eq]

end

theorem execute_logical (op : Word → Word → Word → Word) (RB : Operand) (Rc : Predicate)
    (opcode : Word) (r : Regs) (v : Word)
    (h : op (r.gpr (rSField opcode)) (RB r opcode) 0 = v) :
    IntInsn.execute.logical op RB Rc opcode r =
      (Outcome.plain v).commit (rAField opcode) (Rc opcode) r := by
  rw [IntInsn.execute.logical, executeGenericArith_eq, ← h]
  rfl

-- Bit 0 of each CR operation.
section

variable (x y : Word)

theorem crBit_and : (x &&& y).getLsbD 0 = (x.getLsbD 0 && y.getLsbD 0) := by simp
theorem crBit_andc : (x &&& ~~~y).getLsbD 0 = (x.getLsbD 0 && !y.getLsbD 0) := by simp
theorem crBit_eqv : (~~~(x ^^^ y)).getLsbD 0 = (x.getLsbD 0 == y.getLsbD 0) := by
  rw [BitVec.getLsbD_not, BitVec.getLsbD_xor]
  cases x.getLsbD 0 <;> cases y.getLsbD 0 <;> rfl
theorem crBit_nand : (~~~(x &&& y)).getLsbD 0 = !(x.getLsbD 0 && y.getLsbD 0) := by simp
theorem crBit_nor : (~~~(x ||| y)).getLsbD 0 = !(x.getLsbD 0 || y.getLsbD 0) := by simp
theorem crBit_or : (x ||| y).getLsbD 0 = (x.getLsbD 0 || y.getLsbD 0) := by simp
theorem crBit_orc : (x ||| ~~~y).getLsbD 0 = (x.getLsbD 0 || !y.getLsbD 0) := by simp
theorem crBit_xor : (x ^^^ y).getLsbD 0 = (x.getLsbD 0 ^^ y.getLsbD 0) := by simp

end

theorem compare_slt_simm (a : Word) (v : BitVec 16) :
    compare (if a.slt (v.signExtend 32) then (-1 : Int)
      else if (v.signExtend 32).slt a then 1 else 0) 0 = compare a.toInt v.toInt := by
  rw [compare_slt, BitVec.toInt_signExtend_of_le (by omega)]

theorem compare_ult_uimm (a : Word) (v : BitVec 16) :
    compare (if a.ult (v.setWidth 32) then (-1 : Int)
      else if (v.setWidth 32).ult a then 1 else 0) 0 = compare a.toNat v.toNat := by
  rw [compare_ult, BitVec.toNat_setWidth_of_le (by omega)]

theorem overflows_neg (a : Word) : (a == 0x80000000#32) = overflows (-a.toInt) := by
  have := toInt_bounds a
  have h : a = 0x80000000#32 ↔ a.toInt = -2 ^ 31 := by
    rw [← BitVec.toInt_inj]
    rfl
  rw [Bool.eq_iff_iff, beq_iff_eq, h, overflows, decide_eq_true_eq]
  omega

theorem executeNeg_eq (opcode : Word) (r : Regs) :
    IntInsn.neg.execute opcode r = IntInsn.neg.exact opcode r := by
  have h : exactNeg (r.gpr (rAField opcode)) = ⟨-r.gpr (rAField opcode), none,
      some (r.gpr (rAField opcode) == 0x80000000#32)⟩ := by
    rw [exactNeg, BitVec.ofInt_neg, BitVec.ofInt_toInt, overflows_neg]
  refine (executeGenericArith_eq (fun a _ _ => -a) opOverflowNeg rDField operandRA operandNone
    operandNone oeBitG rcBitG opcode r).trans ?_
  change _ = xoForm opcode r false (exactNeg (r.gpr (rAField opcode)))
  rw [h]
  rfl

theorem executeMulli_eq (opcode : Word) (r : Regs) :
    IntInsn.mulli.execute opcode r = IntInsn.mulli.exact opcode r := by
  refine (executeGenericArith_eq (fun a b _ => a * b) noOverflow rDField operandRA operandSimm
    operandNone bit0 bit0 opcode r).trans ?_
  change _ = dForm opcode r false false (exactMul (r.gpr (rAField opcode)) (signedImm opcode))
  rw [exactMul, BitVec.ofInt_mul, BitVec.ofInt_toInt, BitVec.ofInt_toInt]
  rfl

theorem executeMullw_eq (opcode : Word) (r : Regs) :
    IntInsn.mullw.execute opcode r = IntInsn.mullw.exact opcode r := by
  obtain ⟨hl, hu⟩ := toInt_mul_bounds (r.gpr (rAField opcode)) (r.gpr (rBField opcode))
  refine (executeMultiply_eq false true oeBitG rcBitG opcode r).trans ?_
  simp only [operandRA, operandRB, if_true, mul_signExtend, upperBits_eq _ hl hu, setWidth_ofInt,
    Bool.false_eq_true, if_false]
  rfl

theorem executeMulhw_eq (opcode : Word) (r : Regs) :
    IntInsn.mulhw.execute opcode r = IntInsn.mulhw.exact opcode r := by
  refine (executeMultiply_eq true true bit0 rcBitG opcode r).trans ?_
  simp only [operandRA, operandRB, if_true, mul_signExtend, mulhw_eq]
  rfl

theorem executeMulhwu_eq (opcode : Word) (r : Regs) :
    IntInsn.mulhwu.execute opcode r = IntInsn.mulhwu.exact opcode r := by
  refine (executeMultiply_eq true false bit0 rcBitG opcode r).trans ?_
  simp only [operandRA, operandRB, if_true, Bool.false_eq_true, if_false, mulhwu_eq]
  rfl

theorem rotl_sh (x : Word) (sh : BitVec 5) : opRotl x (sh.setWidth 32) = x.rotateLeft sh.toNat := by
  have hsh : sh.toNat < 32 := sh.isLt
  rw [opRotl_eq, BitVec.toNat_setWidth_of_le (by omega), Nat.mod_eq_of_lt hsh]

theorem rotl_low (x y : Word) : opRotl x (y &&& 0x1f#32) = x.rotateLeft (y.toNat % 32) := by
  rw [opRotl_eq, toNat_and_31, Nat.mod_mod]

theorem executeRlwimi_exact (opcode : Word) (r : Regs) :
    IntInsn.rlwimi.execute opcode r = IntInsn.rlwimi.exact opcode r := by
  refine (executeRlwimi_eq _ _ _ opcode r).trans ?_
  simp only [opPpcRlwimi, operandSh, operandMask, rotl_sh, maskCompute_eq]
  rfl

theorem executeRlwinm_exact (opcode : Word) (r : Regs) :
    IntInsn.rlwinm.execute opcode r = IntInsn.rlwinm.exact opcode r := by
  refine (executeGenericArith_eq _ _ _ _ _ _ _ _ opcode r).trans ?_
  simp only [opPpcRlwinm, operandSh, operandMask, rotl_sh, maskCompute_eq]
  rfl

theorem executeRlwnm_exact (opcode : Word) (r : Regs) :
    IntInsn.rlwnm.execute opcode r = IntInsn.rlwnm.exact opcode r := by
  refine (executeGenericArith_eq _ _ _ _ _ _ _ _ opcode r).trans ?_
  simp only [opPpcRlwnm, operandMask, rotl_low, maskCompute_eq]
  rfl

theorem executeSlw_exact (opcode : Word) (r : Regs) :
    IntInsn.slw.execute opcode r = IntInsn.slw.exact opcode r := by
  refine (executeShift_eq _ _ _ _ _ _ _ opcode r).trans ?_
  simp only [ShiftOp.invalid, ShiftOp.apply, slw_eq]
  rfl

theorem executeSrw_exact (opcode : Word) (r : Regs) :
    IntInsn.srw.execute opcode r = IntInsn.srw.exact opcode r := by
  refine (executeShift_eq _ _ _ _ _ _ _ opcode r).trans ?_
  simp only [ShiftOp.invalid, ShiftOp.apply, srw_eq]
  rfl

theorem executeSraw_exact (opcode : Word) (r : Regs) :
    IntInsn.sraw.execute opcode r = IntInsn.sraw.exact opcode r := by
  refine (executeShift_eq _ _ _ _ _ _ _ opcode r).trans ?_
  exact congrArg (fun o : Outcome => o.commit (rAField opcode) (rcField opcode) r)
    (sraw_outcome _ _ _ (toNat_and_63 _) (and_32_ne_zero _))

theorem executeSrawi_exact (opcode : Word) (r : Regs) :
    IntInsn.srawi.execute opcode r = IntInsn.srawi.exact opcode r := by
  have hsh : (shField opcode).toNat < 32 := (shField opcode).isLt
  have hn : ((shField opcode).setWidth 32 &&& 0x1f#32).toNat = (shField opcode).toNat := by
    rw [toNat_and_31, BitVec.toNat_setWidth_of_le (by omega), Nat.mod_eq_of_lt hsh]
  have hvalid : (shField opcode).setWidth 32 &&& 0x1f#32 &&& 0x20#32 = 0 := by
    rw [BitVec.and_assoc]
    exact BitVec.and_zero
  refine (executeShift_eq _ _ _ _ _ _ _ opcode r).trans ?_
  refine congrArg (fun o : Outcome => o.commit (rAField opcode) (rcField opcode) r)
    (sraw_outcome _ _ _ hn ?_)
  simp only [operandSh, hvalid]
  simpa using hsh

theorem execute_eq_exact (insn : IntInsn) (opcode : Word) (r : Regs) :
    insn.execute opcode r = insn.exact opcode r := by
  cases insn with
  | add | addc => exact executeAddition_exactAdd _ _ false rfl rfl rfl
  | adde => exact executeAddition_exactAdd _ _ r.xer.ca rfl rfl rfl
  | addme => exact executeAddition_exactAdd _ _ r.xer.ca rfl rfl rfl
  | addze => exact executeAddition_exactAdd _ _ r.xer.ca rfl rfl rfl
  | addi => exact executeAddition_exactAdd _ _ false (ite_not ..) rfl rfl
  | addis => exact executeAddition_exactAdd _ _ false (ite_not ..) (simmShifted_eq _) rfl
  | addic | addicRecord => exact executeAddition_exactAdd _ _ false rfl rfl rfl
  | subf | subfc => exact executeAddition_exactSub _ _ true rfl rfl rfl
  | subfe => exact executeAddition_exactSub _ _ r.xer.ca rfl rfl rfl
  | subfic => exact executeAddition_exactSub _ _ true rfl rfl rfl
  | subfme => exact executeAddition_exactSub_swap _ _ r.xer.ca rfl rfl rfl
  | subfze => exact executeAddition_exactSub_swap _ _ r.xer.ca rfl rfl rfl
  | and | andc | eqv | nand | nor | or | orc | xor => exact execute_logical _ _ _ _ _ _ rfl
  | ori | xori | andi =>
    exact execute_logical _ _ _ _ _ _ (by rw [operandUimm, toWord_ofNat_imm]; rfl)
  | oris | xoris | andis =>
    exact execute_logical _ _ _ _ _ _ (by rw [operandUimmShifted, uimmShifted_eq]; rfl)
  | extsb => exact execute_logical _ _ _ _ _ _ (signExtend_low _ 8)
  | extsh => exact execute_logical _ _ _ _ _ _ (signExtend_low _ 16)
  | cntlzw => exact execute_logical _ _ _ _ _ _ (opCntlzw_eq _)
  | neg => exact executeNeg_eq opcode r
  | mulli => exact executeMulli_eq opcode r
  | mullw => exact executeMullw_eq opcode r
  | mulhw => exact executeMulhw_eq opcode r
  | mulhwu => exact executeMulhwu_eq opcode r
  | divw => exact executeDivide_eq _ _ _ _ _ _ (doExecuteDivide_signed _ _ _ _)
  | divwu => exact executeDivide_eq _ _ _ _ _ _ (doExecuteDivide_unsigned _ _ _ _)
  | rlwimi => exact executeRlwimi_exact opcode r
  | rlwinm => exact executeRlwinm_exact opcode r
  | rlwnm => exact executeRlwnm_exact opcode r
  | slw => exact executeSlw_exact opcode r
  | srw => exact executeSrw_exact opcode r
  | sraw => exact executeSraw_exact opcode r
  | srawi => exact executeSrawi_exact opcode r
  | cmp => exact executeCompare_eq _ _ _ _ _ (compare_slt _ _)
  | cmpi => exact executeCompare_eq _ _ _ _ _ (compare_slt_simm _ _)
  | cmpl => exact executeCompare_eq _ _ _ _ _ (compare_ult _ _)
  | cmpli => exact executeCompare_eq _ _ _ _ _ (compare_ult_uimm _ _)
  | crand => exact executeCrOp_eq (fun a b => a &&& b) _ _ _ crBit_and
  | crandc => exact executeCrOp_eq (fun a b => a &&& ~~~b) _ _ _ crBit_andc
  | creqv => exact executeCrOp_eq (fun a b => ~~~(a ^^^ b)) _ _ _ crBit_eqv
  | crnand => exact executeCrOp_eq (fun a b => ~~~(a &&& b)) _ _ _ crBit_nand
  | crnor => exact executeCrOp_eq (fun a b => ~~~(a ||| b)) _ _ _ crBit_nor
  | cror => exact executeCrOp_eq (fun a b => a ||| b) _ _ _ crBit_or
  | crorc => exact executeCrOp_eq (fun a b => a ||| ~~~b) _ _ _ crBit_orc
  | crxor => exact executeCrOp_eq (fun a b => a ^^^ b) _ _ _ crBit_xor

end SheepShear.Kpx
