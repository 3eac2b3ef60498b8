import SheepShear.Lib.Words
import SheepShear.Kpx.Dyngen
import SheepShear.Kpx.IntegerSpec

/-!
# The operations of both engines as exact arithmetic

One equation for each operation the interpreter and the ops are made of: the
carry of a 64-bit sum and the sign formulas of the ops, the masks and shifts,
the products and quotients, and the writes of one CR field.
-/

namespace SheepShear.Kpx

open Word

-- ---------------------------------------------------------------------------
-- Sums
-- ---------------------------------------------------------------------------

/-- A carry as an operand. -/
def carryIn (c : Bool) : Word := if c then 1 else 0

@[simp] theorem toNat_carryIn (c : Bool) : (carryIn c).toNat = c.toNat := by cases c <;> rfl

@[simp] theorem toInt_carryIn (c : Bool) : (carryIn c).toInt = c.toInt := by cases c <;> rfl

theorem isNeg_eq (a : Word) : isNeg a = decide (2 ^ 31 ≤ a.toNat) := by
  have := a.isLt
  simp only [isNeg, toInt_eq, decide_eq_decide]
  split <;> omega

theorem isNeg_not (a : Word) : isNeg (~~~a) = !isNeg a := by
  have := a.isLt
  rw [isNeg_eq, isNeg_eq, BitVec.toNat_not, ← decide_not, decide_eq_decide]
  omega

theorem opCarryAdd_eq (a b c : Word) :
    opCarryAdd a b c = decide (2 ^ 32 ≤ a.toNat + b.toNat + c.toNat) := by
  have ha := a.isLt
  have hb := b.isLt
  have hc := c.isLt
  rw [opCarryAdd, bne, Bool.eq_iff_iff]
  simp only [Bool.not_eq_true', beq_eq_false_iff_ne, ne_eq, ← BitVec.toNat_inj, decide_eq_true_eq]
  simp only [BitVec.toNat_ushiftRight, BitVec.toNat_add, BitVec.toNat_setWidth,
    Nat.shiftRight_eq_div_pow, BitVec.ofNat_eq_ofNat, BitVec.toNat_ofNat]
  omega

theorem xor_eq_decide {p q t : Prop} [Decidable p] [Decidable q] [Decidable t]
    (h : t ↔ ¬(p ↔ q)) : (decide p ^^ decide q) = decide t := by
  by_cases hp : p <;> by_cases hq : q <;> simp_all

/-- The two sign bits differ exactly on a sum that a register cannot hold. -/
theorem msb_ofInt_xor (s : Int) (hl : -2 ^ 32 ≤ s) (hu : s < 2 ^ 32) :
    ((BitVec.ofInt 64 s).msb ^^ (BitVec.ofInt 32 s).msb) = overflows s := by
  have h64 : (BitVec.ofInt 64 s).toInt < 0 ↔ s < 0 := by
    rw [BitVec.toInt_ofInt, Int.bmod_def]
    split <;> omega
  have h32 : (BitVec.ofInt 32 s).toInt < 0 ↔ 2 ^ 31 ≤ s % 2 ^ 32 := by
    rw [BitVec.toInt_ofInt, Int.bmod_def]
    split <;> omega
  rw [BitVec.msb_eq_toInt, BitVec.msb_eq_toInt, overflows]
  exact xor_eq_decide (by rw [h64, h32]; omega)

theorem opOverflowAdd_eq (a b : Word) (cin : Bool) :
    opOverflowAdd a b (carryIn cin) = overflows (a.toInt + b.toInt + cin.toInt) := by
  have hsum : a.signExtend 64 + b.signExtend 64 + (carryIn cin).signExtend 64 =
      BitVec.ofInt 64 (a.toInt + b.toInt + cin.toInt) := by
    simp only [BitVec.signExtend, BitVec.ofInt_add, toInt_carryIn]
  obtain ⟨hal, hau⟩ := toInt_bounds a
  obtain ⟨hbl, hbu⟩ := toInt_bounds b
  have hc : 0 ≤ cin.toInt ∧ cin.toInt ≤ 1 := by cases cin <;> decide
  rw [opOverflowAdd, hsum, setWidth_ofInt]
  exact msb_ofInt_xor _ (by omega) (by omega)

theorem toNat_add_carryIn (a b : Word) (c : Bool) :
    (a + b + carryIn c).toNat = (a.toNat + b.toNat + c.toNat) % 2 ^ 32 := by
  rw [BitVec.toNat_add, BitVec.toNat_add, toNat_carryIn]
  omega

/-- The sign formula of the ops for the carry out. -/
theorem signCarry_eq (a b : Word) (c : Bool) :
    (isNeg b ^^ ((isNeg b ^^ isNeg a) && (isNeg a ^^ isNeg (a + b + carryIn c)))) =
      decide (2 ^ 32 ≤ a.toNat + b.toNat + c.toNat) := by
  have ha := a.isLt
  have hb := b.isLt
  have hc : c.toNat ≤ 1 := c.toNat_le
  rw [isNeg_eq, isNeg_eq, isNeg_eq, toNat_add_carryIn, Bool.eq_iff_iff]
  norm_num at *
  by_cases hna : 2147483648 ≤ a.toNat <;> by_cases hnb : 2147483648 ≤ b.toNat <;>
    simp [hna, hnb] <;> omega

/-- The sign formula of the ops for signed overflow. -/
theorem signOverflow_eq (a b : Word) (c : Bool) :
    ((isNeg b ^^ isNeg (a + b + carryIn c)) && (isNeg a ^^ isNeg (a + b + carryIn c))) =
      overflows (a.toInt + b.toInt + c.toInt) := by
  have ha := a.isLt
  have hb := b.isLt
  have hc : c.toNat ≤ 1 := c.toNat_le
  have hk : c.toInt = c.toNat := by cases c <;> rfl
  rw [isNeg_eq, isNeg_eq, isNeg_eq, toNat_add_carryIn, overflows, toInt_eq, toInt_eq, hk,
    Bool.eq_iff_iff]
  norm_num at *
  by_cases hna : 2147483648 ≤ a.toNat <;> by_cases hnb : 2147483648 ≤ b.toNat <;>
    simp [hna, hnb] <;> omega

theorem exactAdd_value (a b : Word) (cin : Bool) :
    (exactAdd a b cin).value = a + b + carryIn cin := by
  simp only [exactAdd, BitVec.ofInt_add, BitVec.ofInt_toInt, ← toInt_carryIn]

/-- Subtraction is the addition of the complement. -/
theorem exactSub_eq (a b : Word) (cin : Bool) : exactSub a b cin = exactAdd (~~~a) b cin := by
  have ha := a.isLt
  have hnot : (~~~a).toInt = -a.toInt - 1 := by
    rw [toInt_eq, toInt_eq, BitVec.toNat_not]
    split <;> split <;> omega
  have hsum : b.toInt - a.toInt - 1 + cin.toInt = (~~~a).toInt + b.toInt + cin.toInt := by
    rw [hnot]
    ring
  have hca : a.toNat + 1 ≤ b.toNat + cin.toNat ↔
      2 ^ 32 ≤ (~~~a).toNat + b.toNat + cin.toNat := by
    rw [BitVec.toNat_not]
    omega
  simp only [exactSub, exactAdd, hsum, hca]

/-- The interpreter's sum of three operands, with both flags. -/
def additionOutcome (a b c : Word) : Outcome :=
  ⟨a + b + c, some (opCarryAdd a b c), some (opOverflowAdd a b c)⟩

theorem additionOutcome_carryIn (a b : Word) (cin : Bool) :
    additionOutcome a b (carryIn cin) = exactAdd a b cin := by
  rw [additionOutcome, opCarryAdd_eq, opOverflowAdd_eq, toNat_carryIn, ← exactAdd_value]
  rfl

theorem additionOutcome_swap (a b c : Word) : additionOutcome a b c = additionOutcome a c b := by
  simp only [additionOutcome, opCarryAdd, opOverflowAdd, add_right_comm _ _ (_ : BitVec _)]

/-- XER after an outcome with both flags. -/
theorem after_keep (x : Xer) (v : Word) (ca ov wca oe : Bool) :
    x.after (Outcome.keep ⟨v, some ca, some ov⟩ wca oe) =
      (let x := if wca then x.setCa ca else x
       if oe then x.setOv ov else x) := by
  cases wca <;> cases oe <;> simp [Xer.after, Outcome.keep, Xer.setOv, Xer.setCa]

theorem after_keep_ov (x : Xer) (v : Word) (ov oe : Bool) :
    x.after (Outcome.keep ⟨v, none, some ov⟩ false oe) = if oe then x.setOv ov else x := by
  cases oe <;> simp [Xer.after, Outcome.keep, Xer.setOv]

theorem after_ca (x : Xer) (v : Word) (ca : Bool) :
    x.after ⟨v, some ca, none⟩ = x.setCa ca := by
  simp [Xer.after, Xer.setCa]

theorem after_none (x : Xer) (v : Word) : x.after ⟨v, none, none⟩ = x := by
  simp [Xer.after]

theorem caBit_eq (x : Xer) : caBit x = carryIn x.ca := rfl

theorem doExecuteAddition_eq (ex ca oe : Bool) (x : Xer) (a b : Word) :
    doExecuteAddition ex ca oe x a b =
      ((exactAdd a b (ex && x.ca)).value,
        x.after ((exactAdd a b (ex && x.ca)).keep (ex || ca) oe)) := by
  have hcin : (if ex then caBit x else 0) = carryIn (ex && x.ca) := by cases ex <;> rfl
  have hout : exactAdd a b (ex && x.ca) = ⟨a + b + carryIn (ex && x.ca),
      some (2 ^ 32 ≤ a.toNat + b.toNat + (ex && x.ca).toNat),
      some (overflows (a.toInt + b.toInt + (ex && x.ca).toInt))⟩ := by
    rw [← exactAdd_value]
    rfl
  rw [hout, after_keep, doExecuteAddition, hcin]
  simp only [signCarry_eq, signOverflow_eq]
  cases ex with
  | true => rfl
  | false =>
    have hult : (a + b + carryIn false).ult a = decide (2 ^ 32 ≤ a.toNat + b.toNat) := by
      have ha := a.isLt
      have hb := b.isLt
      rw [BitVec.ult, toNat_add_carryIn, decide_eq_decide, Bool.toNat_false]
      omega
    simp only [Bool.false_and, hult, Bool.toNat_false, Nat.add_zero, Bool.false_or]
    rfl

theorem doExecuteSubtract_eq (ca oe : Bool) (x : Xer) (a b : Word) :
    doExecuteSubtract ca oe x a b =
      ((exactSub a b true).value, x.after ((exactSub a b true).keep ca oe)) := by
  have hd : b - a = ~~~a + b + carryIn true := by
    rw [BitVec.sub_eq_add_neg, BitVec.neg_eq_not_add, add_comm b, add_right_comm]
    rfl
  have hca : (b - a).ule b = decide (2 ^ 32 ≤ (~~~a).toNat + b.toNat + true.toNat) := by
    have ha := a.isLt
    have hb := b.isLt
    rw [BitVec.ule, BitVec.toNat_sub, BitVec.toNat_not, decide_eq_decide, Bool.toNat_true]
    omega
  have hov : ((isNeg a ^^ isNeg b) && (isNeg (b - a) ^^ isNeg b)) =
      overflows ((~~~a).toInt + b.toInt + true.toInt) := by
    rw [← signOverflow_eq, isNeg_not, ← hd]
    cases isNeg a <;> cases isNeg b <;> cases isNeg (b - a) <;> rfl
  rw [exactSub_eq]
  simp only [doExecuteSubtract, hca, hov, exactAdd_value, ← hd]
  rw [exactAdd, after_keep]

theorem doExecuteSubtractExtended_eq (oe : Bool) (x : Xer) (a b : Word) :
    doExecuteSubtractExtended oe x a b =
      ((exactSub a b x.ca).value, x.after ((exactSub a b x.ca).keep true oe)) := by
  have hca : (!isNeg a ^^ ((isNeg a ^^ isNeg (~~~a + b + carryIn x.ca)) &&
      (isNeg b ^^ isNeg (~~~a + b + carryIn x.ca)))) =
      decide (2 ^ 32 ≤ (~~~a).toNat + b.toNat + x.ca.toNat) := by
    rw [← signCarry_eq, isNeg_not]
    cases isNeg a <;> cases isNeg b <;> cases isNeg (~~~a + b + carryIn x.ca) <;> rfl
  have hov : ((isNeg a ^^ isNeg b) && (isNeg (~~~a + b + carryIn x.ca) ^^ isNeg b)) =
      overflows ((~~~a).toInt + b.toInt + x.ca.toInt) := by
    rw [← signOverflow_eq, isNeg_not]
    cases isNeg a <;> cases isNeg b <;> cases isNeg (~~~a + b + carryIn x.ca) <;> rfl
  rw [exactSub_eq]
  simp only [doExecuteSubtractExtended, caBit_eq, hca, hov, exactAdd_value]
  rw [exactAdd, after_keep]
  rfl

-- ---------------------------------------------------------------------------
-- Products and quotients
-- ---------------------------------------------------------------------------

theorem overflows_toInt (a : Word) : overflows a.toInt = false := by
  have := toInt_bounds a
  rw [overflows, decide_eq_false_iff_not]
  omega

/-- The test of `execute_multiply` on the upper 33 bits of a product. -/
theorem upperBits_eq (p : Int) (hl : -2 ^ 62 ≤ p) (hu : p ≤ 2 ^ 62) :
    (BitVec.ofInt 64 p &&& 0xffffffff80000000#64 != 0 &&
        BitVec.ofInt 64 p &&& 0xffffffff80000000#64 != 0xffffffff80000000#64) = overflows p := by
  rw [Bool.eq_iff_iff, Bool.and_eq_true, bne_iff_ne, bne_iff_ne, ne_eq, ne_eq, ← BitVec.toNat_inj,
    ← BitVec.toNat_inj, and_upperMask, BitVec.toNat_ofInt, overflows, decide_eq_true_eq]
  simp only [BitVec.ofNat_eq_ofNat, BitVec.toNat_ofNat]
  omega

theorem mulo_eq (p : Int) (hl : -2 ^ 62 ≤ p) (hu : p ≤ 2 ^ 62) :
    ((BitVec.ofInt 32 p).signExtend 64 != BitVec.ofInt 64 p) = overflows p := by
  rw [Bool.eq_iff_iff, bne_iff_ne, ne_eq, ← BitVec.toInt_inj, overflows, decide_eq_true_eq]
  rw [BitVec.toInt_signExtend_of_le (by omega), BitVec.toInt_ofInt, BitVec.toInt_ofInt,
    Int.bmod_def, Int.bmod_def]
  split <;> split <;> omega

theorem divide_invalid_iff (a b : Word) (hb : b ≠ 0) :
    overflows (a.toInt.tdiv b.toInt) = true ↔ a = 0x80000000#32 ∧ b = BitVec.ofInt 32 (-1) := by
  by_cases h : a = 0x80000000#32 ∧ b = BitVec.ofInt 32 (-1)
  · obtain ⟨rfl, rfl⟩ := h
    decide
  · have h' : a ≠ BitVec.intMin 32 ∨ b ≠ -1#32 := by
      by_cases ha : a = 0x80000000#32
      · exact Or.inr fun hb => h ⟨ha, hb⟩
      · exact Or.inl ha
    rw [← BitVec.toInt_sdiv_of_ne_or_ne a b h', overflows_toInt]
    exact ⟨nofun, fun h0 => absurd h0 h⟩

theorem doExecuteDivide_signed (oe : Bool) (x : Xer) (a b : Word) :
    doExecuteDivide true oe x a b =
      ((exactDiv a b).value, x.after ((exactDiv a b).keep false oe)) := by
  have hzero : b.toInt = 0 ↔ b = 0 := by rw [← BitVec.toInt_inj]; rfl
  have hinv : (b = 0 ∨ (True ∧ a = 0x80000000#32 ∧ b = BitVec.ofInt 32 (-1))) ↔
      (b.toInt = 0 ∨ overflows (a.toInt.tdiv b.toInt) = true) := by
    rw [hzero, true_and]
    by_cases hb : b = 0
    · simp [hb]
    · rw [divide_invalid_iff a b hb]
  simp only [doExecuteDivide, exactDiv, if_true, hinv]
  split
  · simp only [after_keep_ov, sshiftRight_eq, toInt_div_sign]
  · simp only [after_keep_ov]
    congr 1
    apply BitVec.eq_of_toInt_eq
    rw [BitVec.toInt_sdiv, BitVec.toInt_ofInt]

theorem doExecuteDivide_unsigned (oe : Bool) (x : Xer) (a b : Word) :
    doExecuteDivide false oe x a b =
      ((exactDivUnsigned a b).value, x.after ((exactDivUnsigned a b).keep false oe)) := by
  have hzero : b.toNat = 0 ↔ b = 0 := by rw [← BitVec.toNat_inj]; rfl
  simp only [doExecuteDivide, exactDivUnsigned, hzero, Bool.false_eq_true, false_and, or_false]
  split
  · simp only [after_keep_ov, if_false]
  · simp only [after_keep_ov, if_false]
    congr 1
    apply BitVec.eq_of_toNat_eq
    have h : a.toNat / b.toNat < 2 ^ 32 := lt_of_le_of_lt (Nat.div_le_self _ _) a.isLt
    rw [BitVec.toNat_udiv, BitVec.toNat_ofNat, Nat.mod_eq_of_lt h]

-- ---------------------------------------------------------------------------
-- Rotates, masks and shifts
-- ---------------------------------------------------------------------------

theorem opRotl_eq (x y : Word) : opRotl x y = x.rotateLeft (y.toNat % 32) := by
  have hy := y.isLt
  rw [opRotl, shl, shr, BitVec.rotateLeft_def, Nat.mod_mod]
  have h32 : (32 - y).toNat % 32 = (32 - y.toNat % 32) % 32 := by
    rw [BitVec.toNat_sub]
    simp
    omega
  rw [h32]
  rcases Nat.eq_zero_or_pos (y.toNat % 32) with h | h
  · have hx : x >>> 32 = 0 := BitVec.ushiftRight_eq_zero (le_refl 32)
    simp [h, hx]
  · rw [Nat.mod_eq_of_lt (show 32 - y.toNat % 32 < 32 by omega)]

theorem maskCompute_eq (mb me : BitVec 5) : maskCompute mb me = maskBits mb me := by
  have hmb : mb.toNat < 32 := mb.isLt
  have hme : me.toNat < 32 := me.isLt
  have hright : (if me.toNat ≥ 31 then 0 else BitVec.allOnes 32 >>> (me.toNat + 1)) =
      BitVec.allOnes 32 >>> (me.toNat + 1) := by
    split
    · have : me.toNat = 31 := by omega
      rw [this]
      rfl
    · rfl
  apply BitVec.eq_of_getLsbD_eq
  intro i hi
  rw [maskCompute, maskBits, BitVec.getLsbD_ofFnBE, dif_pos hi, hright]
  simp only [apply_ite (fun w : Word => w.getLsbD i), BitVec.getLsbD_not, BitVec.getLsbD_xor,
    getLsbD_allOnes_shiftRight, Fin.val_rev, hi, decide_true, Bool.true_and]
  rw [Bool.eq_iff_iff]
  by_cases h : mb.toNat ≤ me.toNat
  · have h' : ¬mb.toNat > me.toNat := by omega
    simp only [h, h', if_true, if_false]
    by_cases h1 : i + mb.toNat < 32 <;> by_cases h2 : i + (me.toNat + 1) < 32 <;>
      simp [h1, h2] <;> omega
  · have h' : mb.toNat > me.toNat := by omega
    simp only [h, h', if_true, if_false]
    by_cases h1 : i + mb.toNat < 32 <;> by_cases h2 : i + (me.toNat + 1) < 32 <;>
      simp [h1, h2] <;> omega

theorem maskBits_getLsbD (mb me : BitVec 5) (i : Nat) (hi : i < 32) :
    (maskBits mb me).getLsbD i = decide
      (if mb.toNat ≤ me.toNat then mb.toNat + i ≤ 31 ∧ 31 ≤ me.toNat + i
      else mb.toNat + i ≤ 31 ∨ 31 ≤ me.toNat + i) := by
  rw [maskBits, BitVec.getLsbD_ofFnBE, dif_pos hi]
  simp only [Fin.val_rev]
  split <;> rw [decide_eq_decide] <;> omega

theorem rlwinm_slwi (x : Word) (sh mb me : BitVec 5) (hmb : mb.toNat = 0)
    (hme : me.toNat = 31 - sh.toNat) :
    x <<< sh.toNat = x.rotateLeft sh.toNat &&& maskBits mb me := by
  have hsh : sh.toNat < 32 := sh.isLt
  apply BitVec.eq_of_getLsbD_eq
  intro i hi
  rw [BitVec.getLsbD_and, maskBits_getLsbD _ _ _ hi, BitVec.getLsbD_rotateLeft,
    BitVec.getLsbD_shiftLeft]
  simp only [hmb, hme, hi, Nat.mod_eq_of_lt hsh]
  rcases lt_or_ge i sh.toNat with h | h
  · simp [h]
    omega
  · simp [show ¬i < sh.toNat by omega, show i ≤ 31 by omega]
    omega

theorem rlwinm_srwi (x : Word) (sh mb me : BitVec 5) (hmb : sh.toNat = 32 - mb.toNat)
    (hme : me.toNat = 31) :
    x >>> mb.toNat = x.rotateLeft sh.toNat &&& maskBits mb me := by
  have hsh : sh.toNat < 32 := sh.isLt
  have hmb' : mb.toNat < 32 := mb.isLt
  apply BitVec.eq_of_getLsbD_eq
  intro i hi
  rw [BitVec.getLsbD_and, maskBits_getLsbD _ _ _ hi, BitVec.getLsbD_rotateLeft,
    BitVec.getLsbD_ushiftRight]
  simp only [hme, hi, Nat.mod_eq_of_lt hsh]
  rcases lt_or_ge i sh.toNat with h | h
  · simp [h, show mb.toNat ≤ 31 by omega, show mb.toNat + i ≤ 31 by omega]
    congr 1
    omega
  · simp [show ¬i < sh.toNat by omega, show mb.toNat ≤ 31 by omega,
      show ¬mb.toNat + i ≤ 31 by omega]
    apply BitVec.getLsbD_of_ge
    omega

theorem slw_eq (s b : Word) :
    (if (b &&& 0x3f#32) &&& 0x20#32 ≠ 0 then 0 else shl s (b &&& 0x3f#32)) =
      BitVec.ofNat 32 (s.toNat * 2 ^ (b.toNat % 64)) := by
  simp only [and_32_ne_zero, shl, toNat_and_63]
  apply BitVec.eq_of_toNat_eq
  split
  case isTrue h =>
    obtain ⟨k, hk⟩ : ∃ k, b.toNat % 64 = 32 + k := ⟨_, (Nat.add_sub_cancel' h).symm⟩
    rw [hk, pow_add, BitVec.toNat_ofNat, Nat.mul_left_comm, Nat.mul_mod_right]
    rfl
  case isFalse h =>
    rw [Nat.mod_eq_of_lt (by omega : b.toNat % 64 < 32), BitVec.toNat_shiftLeft, Nat.shiftLeft_eq,
      BitVec.toNat_ofNat]

theorem srw_eq (s b : Word) :
    (if (b &&& 0x3f#32) &&& 0x20#32 ≠ 0 then 0 else shr s (b &&& 0x3f#32)) =
      BitVec.ofNat 32 (s.toNat / 2 ^ (b.toNat % 64)) := by
  have hs := s.isLt
  simp only [and_32_ne_zero, shr, toNat_and_63]
  apply BitVec.eq_of_toNat_eq
  split
  case isTrue h =>
    have hpow : 2 ^ 32 ≤ 2 ^ (b.toNat % 64) := Nat.pow_le_pow_right (by omega) h
    rw [Nat.div_eq_of_lt (by omega)]
    rfl
  case isFalse h =>
    rw [Nat.mod_eq_of_lt (by omega : b.toNat % 64 < 32), BitVec.toNat_ushiftRight,
      Nat.shiftRight_eq_div_pow, BitVec.toNat_ofNat]
    exact (Nat.mod_eq_of_lt (lt_of_le_of_lt (Nat.div_le_self _ _) hs)).symm

/-- The bits from `left` on are known to be zero; `m` is the next one to look at. -/
theorem cntlzwLoop_eq (x : Word) (left : Nat) (n : Word) (hl : left ≤ 32)
    (hx : x.toNat < 2 ^ left) :
    cntlzwLoop x left n (BitVec.ofNat 32 (2 ^ left / 2)) =
      n + BitVec.ofNat 32 (left - x.toNat.size) := by
  induction left generalizing n with
  | zero => simp [cntlzwLoop]
  | succ left ih =>
    rw [cntlzwLoop, twoPow_half, BitVec.and_twoPow, twoPow_shiftRight_one left hl]
    rcases lt_or_ge x.toNat (2 ^ left) with h | h
    · have hbit : x.getLsbD left = false := Nat.testBit_lt_two_pow h
      have hsize : x.toNat.size ≤ left := Nat.size_le.mpr h
      rw [hbit, ih (n + 1) (by omega) h, Nat.succ_sub hsize]
      simp [BitVec.ofNat_add, BitVec.add_assoc, BitVec.add_comm]
    · have hbit : x.getLsbD left = true := Nat.testBit_of_two_pow_le_and_two_pow_add_one_gt h hx
      have hsize : x.toNat.size = left + 1 :=
        le_antisymm (Nat.size_le.mpr hx) (Nat.lt_size.mpr h)
      have hne : BitVec.twoPow 32 left ≠ 0 := by
        intro h0
        have := congrArg BitVec.toNat h0
        rw [BitVec.toNat_twoPow_of_lt hl] at this
        exact absurd this (by simp)
      rw [hbit, if_pos rfl, if_pos hne, hsize]
      simp

theorem opCntlzw_eq (x : Word) : opCntlzw x = BitVec.ofNat 32 (32 - x.toNat.size) := by
  have h := cntlzwLoop_eq x 32 0 (le_refl _) x.isLt
  exact h.trans (BitVec.zero_add _)

-- ---------------------------------------------------------------------------
-- CR fields
-- ---------------------------------------------------------------------------

/-- The low nibble -/
theorem getLsbD_nibble (k : Nat) : (0xf#32).getLsbD k = decide (k < 4) := by
  have : (0xf#32).getLsbD k = (2 ^ 4 - 1).testBit k := by
    rcases lt_or_ge k 32 with h | h
    · simp [BitVec.getLsbD]
    · rw [BitVec.getLsbD_of_ge _ _ h, Nat.testBit_two_pow_sub_one]
      exact (decide_eq_false (by omega)).symm
  rw [this, Nat.testBit_two_pow_sub_one]

theorem crSetField_getLsbD (cr : Word) (crf : BitVec 3) (v : Word)
    (hv : ∀ k, 4 ≤ k → v.getLsbD k = false) (i : Nat) (hi : i < 32) :
    (crSetField cr crf v).getLsbD i =
      if i / 4 + crf.toNat = 7 then v.getLsbD (i % 4) else cr.getLsbD i := by
  have hc : crf.toNat < 8 := crf.isLt
  simp only [crSetField, BitVec.getLsbD_or, BitVec.getLsbD_and, BitVec.getLsbD_not,
    BitVec.getLsbD_shiftLeft, getLsbD_nibble, crShift, hi, decide_true, Bool.true_and]
  split
  case isTrue h =>
    have h1 : ¬i < 28 - 4 * crf.toNat := by omega
    have h2 : i - (28 - 4 * crf.toNat) = i % 4 := by omega
    have h3 : i % 4 < 4 := by omega
    simp [h1, h2, h3]
  case isFalse h =>
    rcases lt_or_ge i (28 - 4 * crf.toNat) with h1 | h1
    · simp [h1]
    · have h2 : 4 ≤ i - (28 - 4 * crf.toNat) := by omega
      have h3 : ¬i - (28 - 4 * crf.toNat) < 4 := by omega
      simp [hv _ h2, h3]

/-- A field in the position of CR7. -/
def crNibble (o : Ordering) (so : Bool) : Word :=
  (match o with
    | .lt => standaloneCrLt
    | .gt => standaloneCrGt
    | .eq => standaloneCrEq) ||| (if so then 1 else 0)

theorem crNibble_getLsbD (o : Ordering) (so : Bool) (k : Nat) :
    (crNibble o so).getLsbD k = if k < 4 then crFieldBit o so (3 - k) else false := by
  rcases lt_or_ge k 4 with h | h
  · rw [if_pos h]
    have : k = 0 ∨ k = 1 ∨ k = 2 ∨ k = 3 := by omega
    rcases this with rfl | rfl | rfl | rfl <;> cases o <;> cases so <;> rfl
  · rw [if_neg (by omega)]
    have h16 : crNibble o so = BitVec.setWidth 32 ((crNibble o so).setWidth 4) := by
      cases o <;> cases so <;> rfl
    rw [h16, BitVec.getLsbD_setWidth, BitVec.getLsbD_setWidth]
    simp [h]

theorem crSetField_crNibble (cr : Word) (crf : BitVec 3) (o : Ordering) (so : Bool) :
    crSetField cr crf (crNibble o so) = crOrdering cr crf o so := by
  apply BitVec.eq_of_getLsbD_eq
  intro i hi
  have hc : crf.toNat < 8 := crf.isLt
  rw [crSetField_getLsbD _ _ _ _ _ hi]
  · rw [crOrdering, BitVec.getLsbD_ofFnBE, dif_pos hi]
    have hfield : i / 4 + crf.toNat = 7 ↔ (31 - i) / 4 = crf.toNat := by omega
    have hbit : 3 - i % 4 = (31 - i) % 4 := by omega
    have hrev : 31 - (31 - i) = i := by omega
    have hlt : i % 4 < 4 := by omega
    simp [crNibble_getLsbD, Fin.rev, BitVec.getMsbD, hfield, hbit, hrev, hlt, Nat.succ_sub_succ]
    simp [show 31 - i < 32 by omega]
  · intro k hk
    rw [crNibble_getLsbD, if_neg (by omega)]

/-- Two writes of disjoint parts of the nibble at `n` are one write of the nibble. -/
theorem nibble_split (cr c : Word) (n : Nat) (so : Bool)
    (hc : c = 8#32 ∨ c = 4#32 ∨ c = 2#32) :
    ((cr &&& ~~~(14#32 <<< n) ||| c <<< n) &&& ~~~(1#32 <<< n)) ||| (if so then 1#32 <<< n else 0) =
      (cr &&& ~~~(15#32 <<< n)) ||| (c ||| (if so then 1 else 0)) <<< n := by
  have h15 : 15#32 = 14#32 ||| 1#32 := rfl
  have hd : c &&& 1#32 = 0 := by rcases hc with rfl | rfl | rfl <;> rfl
  have hso : (if so then 1#32 <<< n else 0) = (if so then 1#32 else 0) <<< n := by cases so <;> simp
  have hk : ∀ k, (c.getLsbD k && (1#32).getLsbD k) = false := by
    intro k
    rw [← BitVec.getLsbD_and, hd]
    simp
  rw [h15, hso]
  apply BitVec.eq_of_getLsbD_eq
  intro i hi
  have := hk (i - n)
  simp only [BitVec.getLsbD_or, BitVec.getLsbD_and, BitVec.getLsbD_not, BitVec.getLsbD_shiftLeft, hi,
    decide_true, Bool.true_and] at this ⊢
  generalize c.getLsbD (i - n) = x at *
  generalize (14#32).getLsbD (i - n) = y at *
  generalize (1#32).getLsbD (i - n) = z at *
  generalize (if so then 1#32 else 0).getLsbD (i - n) = w at *
  generalize cr.getLsbD i = u at *
  by_cases h : i < n
  · simp [h]
  · simp [h]
    revert x y z w u
    decide

theorem crSetSo_crCompute (cr : Word) (crf : BitVec 3) (v : Int) (so : Bool) :
    crSetSo (crCompute cr crf v) crf so = crOrdering cr crf (compare v 0) so := by
  rw [← crSetField_crNibble]
  rcases lt_trichotomy v 0 with h | rfl | h
  · rw [compare_lt_iff_lt.mpr h, crCompute, if_pos h]
    exact nibble_split cr 8#32 _ so (by simp)
  · exact nibble_split cr 2#32 _ so (by simp)
  · rw [compare_gt_iff_gt.mpr h, crCompute, if_neg (by omega), if_pos h]
    exact nibble_split cr 4#32 _ so (by simp)

end SheepShear.Kpx
