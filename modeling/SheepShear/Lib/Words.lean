import SheepShear.Lib.Bytes

/-!
# Words as integers

Facts about 32-bit registers that are read as signed or unsigned integers,
about the 64-bit sums and products a C program widens them to, and about masks.
-/

namespace SheepShear.Word

-- ---------------------------------------------------------------------------
-- Signed and unsigned readings
-- ---------------------------------------------------------------------------

theorem toInt_eq (a : Word) :
    a.toInt = if a.toNat < 2 ^ 31 then (a.toNat : Int) else (a.toNat : Int) - 2 ^ 32 := by
  rw [BitVec.toInt_eq_toNat_cond]
  have := a.isLt
  split <;> split <;> omega

theorem toInt_bounds (a : Word) : -2 ^ 31 ≤ a.toInt ∧ a.toInt < 2 ^ 31 := by
  have h1 := BitVec.two_mul_toInt_lt (x := a)
  have h2 := BitVec.le_two_mul_toInt (x := a)
  omega

theorem toInt_div_sign (a : Word) : a.toInt / 2 ^ 31 = if a.toInt < 0 then -1 else 0 := by
  obtain ⟨hl, hu⟩ := toInt_bounds a
  split <;> omega

theorem toInt_emod_two_pow (s : Word) (n : Nat) (hn : n ≤ 32) :
    s.toInt % 2 ^ n = ((s.toNat % 2 ^ n : Nat) : Int) := by
  have hd : (2 ^ n : Int) ∣ 2 ^ 32 := pow_dvd_pow 2 hn
  rw [toInt_eq]
  split
  · norm_cast
  · rw [Int.sub_emod, Int.emod_eq_zero_of_dvd hd, sub_zero, Int.emod_emod]
    norm_cast

theorem sshiftRight_eq (s : Word) (n : Nat) :
    s.sshiftRight n = BitVec.ofInt 32 (s.toInt / 2 ^ n) := by
  rw [BitVec.sshiftRight, Int.shiftRight_eq_div_pow]
  norm_cast

-- ---------------------------------------------------------------------------
-- Widened sums and products
-- ---------------------------------------------------------------------------

theorem setWidth_ofInt (s : Int) : (BitVec.ofInt 64 s).setWidth 32 = BitVec.ofInt 32 s := by
  apply BitVec.eq_of_toNat_eq
  simp
  omega

theorem mul_signExtend (a b : Word) :
    a.signExtend 64 * b.signExtend 64 = BitVec.ofInt 64 (a.toInt * b.toInt) := by
  rw [BitVec.ofInt_mul, BitVec.signExtend, BitVec.signExtend]

theorem toInt_mul_bounds (a b : Word) :
    -2 ^ 62 ≤ a.toInt * b.toInt ∧ a.toInt * b.toInt ≤ 2 ^ 62 := by
  have ha : |a.toInt| ≤ 2 ^ 31 := abs_le.mpr ⟨(toInt_bounds a).1, (toInt_bounds a).2.le⟩
  have hb : |b.toInt| ≤ 2 ^ 31 := abs_le.mpr ⟨(toInt_bounds b).1, (toInt_bounds b).2.le⟩
  have h : |a.toInt * b.toInt| ≤ 2 ^ 62 := by
    rw [abs_mul]
    calc |a.toInt| * |b.toInt| ≤ 2 ^ 31 * 2 ^ 31 := mul_le_mul ha hb (abs_nonneg _) (by norm_num)
      _ = 2 ^ 62 := by norm_num
  exact abs_le.mp h

theorem mulhw_eq (p : Int) :
    ((BitVec.ofInt 64 p) >>> 32).setWidth 32 = BitVec.ofInt 32 (p / 2 ^ 32) := by
  apply BitVec.eq_of_toNat_eq
  simp only [BitVec.toNat_setWidth, BitVec.toNat_ushiftRight, BitVec.toNat_ofInt,
    Nat.shiftRight_eq_div_pow]
  omega

theorem mulhw_sar_eq (p : Int) (hl : -2 ^ 62 ≤ p) (hu : p ≤ 2 ^ 62) :
    ((BitVec.ofInt 64 p).sshiftRight 32).setWidth 32 = BitVec.ofInt 32 (p / 2 ^ 32) := by
  have hp : (BitVec.ofInt 64 p).toInt = p := by
    rw [BitVec.toInt_ofInt, Int.bmod_def]
    split <;> omega
  rw [BitVec.sshiftRight, hp, Int.shiftRight_eq_div_pow]
  apply BitVec.eq_of_toNat_eq
  simp only [BitVec.toNat_setWidth, BitVec.toNat_ofInt]
  omega

theorem mulhwu_eq (a b : Word) :
    ((a.setWidth 64 * b.setWidth 64) >>> 32).setWidth 32 =
      BitVec.ofNat 32 (a.toNat * b.toNat / 2 ^ 32) := by
  have hp : a.toNat * b.toNat < 2 ^ 64 := by
    calc a.toNat * b.toNat < 2 ^ 32 * 2 ^ 32 := Nat.mul_lt_mul'' a.isLt b.isLt
      _ = 2 ^ 64 := by norm_num
  have ha : a.toNat % 2 ^ 64 = a.toNat := Nat.mod_eq_of_lt (by have := a.isLt; omega)
  have hb : b.toNat % 2 ^ 64 = b.toNat := Nat.mod_eq_of_lt (by have := b.isLt; omega)
  apply BitVec.eq_of_toNat_eq
  rw [BitVec.toNat_setWidth, BitVec.toNat_ushiftRight, BitVec.toNat_mul, BitVec.toNat_setWidth,
    BitVec.toNat_setWidth, ha, hb, Nat.mod_eq_of_lt hp, Nat.shiftRight_eq_div_pow,
    BitVec.toNat_ofNat]

-- ---------------------------------------------------------------------------
-- Masks
-- ---------------------------------------------------------------------------

theorem getLsbD_allOnes_shiftRight (n i : Nat) :
    (BitVec.allOnes 32 >>> n).getLsbD i = decide (i + n < 32) := by
  rw [BitVec.getLsbD_ushiftRight, BitVec.getLsbD_allOnes, Nat.add_comm]

theorem twoPow_half (left : Nat) :
    BitVec.ofNat 32 (2 ^ (left + 1) / 2) = BitVec.twoPow 32 left := by
  apply BitVec.eq_of_toNat_eq
  rw [BitVec.toNat_ofNat, BitVec.toNat_twoPow, pow_succ, Nat.mul_div_cancel _ (by omega)]

theorem twoPow_shiftRight_one (left : Nat) (hl : left < 32) :
    BitVec.twoPow 32 left >>> 1 = BitVec.ofNat 32 (2 ^ left / 2) := by
  have hlt : 2 ^ left < 2 ^ 32 := Nat.pow_lt_pow_right (by omega) hl
  apply BitVec.eq_of_toNat_eq
  rw [BitVec.toNat_ushiftRight, BitVec.toNat_twoPow_of_lt hl, BitVec.toNat_ofNat,
    Nat.shiftRight_eq_div_pow, Nat.mod_eq_of_lt (by omega), pow_one]

theorem toNat_and_31 (w : Word) : (w &&& 0x1f#32).toNat = w.toNat % 32 := by
  rw [BitVec.toNat_and]
  exact Nat.and_two_pow_sub_one_eq_mod w.toNat 5

theorem toNat_and_63 (w : Word) : (w &&& 0x3f#32).toNat = w.toNat % 64 := by
  rw [BitVec.toNat_and]
  exact Nat.and_two_pow_sub_one_eq_mod w.toNat 6

theorem and_32_ne_zero (w : Word) : (w &&& 0x3f#32) &&& 0x20#32 ≠ 0 ↔ 32 ≤ w.toNat % 64 := by
  have h : (w &&& 0x3f#32) &&& 0x20#32 = w &&& BitVec.twoPow 32 5 := by
    rw [BitVec.and_assoc]
    rfl
  rw [h, BitVec.and_twoPow]
  have hbit : w.getLsbD 5 = decide (32 ≤ w.toNat % 64) := by
    rw [BitVec.getLsbD, Nat.testBit_eq_decide_div_mod_eq, decide_eq_decide]
    omega
  rw [hbit]
  have hpow : BitVec.twoPow 32 5 ≠ 0 := by decide
  by_cases h : 32 ≤ w.toNat % 64
  · simpa [h] using hpow
  · simp [h]

theorem lostBits_eq (s : Word) (n : Nat) :
    (s &&& ~~~(0xffffffff#32 <<< n) != 0) = decide (s.toNat % 2 ^ n ≠ 0) := by
  have hones : (0xffffffff#32) = BitVec.allOnes 32 := rfl
  have h : s &&& ~~~(0xffffffff#32 <<< n) = BitVec.ofNat 32 (s.toNat % 2 ^ n) := by
    apply BitVec.eq_of_getLsbD_eq
    intro i hi
    rw [hones, BitVec.getLsbD_and, BitVec.getLsbD_not, BitVec.getLsbD_shiftLeft,
      BitVec.getLsbD_allOnes, BitVec.getLsbD_ofNat, Nat.testBit_mod_two_pow]
    by_cases h : i < n
    · simp [h, hi, BitVec.getLsbD]
    · simp [h, hi, show i - n < 32 by omega]
  have hlt : s.toNat % 2 ^ n < 2 ^ 32 := lt_of_le_of_lt (Nat.mod_le _ _) s.isLt
  rw [h, Bool.eq_iff_iff, bne_iff_ne, decide_eq_true_eq, ne_eq, ne_eq, ← BitVec.toNat_inj,
    BitVec.toNat_ofNat, Nat.mod_eq_of_lt hlt]
  rfl

theorem and_upperMask (x : BitVec 64) :
    (x &&& 0xffffffff80000000#64).toNat = x.toNat / 2 ^ 31 * 2 ^ 31 := by
  have hmask : 0xffffffff80000000#64 = BitVec.allOnes 64 <<< 31 := rfl
  have h : x &&& BitVec.allOnes 64 <<< 31 = (x >>> 31) <<< 31 := by
    apply BitVec.eq_of_getLsbD_eq
    intro i hi
    rw [BitVec.getLsbD_and, BitVec.getLsbD_shiftLeft, BitVec.getLsbD_shiftLeft,
      BitVec.getLsbD_ushiftRight, BitVec.getLsbD_allOnes]
    by_cases h : i < 31
    · simp [h]
    · simp [h, hi, show i - 31 < 64 by omega, show 31 + (i - 31) = i by omega]
  have hx := x.isLt
  rw [hmask, h, BitVec.toNat_shiftLeft, BitVec.toNat_ushiftRight, Nat.shiftRight_eq_div_pow,
    Nat.shiftLeft_eq]
  omega

-- ---------------------------------------------------------------------------
-- Single bits
-- ---------------------------------------------------------------------------

theorem and_twoPow_ne_zero {w : Word} {i : Nat} (hi : i < 32) :
    w &&& BitVec.twoPow 32 i ≠ 0 ↔ w.getLsbD i = true := by
  have hne : BitVec.twoPow 32 i ≠ 0#32 := by
    intro h
    have hbit := congrArg (·.getLsbD i) h
    simp [hi] at hbit
  rw [BitVec.and_twoPow]
  cases w.getLsbD i with
  | true => simpa using hne
  | false => simp

theorem or_twoPow_eq_self {w : Word} {i : Nat} (hi : i < 32) :
    w ||| BitVec.twoPow 32 i = w ↔ w.getLsbD i = true := by
  constructor
  · intro h
    have hbit := congrArg (·.getLsbD i) h
    simpa [hi] using hbit
  · intro h
    apply BitVec.eq_of_getLsbD_eq
    intro j hj
    simp only [BitVec.getLsbD_or, BitVec.getLsbD_twoPow]
    by_cases hij : i = j
    · subst hij
      simp [h]
    · simp [hij]

theorem or_and_not_twoPow_eq_self {w : Word} {i : Nat} (hi : i < 32) :
    (w ||| BitVec.twoPow 32 i) &&& ~~~BitVec.twoPow 32 i = w ↔ w.getLsbD i = false := by
  constructor
  · intro h
    have hbit := congrArg (·.getLsbD i) h
    simpa [hi] using hbit.symm
  · intro h
    apply BitVec.eq_of_getLsbD_eq
    intro j hj
    simp only [BitVec.getLsbD_and, BitVec.getLsbD_or, BitVec.getLsbD_not, BitVec.getLsbD_twoPow]
    by_cases hij : i = j
    · subst hij
      rw [h]
      simp
    · simp [hij, hj]

theorem and_not_twoPow_eq_self {w : Word} {i : Nat} (hi : i < 32) :
    w &&& ~~~BitVec.twoPow 32 i = w ↔ w.getLsbD i = false := by
  constructor
  · intro h
    have hbit := congrArg (·.getLsbD i) h
    simpa [hi] using hbit.symm
  · intro h
    apply BitVec.eq_of_getLsbD_eq
    intro j hj
    simp only [BitVec.getLsbD_and, BitVec.getLsbD_not, BitVec.getLsbD_twoPow]
    by_cases hij : i = j
    · subst hij
      simp [h]
    · simp [hij, hj]

end SheepShear.Word
