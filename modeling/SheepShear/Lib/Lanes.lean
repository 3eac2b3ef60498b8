import SheepShear.Lib.HostWords

/-!
# Words as lanes

A word as a row of lanes of equal width. Masks and shifts act on each lane alone
when the mask keeps what is shifted inside a lane.
-/

namespace SheepShear.Lanes

open HostWords

/-- The lane of `w` bits at index `j`, the lowest first. -/
def lane (w : Nat) {n : Nat} (x : BitVec n) (j : Nat) : BitVec w := x.extractLsb' (w * j) w

variable {n w s j k : Nat} {x y m : BitVec n}

theorem getLsbD_lane (x : BitVec n) (j i : Nat) :
    (lane w x j).getLsbD i = (decide (i < w) && x.getLsbD (w * j + i)) := by
  rw [lane, BitVec.getLsbD_extractLsb']

theorem lane_or : lane w (x ||| y) j = lane w x j ||| lane w y j := BitVec.extractLsb'_or

theorem lane_and : lane w (x &&& y) j = lane w x j &&& lane w y j := BitVec.extractLsb'_and

/-- A mask that drops what is shifted in from the lane above. -/
theorem lane_ushiftRight_and (hm : lane w m j <<< s >>> s = lane w m j) :
    lane w (x >>> s &&& m) j = lane w x j >>> s &&& lane w m j := by
  refine BitVec.eq_of_getLsbD_eq fun i hi => ?_
  rw [lane_and, BitVec.getLsbD_and, BitVec.getLsbD_and]
  cases hmask : (lane w m j).getLsbD i with
  | false => rw [Bool.and_false, Bool.and_false]
  | true =>
    have hin : s + i < w := by
      rw [← hm, BitVec.getLsbD_ushiftRight] at hmask
      exact BitVec.lt_of_getLsbD hmask
    rw [Bool.and_true, Bool.and_true, getLsbD_lane, BitVec.getLsbD_ushiftRight,
      BitVec.getLsbD_ushiftRight, getLsbD_lane, decide_eq_true hi, decide_eq_true hin,
      Nat.add_left_comm]

/-- A mask that drops what is shifted in from the lane below. -/
theorem lane_shiftLeft_and (hm : lane w m j >>> s <<< s = lane w m j) :
    lane w (x <<< s &&& m) j = lane w x j <<< s &&& lane w m j := by
  refine BitVec.eq_of_getLsbD_eq fun i hi => ?_
  rw [lane_and, BitVec.getLsbD_and, BitVec.getLsbD_and]
  cases hmask : (lane w m j).getLsbD i with
  | false => rw [Bool.and_false, Bool.and_false]
  | true =>
    have hlow : ¬i < s := by
      intro hlt
      rw [← hm, BitVec.getLsbD_shiftLeft, decide_eq_true hlt, Bool.not_true, Bool.and_false,
        Bool.false_and] at hmask
      cases hmask
    have hin : w * j + i < n := by
      rw [getLsbD_lane, Bool.and_eq_true] at hmask
      exact BitVec.lt_of_getLsbD hmask.2
    rw [Bool.and_true, Bool.and_true, getLsbD_lane, BitVec.getLsbD_shiftLeft,
      BitVec.getLsbD_shiftLeft, getLsbD_lane, decide_eq_true hi, decide_eq_true hin,
      decide_eq_false hlow, decide_eq_false (by omega : ¬w * j + i < s),
      decide_eq_true (by omega : i - s < w), Nat.add_sub_assoc (by omega), Bool.true_and, Bool.true_and,
      Bool.true_and]

theorem lane_setWidth (h : w ≤ n) (x : BitVec w) : lane w (x.setWidth n) 0 = x := by
  refine BitVec.eq_of_getLsbD_eq fun i hi => ?_
  rw [getLsbD_lane, BitVec.getLsbD_setWidth, decide_eq_true hi, Nat.mul_zero, Nat.zero_add,
    decide_eq_true (by omega : i < n), Bool.true_and, Bool.true_and]

theorem setWidth_eq_lane (h : w ≤ n) (x : BitVec n) : x.setWidth w = lane w x 0 := by
  rw [lane, Nat.mul_zero, BitVec.setWidth_eq_extractLsb' h]

/-- A lane of a lane. -/
theorem lane_lane {v q i : Nat} (h : i < q) : lane v (lane (v * q) x j) i = lane v x (q * j + i) := by
  refine BitVec.eq_of_getLsbD_eq fun b hb => ?_
  have hin : v * i + b < v * q := by
    have hmul := Nat.mul_le_mul_left v h
    rw [Nat.mul_succ] at hmul
    omega
  rw [getLsbD_lane, getLsbD_lane, getLsbD_lane, decide_eq_true hin, Bool.true_and, Nat.mul_add, Nat.mul_assoc,
    Nat.add_assoc]

theorem ofNat_div_eq_lane (x : BitVec n) (j : Nat) : BitVec.ofNat w (x.toNat / 2 ^ (w * j)) = lane w x j := by
  rw [← Nat.shiftRight_eq_div_pow]
  exact BitVec.eq_of_toNat_eq (by rw [BitVec.toNat_ofNat, lane, BitVec.extractLsb'_toNat])

-- ---------------------------------------------------------------------------
-- Numbers in memory
-- ---------------------------------------------------------------------------

theorem readLE_add (mem : HostMemory) (a n k : Nat) :
    readLE mem a (n + k) = readLE mem a n + 256 ^ n * readLE mem (a + n) k := by
  induction n generalizing a with
  | zero => simp [readLE]
  | succ n ih =>
    rw [show n + 1 + k = n + k + 1 by omega, readLE, readLE, ih (a + 1), Nat.pow_succ,
      show a + 1 + n = a + (n + 1) by omega]
    ring

/-- A lane of the number at an address is the number at the address of the lane. -/
theorem lane_readLE (mem : HostMemory) (a : Nat) {c p : Nat} (h : p * (j + 1) ≤ c) :
    lane (8 * p) (BitVec.ofNat (8 * c) (readLE mem a c)) j =
      BitVec.ofNat (8 * p) (readLE mem (a + p * j) p) := by
  obtain ⟨r, rfl⟩ := Nat.exists_eq_add_of_le h
  have hpow : ∀ n : Nat, 2 ^ (8 * n) = 256 ^ n := fun n => pow_mul 2 8 n
  refine BitVec.eq_of_toNat_eq ?_
  rw [lane, BitVec.extractLsb'_toNat, BitVec.toNat_ofNat, BitVec.toNat_ofNat, hpow, hpow,
    Nat.mod_eq_of_lt (readLE_lt ..), Nat.shiftRight_eq_div_pow, Nat.mul_assoc, hpow,
    Nat.mul_add p j 1, Nat.mul_one, Nat.add_assoc, readLE_add, readLE_add, Nat.mod_eq_of_lt (readLE_lt ..),
    Nat.add_mul_div_left _ _ (by positivity), Nat.div_eq_of_lt (readLE_lt ..), Nat.zero_add,
    Nat.add_mul_mod_self_left, Nat.mod_eq_of_lt (readLE_lt ..)]

end SheepShear.Lanes
