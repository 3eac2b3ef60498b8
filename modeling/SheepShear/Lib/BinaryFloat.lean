import Mathlib

/-!
# Magnitudes of binary floating-point numbers

A format with `f` fraction bits; the magnitude of a finite number is counted in
units of its smallest one, so that it is a natural number. The exponent field is
0 for zero and the denormal numbers. A magnitude has one encoding.
-/

namespace SheepShear.BinaryFloat

variable {f exp frac exp' frac' : Nat}

def magnitude (f exp frac : Nat) : Nat := if exp = 0 then frac else (2 ^ f + frac) * 2 ^ (exp - 1)

/-- Exponent and fraction of a magnitude that has no more than `f + 1` significant bits. -/
def encode (f m : Nat) : Nat × Nat :=
  if m < 2 ^ f then (0, m) else (Nat.log 2 m - f + 1, m / 2 ^ (Nat.log 2 m - f) - 2 ^ f)

theorem magnitude_zero (f frac : Nat) : magnitude f 0 frac = frac := if_pos rfl

theorem magnitude_succ (f e frac : Nat) : magnitude f (e + 1) frac = (2 ^ f + frac) * 2 ^ e :=
  if_neg (Nat.succ_ne_zero e)

/-- The exponent field gives the number of digits. -/
theorem log_magnitude (hfrac : frac < 2 ^ f) (e : Nat) :
    Nat.log 2 (magnitude f (e + 1) frac) = f + e := by
  rw [magnitude_succ]
  refine Nat.log_eq_of_pow_le_of_lt_pow ?_ ?_
  · rw [Nat.pow_add]
    exact Nat.mul_le_mul_right _ (Nat.le_add_right _ _)
  · have hdigits : 2 ^ f + frac < 2 ^ (f + 1) := by rw [Nat.pow_succ]; omega
    calc (2 ^ f + frac) * 2 ^ e
        < 2 ^ (f + 1) * 2 ^ e := Nat.mul_lt_mul_of_pos_right hdigits (Nat.two_pow_pos e)
      _ = 2 ^ (f + e + 1) := by rw [← Nat.pow_add]; congr 1; omega

theorem encode_magnitude (hfrac : frac < 2 ^ f) (exp : Nat) :
    encode f (magnitude f exp frac) = (exp, frac) := by
  cases exp with
  | zero => rw [magnitude_zero, encode, if_pos hfrac]
  | succ e =>
    have hlarge : ¬ magnitude f (e + 1) frac < 2 ^ f := by
      rw [magnitude_succ, Nat.not_lt]
      calc 2 ^ f ≤ (2 ^ f + frac) * 1 := by omega
        _ ≤ (2 ^ f + frac) * 2 ^ e := Nat.mul_le_mul_left _ (Nat.one_le_two_pow)
    rw [encode, if_neg hlarge, log_magnitude hfrac, Nat.add_sub_cancel_left, magnitude_succ,
      Nat.mul_div_cancel _ (Nat.two_pow_pos e), Nat.add_sub_cancel_left]

theorem magnitude_inj (hfrac : frac < 2 ^ f) (hfrac' : frac' < 2 ^ f)
    (h : magnitude f exp frac = magnitude f exp' frac') : exp = exp' ∧ frac = frac' := by
  have hencode := encode_magnitude hfrac exp
  rw [h, encode_magnitude hfrac'] at hencode
  exact ⟨congrArg Prod.fst hencode.symm, congrArg Prod.snd hencode.symm⟩

/-- A number in a format with `g` more fraction bits, whose exponents start `b` lower. -/
theorem magnitude_widen (f e frac g b : Nat) :
    magnitude (f + g) (e + 1 + b) (frac * 2 ^ g) = magnitude f (e + 1) frac * 2 ^ (g + b) := by
  rw [show e + 1 + b = e + b + 1 by omega, magnitude_succ, magnitude_succ]
  ring

/-- The leading digit of a denormal number, which is hidden in a wider format. -/
theorem magnitude_normalise (f g b : Nat) (hfrac : frac ≠ 0) (hfit : frac < 2 ^ (f + 1)) :
    magnitude (f + g) (Nat.log 2 frac + b + 1)
      ((frac - 2 ^ Nat.log 2 frac) * 2 ^ (f + g - Nat.log 2 frac)) = frac * 2 ^ (f + g + b) := by
  have hle := Nat.pow_log_le_self 2 hfrac
  have hlog : Nat.log 2 frac ≤ f := Nat.le_of_lt_succ (Nat.log_lt_of_lt_pow hfrac hfit)
  have hhidden : 2 ^ (f + g) = 2 ^ Nat.log 2 frac * 2 ^ (f + g - Nat.log 2 frac) := by
    rw [← Nat.pow_add]
    congr 1
    omega
  rw [magnitude_succ]
  calc (2 ^ (f + g) + (frac - 2 ^ Nat.log 2 frac) * 2 ^ (f + g - Nat.log 2 frac)) *
        2 ^ (Nat.log 2 frac + b)
      = (2 ^ Nat.log 2 frac + (frac - 2 ^ Nat.log 2 frac)) * 2 ^ (f + g - Nat.log 2 frac) *
        2 ^ (Nat.log 2 frac + b) := by rw [hhidden, ← Nat.add_mul]
    _ = frac * (2 ^ (f + g - Nat.log 2 frac) * 2 ^ (Nat.log 2 frac + b)) := by
        rw [Nat.add_sub_cancel' hle, Nat.mul_assoc]
    _ = frac * 2 ^ (f + g + b) := by
        rw [← Nat.pow_add]
        congr 2
        omega

end SheepShear.BinaryFloat
