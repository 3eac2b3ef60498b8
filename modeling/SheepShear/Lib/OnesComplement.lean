import SheepShear.Lib.Bytes

/-!
# One's complement sums

Sums of 16-bit words with an end-around carry, as the Internet checksums use
them. A sum is all ones exactly when the plain sum of the words is a positive
multiple of 65535; that is how a checksum field is verified.
-/

namespace SheepShear.OnesComplement

/-- Addition with an end-around carry. -/
def add (a b : BitVec 16) : BitVec 16 :=
  if a.toNat + b.toNat < 65536 then a + b else a + b + 1

def sum (ws : List (BitVec 16)) : BitVec 16 := ws.foldr add 0

/-- The sum without carries. -/
def total (ws : List (BitVec 16)) : Nat := (ws.map BitVec.toNat).sum

/-- The words of a byte string in network order; an odd byte is followed by a
zero. -/
def words : List Byte → List (BitVec 16)
  | [] => []
  | [b] => [b ++ 0#8]
  | b₀ :: b₁ :: bs => (b₀ ++ b₁) :: words bs

@[simp] theorem total_nil : total [] = 0 := rfl

@[simp] theorem total_cons (w : BitVec 16) (ws : List (BitVec 16)) :
    total (w :: ws) = w.toNat + total ws := rfl

@[simp] theorem total_append (vs ws : List (BitVec 16)) :
    total (vs ++ ws) = total vs + total ws := by
  simp [total]

theorem words_append {xs : List Byte} (h : xs.length % 2 = 0) (ys : List Byte) :
    words (xs ++ ys) = words xs ++ words ys := by
  induction xs using words.induct with
  | case1 => rfl
  | case2 b => simp at h
  | case3 b₀ b₁ bs ih =>
    have hbs : bs.length % 2 = 0 := by
      simp only [List.length_cons] at h
      omega
    simp only [List.cons_append, words, ih hbs]

theorem total_words_le (bs : List Byte) : total (words bs) ≤ 65535 * (bs.length + 1) := by
  induction bs using words.induct with
  | case1 => simp [words]
  | case2 b =>
    have := (b ++ 0#8).isLt
    simp only [words, total_cons, total_nil, List.length_cons, List.length_nil]
    omega
  | case3 b₀ b₁ bs ih =>
    have := (b₀ ++ b₁).isLt
    simp only [words, total_cons, List.length_cons]
    omega

/-- The representative of `n` modulo 65535 that the carries leave. -/
def wrap (n : Nat) : Nat := if n = 0 then 0 else (n - 1) % 65535 + 1

theorem wrap_of_lt {n : Nat} (h : n < 65536) : wrap n = n := by
  unfold wrap
  split <;> omega

/-- Adding the upper half to the lower one. -/
theorem wrap_carry (n : Nat) : wrap (n / 65536 + n % 65536) = wrap n := by
  unfold wrap
  split <;> split <;> omega

theorem wrap_add (m n : Nat) : wrap (m + wrap n) = wrap (m + n) := by
  unfold wrap
  split <;> split <;> split <;> omega

theorem toNat_sum (ws : List (BitVec 16)) : (sum ws).toNat = wrap (total ws) := by
  induction ws with
  | nil => rfl
  | cons w ws ih =>
    have hw := w.isLt
    have hs := (sum ws).isLt
    have hadd : (sum (w :: ws)).toNat = wrap (w.toNat + (sum ws).toNat) := by
      change (add w (sum ws)).toNat = _
      have hone : (1 : BitVec 16).toNat = 1 := rfl
      unfold add wrap
      split <;> split <;> simp only [BitVec.toNat_add, hone] <;> omega
    rw [hadd, ih, wrap_add, total_cons]

/-- What is checked on reception. -/
theorem sum_eq_ones_iff (ws : List (BitVec 16)) :
    sum ws = 0xffff ↔ 0 < total ws ∧ total ws % 65535 = 0 := by
  rw [← BitVec.toNat_inj, toNat_sum, show (0xffff : BitVec 16).toNat = 65535 from rfl]
  unfold wrap
  split <;> omega

end SheepShear.OnesComplement
