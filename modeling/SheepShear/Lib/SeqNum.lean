import SheepShear.Lib.Pieces

/-!
# Serial numbers

Sequence numbers of a word, compared by the sign of their difference. As long as
positions are less than half of the number space apart, the numbers of positions
behave like the positions themselves.
-/

namespace SheepShear.SeqNum

open Pieces

abbrev Seq := BitVec 32

/-- The difference of two numbers, as a signed word. -/
def diff (a b : Seq) : Int := (a - b).toInt

instance serialOffset : Offset Seq where
  sub := diff
  shift a n := a + BitVec.ofNat 32 n

@[simp] theorem sub_serial (a b : Seq) : sub a b = diff a b := rfl

@[simp] theorem shift_serial (a : Seq) (n : Nat) : shift a n = a + BitVec.ofNat 32 n := rfl

/-- The number of the position `n` when position zero has the number `base`. -/
def pos (base : Seq) (n : Nat) : Seq := base + BitVec.ofNat 32 n

variable {base : Seq} {m n k : Nat}

theorem pos_add (base : Seq) (m n : Nat) : pos base m + BitVec.ofNat 32 n = pos base (m + n) := by
  rw [pos, pos, BitVec.ofNat_add, BitVec.add_assoc]

/-- Positions less than half of the number space apart have the difference of their numbers. -/
theorem diff_pos (h : m < n + 2 ^ 31) (h' : n < m + 2 ^ 31) :
    diff (pos base m) (pos base n) = (m : Int) - n := by
  have hsub : pos base m - pos base n = BitVec.ofNat 32 m - BitVec.ofNat 32 n := by
    rw [pos, pos]
    ring
  rw [diff, hsub]
  rcases Nat.le_total n m with hle | hle
  · have hval : BitVec.ofNat 32 m - BitVec.ofNat 32 n = BitVec.ofNat 32 (m - n) := by
      rw [sub_eq_iff_eq_add, ← BitVec.ofNat_add, Nat.sub_add_cancel hle]
    rw [hval, BitVec.toInt_eq_toNat_of_lt (by rw [BitVec.toNat_ofNat]; omega), BitVec.toNat_ofNat]
    omega
  · have hval : BitVec.ofNat 32 m - BitVec.ofNat 32 n = -BitVec.ofNat 32 (n - m) := by
      rw [sub_eq_iff_eq_add, neg_add_eq_sub, eq_sub_iff_add_eq, ← BitVec.ofNat_add]
      congr 1
      omega
    rw [hval, BitVec.toInt_neg, BitVec.toInt_eq_toNat_of_lt (by rw [BitVec.toNat_ofNat]; omega),
      BitVec.toNat_ofNat, Int.bmod_def]
    omega

theorem pos_inj (h : m < n + 2 ^ 31) (h' : n < m + 2 ^ 31) : pos base m = pos base n ↔ m = n := by
  refine ⟨fun heq => ?_, fun heq => heq ▸ rfl⟩
  have hdiff : diff (pos base m) (pos base n) = (m : Int) - n := diff_pos h h'
  rw [heq, diff, BitVec.sub_self] at hdiff
  simp at hdiff
  omega

theorem positions (base : Seq) {lo hi : Nat} (h : hi < lo + 2 ^ 31) :
    Positions (pos base) lo hi where
  sub_pos _ _ _ _ _ _ := diff_pos (by omega) (by omega)
  shift_pos := pos_add base

end SheepShear.SeqNum
