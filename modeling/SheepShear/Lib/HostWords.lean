import SheepShear.Lib.Bytes

/-!
# Words in the memory of a host

A memory with a byte at every address and little-endian numbers in it. A number
depends on its own bytes, and a store changes no others.
-/

namespace SheepShear.HostWords

abbrev HostMemory := Nat → Byte

/-- The number of `n` bytes at `a`. -/
def readLE (m : HostMemory) (a : Nat) : (n : Nat) → Nat
  | 0 => 0
  | n + 1 => (m a).toNat + 256 * readLE m (a + 1) n

/-- The number of `n` bytes at `a`, the highest byte first. -/
def readBE (m : HostMemory) (a : Nat) : (n : Nat) → Nat
  | 0 => 0
  | n + 1 => 256 * readBE m a n + (m (a + n)).toNat

/-- The memory with `n` bytes of `v` at `a`. -/
def writeLE (m : HostMemory) (a v : Nat) : (n : Nat) → HostMemory
  | 0 => m
  | n + 1 => fun x => if x = a then BitVec.ofNat 8 v else writeLE m (a + 1) (v / 256) n x

/-- The memory with `n` bytes of a block at `a`, as `memcpy` leaves it. -/
def copyIn (m : HostMemory) (a : Nat) (block : Nat → Byte) (n : Nat) : HostMemory := fun x =>
  if a ≤ x ∧ x < a + n then block (x - a) else m x

/-- The two memories have the same bytes outside of the `n` at `a`. -/
def SameOutside (m m' : HostMemory) (a n : Nat) : Prop := ∀ x, ¬(a ≤ x ∧ x < a + n) → m' x = m x

variable {m m' m'' : HostMemory} {a b n k v : Nat}

theorem SameOutside.trans (h : SameOutside m m' a n) (h' : SameOutside m' m'' a n) :
    SameOutside m m'' a n := fun x hx => (h' x hx).trans (h x hx)

/-- What changes in a part changes in the whole. -/
theorem SameOutside.mono (h : SameOutside m m' a n) (hlow : b ≤ a) (hhigh : a + n ≤ b + k) :
    SameOutside m m' b k := fun x hx => h x (by omega)

theorem sameOutside_writeLE (m : HostMemory) (a v n : Nat) : SameOutside m (writeLE m a v n) a n := by
  induction n generalizing a v with
  | zero => exact fun _ _ => rfl
  | succ n ih =>
    intro x hx
    have hne : x ≠ a := by omega
    exact (if_neg hne).trans (ih (a + 1) (v / 256) x (by omega))

theorem sameOutside_copyIn (m : HostMemory) (a : Nat) (block : Nat → Byte) (n : Nat) :
    SameOutside m (copyIn m a block n) a n := fun _ hx => if_neg hx

theorem copyIn_at (m : HostMemory) (a : Nat) (block : Nat → Byte) {i : Nat} (hi : i < n) :
    copyIn m a block n (a + i) = block i := by
  rw [copyIn, if_pos (by omega), Nat.add_sub_cancel_left]

/-- A number depends on its own bytes. -/
theorem readLE_congr (h : ∀ i < n, m' (a + i) = m (a + i)) : readLE m' a n = readLE m a n := by
  induction n generalizing a with
  | zero => rfl
  | succ n ih =>
    have hrest : readLE m' (a + 1) n = readLE m (a + 1) n := by
      refine ih fun i hi => ?_
      rw [Nat.add_assoc, Nat.add_comm 1]
      exact h (i + 1) (by omega)
    rw [readLE, readLE, hrest, show m' a = m a from h 0 (by omega)]

/-- A number outside of what changes. -/
theorem SameOutside.readLE_eq (h : SameOutside m m' a n) (hapart : b + k ≤ a ∨ a + n ≤ b) :
    readLE m' b k = readLE m b k :=
  readLE_congr fun i hi => h (b + i) (by omega)

theorem readLE_writeLE (m : HostMemory) (a v n : Nat) : readLE (writeLE m a v n) a n = v % 256 ^ n := by
  induction n generalizing a v with
  | zero => simp [readLE, Nat.mod_one]
  | succ n ih =>
    have hrest : readLE (writeLE m a v (n + 1)) (a + 1) n = readLE (writeLE m (a + 1) (v / 256) n) (a + 1) n :=
      readLE_congr fun i _ => if_neg (by omega)
    have hhead : writeLE m a v (n + 1) a = BitVec.ofNat 8 v := if_pos rfl
    rw [readLE, hhead, hrest, ih, BitVec.toNat_ofNat, Nat.pow_succ 256, Nat.mul_comm (256 ^ n),
      Nat.mod_mul]

/-- Each byte of a memory after a store. -/
theorem writeLE_apply (m : HostMemory) (a v n x : Nat) :
    writeLE m a v n x = if a ≤ x ∧ x < a + n then BitVec.ofNat 8 (v / 256 ^ (x - a)) else m x := by
  induction n generalizing a v with
  | zero => exact (if_neg (by omega)).symm
  | succ n ih =>
    by_cases hx : x = a
    · subst hx
      rw [if_pos (by omega), Nat.sub_self, pow_zero, Nat.div_one]
      exact if_pos rfl
    · rw [show writeLE m a v (n + 1) x = writeLE m (a + 1) (v / 256) n x from if_neg hx, ih]
      by_cases hin : a + 1 ≤ x ∧ x < a + 1 + n
      · rw [if_pos hin, if_pos (by omega), show x - a = x - (a + 1) + 1 by omega,
          Nat.div_div_eq_div_mul, ← Nat.pow_succ']
      · rw [if_neg hin, if_neg (by omega)]

theorem readLE_lt (m : HostMemory) (a n : Nat) : readLE m a n < 256 ^ n := by
  induction n generalizing a with
  | zero => simp [readLE]
  | succ n ih =>
    have hhead := (m a).isLt
    have hrest := ih (a + 1)
    rw [readLE, Nat.pow_succ]
    omega

end SheepShear.HostWords
