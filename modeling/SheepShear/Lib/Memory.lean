import SheepShear.Lib.Bytes

/-!
# Guest memory

A memory of 2^32 bytes with big-endian accesses of two and four bytes at any
address; addresses wrap. An access and a store do not interfere when no byte of
the one is a byte of the other.
-/

namespace SheepShear

abbrev Mem := Word → Byte

namespace Mem

/-- The memory that holds these bytes from address 0 on and zeros above. -/
def ofBytes (bytes : List Byte) : Mem := fun a => bytes.getD a.toNat 0

def readInt16 (m : Mem) (a : Word) : BitVec 16 := m a ++ m (a + 1)

def readInt32 (m : Mem) (a : Word) : Word := .ofBytes (m a) (m (a + 1)) (m (a + 2)) (m (a + 3))

def writeInt16 (m : Mem) (a : Word) (v : BitVec 16) : Mem := fun x =>
  if x = a then v.extractLsb' 8 8
  else if x = a + 1 then v.extractLsb' 0 8
  else m x

def writeInt32 (m : Mem) (a : Word) (v : Word) : Mem := fun x =>
  if x = a then v.extractLsb' 24 8
  else if x = a + 1 then v.extractLsb' 16 8
  else if x = a + 2 then v.extractLsb' 8 8
  else if x = a + 3 then v.extractLsb' 0 8
  else m x

@[simp] theorem readInt32_writeInt32_self (m : Mem) (a v : Word) :
    (m.writeInt32 a v).readInt32 a = v := by
  have h1 : a + 1 ≠ a := by simp
  have h2 : a + 2 ≠ a := by simp
  have h3 : a + 3 ≠ a := by simp
  simp only [readInt32, writeInt32, if_pos, h1, h2, h3, if_false]
  simp only [BitVec.add_right_inj, if_false, BitVec.reduceEq]
  exact Word.ofBytes_bytes v

/-- A store of the word that is there. -/
theorem writeInt32_readInt32_self (m : Mem) (a : Word) : m.writeInt32 a (m.readInt32 a) = m := by
  obtain ⟨h0, h1, h2, h3⟩ := Word.extractLsb'_ofBytes (m a) (m (a + 1)) (m (a + 2)) (m (a + 3))
  funext x
  simp only [writeInt32, readInt32, h0, h1, h2, h3]
  split_ifs <;> simp_all

/-- A byte outside the four that are stored keeps its value. -/
theorem writeInt32_of_far (m : Mem) (v : Word) {a x : Word} (h : 4 ≤ (x - a).toNat) :
    m.writeInt32 a v x = m x := by
  have hne : ∀ d : Word, d.toNat < 4 → x ≠ a + d := by
    rintro d hd rfl
    rw [add_sub_cancel_left] at h
    omega
  have h0 : x ≠ a := by simpa using hne 0 (by decide)
  simp only [writeInt32, h0, hne 1 (by decide), hne 2 (by decide), hne 3 (by decide), if_false]

/-- Two words that do not overlap. -/
theorem readInt32_writeInt32_of_far (m : Mem) (v : Word) {a b : Word} (h : 4 ≤ (b - a).toNat)
    (h' : 4 ≤ (a - b).toNat) : (m.writeInt32 a v).readInt32 b = m.readInt32 b := by
  have hfar : ∀ d : Word, d.toNat < 4 → m.writeInt32 a v (b + d) = m (b + d) := by
    intro d hd
    refine m.writeInt32_of_far v ?_
    have hneg : (a - b).toNat = 2 ^ 32 - (b - a).toNat := by
      rw [← neg_sub, BitVec.toNat_neg, Nat.mod_eq_of_lt (by omega)]
    rw [add_sub_right_comm, BitVec.toNat_add, Nat.mod_eq_of_lt (by omega)]
    omega
  have h0 : m.writeInt32 a v b = m b := by simpa using hfar 0 (by decide)
  simp only [readInt32, h0, hfar 1 (by decide), hfar 2 (by decide), hfar 3 (by decide)]

/-- Two parts of one record, `c` and `d` bytes into it. -/
theorem writeInt32_add_of_far (m : Mem) (a v : Word) {c d : Word} (h : 4 ≤ (d - c).toNat) :
    m.writeInt32 (a + c) v (a + d) = m (a + d) :=
  m.writeInt32_of_far v (by rwa [add_sub_add_left_eq_sub])

theorem readInt32_writeInt32_add_of_far (m : Mem) (a v : Word) {c d : Word} (h : 4 ≤ (d - c).toNat)
    (h' : 4 ≤ (c - d).toNat) : (m.writeInt32 (a + c) v).readInt32 (a + d) = m.readInt32 (a + d) :=
  m.readInt32_writeInt32_of_far v (by rwa [add_sub_add_left_eq_sub]) (by rwa [add_sub_add_left_eq_sub])

@[simp] theorem readInt16_writeInt16_self (m : Mem) (a : Word) (v : BitVec 16) :
    (m.writeInt16 a v).readInt16 a = v := by
  have h1 : a + 1 ≠ a := by simp
  simp only [readInt16, writeInt16, if_pos, h1, if_false]
  exact (BitVec.extractLsb'_append_extractLsb'_eq_extractLsb' (by omega)).trans
    BitVec.extractLsb'_eq_self

theorem writeInt16_of_far (m : Mem) (v : BitVec 16) {a x : Word} (h : 2 ≤ (x - a).toNat) :
    m.writeInt16 a v x = m x := by
  have h0 : x ≠ a := by
    rintro rfl
    simp at h
  have h1 : x ≠ a + 1 := by
    rintro rfl
    simp at h
  simp only [writeInt16, h0, h1, if_false]

/-- A halfword depends on its two bytes. -/
theorem readInt16_congr {m m' : Mem} {a : Word} (h0 : m' a = m a) (h1 : m' (a + 1) = m (a + 1)) :
    m'.readInt16 a = m.readInt16 a := by
  rw [readInt16, readInt16, h0, h1]

-- ---------------------------------------------------------------------------
-- Runs of bytes
-- ---------------------------------------------------------------------------

/-- The memory with `n` bytes stored from `a` on. -/
def storeBytes (m : Mem) (a : Word) (n : Nat) (f : Nat → Byte) : Mem := fun x =>
  if (x - a).toNat < n then f (x - a).toNat else m x

theorem storeBytes_congr (m : Mem) (a : Word) (n : Nat) (f g : Nat → Byte) (h : ∀ i < n, f i = g i) :
    m.storeBytes a n f = m.storeBytes a n g := by
  funext x
  unfold storeBytes
  split_ifs with hx
  · exact h _ hx
  · rfl

/-- Two runs, one after the other. -/
theorem storeBytes_append (m : Mem) (a : Word) (n n' : Nat) (f g : Nat → Byte)
    (hn : n + n' < 2 ^ 32) :
    (m.storeBytes a n f).storeBytes (a + .ofNat 32 n) n' g =
      m.storeBytes a (n + n') fun i => if i < n then f i else g (i - n) := by
  funext x
  unfold storeBytes
  have hsub : x - (a + BitVec.ofNat 32 n) = x - a - BitVec.ofNat 32 n := by rw [sub_add_eq_sub_sub]
  rw [hsub]
  generalize x - a = d
  have hd : (d - BitVec.ofNat 32 n).toNat =
      if d.toNat < n then 2 ^ 32 - n + d.toNat else d.toNat - n := by
    have hmod : n % 2 ^ 32 = n := Nat.mod_eq_of_lt (by omega)
    have hlt := d.isLt
    rw [BitVec.toNat_sub, BitVec.toNat_ofNat, hmod]
    split_ifs <;> omega
  rw [hd]
  by_cases hlow : d.toNat < n
  · simp only [hlow, if_true]
    rw [if_neg (by omega), if_pos (by omega)]
  · simp only [hlow, if_false]
    by_cases hin : d.toNat - n < n'
    · rw [if_pos hin, if_pos (by omega)]
    · rw [if_neg hin, if_neg (by omega)]

end Mem

end SheepShear
