import SheepShear.Lib.Bytes

/-!
# SSE registers

Sixteen bytes, byte 0 the lowest, with the shuffles and shifts of SSE2 and SSSE3,
and the byte order instructions on general registers. Each operation comes with
the lemma that says where a byte of its result comes from.
-/

namespace SheepShear

-- ---------------------------------------------------------------------------
-- General registers
-- ---------------------------------------------------------------------------

def byteAt {n : Nat} (x : BitVec n) (i : Nat) : Byte := x.extractLsb' (8 * i) 8

/-- A little-endian quadword. -/
def ofBytes64 (f : Fin 8 → Byte) : BitVec 64 :=
  f 7 ++ f 6 ++ f 5 ++ f 4 ++ f 3 ++ f 2 ++ f 1 ++ f 0

/-- BSWAP of the low `n` bytes; the others are cleared. -/
def bswap (n : Nat) (x : BitVec 64) : BitVec 64 :=
  ofBytes64 fun i => if i.val < n then byteAt x (n - 1 - i) else 0

theorem byteAt_ofBytes64 (f : Fin 8 → Byte) (i : Nat) (hi : i < 8) :
    byteAt (ofBytes64 f) i = f ⟨i, hi⟩ := by
  ext j hj
  interval_cases i <;> simp [byteAt, ofBytes64] <;> grind

theorem byteAt_bswap (n : Nat) (x : BitVec 64) (i : Nat) (hi : i < 8) :
    byteAt (bswap n x) i = if i < n then byteAt x (n - 1 - i) else 0 :=
  byteAt_ofBytes64 _ i hi

theorem byteAt_rotateLeft (x : BitVec 64) (i : Nat) (hi : i < 8) :
    byteAt (x.rotateLeft 32) i = byteAt x ((i + 4) % 8) := by
  ext j hj
  interval_cases i <;> simp [byteAt] <;> grind

-- ---------------------------------------------------------------------------
-- SSE registers
-- ---------------------------------------------------------------------------

abbrev Xmm := Fin 16 → Byte

namespace Xmm

/-- The doubleword that PSHUFD puts at `i`. -/
def pshufdLane (imm : BitVec 8) (i : Nat) : Nat := (imm >>> (2 * i)).toNat % 4

def pshufd (imm : BitVec 8) (x : Xmm) : Xmm := fun k =>
  x ⟨4 * pshufdLane imm (k / 4) + k % 4, by unfold pshufdLane; omega⟩

def pslldq (n : Nat) (x : Xmm) : Xmm := fun k => if n ≤ k.val then x ⟨k - n, by omega⟩ else 0

def psrldq (n : Nat) (x : Xmm) : Xmm := fun k => if h : k.val + n < 16 then x ⟨k + n, h⟩ else 0

/-- A control byte with its sign bit set gives 0. -/
def pshufb (mask x : Xmm) : Xmm := fun k =>
  if (mask k).msb then 0 else x ⟨(mask k).toNat % 16, Nat.mod_lt _ (by decide)⟩

/-- The quadword `i`. -/
def qword (x : Xmm) (i : Fin 2) : BitVec 64 := ofBytes64 fun k => x ⟨8 * i + k, by omega⟩

def psllq (n : Nat) (x : Xmm) : Xmm := fun k =>
  byteAt (x.qword ⟨k / 8, by omega⟩ <<< n) (k % 8)

def pand (x y : Xmm) : Xmm := fun k => x k &&& y k

/-- The complement is of the first operand. -/
def pandn (x y : Xmm) : Xmm := fun k => ~~~x k &&& y k

def por (x y : Xmm) : Xmm := fun k => x k ||| y k

def pxor (x y : Xmm) : Xmm := fun k => x k ^^^ y k

/-- 0x1b reverses the doublewords. -/
theorem pshufd_reverse (x : Xmm) (k : Fin 16) :
    pshufd 0x1b x k = x ⟨4 * (3 - k / 4) + k % 4, by omega⟩ := by
  have hlane : ∀ i : Fin 4, pshufdLane 0x1b i = 3 - i := by decide
  unfold pshufd
  congr
  exact hlane ⟨k / 4, by omega⟩

theorem byteAt_qword (x : Xmm) (k : Fin 16) :
    byteAt (x.qword ⟨k / 8, by omega⟩) (k % 8) = x k := by
  refine (byteAt_ofBytes64 _ _ (Nat.mod_lt _ (by decide))).trans ?_
  congr
  exact Nat.div_add_mod k.val 8

/-- The sign bits after PSLLQ by 3 are the bits 4 before it. -/
theorem psllq_three_msb (x : Xmm) (k : Fin 16) : (psllq 3 x k).msb = (x k).getLsbD 4 := by
  have hmsb (q : BitVec 64) (m : Nat) (hm : m < 8) :
      (byteAt (q <<< 3) m).msb = (byteAt q m).getLsbD 4 := by
    simp only [byteAt, BitVec.msb_eq_getLsbD_last, BitVec.getLsbD_extractLsb', BitVec.getLsbD_shiftLeft]
    have h1 : 8 * m + (8 - 1) < 64 := by omega
    have h2 : ¬ 8 * m + (8 - 1) < 3 := by omega
    have h3 : 8 * m + (8 - 1) - 3 = 8 * m + 4 := by omega
    simp [h1, h2, h3]
  unfold psllq
  rw [hmsb _ _ (Nat.mod_lt _ (by decide)), byteAt_qword]

end Xmm

end SheepShear
