import SheepShear.Lib.HostWords
import SheepShear.Lib.Steps

/-!
# The data pool of the translation cache

`copy_data` and the end of the destructor of `basic_jit_cache`. The pool is a
list of chunks, linked through the headers at their starts, and data is put
behind the data that is in the newest chunk. Offsets and sizes are `uint32`.
-/

namespace SheepShear.Jit.DataPool

open HostWords

-- ---------------------------------------------------------------------------
-- Chunks
-- ---------------------------------------------------------------------------

/-- Memory that `vm_acquire` has returned. -/
structure Region where
  base : Nat
  size : Nat
  deriving DecidableEq, Repr

def Region.Apart (r r' : Region) : Prop := r.base + r.size ≤ r'.base ∨ r'.base + r'.size ≤ r.base

instance (r r' : Region) : Decidable (r.Apart r') := inferInstanceAs (Decidable (_ ∨ _))

/-- What a call has returned for its block, with the chunk that it took. -/
structure Piece where
  ptr : Nat
  size : Nat
  block : Nat → Byte
  chunk : Region

def Piece.region (p : Piece) : Region := ⟨p.ptr, p.size⟩

/-- The pool, with the memory that was acquired for it and the data in it, the
newest first. -/
structure Pool where
  data : Nat
  mem : HostMemory
  regions : List Region
  pieces : List Piece

/-- The system, whose pages have `2 ^ pageShift` bytes. -/
structure Host where
  pageShift : Nat
  pageShift_ge : 12 ≤ pageShift
  pageShift_lt : pageShift < 32

def Host.pageSize (h : Host) : Word := BitVec.twoPow 32 h.pageShift

/-- `sizeof(data_chunk_t)` -/
def sizeofChunk : Word := 16

def align : Word := 16

/-- `(x + unit - 1) & -unit` -/
def roundUp (unit x : Word) : Word := (x + unit - 1) &&& -unit

-- The fields of a `data_chunk_t`.

def chunkSize (m : HostMemory) (p : Nat) : Word := .ofNat 32 (readLE m p 4)
def chunkOffs (m : HostMemory) (p : Nat) : Word := .ofNat 32 (readLE m (p + 4) 4)
def chunkNext (m : HostMemory) (p : Nat) : Nat := readLE m (p + 8) 8

def setSize (m : HostMemory) (p : Nat) (v : Word) : HostMemory := writeLE m p v.toNat 4
def setOffs (m : HostMemory) (p : Nat) (v : Word) : HostMemory := writeLE m (p + 4) v.toNat 4
def setNext (m : HostMemory) (p v : Nat) : HostMemory := writeLE m (p + 8) v 8

-- ---------------------------------------------------------------------------
-- copy_data
-- ---------------------------------------------------------------------------

/-- A call, with the address of the memory that it gets if it asks for some. -/
structure Call where
  block : Nat → Byte
  size : Word
  acquired : Nat

/-- `data && (data->offs + size) < data->size` -/
def Fits (s : Pool) (size : Word) : Prop :=
  s.data ≠ 0 ∧ chunkOffs s.mem s.data + size < chunkSize s.mem s.data

instance (s : Pool) (size : Word) : Decidable (Fits s size) := inferInstanceAs (Decidable (_ ∧ _))

def toAlloc (h : Host) (size : Word) : Word := roundUp h.pageSize (sizeofChunk + size + align)

def newChunk (h : Host) (s : Pool) (call : Call) : Pool :=
  let dcp := call.acquired
  let m := setSize s.mem dcp (toAlloc h call.size)
  let m := setOffs m dcp (roundUp align sizeofChunk)
  let m := setNext m dcp s.data
  { s with
    data := dcp
    mem := m
    regions := ⟨dcp, (toAlloc h call.size).toNat⟩ :: s.regions }

/-- The copy to the end of the data in the newest chunk. -/
def place (s : Pool) (call : Call) : Pool :=
  let ptr := s.data + (chunkOffs s.mem s.data).toNat
  let m := copyIn s.mem ptr call.block call.size.toNat
  { s with
    mem := setOffs m s.data (chunkOffs m s.data + roundUp align call.size)
    pieces := { ptr := ptr
                size := call.size.toNat
                block := call.block
                chunk := ⟨s.data, (chunkSize s.mem s.data).toNat⟩ } :: s.pieces }

def copyData (h : Host) (s : Pool) (call : Call) : Pool :=
  if Fits s call.size then place s call else place (newChunk h s call) call

/-- The size is one that a chunk can hold, and `vm_acquire` returns pages that
are not in use. -/
def Served (h : Host) (s : Pool) (call : Call) : Prop :=
  sizeofChunk.toNat + call.size.toNat + align.toNat + 2 ^ h.pageShift ≤ 2 ^ 32 ∧
    (¬Fits s call.size → call.acquired ≠ 0 ∧ 2 ^ h.pageShift ∣ call.acquired ∧
      call.acquired + (toAlloc h call.size).toNat ≤ 2 ^ 64 ∧
      ∀ r ∈ s.regions, r.Apart ⟨call.acquired, (toAlloc h call.size).toNat⟩)

instance (h : Host) (s : Pool) (call : Call) : Decidable (Served h s call) :=
  inferInstanceAs (Decidable (_ ∧ (_ → _)))

def step (h : Host) (s : Pool) (call : Call) : Option Pool :=
  if Served h s call then some (copyData h s call) else none

/-- The pool of a new cache. -/
def initial (m : HostMemory) : Pool := ⟨0, m, [], []⟩

-- ---------------------------------------------------------------------------
-- The destructor
-- ---------------------------------------------------------------------------

/-- The regions that are released from the chunk at `p` on, if the list ends
within `fuel` chunks. -/
def release (m : HostMemory) : (fuel : Nat) → (p : Nat) → Option (List Region)
  | _, 0 => some []
  | 0, _ => none
  | fuel + 1, p => (release m fuel (chunkNext m p)).map (⟨p, (chunkSize m p).toNat⟩ :: ·)

-- ---------------------------------------------------------------------------
-- Rounding
-- ---------------------------------------------------------------------------

theorem toNat_and_neg_twoPow {k : Nat} (hk : k < 32) (x : Word) :
    (x &&& -BitVec.twoPow 32 k).toNat = x.toNat / 2 ^ k * 2 ^ k := by
  have hneg : (-BitVec.twoPow 32 k).toNat = 2 ^ 32 - ((2 ^ k - 1) + 1) := by
    have hpos := Nat.two_pow_pos k
    have hlt : 2 ^ k < 2 ^ 32 := Nat.pow_lt_pow_right (by decide) hk
    rw [BitVec.toNat_neg, BitVec.toNat_twoPow, Nat.mod_eq_of_lt hlt, Nat.mod_eq_of_lt (by omega)]
    omega
  rw [BitVec.toNat_and, hneg]
  apply Nat.eq_of_testBit_eq
  intro i
  have hpow : 2 ^ k - 1 < 2 ^ 32 := by
    have hlt : 2 ^ k < 2 ^ 32 := Nat.pow_lt_pow_right (by decide) hk
    omega
  rw [Nat.testBit_and, Nat.testBit_two_pow_sub_succ hpow, Nat.testBit_two_pow_sub_one,
    Nat.testBit_mul_two_pow, Nat.testBit_div_two_pow]
  by_cases hik : k ≤ i
  · by_cases hi : i < 32
    · simp [hik, hi, Nat.sub_add_cancel hik]
    · have hbit : x.toNat.testBit i = false :=
        Nat.testBit_lt_two_pow (lt_of_lt_of_le x.isLt (Nat.pow_le_pow_right (by decide) (by omega)))
      simp [hik, hi, hbit, Nat.sub_add_cancel hik]
  · simp [hik]
    omega

/-- Rounding up is exact while it does not wrap. -/
theorem toNat_roundUp {k : Nat} (hk : k < 32) {x : Word} (hx : x.toNat + 2 ^ k ≤ 2 ^ 32) :
    (roundUp (BitVec.twoPow 32 k) x).toNat = (x.toNat + (2 ^ k - 1)) / 2 ^ k * 2 ^ k := by
  have hlt : 2 ^ k < 2 ^ 32 := Nat.pow_lt_pow_right (by decide) hk
  have hpos := Nat.two_pow_pos k
  have hsum : (x + BitVec.twoPow 32 k - 1).toNat = x.toNat + (2 ^ k - 1) := by
    rw [BitVec.toNat_sub, BitVec.toNat_add, BitVec.toNat_twoPow, Nat.mod_eq_of_lt hlt]
    show (2 ^ 32 - 1 + (x.toNat + 2 ^ k) % 2 ^ 32) % 2 ^ 32 = _
    omega
  rw [roundUp, toNat_and_neg_twoPow hk, hsum]

end SheepShear.Jit.DataPool
