import Mathlib

/-!
# Bytes and big-endian words

The wire formats and the guest memory of the emulator are big-endian. A word
is split into its four bytes, most significant first, and put together again.
-/

namespace SheepShear

abbrev Byte := BitVec 8
abbrev Word := BitVec 32

instance lawfulBEqByte : LawfulBEq Byte := inferInstance

/-! Register files and tables are indexed from zero. -/

instance neZeroThree : NeZero 3 := ⟨by decide⟩
instance neZeroFour : NeZero 4 := ⟨by decide⟩
instance neZeroEight : NeZero 8 := ⟨by decide⟩
instance neZeroSixteen : NeZero 16 := ⟨by decide⟩
instance neZeroThirtyTwo : NeZero 32 := ⟨by decide⟩
instance neZeroSixtyFour : NeZero 64 := ⟨by decide⟩

/-- The memory image of a word in network (and Macintosh) byte order. -/
def Word.bytes (v : Word) : List Byte :=
  [v.extractLsb' 24 8, v.extractLsb' 16 8, v.extractLsb' 8 8, v.extractLsb' 0 8]

def Word.ofBytes (b0 b1 b2 b3 : Byte) : Word := b0 ++ b1 ++ b2 ++ b3

@[simp] theorem Word.length_bytes (v : Word) : v.bytes.length = 4 := rfl

theorem Word.ofBytes_bytes (v : Word) :
    Word.ofBytes (v.extractLsb' 24 8) (v.extractLsb' 16 8) (v.extractLsb' 8 8)
      (v.extractLsb' 0 8) = v := by
  simp only [Word.ofBytes]
  rw [BitVec.extractLsb'_append_extractLsb'_eq_extractLsb' (by omega),
    BitVec.extractLsb'_append_extractLsb'_eq_extractLsb' (by omega),
    BitVec.extractLsb'_append_extractLsb'_eq_extractLsb' (by omega)]
  exact BitVec.extractLsb'_eq_self

theorem Word.extractLsb'_ofBytes (b0 b1 b2 b3 : Byte) :
    (Word.ofBytes b0 b1 b2 b3).extractLsb' 24 8 = b0 ∧
    (Word.ofBytes b0 b1 b2 b3).extractLsb' 16 8 = b1 ∧
    (Word.ofBytes b0 b1 b2 b3).extractLsb' 8 8 = b2 ∧
    (Word.ofBytes b0 b1 b2 b3).extractLsb' 0 8 = b3 := by
  refine ⟨?_, ?_, ?_, ?_⟩ <;> ext i hi <;> simp [Word.ofBytes] <;> grind

end SheepShear
