import SheepShear.Lib.Bytes

/-!
# Vector registers

`powerpc_vr` of `ppc-registers.hpp` on a little-endian host, and the element
numbering of `ppc-operands.hpp`. A register holds four host-endian words in
big-endian order, so a byte or half word of the guest's numbering is found
through the tables of `ev_mixed`.
-/

namespace SheepShear.Kpx

/-- The union `powerpc_vr`, as its array `b`. -/
abbrev Vr := Fin 16 → Byte

namespace Vr

def b (v : Vr) (i : Fin 16) : Byte := v i

def h (v : Vr) (i : Fin 8) : BitVec 16 := v ⟨2 * i + 1, by omega⟩ ++ v ⟨2 * i, by omega⟩

def w (v : Vr) (i : Fin 4) : Word :=
  .ofBytes (v ⟨4 * i + 3, by omega⟩) (v ⟨4 * i + 2, by omega⟩) (v ⟨4 * i + 1, by omega⟩)
    (v ⟨4 * i, by omega⟩)

def j (v : Vr) (i : Fin 2) : BitVec 64 := v.w ⟨2 * i + 1, by omega⟩ ++ v.w ⟨2 * i, by omega⟩

def setB (v : Vr) (i : Fin 16) (x : Byte) : Vr := fun k => if k = i then x else v k

def setH (v : Vr) (i : Fin 8) (x : BitVec 16) : Vr := fun k =>
  if k.val / 2 = i.val then x.extractLsb' (8 * (k.val % 2)) 8 else v k

def setW (v : Vr) (i : Fin 4) (x : Word) : Vr := fun k =>
  if k.val / 4 = i.val then x.extractLsb' (8 * (k.val % 4)) 8 else v k

end Vr

-- ---------------------------------------------------------------------------
-- Element numbers
-- ---------------------------------------------------------------------------

/-- `ev_mixed::byte_element`. -/
def byteElement : Fin 16 → Fin 16 :=
  ![3, 2, 1, 0, 7, 6, 5, 4, 11, 10, 9, 8, 15, 14, 13, 12]

/-- `ev_mixed::half_element`. -/
def halfElement : Fin 8 → Fin 8 := ![1, 0, 3, 2, 5, 4, 7, 6]

@[simp] theorem byteElement_byteElement (i : Fin 16) : byteElement (byteElement i) = i := by
  revert i; decide

@[simp] theorem halfElement_halfElement (i : Fin 8) : halfElement (halfElement i) = i := by
  revert i; decide

-- ---------------------------------------------------------------------------
-- Elements of one size
-- ---------------------------------------------------------------------------

/-- An array of `powerpc_vr`. -/
inductive Lane where
  | b
  | h
  | w
deriving DecidableEq, Repr

def Lane.bytes : Lane → Nat
  | .b => 1
  | .h => 2
  | .w => 4

def Vr.lane (v : Vr) : Lane → Nat → Nat
  | .b, i => (v.b (.ofNat 16 i)).toNat
  | .h, i => (v.h (.ofNat 8 i)).toNat
  | .w, i => (v.w (.ofNat 4 i)).toNat

/-- Where the guest's element is in the array. -/
def Lane.mixedIndex : Lane → Nat → Nat
  | .b, i => byteElement (.ofNat 16 i)
  | .h, i => halfElement (.ofNat 8 i)
  | .w, i => i

/-- The byte that the guest numbers `i`. -/
def Vr.element (v : Vr) (i : Fin 16) : Byte := v (byteElement i)

/-- The register with these bytes in the guest's order. -/
def Vr.ofElements (f : Fin 16 → Byte) : Vr := fun k => f (byteElement k)

@[simp] theorem Vr.element_ofElements (f : Fin 16 → Byte) (i : Fin 16) :
    (Vr.ofElements f).element i = f i := by
  simp [Vr.element, Vr.ofElements]

theorem Vr.eq_ofElements (v : Vr) (f : Fin 16 → Byte) (h : ∀ i, v.element i = f i) :
    v = .ofElements f := by
  funext k
  rw [Vr.ofElements, ← h, Vr.element, byteElement_byteElement]

end SheepShear.Kpx
