import SheepShear.Kpx.Cpu

/-!
# AltiVec definitions

What the instructions mean, in the guest's element numbers and on whole
registers: a result is a function of the sources, so no order of the elements
and no overlap of the registers can matter here.
-/

namespace SheepShear.Kpx.AltiVec

/-- The bytes of two registers, those of `a` first. -/
def pairByte (a b : Vr) (n : Fin 32) : Byte :=
  if h : n.val < 16 then a.element ⟨n, h⟩ else b.element ⟨n - 16, by omega⟩

def vperm (a b c : Vr) : Vr :=
  .ofElements fun i => pairByte a b ⟨(c.element i).toNat % 32, Nat.mod_lt _ (by decide)⟩

def vsldoi (a b : Vr) (sh : Fin 16) : Vr := .ofElements fun i => pairByte a b ⟨i + sh, by omega⟩

def vsel (a b c : Vr) : Vr := fun k =>
  .ofFnLE fun n : Fin 8 => if (c k).getLsbD n then (b k).getLsbD n else (a k).getLsbD n

-- ---------------------------------------------------------------------------
-- Loads and stores
-- ---------------------------------------------------------------------------

/-- The address of `lvx` and `stvx`. -/
def vectorAddress (gpr : BitVec 5 → Word) (rA rB : BitVec 5) : Word :=
  ((if rA = 0 then 0 else gpr rA) + gpr rB) &&& ~~~15#32

def lvx (mem : Mem) (ea : Word) : Vr := .ofElements fun i => mem (ea + .ofNat 32 i)

def stvx (mem : Mem) (ea : Word) (v : Vr) : Mem :=
  mem.storeBytes ea 16 fun i => v.element (.ofNat 16 i)

-- ---------------------------------------------------------------------------
-- Elements as numbers
-- ---------------------------------------------------------------------------

/-- The element `i` of a size, most significant byte first, without a sign. -/
def value (l : Lane) (v : Vr) (i : Nat) : Nat :=
  match l with
  | .b => (v.element (.ofNat 16 i)).toNat
  | .h => (v.element (.ofNat 16 (2 * i)) ++ v.element (.ofNat 16 (2 * i + 1))).toNat
  | .w => (Word.ofBytes (v.element (.ofNat 16 (4 * i))) (v.element (.ofNat 16 (4 * i + 1)))
      (v.element (.ofNat 16 (4 * i + 2))) (v.element (.ofNat 16 (4 * i + 3)))).toNat

/-- The element with a sign. -/
def svalue (l : Lane) (v : Vr) (i : Nat) : Int := (value l v i : Int).bmod (2 ^ (8 * l.bytes))

/-- The register with these elements, modulo their size. -/
def ofValues (l : Lane) (f : Nat → Int) : Vr :=
  .ofElements fun k =>
    (BitVec.ofInt (8 * l.bytes) (f (k / l.bytes))).extractLsb' (8 * (l.bytes - 1 - k % l.bytes)) 8

def clamp (lo hi x : Int) : Int := if hi < x then hi else if x < lo then lo else x

/-- To the range of an element without a sign. -/
def clampU (l : Lane) (x : Int) : Int := clamp 0 (2 ^ (8 * l.bytes) - 1) x

def clampS (l : Lane) (x : Int) : Int :=
  clamp (-2 ^ (8 * l.bytes - 1)) (2 ^ (8 * l.bytes - 1) - 1) x

-- ---------------------------------------------------------------------------
-- Data movement
-- ---------------------------------------------------------------------------

/-- `vmrgh*` (`first` 0) and `vmrgl*` (half the number of elements). -/
def merge (l : Lane) (first : Nat) (a b : Vr) : Vr :=
  ofValues l fun i => value l (if i % 2 = 0 then a else b) (i / 2 + first)

/-- The elements of two registers, those of `a` first. -/
def pairValue (get : Vr → Nat → Int) (l : Lane) (a b : Vr) (i : Nat) : Int :=
  if i < 16 / l.bytes then get a i else get b (i - 16 / l.bytes)

/-- The packs: elements of twice the size, each made smaller by `f`. -/
def pack (l wide : Lane) (get : Vr → Nat → Int) (f : Int → Int) (a b : Vr) : Vr :=
  ofValues l fun i => f (pairValue get wide a b i)

/-- `vupkh*` and `vupkl*`. -/
def unpack (l narrow : Lane) (first : Nat) (b : Vr) : Vr :=
  ofValues l fun i => svalue narrow b (i + first)

/-- A pixel of 1, 5, 5 and 5 bits from one of 8, 8, 8 and 8: the low bit of the first byte and the
high bits of the others. -/
def packPixel (p : Word) : BitVec 16 :=
  p.extractLsb' 24 1 ++ p.extractLsb' 19 5 ++ p.extractLsb' 11 5 ++ p.extractLsb' 3 5

/-- The first bit fills its byte, the others are extended with zeros. -/
def unpackPixel (p : BitVec 16) : Word :=
  (p.extractLsb' 15 1).signExtend 8 ++ (p.extractLsb' 10 5).setWidth 8 ++
    (p.extractLsb' 5 5).setWidth 8 ++ (p.extractLsb' 0 5).setWidth 8

def vpkpx (a b : Vr) : Vr :=
  ofValues .h fun i => (packPixel (.ofNat 32 (if i < 4 then value .w a i else value .w b (i - 4)))).toNat

def vupkpx (first : Nat) (b : Vr) : Vr :=
  ofValues .w fun i => (unpackPixel (.ofNat 16 (value .h b (i + first)))).toNat

/-- The shift count of `vslo` and `vsro`, in octets. -/
def octetShift (b : Vr) : Nat := ((b.element 15) >>> 3).toNat % 16

def vslo (a b : Vr) : Vr :=
  .ofElements fun i => if h : i + octetShift b < 16 then a.element ⟨i + octetShift b, h⟩ else 0

def vsro (a b : Vr) : Vr :=
  .ofElements fun i => if octetShift b ≤ i.val then a.element ⟨i - octetShift b, by omega⟩ else 0

end SheepShear.Kpx.AltiVec
