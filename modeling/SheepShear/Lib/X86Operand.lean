import SheepShear.Lib.Bytes

/-!
# Memory operands of 64-bit x86 code

The ModR/M byte, the SIB byte and the displacement of an instruction that
addresses memory; the address the three stand for under a REX prefix; and the
decoder that reads them back from a stream of code bytes.
-/

namespace SheepShear.X86

-- ---------------------------------------------------------------------------
-- Prefix and operand bytes
-- ---------------------------------------------------------------------------

structure Rex where
  w : Bool
  r : Bool
  x : Bool
  b : Bool
deriving DecidableEq

/-- What an instruction without the prefix behaves like. -/
def Rex.absent : Rex := ⟨false, false, false, false⟩

def Rex.byte (rex : Rex) : Byte :=
  0x4#4 ++ BitVec.ofBool rex.w ++ BitVec.ofBool rex.r ++ BitVec.ofBool rex.x ++
    BitVec.ofBool rex.b

/-- The prefix at the head of a code stream, if one stands there. -/
def Rex.parse : List Byte → Rex × List Byte
  | [] => (Rex.absent, [])
  | byte :: rest =>
    if byte.extractLsb' 4 4 = 0x4#4 then
      (⟨byte.getLsbD 3, byte.getLsbD 2, byte.getLsbD 1, byte.getLsbD 0⟩, rest)
    else (Rex.absent, byte :: rest)

theorem Rex.parse_byte (rex : Rex) (rest : List Byte) :
    Rex.parse (rex.byte :: rest) = (rex, rest) := by
  obtain ⟨w, r, x, b⟩ := rex
  cases w <;> cases r <;> cases x <;> cases b <;> rfl

def modrm (mod : BitVec 2) (reg rm : BitVec 3) : Byte := mod ++ reg ++ rm

theorem modrm_fields (mod : BitVec 2) (reg rm : BitVec 3) :
    (modrm mod reg rm).extractLsb' 6 2 = mod ∧ (modrm mod reg rm).extractLsb' 3 3 = reg ∧
      (modrm mod reg rm).extractLsb' 0 3 = rm := by
  refine ⟨?_, ?_, ?_⟩ <;> ext i hi <;> simp [modrm] <;> grind

structure Sib where
  scale : BitVec 2
  index : BitVec 3
  base : BitVec 3
deriving DecidableEq

def Sib.byte (sib : Sib) : Byte := sib.scale ++ sib.index ++ sib.base

def Sib.ofByte (byte : Byte) : Sib :=
  ⟨byte.extractLsb' 6 2, byte.extractLsb' 3 3, byte.extractLsb' 0 3⟩

theorem Sib.ofByte_byte (sib : Sib) : Sib.ofByte sib.byte = sib := by
  obtain ⟨scale, index, base⟩ := sib
  obtain ⟨h₁, h₂, h₃⟩ := modrm_fields scale index base
  exact congr (congr (congrArg Sib.mk h₁) h₂) h₃

-- ---------------------------------------------------------------------------
-- Operands
-- ---------------------------------------------------------------------------

/-- Bytes of displacement that follow: none, one or four by the `mod` field,
with the two holes of `mod = 0` that take four. -/
def dispLength (mod : BitVec 2) (rm : BitVec 3) (sib : Option Sib) : Nat :=
  if mod = 0 then
    if rm = 5 ∨ (sib.map Sib.base = some 5) then 4 else 0
  else if mod = 1 then 1 else 4

structure MemOperand where
  mod : BitVec 2
  rm : BitVec 3
  sib : Option Sib
  disp : List Byte
  mod_ne : mod ≠ 3
  sib_iff : sib.isSome ↔ rm = 4
  disp_length : disp.length = dispLength mod rm sib

namespace MemOperand

/-- The operand's bytes, with the instruction's register field among them. -/
def bytes (op : MemOperand) (reg : BitVec 3) : List Byte :=
  modrm op.mod reg op.rm :: ((op.sib.map Sib.byte).toList ++ op.disp)

/-- The displacement, little-endian and sign-extended. -/
def dispValue (op : MemOperand) : BitVec 64 :=
  match op.disp with
  | [d] => d.signExtend 64
  | [d0, d1, d2, d3] => (d3 ++ d2 ++ d1 ++ d0).signExtend 64
  | _ => 0

variable (rex : Rex) (gpr : BitVec 4 → BitVec 64) (next : BitVec 64)

def baseValue (op : MemOperand) : BitVec 64 :=
  match op.sib with
  | none => if op.mod = 0 ∧ op.rm = 5 then next else gpr (BitVec.ofBool rex.b ++ op.rm)
  | some sib =>
    if op.mod = 0 ∧ sib.base = 5 then 0 else gpr (BitVec.ofBool rex.b ++ sib.base)

def indexValue (op : MemOperand) : BitVec 64 :=
  match op.sib with
  | none => 0
  | some sib =>
    if rex.x = false ∧ sib.index = 4 then 0
    else gpr (BitVec.ofBool rex.x ++ sib.index) <<< sib.scale.toNat

/-- The effective address; `next` is where the next instruction starts. -/
def address (op : MemOperand) : BitVec 64 :=
  op.baseValue rex gpr next + op.indexValue rex gpr + op.dispValue

-- ---------------------------------------------------------------------------
-- Decoding
-- ---------------------------------------------------------------------------

def parseDisp (mod : BitVec 2) (rm : BitVec 3) (sib : Option Sib) (hmod : mod ≠ 3)
    (hsib : sib.isSome ↔ rm = 4) (rest : List Byte) : Option (MemOperand × List Byte) :=
  if h : dispLength mod rm sib ≤ rest.length then
    some (⟨mod, rm, sib, rest.take (dispLength mod rm sib), hmod, hsib, by simp [h]⟩,
      rest.drop (dispLength mod rm sib))
  else none

/-- The register field, the operand and the bytes behind it; no result for a
register operand or a stream that is cut short. -/
def parse : List Byte → Option (BitVec 3 × MemOperand × List Byte)
  | [] => none
  | byte :: rest =>
    if hmod : byte.extractLsb' 6 2 = 3#2 then none
    else if hrm : byte.extractLsb' 0 3 = 4#3 then
      match rest with
      | [] => none
      | s :: rest =>
        (parseDisp _ _ (some (Sib.ofByte s)) hmod (by simpa using hrm) rest).map
          fun parsed => (byte.extractLsb' 3 3, parsed)
    else
      (parseDisp _ _ none hmod (by simpa using hrm) rest).map
        fun parsed => (byte.extractLsb' 3 3, parsed)

theorem parseDisp_disp (op : MemOperand) (rest : List Byte) {mod : BitVec 2} {rm : BitVec 3}
    {sib : Option Sib} (hmod : mod ≠ 3) (hsib : sib.isSome ↔ rm = 4) (h₁ : mod = op.mod)
    (h₂ : rm = op.rm) (h₃ : sib = op.sib) :
    parseDisp mod rm sib hmod hsib (op.disp ++ rest) = some (op, rest) := by
  subst h₁ h₂ h₃
  have hle : dispLength op.mod op.rm op.sib ≤ (op.disp ++ rest).length := by
    simp [← op.disp_length]
  rw [parseDisp, dif_pos hle]
  simp only [← op.disp_length, List.take_left, List.drop_left]

theorem parse_bytes (op : MemOperand) (reg : BitVec 3) (rest : List Byte) :
    parse (op.bytes reg ++ rest) = some (reg, op, rest) := by
  obtain ⟨h₁, h₂, h₃⟩ := modrm_fields op.mod reg op.rm
  have hmod : (modrm op.mod reg op.rm).extractLsb' 6 2 ≠ 3#2 := by
    rw [h₁]
    exact op.mod_ne
  cases hsib : op.sib with
  | none =>
    have hrm : (modrm op.mod reg op.rm).extractLsb' 0 3 ≠ 4#3 := by
      intro h
      simpa [hsib] using op.sib_iff.mpr (h₃ ▸ h)
    simp only [bytes, hsib, Option.map_none, Option.toList_none, List.nil_append,
      List.cons_append]
    rw [parse, dif_neg hmod, dif_neg hrm, parseDisp_disp op rest _ _ h₁ h₃ hsib.symm, h₂]
    rfl
  | some sib =>
    have hrm : (modrm op.mod reg op.rm).extractLsb' 0 3 = 4#3 := by
      rw [h₃]
      exact op.sib_iff.mp (by simp [hsib])
    simp only [bytes, hsib, Option.map_some, Option.toList_some, List.cons_append,
      List.nil_append]
    rw [parse, dif_neg hmod, dif_pos hrm]
    simp only
    rw [parseDisp_disp op rest _ _ h₁ h₃ (by rw [Sib.ofByte_byte, hsib]), h₂]
    rfl

end MemOperand

end SheepShear.X86
