import SheepShear.Lib.Bytes

/-!
# PowerPC registers and instruction fields

`ppc-bitfields.hpp`, `ppc-registers.hpp` and `ppc-operations.hpp`: the integer
register file, the condition register and XER, the fields of an instruction
word, and the operations the semantic actions are made of.
-/

namespace SheepShear.Kpx

-- ---------------------------------------------------------------------------
-- Instruction fields
-- ---------------------------------------------------------------------------

/-- `bit_field<FB, FE>::extract`; bit 0 is the most significant one. -/
def bitField (fb fe : Nat) (v : Word) : BitVec (fe + 1 - fb) := v.extractLsb' (31 - fe) _

def rAField (opcode : Word) : BitVec 5 := bitField 11 15 opcode
def rBField (opcode : Word) : BitVec 5 := bitField 16 20 opcode
def rDField (opcode : Word) : BitVec 5 := bitField 6 10 opcode
def rSField (opcode : Word) : BitVec 5 := bitField 6 10 opcode
def crbAField (opcode : Word) : BitVec 5 := bitField 11 15 opcode
def crbBField (opcode : Word) : BitVec 5 := bitField 16 20 opcode
def crbDField (opcode : Word) : BitVec 5 := bitField 6 10 opcode
def crfDField (opcode : Word) : BitVec 3 := bitField 6 8 opcode
def shField (opcode : Word) : BitVec 5 := bitField 16 20 opcode
def mbField (opcode : Word) : BitVec 5 := bitField 21 25 opcode
def meField (opcode : Word) : BitVec 5 := bitField 26 30 opcode
def immField (opcode : Word) : BitVec 16 := bitField 16 31 opcode
def rcField (opcode : Word) : Bool := bitField 31 31 opcode = 1#1
def oeField (opcode : Word) : Bool := bitField 21 21 opcode = 1#1

-- ---------------------------------------------------------------------------
-- The register file
-- ---------------------------------------------------------------------------

/-- `powerpc_xer_register`. The flags are bytes that only ever hold 0 or 1. -/
structure Xer where
  so : Bool
  ov : Bool
  ca : Bool
  byteCount : Byte
deriving DecidableEq, Repr

def Xer.setOv (x : Xer) (v : Bool) : Xer := { x with ov := v, so := x.so || v }

def Xer.setCa (x : Xer) (v : Bool) : Xer := { x with ca := v }

/-- The registers the integer instructions read and write. -/
@[ext]
structure Regs where
  gpr : BitVec 5 → Word
  cr : Word
  xer : Xer

def Regs.setGpr (r : Regs) (n : BitVec 5) (v : Word) : Regs :=
  { r with gpr := fun k => if k = n then v else r.gpr k }

def Regs.setCa (r : Regs) (v : Bool) : Regs := { r with xer := r.xer.setCa v }

def Regs.setOv (r : Regs) (v : Bool) : Regs := { r with xer := r.xer.setOv v }

-- The masks of one field, in the position of CR7.
def standaloneCrLt : Word := 8#32
def standaloneCrGt : Word := 4#32
def standaloneCrEq : Word := 2#32
def standaloneCrSo : Word := 1#32

/-- The shift that moves CR7 to a field, `28 - 4 * crfd`. -/
def crShift (crfd : BitVec 3) : Nat := 28 - 4 * crfd.toNat

/-- `powerpc_cr_register::set(int, uint32)`. -/
def crSetField (cr : Word) (crfd : BitVec 3) (v : Word) : Word :=
  (cr &&& ~~~(0xf#32 <<< crShift crfd)) ||| (v <<< crShift crfd)

def crSetSo (cr : Word) (crfd : BitVec 3) (v : Bool) : Word :=
  let m := standaloneCrSo <<< crShift crfd
  (cr &&& ~~~m) ||| (if v then m else 0)

/-- `powerpc_cr_register::compute`, with the sign of its argument. -/
def crCompute (cr : Word) (crfd : BitVec 3) (v : Int) : Word :=
  let m := (standaloneCrLt ||| standaloneCrGt ||| standaloneCrEq) <<< crShift crfd
  let cr := cr &&& ~~~m
  if v < 0 then cr ||| (standaloneCrLt <<< crShift crfd)
  else if 0 < v then cr ||| (standaloneCrGt <<< crShift crfd)
  else cr ||| (standaloneCrEq <<< crShift crfd)

def Regs.recordCr (r : Regs) (crfd : BitVec 3) (v : Int) : Regs :=
  { r with cr := crSetSo (crCompute r.cr crfd v) crfd r.xer.so }

def Regs.recordCr0 (r : Regs) (v : Word) : Regs := r.recordCr 0 v.toInt

-- ---------------------------------------------------------------------------
-- Operations
-- ---------------------------------------------------------------------------

/-- The C++ shifts, with the count taken modulo 32 as on the x86 hosts. -/
def shl (x y : Word) : Word := x <<< (y.toNat % 32)
def shr (x y : Word) : Word := x >>> (y.toNat % 32)
def sar (x y : Word) : Word := x.sshiftRight (y.toNat % 32)

def opRotl (x y : Word) : Word := shl x y ||| shr x (32 - y)

def opPpcRlwimi (x y z t : Word) : Word := (opRotl x y &&& z) ||| (t &&& ~~~z)

def opPpcRlwinm (x y z : Word) : Word := opRotl x y &&& z

def opPpcRlwnm (x y z : Word) : Word := opRotl x (y &&& 0x1f#32) &&& z

def opSignExtend16 (v : Word) : Word := (v.setWidth 16).signExtend 32

def opSignExtend8 (v : Word) : Word := (v.setWidth 8).signExtend 32

/-- The loop of `op_cntlzw` over the bits of `m`, from its count `n` on. -/
def cntlzwLoop (x : Word) : (left : Nat) → (n : Word) → (m : Word) → Word
  | 0, n, _ => n
  | left + 1, n, m => if x &&& m ≠ 0 then n else cntlzwLoop x left (n + 1) (m >>> 1)

def opCntlzw (x : Word) : Word := cntlzwLoop x 32 0 0x80000000#32

/-- `mask_operand::compute`. -/
def maskCompute (mb me : BitVec 5) : Word :=
  let m := (BitVec.allOnes 32 >>> mb.toNat) ^^^
    (if me.toNat ≥ 31 then 0 else BitVec.allOnes 32 >>> (me.toNat + 1))
  if mb.toNat > me.toNat then ~~~m else m

end SheepShear.Kpx
