import SheepShear.Kpx.Interp

/-!
# The translator's integer instructions

The portable C++ bodies of the dyngen ops (`basic-dyngen-ops.cpp`,
`ppc-dyngen-ops.cpp`) on the CPU context and the temporaries `T0` and `T1`,
and the sequences of ops that `compile_block` generates for the integer
instructions.
-/

namespace SheepShear.Kpx

-- ---------------------------------------------------------------------------
-- Semantic action templates of the ops
-- ---------------------------------------------------------------------------

/-- `((int32)v) < 0`. -/
def isNeg (v : Word) : Bool := v.toInt < 0

def caBit (x : Xer) : Word := if x.ca then 1 else 0

def doExecuteAddition (ex ca oe : Bool) (x : Xer) (ra rb : Word) : Word × Xer :=
  let rd := ra + rb + (if ex then caBit x else 0)
  let a := isNeg ra
  let b := isNeg rb
  let d := isNeg rd
  let x :=
    if ex then x.setCa (b ^^ ((b ^^ a) && (a ^^ d)))
    else if ca then x.setCa (rd.ult ra)
    else x
  let x := if oe then x.setOv ((b ^^ d) && (a ^^ d)) else x
  (rd, x)

def doExecuteSubtract (ca oe : Bool) (x : Xer) (ra rb : Word) : Word × Xer :=
  let rd := rb - ra
  let a := isNeg ra
  let b := isNeg rb
  let d := isNeg rd
  let x := if ca then x.setCa (rd.ule rb) else x
  let x := if oe then x.setOv ((a ^^ b) && (d ^^ b)) else x
  (rd, x)

def doExecuteSubtractExtended (oe : Bool) (x : Xer) (ra rb : Word) : Word × Xer :=
  let rd := ~~~ra + rb + caBit x
  let a := isNeg ra
  let b := isNeg rb
  let d := isNeg rd
  let x := x.setCa (!a ^^ ((a ^^ d) && (b ^^ d)))
  let x := if oe then x.setOv ((a ^^ b) && (d ^^ b)) else x
  (rd, x)

-- ---------------------------------------------------------------------------
-- Ops
-- ---------------------------------------------------------------------------

structure DyngenState where
  regs : Regs
  t0 : Word
  t1 : Word

inductive DyngenOp where
  | loadT0Gpr (n : BitVec 5) | loadT1Gpr (n : BitVec 5) | storeT0Gpr (n : BitVec 5)
  | loadT0Crb (n : BitVec 5) | loadT1Crb (n : BitVec 5) | storeT0Crb (n : BitVec 5)
  | storeT0Crf (crf : BitVec 3)
  | mov32T0Zero | mov32T0Im (im : Word)
  | add32T0T1 | add32T0Im (im : Word)
  | add32T0One | add32T0Two | add32T0Four | add32T0Eight
  | umul32T0T1 | neg32T0
  | and32T0T1 | and32T0Im (im : Word) | or32T0T1 | or32T0Im (im : Word)
  | xor32T0T1 | xor32T0Im (im : Word)
  | orc32T0T1 | andc32T0T1 | nand32T0T1 | nor32T0T1 | eqv32T0T1
  | lsl32T0Im (im : Word) | lsr32T0Im (im : Word) | rol32T0T1 | rol32T0Im (im : Word)
  | se16T0 | se8T0
  | recordCr0T0
  | compareT0T1 | compareT0Im (im : Word) | compareT0Zero
  | compareLogicalT0T1 | compareLogicalT0Im (im : Word) | compareLogicalT0Zero
  | divT0T1 (signed oe : Bool)
  | mulhwT0T1 | mulhwuT0T1 | mulliT0Im (im : Word) | mullwoT0T1
  | slwT0T1 | srwT0T1 | srawT0T1 | srawT0Im (im : Word)
  | rlwimiT0T1 (sh m : Word) | rlwinmT0T1 (sh m : Word) | rlwnmT0T1 (m : Word)
  | cntlzw32T0
  | addoT0T1 | addcT0Im (im : Word) | addcT0T1 | addcoT0T1 | addeT0T1 | addeoT0T1
  | addmeT0 | addmeoT0 | addzeT0 | addzeoT0
  | subfT0T1 | subfoT0T1 | subfcT0Im (im : Word) | subfcT0T1 | subfcoT0T1
  | subfeT0T1 | subfeoT0T1 | subfmeT0 | subfmeoT0 | subfzeT0 | subfzeoT0
  | negoT0

namespace DyngenState

def setT0 (s : DyngenState) (v : Word) : DyngenState := { s with t0 := v }

/-- `T0` and XER from one of the templates. -/
def setT0Xer (s : DyngenState) (v : Word × Xer) : DyngenState :=
  { s with t0 := v.1, regs := { s.regs with xer := v.2 } }

def soBit (s : DyngenState) : Word := if s.regs.xer.so then 1 else 0

/-- The body of the compare ops; `lt` compares at their type. -/
def compare (s : DyngenState) (lt : Word → Word → Bool) (rhs : Word) : DyngenState :=
  if lt s.t0 rhs then s.setT0 (s.soBit ||| standaloneCrLt)
  else if lt rhs s.t0 then s.setT0 (s.soBit ||| standaloneCrGt)
  else s.setT0 (s.soBit ||| standaloneCrEq)

def recordCr0T0 (s : DyngenState) : DyngenState :=
  let cr := s.regs.cr &&& ~~~0xf0000000#32
  let cr := cr ||| (s.soBit <<< 28)
  let cr :=
    if s.t0.toInt < 0 then cr ||| 0x80000000#32
    else if 0 < s.t0.toInt then cr ||| 0x40000000#32
    else cr ||| 0x20000000#32
  { s with regs := { s.regs with cr } }

def srawT0T1 (s : DyngenState) : DyngenState :=
  let t1 := s.t1 &&& 0x3f#32
  let s : DyngenState := { s with t1 }
  if t1 &&& 0x20#32 ≠ 0 then
    let sb : Word := s.t0 >>> 31
    s.setT0Xer (-sb, s.regs.xer.setCa (sb != 0))
  else
    let rd := sar s.t0 t1
    let ca := isNeg s.t0 && s.t0 &&& ~~~(shl 0xffffffff#32 t1) != 0
    s.setT0Xer (rd, s.regs.xer.setCa ca)

/-- `slw` and `srw`, with their shift. -/
def shiftT0T1 (s : DyngenState) (op : Word → Word → Word) : DyngenState :=
  let t1 := s.t1 &&& 0x3f#32
  { s with t1, t0 := if t1 &&& 0x20#32 ≠ 0 then 0 else op s.t0 t1 }

def mullwoT0T1 (s : DyngenState) : DyngenState :=
  let rd : BitVec 64 := s.t0.signExtend 64 * s.t1.signExtend 64
  s.setT0Xer (rd.setWidth 32, s.regs.xer.setOv ((rd.setWidth 32).signExtend 64 != rd))

end DyngenState

def DyngenOp.run (s : DyngenState) : DyngenOp → DyngenState
  | .loadT0Gpr n => s.setT0 (s.regs.gpr n)
  | .loadT1Gpr n => { s with t1 := s.regs.gpr n }
  | .storeT0Gpr n => { s with regs := s.regs.setGpr n s.t0 }
  | .loadT0Crb n => s.setT0 ((s.regs.cr >>> (31 - n.toNat)) &&& 1)
  | .loadT1Crb n => { s with t1 := (s.regs.cr >>> (31 - n.toNat)) &&& 1 }
  | .storeT0Crb n =>
    let cr := s.regs.cr &&& ~~~(1#32 <<< (31 - n.toNat))
    { s with regs := { s.regs with cr := cr ||| ((s.t0 &&& 1) <<< (31 - n.toNat)) } }
  | .storeT0Crf crf => { s with regs := { s.regs with cr := crSetField s.regs.cr crf s.t0 } }
  | .mov32T0Zero => s.setT0 0
  | .mov32T0Im im => s.setT0 im
  | .add32T0T1 => s.setT0 (s.t0 + s.t1)
  | .add32T0Im im => s.setT0 (s.t0 + im)
  | .add32T0One => s.setT0 (s.t0 + 1)
  | .add32T0Two => s.setT0 (s.t0 + 2)
  | .add32T0Four => s.setT0 (s.t0 + 4)
  | .add32T0Eight => s.setT0 (s.t0 + 8)
  | .umul32T0T1 => s.setT0 (s.t0 * s.t1)
  | .neg32T0 => s.setT0 (-s.t0)
  | .and32T0T1 => s.setT0 (s.t0 &&& s.t1)
  | .and32T0Im im => s.setT0 (s.t0 &&& im)
  | .or32T0T1 => s.setT0 (s.t0 ||| s.t1)
  | .or32T0Im im => s.setT0 (s.t0 ||| im)
  | .xor32T0T1 => s.setT0 (s.t0 ^^^ s.t1)
  | .xor32T0Im im => s.setT0 (s.t0 ^^^ im)
  | .orc32T0T1 => s.setT0 (s.t0 ||| ~~~s.t1)
  | .andc32T0T1 => s.setT0 (s.t0 &&& ~~~s.t1)
  | .nand32T0T1 => s.setT0 (~~~(s.t0 &&& s.t1))
  | .nor32T0T1 => s.setT0 (~~~(s.t0 ||| s.t1))
  | .eqv32T0T1 => s.setT0 (~~~(s.t0 ^^^ s.t1))
  | .lsl32T0Im im => s.setT0 (shl s.t0 im)
  | .lsr32T0Im im => s.setT0 (shr s.t0 im)
  | .rol32T0T1 => s.setT0 (shl s.t0 s.t1 ||| shr s.t0 (32 - s.t1))
  | .rol32T0Im im => s.setT0 (shl s.t0 im ||| shr s.t0 (32 - im))
  | .se16T0 => s.setT0 ((s.t0.setWidth 16).signExtend 32)
  | .se8T0 => s.setT0 ((s.t0.setWidth 8).signExtend 32)
  | .recordCr0T0 => s.recordCr0T0
  | .compareT0T1 => s.compare BitVec.slt s.t1
  | .compareT0Im im => s.compare BitVec.slt im
  | .compareT0Zero => s.compare BitVec.slt 0
  | .compareLogicalT0T1 => s.compare BitVec.ult s.t1
  | .compareLogicalT0Im im => s.compare BitVec.ult im
  | .compareLogicalT0Zero => s.compare BitVec.ult 0
  | .divT0T1 signed oe => s.setT0Xer (doExecuteDivide signed oe s.regs.xer s.t0 s.t1)
  | .mulhwT0T1 => s.setT0 (((s.t0.signExtend 64 * s.t1.signExtend 64).sshiftRight 32).setWidth 32)
  | .mulhwuT0T1 => s.setT0 (((s.t0.setWidth 64 * s.t1.setWidth 64) >>> 32).setWidth 32)
  | .mulliT0Im im => s.setT0 (s.t0 * im)
  | .mullwoT0T1 => s.mullwoT0T1
  | .slwT0T1 => s.shiftT0T1 shl
  | .srwT0T1 => s.shiftT0T1 shr
  | .srawT0T1 => s.srawT0T1
  | .srawT0Im n =>
    let ca := isNeg s.t0 && s.t0 &&& ~~~(shl 0xffffffff#32 n) != 0
    s.setT0Xer (sar s.t0 n, s.regs.xer.setCa ca)
  | .rlwimiT0T1 sh m => s.setT0 (opPpcRlwimi s.t1 sh m s.t0)
  | .rlwinmT0T1 sh m => s.setT0 (opRotl s.t0 sh &&& m)
  | .rlwnmT0T1 m => s.setT0 (opRotl s.t0 s.t1 &&& m)
  | .cntlzw32T0 => s.setT0 (cntlzwLoop s.t0 32 0 0x80000000#32)
  | .addoT0T1 => s.setT0Xer (doExecuteAddition false false true s.regs.xer s.t0 s.t1)
  | .addcT0Im im => s.setT0Xer (doExecuteAddition false true false s.regs.xer s.t0 im)
  | .addcT0T1 => s.setT0Xer (doExecuteAddition false true false s.regs.xer s.t0 s.t1)
  | .addcoT0T1 => s.setT0Xer (doExecuteAddition false true true s.regs.xer s.t0 s.t1)
  | .addeT0T1 => s.setT0Xer (doExecuteAddition true false false s.regs.xer s.t0 s.t1)
  | .addeoT0T1 => s.setT0Xer (doExecuteAddition true false true s.regs.xer s.t0 s.t1)
  | .addmeT0 => s.setT0Xer (doExecuteAddition true false false s.regs.xer s.t0 0xffffffff#32)
  | .addmeoT0 => s.setT0Xer (doExecuteAddition true false true s.regs.xer s.t0 0xffffffff#32)
  | .addzeT0 => s.setT0Xer (doExecuteAddition true false false s.regs.xer s.t0 0)
  | .addzeoT0 => s.setT0Xer (doExecuteAddition true false true s.regs.xer s.t0 0)
  | .subfT0T1 => s.setT0 (s.t1 - s.t0)
  | .subfoT0T1 => s.setT0Xer (doExecuteSubtract false true s.regs.xer s.t0 s.t1)
  | .subfcT0Im im => s.setT0Xer (doExecuteSubtract true false s.regs.xer s.t0 im)
  | .subfcT0T1 => s.setT0Xer (doExecuteSubtract true false s.regs.xer s.t0 s.t1)
  | .subfcoT0T1 => s.setT0Xer (doExecuteSubtract true true s.regs.xer s.t0 s.t1)
  | .subfeT0T1 => s.setT0Xer (doExecuteSubtractExtended false s.regs.xer s.t0 s.t1)
  | .subfeoT0T1 => s.setT0Xer (doExecuteSubtractExtended true s.regs.xer s.t0 s.t1)
  | .subfmeT0 => s.setT0Xer (doExecuteSubtractExtended false s.regs.xer s.t0 0xffffffff#32)
  | .subfmeoT0 => s.setT0Xer (doExecuteSubtractExtended true s.regs.xer s.t0 0xffffffff#32)
  | .subfzeT0 => s.setT0Xer (doExecuteSubtractExtended false s.regs.xer s.t0 0)
  | .subfzeoT0 => s.setT0Xer (doExecuteSubtractExtended true s.regs.xer s.t0 0)
  | .negoT0 => s.setT0Xer (-s.t0, s.regs.xer.setOv (s.t0 == 0x80000000#32))

/-- The generated code: its ops one after the other. -/
def runOps (ops : List DyngenOp) (s : DyngenState) : DyngenState := ops.foldl DyngenOp.run s

-- ---------------------------------------------------------------------------
-- Generators with special cases
-- ---------------------------------------------------------------------------

def genMov32T0Im (value : Word) : List DyngenOp :=
  if value = 0 then [.mov32T0Zero] else [.mov32T0Im value]

def genAdd32T0Im (value : Word) : List DyngenOp :=
  if value = 0 then []
  else if value = 1 then [.add32T0One]
  else if value = 2 then [.add32T0Two]
  else if value = 4 then [.add32T0Four]
  else if value = 8 then [.add32T0Eight]
  else [.add32T0Im value]

def genCompareT0Im (crf : BitVec 3) (value : Word) : List DyngenOp :=
  (if value = 0 then [.compareT0Zero] else [.compareT0Im value]) ++ [.storeT0Crf crf]

def genCompareLogicalT0Im (crf : BitVec 3) (value : Word) : List DyngenOp :=
  (if value = 0 then [.compareLogicalT0Zero] else [.compareLogicalT0Im value]) ++ [.storeT0Crf crf]

def genRecord (opcode : Word) : List DyngenOp := if rcField opcode then [.recordCr0T0] else []

-- ---------------------------------------------------------------------------
-- The cases of compile_block
-- ---------------------------------------------------------------------------

def uimm (opcode : Word) : Word := (immField opcode).setWidth 32
def simm (opcode : Word) : Word := (immField opcode).signExtend 32
def uimmShifted (opcode : Word) : Word := (immField opcode).setWidth 32 <<< 16
def simmShifted (opcode : Word) : Word := (immField opcode).signExtend 32 <<< 16

/-- The logical instructions on `rS` and `rB`. -/
def genLogical (op : DyngenOp) (opcode : Word) : List DyngenOp :=
  [.loadT0Gpr (rSField opcode), .loadT1Gpr (rBField opcode), op, .storeT0Gpr (rAField opcode)] ++
    genRecord opcode

/-- The instructions on `rS` alone, or `rS` and `rB`, that store before they record. -/
def genUnary (op : DyngenOp) (opcode : Word) : List DyngenOp :=
  [.loadT0Gpr (rSField opcode), op, .storeT0Gpr (rAField opcode)] ++ genRecord opcode

/-- The arithmetic instructions on `rA` and `rB`, with the op for OE set. -/
def genArith (op opO : DyngenOp) (opcode : Word) : List DyngenOp :=
  [.loadT0Gpr (rAField opcode), .loadT1Gpr (rBField opcode)] ++
    (if oeField opcode then [opO] else [op]) ++ genRecord opcode ++ [.storeT0Gpr (rDField opcode)]

/-- The arithmetic instructions on `rA` alone. -/
def genArithUnary (op opO : DyngenOp) (opcode : Word) : List DyngenOp :=
  [.loadT0Gpr (rAField opcode)] ++ (if oeField opcode then [opO] else [op]) ++ genRecord opcode ++
    [.storeT0Gpr (rDField opcode)]

def genCrLogical (op : DyngenOp) (opcode : Word) : List DyngenOp :=
  [.loadT0Crb (crbAField opcode), .loadT1Crb (crbBField opcode), op,
    .storeT0Crb (crbDField opcode)]

def genOr (opcode : Word) : List DyngenOp :=
  [.loadT0Gpr (rSField opcode)] ++
    (if rSField opcode ≠ rBField opcode then [.loadT1Gpr (rBField opcode), .or32T0T1] else []) ++
    [.storeT0Gpr (rAField opcode)] ++ genRecord opcode

def genOri (opcode : Word) : List DyngenOp :=
  if uimm opcode = 0 then
    if rAField opcode ≠ rSField opcode then
      [.loadT0Gpr (rSField opcode), .storeT0Gpr (rAField opcode)]
    else []
  else
    [.loadT0Gpr (rSField opcode), .or32T0Im (uimm opcode), .storeT0Gpr (rAField opcode)]

/-- `addi` and `addis`: a load of the immediate when `rA` is 0. -/
def genAddi (value opcode : Word) : List DyngenOp :=
  (if rAField opcode = 0 then genMov32T0Im value
    else .loadT0Gpr (rAField opcode) :: genAdd32T0Im value) ++
    [.storeT0Gpr (rDField opcode)]

/-- The strength-reduced forms of `rlwinm`. -/
def genRlwinm (opcode : Word) : List DyngenOp :=
  let sh := (shField opcode).toNat
  let mb := (mbField opcode).toNat
  let me := (meField opcode).toNat
  let m := maskCompute (mbField opcode) (meField opcode)
  let shW := (shField opcode).setWidth 32
  let op : List DyngenOp :=
    if mb = 0 then
      if me = 31 then (if sh > 0 then [.rol32T0Im shW] else [])
      else if me = 31 - sh then [.lsl32T0Im shW]
      else if sh = 0 then [.and32T0Im m]
      else [.rlwinmT0T1 shW m]
    else if me = 31 then
      if sh = 32 - mb then [.lsr32T0Im ((mbField opcode).setWidth 32)]
      else if sh = 0 then [.and32T0Im m]
      else [.rlwinmT0T1 shW m]
    else [.rlwinmT0T1 shW m]
  [.loadT0Gpr (rSField opcode)] ++ op ++ [.storeT0Gpr (rAField opcode)] ++ genRecord opcode

def genRlwnm (opcode : Word) : List DyngenOp :=
  let m := maskCompute (mbField opcode) (meField opcode)
  [.loadT0Gpr (rSField opcode), .loadT1Gpr (rBField opcode),
    if (mbField opcode).toNat = 0 ∧ (meField opcode).toNat = 31 then .rol32T0T1 else .rlwnmT0T1 m,
    .storeT0Gpr (rAField opcode)] ++ genRecord opcode

def IntInsn.compile : IntInsn → Word → List DyngenOp
  | .cmp, op => [.loadT0Gpr (rAField op), .loadT1Gpr (rBField op), .compareT0T1,
      .storeT0Crf (crfDField op)]
  | .cmpi, op => .loadT0Gpr (rAField op) :: genCompareT0Im (crfDField op) (simm op)
  | .cmpl, op => [.loadT0Gpr (rAField op), .loadT1Gpr (rBField op), .compareLogicalT0T1,
      .storeT0Crf (crfDField op)]
  | .cmpli, op => .loadT0Gpr (rAField op) :: genCompareLogicalT0Im (crfDField op) (uimm op)
  | .crand, op => genCrLogical .and32T0T1 op
  | .crandc, op => genCrLogical .andc32T0T1 op
  | .creqv, op => genCrLogical .eqv32T0T1 op
  | .crnand, op => genCrLogical .nand32T0T1 op
  | .crnor, op => genCrLogical .nor32T0T1 op
  | .cror, op => genCrLogical .or32T0T1 op
  | .crorc, op => genCrLogical .orc32T0T1 op
  | .crxor, op => genCrLogical .xor32T0T1 op
  | .and, op => genLogical .and32T0T1 op
  | .andc, op => genLogical .andc32T0T1 op
  | .eqv, op => genLogical .eqv32T0T1 op
  | .nand, op => genLogical .nand32T0T1 op
  | .nor, op => genLogical .nor32T0T1 op
  | .orc, op => genLogical .orc32T0T1 op
  | .xor, op => genLogical .xor32T0T1 op
  | .or, op => genOr op
  | .ori, op => genOri op
  | .xori, op => [.loadT0Gpr (rSField op), .xor32T0Im (uimm op), .storeT0Gpr (rAField op)]
  | .oris, op => [.loadT0Gpr (rSField op), .or32T0Im (uimmShifted op), .storeT0Gpr (rAField op)]
  | .xoris, op => [.loadT0Gpr (rSField op), .xor32T0Im (uimmShifted op), .storeT0Gpr (rAField op)]
  | .andi, op => [.loadT0Gpr (rSField op), .and32T0Im (uimm op), .storeT0Gpr (rAField op),
      .recordCr0T0]
  | .andis, op => [.loadT0Gpr (rSField op), .and32T0Im (uimmShifted op), .storeT0Gpr (rAField op),
      .recordCr0T0]
  | .extsb, op => genUnary .se8T0 op
  | .extsh, op => genUnary .se16T0 op
  | .neg, op => genArithUnary .neg32T0 .negoT0 op
  | .add, op => genArith .add32T0T1 .addoT0T1 op
  | .addc, op => genArith .addcT0T1 .addcoT0T1 op
  | .adde, op => genArith .addeT0T1 .addeoT0T1 op
  | .subf, op => genArith .subfT0T1 .subfoT0T1 op
  | .subfc, op => genArith .subfcT0T1 .subfcoT0T1 op
  | .subfe, op => genArith .subfeT0T1 .subfeoT0T1 op
  | .mullw, op => genArith .umul32T0T1 .mullwoT0T1 op
  | .divw, op => genArith (.divT0T1 true false) (.divT0T1 true true) op
  | .divwu, op => genArith (.divT0T1 false false) (.divT0T1 false true) op
  | .addic, op => [.loadT0Gpr (rAField op), .addcT0Im (simm op), .storeT0Gpr (rDField op)]
  | .addicRecord, op => [.loadT0Gpr (rAField op), .addcT0Im (simm op), .recordCr0T0,
      .storeT0Gpr (rDField op)]
  | .subfic, op => [.loadT0Gpr (rAField op), .subfcT0Im (simm op), .storeT0Gpr (rDField op)]
  | .addme, op => genArithUnary .addmeT0 .addmeoT0 op
  | .addze, op => genArithUnary .addzeT0 .addzeoT0 op
  | .subfme, op => genArithUnary .subfmeT0 .subfmeoT0 op
  | .subfze, op => genArithUnary .subfzeT0 .subfzeoT0 op
  | .addi, op => genAddi (simm op) op
  | .addis, op => genAddi (simmShifted op) op
  | .rlwimi, op => [.loadT0Gpr (rAField op), .loadT1Gpr (rSField op),
      .rlwimiT0T1 ((shField op).setWidth 32) (maskCompute (mbField op) (meField op)),
      .storeT0Gpr (rAField op)] ++ genRecord op
  | .rlwinm, op => genRlwinm op
  | .rlwnm, op => genRlwnm op
  | .cntlzw, op => genUnary .cntlzw32T0 op
  | .slw, op => genLogical .slwT0T1 op
  | .srw, op => genLogical .srwT0T1 op
  | .sraw, op => genLogical .srawT0T1 op
  | .srawi, op => genUnary (.srawT0Im ((shField op).setWidth 32)) op
  | .mulhw, op => [.loadT0Gpr (rAField op), .loadT1Gpr (rBField op), .mulhwT0T1,
      .storeT0Gpr (rDField op)] ++ genRecord op
  | .mulhwu, op => [.loadT0Gpr (rAField op), .loadT1Gpr (rBField op), .mulhwuT0T1,
      .storeT0Gpr (rDField op)] ++ genRecord op
  | .mulli, op => [.loadT0Gpr (rAField op), .mulliT0Im (simm op), .storeT0Gpr (rDField op)]

end SheepShear.Kpx
