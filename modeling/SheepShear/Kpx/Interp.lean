import SheepShear.Kpx.Registers

/-!
# The interpreter's integer instructions

The semantic actions of `ppc-execute.cpp` and `ppc-execute.hpp` for the
integer families, and the entries of the decode table that instantiate them.
Every one of these actions ends with `increment_pc(4)`, which is added where
the program counter is part of the state.
-/

namespace SheepShear.Kpx

-- ---------------------------------------------------------------------------
-- Operands and predicates of the decode table
-- ---------------------------------------------------------------------------

abbrev Operand := Regs → Word → Word

abbrev Predicate := Word → Bool

def operandRA : Operand := fun r opcode => r.gpr (rAField opcode)
def operandRB : Operand := fun r opcode => r.gpr (rBField opcode)
def operandRS : Operand := fun r opcode => r.gpr (rSField opcode)
def operandRACompl : Operand := fun r opcode => ~~~(r.gpr (rAField opcode))
def operandRAOr0 : Operand := fun r opcode =>
  if rAField opcode ≠ 0 then r.gpr (rAField opcode) else 0
def operandXerCa : Operand := fun r _ => if r.xer.ca then 1 else 0
def operandNone : Operand := fun _ _ => 0
def operandOne : Operand := fun _ _ => 1
def operandZero : Operand := fun _ _ => 0
def operandMinusOne : Operand := fun _ _ => BitVec.ofInt 32 (-1)
def operandSimm : Operand := fun _ opcode => (immField opcode).signExtend 32
def operandUimm : Operand := fun _ opcode => (immField opcode).setWidth 32
def operandSimmShifted : Operand := fun _ opcode => (immField opcode).signExtend 32 <<< 16
def operandUimmShifted : Operand := fun _ opcode => (immField opcode).setWidth 32 <<< 16
def operandSh : Operand := fun _ opcode => (shField opcode).setWidth 32
def operandMask : Operand := fun _ opcode => maskCompute (mbField opcode) (meField opcode)

def bit0 : Predicate := fun _ => false
def bit1 : Predicate := fun _ => true
def rcBitG : Predicate := rcField
def oeBitG : Predicate := oeField

-- ---------------------------------------------------------------------------
-- Semantic actions
-- ---------------------------------------------------------------------------

/-- `op_carry<op_add>`: a 64-bit sum. -/
def opCarryAdd (a b c : Word) : Bool :=
  (a.setWidth 64 + b.setWidth 64 + c.setWidth 64) >>> 32 != 0

/-- `op_overflow<op_add>`: the signs of the 64-bit sum and of its low word. -/
def opOverflowAdd (a b c : Word) : Bool :=
  let overflow : BitVec 64 := a.signExtend 64 + b.signExtend 64 + c.signExtend 64
  overflow.msb ^^ (overflow.setWidth 32).msb

def executeAddition (RA RB RC : Operand) (CA OE Rc : Predicate) (opcode : Word) (r : Regs) : Regs :=
  let a := RA r opcode
  let b := RB r opcode
  let c := RC r opcode
  let d := a + b + c
  let r := if CA opcode then r.setCa (opCarryAdd a b c) else r
  let r := if OE opcode then r.setOv (opOverflowAdd a b c) else r
  let r := if Rc opcode then r.recordCr0 d else r
  r.setGpr (rDField opcode) d

/-- `op` is the operation on the operand values and `overflow` its specialisation
of `op_overflow`. -/
def executeGenericArith (op : Word → Word → Word → Word) (overflow : Word → Word → Word → Bool)
    (RD : Word → BitVec 5) (RA RB RC : Operand) (OE Rc : Predicate) (opcode : Word) (r : Regs) :
    Regs :=
  let a := RA r opcode
  let b := RB r opcode
  let c := RC r opcode
  let d := op a b c
  let r := if OE opcode then r.setOv (overflow a b c) else r
  let r := if Rc opcode then r.recordCr0 d else r
  r.setGpr (RD opcode) d

def noOverflow : Word → Word → Word → Bool := fun _ _ _ => false

/-- `op_overflow<op_neg>`. -/
def opOverflowNeg : Word → Word → Word → Bool := fun a _ _ => a == 0x80000000#32

def executeRlwimi (SH MA : Operand) (Rc : Predicate) (opcode : Word) (r : Regs) : Regs :=
  let n := SH r opcode
  let m := MA r opcode
  let rs := operandRS r opcode
  let ra := operandRA r opcode
  let d := opPpcRlwimi rs n m ra
  let r := if Rc opcode then r.recordCr0 d else r
  r.setGpr (rAField opcode) d

inductive ShiftOp where
  | shll
  | shrl
  | shra
deriving DecidableEq, Repr

def ShiftOp.apply : ShiftOp → Word → Word → Word
  | .shll => shl
  | .shrl => shr
  | .shra => sar

/-- `invalid_shift<OP>::value`. -/
def ShiftOp.invalid : ShiftOp → Word → Word
  | .shra, r => 0 - (r >>> 31)
  | _, _ => 0

/-- `so` is the mask of the shift count operation `op_andi`. -/
def executeShift (op : ShiftOp) (RD : Word → BitVec 5) (RA SH : Operand) (so : Word)
    (CA Rc : Predicate) (opcode : Word) (s : Regs) : Regs :=
  let n := SH s opcode &&& so
  let r := RA s opcode
  let invalid := n &&& 0x20#32 ≠ 0
  let d := if invalid then op.invalid r else op.apply r n
  let s :=
    if CA opcode then
      if invalid then s.setCa (d >>> 31 != 0)
      else s.setCa (r &&& 0x80000000#32 != 0 && r &&& ~~~(shl 0xffffffff#32 n) != 0)
    else s
  let s := if Rc opcode then s.recordCr0 d else s
  s.setGpr (RD opcode) d

/-- `lt` and `gt` are the comparisons at the type `CT`. -/
def executeCompare (RB : Operand) (lt : Word → Word → Bool) (opcode : Word) (r : Regs) : Regs :=
  let a := operandRA r opcode
  let b := RB r opcode
  r.recordCr (crfDField opcode) (if lt a b then -1 else if lt b a then 1 else 0)

def executeCrOp (op : Word → Word → Word) (opcode : Word) (r : Regs) : Regs :=
  let crbA := (crbAField opcode).toNat
  let a := (r.cr >>> (31 - crbA)) &&& 1
  let crbB := (crbBField opcode).toNat
  let b := (r.cr >>> (31 - crbB)) &&& 1
  let crbD := (crbDField opcode).toNat
  let d := op a b &&& 1
  { r with cr := (r.cr &&& ~~~(1#32 <<< (31 - crbD))) ||| (d <<< (31 - crbD)) }

/-- `do_execute_divide<SB, OE>`: the result and the new XER. -/
def doExecuteDivide (sb oe : Bool) (x : Xer) (ra rb : Word) : Word × Xer :=
  if rb = 0 ∨ (sb ∧ ra = 0x80000000#32 ∧ rb = BitVec.ofInt 32 (-1)) then
    (if sb then ra.sshiftRight 31 else 0, if oe then x.setOv true else x)
  else
    (if sb then ra.sdiv rb else ra / rb, if oe then x.setOv false else x)

def executeDivide (sb : Bool) (OE Rc : Predicate) (opcode : Word) (r : Regs) : Regs :=
  let a := operandRA r opcode
  let b := operandRB r opcode
  let (d, xer) := doExecuteDivide sb (OE opcode) r.xer a b
  let r := { r with xer }
  let r := if Rc opcode then r.recordCr0 d else r
  r.setGpr (rDField opcode) d

def executeMultiply (hi sb : Bool) (OE Rc : Predicate) (opcode : Word) (r : Regs) : Regs :=
  let a := operandRA r opcode
  let b := operandRB r opcode
  let d : BitVec 64 := if sb then a.signExtend 64 * b.signExtend 64 else a.setWidth 64 * b.setWidth 64
  let r :=
    if OE opcode then
      r.setOv (d &&& 0xffffffff80000000#64 != 0 &&
        d &&& 0xffffffff80000000#64 != 0xffffffff80000000#64)
    else r
  let d := if hi then d >>> 32 else d
  let r := if Rc opcode then r.recordCr0 (d.setWidth 32) else r
  r.setGpr (rDField opcode) (d.setWidth 32)

-- ---------------------------------------------------------------------------
-- The decode table
-- ---------------------------------------------------------------------------

/-- The integer instructions that the translator handles itself. -/
inductive IntInsn where
  | add | addc | adde | addi | addic | addicRecord | addis | addme | addze
  | subf | subfc | subfe | subfic | subfme | subfze
  | neg | mullw | mulhw | mulhwu | mulli | divw | divwu
  | and | andc | eqv | nand | nor | or | orc | xor
  | ori | oris | xori | xoris | andi | andis
  | extsb | extsh
  | rlwimi | rlwinm | rlwnm
  | slw | srw | sraw | srawi | cntlzw
  | cmp | cmpi | cmpl | cmpli
  | crand | crandc | creqv | crnand | crnor | cror | crorc | crxor
deriving DecidableEq, Repr

/-- The rows of `powerpc_ii_table` for these instructions. -/
def IntInsn.execute : IntInsn → Word → Regs → Regs
  | .add => executeAddition operandRA operandRB operandNone bit0 oeBitG rcBitG
  | .addc => executeAddition operandRA operandRB operandNone bit1 oeBitG rcBitG
  | .adde => executeAddition operandRA operandRB operandXerCa bit1 oeBitG rcBitG
  | .addi => executeAddition operandRAOr0 operandSimm operandNone bit0 bit0 bit0
  | .addic => executeAddition operandRA operandSimm operandNone bit1 bit0 bit0
  | .addicRecord => executeAddition operandRA operandSimm operandNone bit1 bit0 bit1
  | .addis => executeAddition operandRAOr0 operandSimmShifted operandNone bit0 bit0 bit0
  | .addme => executeAddition operandRA operandMinusOne operandXerCa bit1 oeBitG rcBitG
  | .addze => executeAddition operandRA operandZero operandXerCa bit1 oeBitG rcBitG
  | .subf => executeAddition operandRACompl operandRB operandOne bit0 oeBitG rcBitG
  | .subfc => executeAddition operandRACompl operandRB operandOne bit1 oeBitG rcBitG
  | .subfe => executeAddition operandRACompl operandRB operandXerCa bit1 oeBitG rcBitG
  | .subfic => executeAddition operandRACompl operandSimm operandOne bit1 bit0 bit0
  | .subfme => executeAddition operandRACompl operandXerCa operandMinusOne bit1 oeBitG rcBitG
  | .subfze => executeAddition operandRACompl operandXerCa operandZero bit1 oeBitG rcBitG
  | .neg => executeGenericArith (fun a _ _ => -a) opOverflowNeg rDField operandRA operandNone
      operandNone oeBitG rcBitG
  | .mullw => executeMultiply false true oeBitG rcBitG
  | .mulhw => executeMultiply true true bit0 rcBitG
  | .mulhwu => executeMultiply true false bit0 rcBitG
  | .mulli => executeGenericArith (fun a b _ => a * b) noOverflow rDField operandRA operandSimm
      operandNone bit0 bit0
  | .divw => executeDivide true oeBitG rcBitG
  | .divwu => executeDivide false oeBitG rcBitG
  | .and => logical (fun a b _ => a &&& b) operandRB rcBitG
  | .andc => logical (fun a b _ => a &&& ~~~b) operandRB rcBitG
  | .eqv => logical (fun a b _ => ~~~(a ^^^ b)) operandRB rcBitG
  | .nand => logical (fun a b _ => ~~~(a &&& b)) operandRB rcBitG
  | .nor => logical (fun a b _ => ~~~(a ||| b)) operandRB rcBitG
  | .or => logical (fun a b _ => a ||| b) operandRB rcBitG
  | .orc => logical (fun a b _ => a ||| ~~~b) operandRB rcBitG
  | .xor => logical (fun a b _ => a ^^^ b) operandRB rcBitG
  | .ori => logical (fun a b _ => a ||| b) operandUimm bit0
  | .oris => logical (fun a b _ => a ||| b) operandUimmShifted bit0
  | .xori => logical (fun a b _ => a ^^^ b) operandUimm bit0
  | .xoris => logical (fun a b _ => a ^^^ b) operandUimmShifted bit0
  | .andi => logical (fun a b _ => a &&& b) operandUimm bit1
  | .andis => logical (fun a b _ => a &&& b) operandUimmShifted bit1
  | .extsb => logical (fun a _ _ => opSignExtend8 a) operandNone rcBitG
  | .extsh => logical (fun a _ _ => opSignExtend16 a) operandNone rcBitG
  | .rlwimi => executeRlwimi operandSh operandMask rcBitG
  | .rlwinm => executeGenericArith opPpcRlwinm noOverflow rAField operandRS operandSh operandMask
      bit0 rcBitG
  | .rlwnm => executeGenericArith opPpcRlwnm noOverflow rAField operandRS operandRB operandMask
      bit0 rcBitG
  | .slw => executeShift .shll rAField operandRS operandRB 0x3f#32 bit0 rcBitG
  | .srw => executeShift .shrl rAField operandRS operandRB 0x3f#32 bit0 rcBitG
  | .sraw => executeShift .shra rAField operandRS operandRB 0x3f#32 bit1 rcBitG
  | .srawi => executeShift .shra rAField operandRS operandSh 0x1f#32 bit1 rcBitG
  | .cntlzw => logical (fun a _ _ => opCntlzw a) operandNone rcBitG
  | .cmp => executeCompare operandRB BitVec.slt
  | .cmpi => executeCompare operandSimm BitVec.slt
  | .cmpl => executeCompare operandRB BitVec.ult
  | .cmpli => executeCompare operandUimm BitVec.ult
  | .crand => executeCrOp fun a b => a &&& b
  | .crandc => executeCrOp fun a b => a &&& ~~~b
  | .creqv => executeCrOp fun a b => ~~~(a ^^^ b)
  | .crnand => executeCrOp fun a b => ~~~(a &&& b)
  | .crnor => executeCrOp fun a b => ~~~(a ||| b)
  | .cror => executeCrOp fun a b => a ||| b
  | .crorc => executeCrOp fun a b => a ||| ~~~b
  | .crxor => executeCrOp fun a b => a ^^^ b
where
  /-- `EXECUTE_GENERIC_ARITH(op, RA, RS, RB, NONE, OE_BIT_0, Rc)`. -/
  logical (op : Word → Word → Word → Word) (RB : Operand) (Rc : Predicate) : Word → Regs → Regs :=
    executeGenericArith op noOverflow rAField operandRS RB operandNone bit0 Rc

end SheepShear.Kpx
