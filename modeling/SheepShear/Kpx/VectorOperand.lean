import SheepShear.Kpx.AltiVec

/-!
# Operands of the vector instructions

The element views of `ppc-operands.hpp`. A handler works on elements of one of
the arrays of a register, as numbers of a C++ type: a view says which array,
whether the index goes through the tables of `ev_mixed`, and the types between
which a value is converted.
-/

namespace SheepShear.Kpx

def vAField (opcode : Word) : BitVec 5 := bitField 11 15 opcode
def vBField (opcode : Word) : BitVec 5 := bitField 16 20 opcode
def vCField (opcode : Word) : BitVec 5 := bitField 21 25 opcode
def vDField (opcode : Word) : BitVec 5 := bitField 6 10 opcode
def vSHField (opcode : Word) : BitVec 4 := bitField 22 25 opcode
def vRcField (opcode : Word) : Bool := bitField 21 21 opcode = 1#1

-- ---------------------------------------------------------------------------
-- Integer types
-- ---------------------------------------------------------------------------

structure CType where
  signed : Bool
  bits : Nat
deriving DecidableEq, Repr

namespace CType

def int8 : CType := ⟨true, 8⟩
def int16 : CType := ⟨true, 16⟩
def int32 : CType := ⟨true, 32⟩
def int64 : CType := ⟨true, 64⟩
def uint8 : CType := ⟨false, 8⟩
def uint16 : CType := ⟨false, 16⟩
def uint32 : CType := ⟨false, 32⟩
def uint64 : CType := ⟨false, 64⟩

/-- The conversion of a number to the type. -/
def conv (t : CType) (x : Int) : Int := if t.signed then x.bmod (2 ^ t.bits) else x % 2 ^ t.bits

/-- `vector_numeric_limits`. -/
def max (t : CType) : Int := if t.signed then 2 ^ (t.bits - 1) - 1 else 2 ^ t.bits - 1

def min (t : CType) : Int := if t.signed then -2 ^ (t.bits - 1) else 0

end CType

-- ---------------------------------------------------------------------------
-- Element views
-- ---------------------------------------------------------------------------

def Vr.setLane (v : Vr) : Lane → Nat → Int → Vr
  | .b, i, x => v.setB (.ofNat 16 i) (.ofInt 8 x)
  | .h, i, x => v.setH (.ofNat 8 i) (.ofInt 16 x)
  | .w, i, x => v.setW (.ofNat 4 i) (.ofInt 32 x)

/-- `vector_operand` and, where `saturates`, `vector_saturate_operand`. -/
structure VectorOperand where
  lane : Lane
  mixed : Bool
  value : CType
  element : CType
  saturates : Bool
deriving DecidableEq, Repr

namespace VectorOperand

def size (o : VectorOperand) : Nat := o.lane.bytes

/-- `n_elements`. -/
def count (o : VectorOperand) : Nat := 16 / o.size

/-- `ev_mixed` or `ev_direct`. -/
def index (o : VectorOperand) (i : Nat) : Nat := if o.mixed then o.lane.mixedIndex i else i

def getElement (o : VectorOperand) (reg : Vr) (i : Nat) : Int :=
  o.element.conv (o.value.conv (reg.lane o.lane (o.index i)))

def setElement (o : VectorOperand) (reg : Vr) (i : Nat) (value : Int) : Vr :=
  reg.setLane o.lane (o.index i) value

/-- The value, clamped, and whether it was. -/
def saturate (o : VectorOperand) (v : Int) : Int × Bool :=
  if o.saturates then
    if o.value.max < v then (o.value.max, true)
    else if v < o.value.min then (o.value.min, true)
    else (v, false)
  else (v, false)

def plain (lane : Lane) (mixed : Bool) (value : CType) : VectorOperand :=
  ⟨lane, mixed, value, value, false⟩

def v16QI : VectorOperand := .plain .b false .uint8
def v16QIs : VectorOperand := .plain .b false .int8
def v16QIm : VectorOperand := .plain .b true .uint8
def v16QIms : VectorOperand := .plain .b true .int8
def v8HI : VectorOperand := .plain .h false .uint16
def v8HIs : VectorOperand := .plain .h false .int16
def v8HIm : VectorOperand := .plain .h true .uint16
def v8HIms : VectorOperand := .plain .h true .int16
def v4SI : VectorOperand := .plain .w false .uint32
def v4SIs : VectorOperand := .plain .w false .int32

def v16QISat (value : CType) : VectorOperand := ⟨.b, false, value, .int16, true⟩
def v8HISat (value : CType) : VectorOperand := ⟨.h, false, value, .int32, true⟩
def v4SISat (value : CType) : VectorOperand := ⟨.w, false, value, .int64, true⟩
def v16QImSat (value : CType) : VectorOperand := ⟨.b, true, value, .int16, true⟩
def v16QImUSat (value : CType) : VectorOperand := ⟨.b, true, value, .uint16, true⟩
def v8HImSat (value : CType) : VectorOperand := ⟨.h, true, value, .int32, true⟩
def v8HImUSat (value : CType) : VectorOperand := ⟨.h, true, value, .uint32, true⟩

end VectorOperand

/-- An input that may be `null_vector_operand`. -/
def getElement (o : Option VectorOperand) (reg : Vr) (i : Nat) : Int :=
  match o with
  | some o => o.getElement reg i
  | none => 0

namespace Cpu

def setVr (s : Cpu) (d : BitVec 5) (v : Vr) : Cpu := { s with vr := Function.update s.vr d v }

/-- `VD::set_element(vD, i, d)`. -/
def setElement (s : Cpu) (VD : VectorOperand) (d : BitVec 5) (i : Nat) (value : Int) : Cpu :=
  s.setVr d (VD.setElement (s.vr d) i value)

/-- The end of most loops: saturate, record and store. -/
def storeElement (s : Cpu) (VD : VectorOperand) (d : BitVec 5) (i : Nat) (value : Int) : Cpu :=
  let r := VD.saturate value
  let s := if r.2 then s.setSat else s
  s.setElement VD d i r.1

end Cpu

/-- `for (int i = 0; i < n; i++)`. -/
def forElements (n : Nat) (body : Nat → Cpu → Cpu) (s : Cpu) : Cpu :=
  (List.range n).foldl (fun s i => body i s) s

end SheepShear.Kpx
