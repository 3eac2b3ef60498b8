import SheepShear.Kpx.VectorOperand

/-!
# Vector data movement

The handlers of the merges, packs, unpacks, octet shifts and of `vperm`. Each
loop reads its sources through references to the register file and stores the
destination element by element into the same file.
-/

namespace SheepShear.Kpx

-- ---------------------------------------------------------------------------
-- Handlers
-- ---------------------------------------------------------------------------

def executeVectorMerge (VD VA VB : VectorOperand) (LO : Nat) (opcode : Word) (s : Cpu) : Cpu :=
  let vA := vAField opcode
  let vB := vBField opcode
  let vD := vDField opcode
  let n := VD.count
  -- two elements an iteration
  let s := forElements (n / 2) (fun k s =>
    let s := s.setElement VD vD (2 * k) (VA.getElement (s.vr vA) (k + LO * (n / 2)))
    s.setElement VD vD (2 * k + 1) (VB.getElement (s.vr vB) (k + LO * (n / 2)))) s
  s.incrementPc 4

def executeVectorPack (VD VA VB : VectorOperand) (opcode : Word) (s : Cpu) : Cpu :=
  let vA := vAField opcode
  let vB := vBField opcode
  let vD := vDField opcode
  let n := VD.count
  let pivot := n / 2
  let s := forElements n (fun i s =>
    let d := if i < pivot then VA.getElement (s.vr vA) i else VB.getElement (s.vr vB) (i - pivot)
    s.storeElement VD vD i (VD.element.conv d)) s
  s.incrementPc 4

/-- The one source is `vB`. -/
def executeVectorUnpack (LO : Nat) (VD VA : VectorOperand) (opcode : Word) (s : Cpu) : Cpu :=
  let vA := vBField opcode
  let vD := vDField opcode
  let n := VD.count
  let s := forElements n (fun i s =>
    s.setElement VD vD i (VA.getElement (s.vr vA) (i + LO * n))) s
  s.incrementPc 4

/-- The half word that `execute_vector_pack_pixel` makes of a word. -/
def pixelHalf (a : Word) : Word :=
  ((a >>> 9) &&& 0xfc00) ||| ((a >>> 6) &&& 0x03e0) ||| ((a >>> 3) &&& 0x001f)

def executeVectorPackPixel (opcode : Word) (s : Cpu) : Cpu :=
  let vA := vAField opcode
  let vB := vBField opcode
  let vD := vDField opcode
  let s := forElements 4 (fun i s =>
    let a := (s.vr vA).w (.ofNat 4 i)
    let s := s.setVr vD ((s.vr vD).setH (halfElement (.ofNat 8 i)) ((pixelHalf a).setWidth 16))
    let b := (s.vr vB).w (.ofNat 4 i)
    s.setVr vD ((s.vr vD).setH (halfElement (.ofNat 8 (i + 4))) ((pixelHalf b).setWidth 16))) s
  s.incrementPc 4

/-- The word that `execute_vector_unpack_pixel` makes of a half word. -/
def pixelWord (h : Word) : Word :=
  (if h &&& 0x8000 ≠ 0 then 0xff000000#32 else 0#32) ||| ((h &&& 0x7c00) <<< 6) |||
    ((h &&& 0x03e0) <<< 3) ||| (h &&& 0x001f)

def executeVectorUnpackPixel (LO : Nat) (opcode : Word) (s : Cpu) : Cpu :=
  let vB := vBField opcode
  let vD := vDField opcode
  let s := forElements 4 (fun i s =>
    let h := ((s.vr vB).h (halfElement (.ofNat 8 (i + LO * 4)))).setWidth 32
    s.setVr vD ((s.vr vD).setW (.ofNat 4 i) (pixelWord h))) s
  s.incrementPc 4

/-- `SD`, the shift direction. -/
inductive ShiftDirection where
  | left
  | right
deriving DecidableEq, Repr

/-- The counts `operand_SHB` and `operand_SHBO`. -/
def operandSHB (_ : BitVec 5 → Vr) (opcode : Word) : Nat := (vSHField opcode).toNat

def operandSHBO (vr : BitVec 5 → Vr) (opcode : Word) : Nat :=
  (((vr (vBField opcode)).b (byteElement 15)).setWidth 32 >>> 3 &&& 15#32).toNat

def executeVectorShiftOctet (SD : ShiftDirection) (VD VA : VectorOperand) (VB : Option VectorOperand)
    (SH : (BitVec 5 → Vr) → Word → Nat) (opcode : Word) (s : Cpu) : Cpu :=
  let vA := vAField opcode
  let vB := vBField opcode
  let vD := vDField opcode
  -- the count is read once, before the loop
  let sh := SH s.vr opcode
  let s := match SD with
    | .left => forElements 16 (fun i s =>
        if i + sh < 16 then s.setElement VD vD i (VA.getElement (s.vr vA) (i + sh))
        else s.setElement VD vD i (getElement VB (s.vr vB) (i - (16 - sh)))) s
    | .right => forElements 16 (fun i s =>
        if i < sh then s.setElement VD vD i (getElement VB (s.vr vB) (16 + (sh - i)))
        else s.setElement VD vD i (VA.getElement (s.vr vA) (i - sh))) s
  s.incrementPc 4

def executeVectorPermute (opcode : Word) (s : Cpu) : Cpu :=
  let vA := vAField opcode
  let vB := vBField opcode
  let vC := vCField opcode
  let vD := vDField opcode
  let s := forElements 16 (fun i s =>
    let ei := byteElement (.ofNat 16 i)
    let n := (s.vr vC).b ei &&& 0x1f
    let en := byteElement (.ofNat 16 (n &&& 0xf).toNat)
    s.setVr vD ((s.vr vD).setB ei (if n &&& 0x10 ≠ 0 then (s.vr vB).b en else (s.vr vA).b en))) s
  s.incrementPc 4

-- ---------------------------------------------------------------------------
-- The decode table
-- ---------------------------------------------------------------------------

inductive MoveInsn where
  | vmrghb | vmrghh | vmrghw | vmrglb | vmrglh | vmrglw
  | vpkshss | vpkshus | vpkswss | vpkswus | vpkuhum | vpkuhus | vpkuwum | vpkuwus | vpkpx
  | vupkhsb | vupkhsh | vupklsb | vupklsh | vupkhpx | vupklpx
  | vsldoi | vslo | vsro
  | vperm
deriving DecidableEq, Repr

open VectorOperand in
/-- The rows of `powerpc_ii_table`. -/
def MoveInsn.execute : MoveInsn → Word → Cpu → Cpu
  | .vmrghb => executeVectorMerge v16QIm v16QIm v16QIm 0
  | .vmrghh => executeVectorMerge v8HIm v8HIm v8HIm 0
  | .vmrghw => executeVectorMerge v4SI v4SI v4SI 0
  | .vmrglb => executeVectorMerge v16QIm v16QIm v16QIm 1
  | .vmrglh => executeVectorMerge v8HIm v8HIm v8HIm 1
  | .vmrglw => executeVectorMerge v4SI v4SI v4SI 1
  | .vpkshss => executeVectorPack (v16QImSat .int8) v8HIm v8HIm
  | .vpkshus => executeVectorPack (v16QImSat .uint8) v8HIm v8HIm
  | .vpkswss => executeVectorPack (v8HImSat .int16) v4SI v4SI
  | .vpkswus => executeVectorPack (v8HImSat .uint16) v4SI v4SI
  | .vpkuhum => executeVectorPack v16QIm v8HIm v8HIm
  | .vpkuhus => executeVectorPack (v16QImUSat .uint8) v8HIm v8HIm
  | .vpkuwum => executeVectorPack v8HIm v4SI v4SI
  | .vpkuwus => executeVectorPack (v8HImUSat .uint16) v4SI v4SI
  | .vpkpx => executeVectorPackPixel
  | .vupkhsb => executeVectorUnpack 0 v8HIms v16QIms
  | .vupkhsh => executeVectorUnpack 0 v4SIs v8HIms
  | .vupklsb => executeVectorUnpack 1 v8HIms v16QIms
  | .vupklsh => executeVectorUnpack 1 v4SIs v8HIms
  | .vupkhpx => executeVectorUnpackPixel 0
  | .vupklpx => executeVectorUnpackPixel 1
  | .vsldoi => executeVectorShiftOctet .left v16QIm v16QIm (some v16QIm) operandSHB
  | .vslo => executeVectorShiftOctet .left v16QIm v16QIm none operandSHBO
  | .vsro => executeVectorShiftOctet .right v16QIm v16QIm none operandSHBO
  | .vperm => executeVectorPermute

-- ---------------------------------------------------------------------------
-- Correctness
-- ---------------------------------------------------------------------------

open AltiVec in
/-- The AltiVec result from the contents of the sources. -/
def MoveInsn.result (insn : MoveInsn) (opcode : Word) (vr : BitVec 5 → Vr) : Vr :=
  let a := vr (vAField opcode)
  let b := vr (vBField opcode)
  match insn with
  | .vmrghb => merge .b 0 a b
  | .vmrghh => merge .h 0 a b
  | .vmrghw => merge .w 0 a b
  | .vmrglb => merge .b 8 a b
  | .vmrglh => merge .h 4 a b
  | .vmrglw => merge .w 2 a b
  | .vpkshss => pack .b .h (svalue .h) (clampS .b) a b
  | .vpkshus => pack .b .h (svalue .h) (clampU .b) a b
  | .vpkswss => pack .h .w (svalue .w) (clampS .h) a b
  | .vpkswus => pack .h .w (svalue .w) (clampU .h) a b
  | .vpkuhum => pack .b .h (fun v i => value .h v i) id a b
  | .vpkuhus => pack .b .h (fun v i => value .h v i) (clampU .b) a b
  | .vpkuwum => pack .h .w (fun v i => value .w v i) id a b
  | .vpkuwus => pack .h .w (fun v i => value .w v i) (clampU .h) a b
  | .vpkpx => AltiVec.vpkpx a b
  | .vupkhsb => unpack .h .b 0 b
  | .vupkhsh => unpack .w .h 0 b
  | .vupklsb => unpack .h .b 8 b
  | .vupklsh => unpack .w .h 4 b
  | .vupkhpx => AltiVec.vupkpx 0 b
  | .vupklpx => AltiVec.vupkpx 4 b
  | .vsldoi => AltiVec.vsldoi a b (vSHField opcode).toFin
  | .vslo => AltiVec.vslo a b
  | .vsro => AltiVec.vsro a b
  | .vperm => AltiVec.vperm a b (vr (vCField opcode))

/-- `vD` has the result and every other vector register its old contents. -/
def MoveInsn.Correct (insn : MoveInsn) (opcode : Word) (s : Cpu) : Prop :=
  (insn.execute opcode s).vr = Function.update s.vr (vDField opcode) (insn.result opcode s.vr)

/-- The registers that may not be the destination. -/
def MoveInsn.HoldsWhen (insn : MoveInsn) (opcode : Word) : Prop :=
  let a := vAField opcode
  let b := vBField opcode
  let d := vDField opcode
  match insn with
  | .vmrghb | .vmrghh | .vmrghw | .vpkpx | .vperm => a ≠ d ∧ b ≠ d
  | .vpkshss | .vpkshus | .vpkswss | .vpkswus | .vpkuhum | .vpkuhus | .vpkuwum | .vpkuwus => b ≠ d
  | .vupkhsb | .vupkhsh | .vupkhpx => b ≠ d
  | .vsldoi => b ≠ d ∨ vSHField opcode = 0
  | .vsro => a ≠ d
  | .vmrglb | .vmrglh | .vmrglw | .vupklsb | .vupklsh | .vupklpx | .vslo => True

end SheepShear.Kpx
