import SheepShear.Kpx.Cpu

/-!
# Integer loads and stores

The load and store actions of the interpreter, and the ops that `compile_block`
generates for them. The translator adds a displacement to `T1` in the host's
`long`: where that has 64 bits and real addressing is used, the sum is not taken
back to 32 bits and an access may fall outside the guest's memory.
-/

namespace SheepShear.Kpx

-- ---------------------------------------------------------------------------
-- The interpreter
-- ---------------------------------------------------------------------------

inductive Size where
  | one
  | two
  | four
deriving DecidableEq, Repr

/-- `vm_read_memory_1`, `_2` and `_4`. -/
def vmRead (mem : Mem) (ea : Word) : Size → Word
  | .one => (mem ea).setWidth 32
  | .two => (mem.readInt16 ea).setWidth 32
  | .four => mem.readInt32 ea

/-- `vm_write_memory_1`, `_2` and `_4`. -/
def vmWrite (mem : Mem) (ea value : Word) : Size → Mem
  | .one => Function.update mem ea (value.setWidth 8)
  | .two => mem.writeInt16 ea (value.setWidth 16)
  | .four => mem.writeInt32 ea value

/-- The accessors of the form `vm_read_memory_2_reversed`. -/
def vmReadReversed (mem : Mem) (ea : Word) : Size → Word
  | .one => (mem ea).setWidth 32
  | .two => (mem (ea + 1) ++ mem ea).setWidth 32
  | .four => .ofBytes (mem (ea + 3)) (mem (ea + 2)) (mem (ea + 1)) (mem ea)

def vmWriteReversed (mem : Mem) (ea value : Word) : Size → Mem
  | .one => Function.update mem ea (value.setWidth 8)
  | .two => mem.writeInt16 ea (value.extractLsb' 0 8 ++ value.extractLsb' 8 8)
  | .four => mem.writeInt32 ea (.ofBytes (value.extractLsb' 0 8) (value.extractLsb' 8 8)
      (value.extractLsb' 16 8) (value.extractLsb' 24 8))

def operandD : Operand := fun _ opcode => opSignExtend16 ((immField opcode).setWidth 32)

/-- `UP` goes with `operand_RA` only, whose `set` writes `rA`. -/
def executeLoadstore (op : Word → Word) (RA RB : Operand) (ld : Bool) (sz : Size) (up rx : Bool)
    (opcode : Word) (s : Cpu) : Cpu :=
  let a := RA s.regs opcode
  let b := RB s.regs opcode
  let ea := a + b
  let s : Cpu :=
    if ld then
      s.setGpr (rDField opcode) (op (if rx then vmReadReversed s.mem ea sz else vmRead s.mem ea sz))
    else
      let value := operandRS s.regs opcode
      { s with mem := if rx then vmWriteReversed s.mem ea value sz else vmWrite s.mem ea value sz }
  let s := if up then s.setGpr (rAField opcode) ea else s
  s.incrementPc 4

/-- One transfer of `lmw` or `stmw`, of register `r`. -/
def transferWord (ld : Bool) (r : Nat) (ea : Word) (s : Cpu) : Cpu :=
  if ld then s.setGpr (.ofNat 5 r) (s.mem.readInt32 ea)
  else { s with mem := s.mem.writeInt32 ea (s.regs.gpr (.ofNat 5 r)) }

/-- The loop of `execute_loadstore_multiple` over the registers that are left, from `r` on. -/
def loadstoreMultipleLoop (ld : Bool) : (left r : Nat) → (ea : Word) → Cpu → Cpu
  | 0, _, _, s => s
  | left + 1, r, ea, s => loadstoreMultipleLoop ld left (r + 1) (ea + 4) (transferWord ld r ea s)

/-- A build for SheepShaver: an address that is not aligned leaves everything but the program
counter. -/
def executeLoadstoreMultiple (RA DP : Operand) (ld : Bool) (opcode : Word) (s : Cpu) : Cpu :=
  let a := RA s.regs opcode
  let d := DP s.regs opcode
  let ea := a + d
  if ea &&& 3#32 ≠ 0 then s.incrementPc 4
  else
    let r := if ld then (rDField opcode).toNat else (rSField opcode).toNat
    (loadstoreMultipleLoop ld (32 - r) r ea s).incrementPc 4

def executeLwarx (RA : Operand) (opcode : Word) (s : Cpu) : Cpu :=
  let ea := RA s.regs opcode + operandRB s.regs opcode
  let reserveData := s.mem.readInt32 ea
  let s : Cpu := { s with reserveValid := true, reserveAddr := ea }
  (s.setGpr (rDField opcode) reserveData).incrementPc 4

def Cpu.setCr (s : Cpu) (cr : Word) : Cpu := { s with regs := { s.regs with cr } }

def executeStwcx (RA : Operand) (opcode : Word) (s : Cpu) : Cpu :=
  let ea := RA s.regs opcode + operandRB s.regs opcode
  let s := s.setCr (s.regs.cr &&& ~~~(0xf#32 <<< crShift 0))
  let s : Cpu :=
    if s.reserveValid then
      let s : Cpu :=
        if s.reserveAddr = ea then
          let s : Cpu := { s with mem := s.mem.writeInt32 ea (operandRS s.regs opcode) }
          s.setCr (crSetField s.regs.cr 0 standaloneCrEq)
        else s
      { s with reserveValid := false }
    else s
  (s.setCr (crSetSo s.regs.cr 0 s.regs.xer.so)).incrementPc 4

-- ---------------------------------------------------------------------------
-- The decode table
-- ---------------------------------------------------------------------------

/-- What the translator's `op.mem` says of a load or store: a load has a sign, which only half
words use. -/
structure Access where
  load : Bool
  size : Size
  sign : Bool
  update : Bool
  indexed : Bool
deriving DecidableEq, Repr

inductive MemInsn where
  | lbz | lbzu | lbzux | lbzx
  | lha | lhau | lhaux | lhax
  | lhz | lhzu | lhzux | lhzx
  | lwz | lwzu | lwzux | lwzx
  | stb | stbu | stbux | stbx
  | sth | sthu | sthux | sthx
  | stw | stwu | stwux | stwx
  | lhbrx | lwbrx | sthbrx | stwbrx
  | lmw | stmw | lwarx | stwcx
deriving DecidableEq, Repr

/-- The rows of `powerpc_ii_table` for these instructions. -/
def MemInsn.execute : MemInsn → Word → Cpu → Cpu
  | .lbz => executeLoadstore id operandRAOr0 operandD true .one false false
  | .lbzu => executeLoadstore id operandRA operandD true .one true false
  | .lbzux => executeLoadstore id operandRA operandRB true .one true false
  | .lbzx => executeLoadstore id operandRAOr0 operandRB true .one false false
  | .lha => executeLoadstore opSignExtend16 operandRAOr0 operandD true .two false false
  | .lhau => executeLoadstore opSignExtend16 operandRA operandD true .two true false
  | .lhaux => executeLoadstore opSignExtend16 operandRA operandRB true .two true false
  | .lhax => executeLoadstore opSignExtend16 operandRAOr0 operandRB true .two false false
  | .lhz => executeLoadstore id operandRAOr0 operandD true .two false false
  | .lhzu => executeLoadstore id operandRA operandD true .two true false
  | .lhzux => executeLoadstore id operandRA operandRB true .two true false
  | .lhzx => executeLoadstore id operandRAOr0 operandRB true .two false false
  | .lwz => executeLoadstore id operandRAOr0 operandD true .four false false
  | .lwzu => executeLoadstore id operandRA operandD true .four true false
  | .lwzux => executeLoadstore id operandRA operandRB true .four true false
  | .lwzx => executeLoadstore id operandRAOr0 operandRB true .four false false
  | .stb => executeLoadstore id operandRAOr0 operandD false .one false false
  | .stbu => executeLoadstore id operandRA operandD false .one true false
  | .stbux => executeLoadstore id operandRA operandRB false .one true false
  | .stbx => executeLoadstore id operandRAOr0 operandRB false .one false false
  | .sth => executeLoadstore id operandRAOr0 operandD false .two false false
  | .sthu => executeLoadstore id operandRA operandD false .two true false
  | .sthux => executeLoadstore id operandRA operandRB false .two true false
  | .sthx => executeLoadstore id operandRAOr0 operandRB false .two false false
  | .stw => executeLoadstore id operandRAOr0 operandD false .four false false
  | .stwu => executeLoadstore id operandRA operandD false .four true false
  | .stwux => executeLoadstore id operandRA operandRB false .four true false
  | .stwx => executeLoadstore id operandRAOr0 operandRB false .four false false
  | .lhbrx => executeLoadstore id operandRAOr0 operandRB true .two false true
  | .lwbrx => executeLoadstore id operandRAOr0 operandRB true .four false true
  | .sthbrx => executeLoadstore id operandRAOr0 operandRB false .two false true
  | .stwbrx => executeLoadstore id operandRAOr0 operandRB false .four false true
  | .lmw => executeLoadstoreMultiple operandRAOr0 operandD true
  | .stmw => executeLoadstoreMultiple operandRAOr0 operandD false
  | .lwarx => executeLwarx operandRAOr0
  | .stwcx => executeStwcx operandRAOr0

-- ---------------------------------------------------------------------------
-- Ops
-- ---------------------------------------------------------------------------

/-- What is added to `T1`: nothing, an immediate, or `T2`. -/
inductive Offset where
  | zero
  | im (value : Word)
  | t2

/-- `multiple ld n`: `op_lmw_T0_26` to `op_lmw_T0_31` and the stores, unrolled from register `n`;
`multipleIm`: the loop from the register in `PARAM1`. -/
inductive MemOp where
  | loadT0Gpr (n : BitVec 5) | loadT1Gpr (n : BitVec 5) | loadT2Gpr (n : BitVec 5)
  | storeT0Gpr (n : BitVec 5) | storeT1Gpr (n : BitVec 5)
  | mov32T0Zero | mov32T0Im (im : Word) | mov32T1Zero
  | add32T0One | add32T0Two | add32T0Four | add32T0Eight | add32T0Im (im : Word)
  | add32T1One | add32T1Two | add32T1Four | add32T1Eight | add32T1Im (im : Word)
  | add32T1T2
  | loadT0 (size : Size) (sign : Bool) (offset : Offset)
  | storeT0 (size : Size) (offset : Offset)
  | multiple (ld : Bool) (n : Nat)
  | multipleIm (ld : Bool) (r : Nat)
  | lwarxT0T1 | stwcxT0T1
  | invoke (handler : Word → Cpu → Cpu) (opcode : Word)

/-- Whether a sum of an address and a `long` is taken back to 32 bits: where pointers have 32 bits,
and in direct addressing, where `vm_wrap_address` does it. -/
abbrev Wraps := Bool

/-- The guest address of `T1 + OFFSET`; none when it is outside the guest's memory. -/
def effectiveAddress (wraps : Wraps) (t1 t2 : Word) : Offset → Option Word
  | .zero => some t1
  | .t2 => some (t1 + t2)
  | .im value =>
    if wraps || (0 ≤ (t1.toNat : Int) + value.toInt && (t1.toNat : Int) + value.toInt < 2 ^ 32) then
      some (t1 + value)
    else none

/-- `(uint32)(uint16)` and the other casts around a load. -/
def extendLoad (size : Size) (sign : Bool) (v : Word) : Word :=
  match size with
  | .one => if sign then (v.setWidth 8).signExtend 32 else (v.setWidth 8).setWidth 32
  | .two => if sign then (v.setWidth 16).signExtend 32 else (v.setWidth 16).setWidth 32
  | .four => v

/-- `do_lmw<N>` and `do_stmw<N>` for N below 32; the last register leaves `T0`. -/
def doMultiple (ld : Bool) : (left n : Nat) → JitState → JitState
  | 0, _, s => s
  | 1, n, s => { s with cpu := transferWord ld n s.t0 s.cpu }
  | left + 2, n, s =>
    doMultiple ld (left + 1) (n + 1) { s with cpu := transferWord ld n s.t0 s.cpu, t0 := s.t0 + 4 }

/-- `op_stwcx_T0_T1`. -/
def opStwcxT0T1 (s : JitState) : JitState :=
  let cr := s.cpu.regs.cr &&& ~~~0xf0000000#32
  let cr := cr ||| ((if s.cpu.regs.xer.so then 1#32 else 0#32) <<< 28)
  if s.cpu.reserveValid then
    let cpu : Cpu := { s.cpu with reserveValid := false }
    if cpu.reserveAddr = s.t1 then
      { s with cpu := Cpu.setCr { cpu with mem := cpu.mem.writeInt32 s.t1 s.t0 } (cr ||| 0x20000000#32) }
    else { s with cpu := cpu.setCr cr }
  else { s with cpu := s.cpu.setCr cr }

def MemOp.run (wraps : Wraps) (s : JitState) : MemOp → Option JitState
  | .loadT0Gpr n => some { s with t0 := s.cpu.regs.gpr n }
  | .loadT1Gpr n => some { s with t1 := s.cpu.regs.gpr n }
  | .loadT2Gpr n => some { s with t2 := s.cpu.regs.gpr n }
  | .storeT0Gpr n => some { s with cpu := s.cpu.setGpr n s.t0 }
  | .storeT1Gpr n => some { s with cpu := s.cpu.setGpr n s.t1 }
  | .mov32T0Zero => some { s with t0 := 0 }
  | .mov32T0Im im => some { s with t0 := im }
  | .mov32T1Zero => some { s with t1 := 0 }
  | .add32T0One => some { s with t0 := s.t0 + 1 }
  | .add32T0Two => some { s with t0 := s.t0 + 2 }
  | .add32T0Four => some { s with t0 := s.t0 + 4 }
  | .add32T0Eight => some { s with t0 := s.t0 + 8 }
  | .add32T0Im im => some { s with t0 := s.t0 + im }
  | .add32T1One => some { s with t1 := s.t1 + 1 }
  | .add32T1Two => some { s with t1 := s.t1 + 2 }
  | .add32T1Four => some { s with t1 := s.t1 + 4 }
  | .add32T1Eight => some { s with t1 := s.t1 + 8 }
  | .add32T1Im im => some { s with t1 := s.t1 + im }
  | .add32T1T2 => some { s with t1 := s.t1 + s.t2 }
  | .loadT0 size sign offset =>
    (effectiveAddress wraps s.t1 s.t2 offset).map fun ea =>
      { s with t0 := extendLoad size sign (vmRead s.cpu.mem ea size) }
  | .storeT0 size offset =>
    (effectiveAddress wraps s.t1 s.t2 offset).map fun ea =>
      { s with cpu := { s.cpu with mem := vmWrite s.cpu.mem ea s.t0 size } }
  | .multiple ld n => some (doMultiple ld (32 - n) n s)
  | .multipleIm ld r => some { s with cpu := loadstoreMultipleLoop ld (32 - r) r s.t0 s.cpu }
  | .lwarxT0T1 =>
    some { s with
      t0 := s.cpu.mem.readInt32 s.t1
      cpu := { s.cpu with reserveValid := true, reserveAddr := s.t1 } }
  | .stwcxT0T1 => some (opStwcxT0T1 s)
  | .invoke handler opcode => some { s with cpu := handler opcode s.cpu }

def runMemOps (wraps : Wraps) (ops : List MemOp) (s : JitState) : Option JitState :=
  ops.foldlM (MemOp.run wraps) s

-- ---------------------------------------------------------------------------
-- The cases of compile_block
-- ---------------------------------------------------------------------------

/-- The value of `operand_D`. -/
def dValue (opcode : Word) : Word := opSignExtend16 ((immField opcode).setWidth 32)

def memMov32T0Im (value : Word) : List MemOp :=
  if value = 0 then [.mov32T0Zero] else [.mov32T0Im value]

def memAdd32T0Im (value : Word) : List MemOp :=
  if value = 0 then []
  else if value = 1 then [.add32T0One]
  else if value = 2 then [.add32T0Two]
  else if value = 4 then [.add32T0Four]
  else if value = 8 then [.add32T0Eight]
  else [.add32T0Im value]

def memAdd32T1Im (value : Word) : List MemOp :=
  if value = 0 then []
  else if value = 1 then [.add32T1One]
  else if value = 2 then [.add32T1Two]
  else if value = 4 then [.add32T1Four]
  else if value = 8 then [.add32T1Eight]
  else [.add32T1Im value]

/-- The fields of `op.mem` at `do_load` and `do_store`. -/
def MemInsn.access : MemInsn → Option Access
  | .lbz => some ⟨true, .one, false, false, false⟩
  | .lbzu => some ⟨true, .one, false, true, false⟩
  | .lbzux => some ⟨true, .one, false, true, true⟩
  | .lbzx => some ⟨true, .one, false, false, true⟩
  | .lha => some ⟨true, .two, true, false, false⟩
  | .lhau => some ⟨true, .two, true, true, false⟩
  | .lhaux => some ⟨true, .two, true, true, true⟩
  | .lhax => some ⟨true, .two, true, false, true⟩
  | .lhz => some ⟨true, .two, false, false, false⟩
  | .lhzu => some ⟨true, .two, false, true, false⟩
  | .lhzux => some ⟨true, .two, false, true, true⟩
  | .lhzx => some ⟨true, .two, false, false, true⟩
  | .lwz => some ⟨true, .four, false, false, false⟩
  | .lwzu => some ⟨true, .four, false, true, false⟩
  | .lwzux => some ⟨true, .four, false, true, true⟩
  | .lwzx => some ⟨true, .four, false, false, true⟩
  | .stb => some ⟨false, .one, false, false, false⟩
  | .stbu => some ⟨false, .one, false, true, false⟩
  | .stbux => some ⟨false, .one, false, true, true⟩
  | .stbx => some ⟨false, .one, false, false, true⟩
  | .sth => some ⟨false, .two, false, false, false⟩
  | .sthu => some ⟨false, .two, false, true, false⟩
  | .sthux => some ⟨false, .two, false, true, true⟩
  | .sthx => some ⟨false, .two, false, false, true⟩
  | .stw => some ⟨false, .four, false, false, false⟩
  | .stwu => some ⟨false, .four, false, true, false⟩
  | .stwux => some ⟨false, .four, false, true, true⟩
  | .stwx => some ⟨false, .four, false, false, true⟩
  | _ => none

/-- The offset of the access: `gen_load_u8_T0_T1_im` and its siblings have an op for 0. -/
def Access.offset (acc : Access) (opcode : Word) : Offset :=
  if acc.indexed then .t2 else if dValue opcode = 0 then .zero else .im (dValue opcode)

/-- `do_load` and `do_store`. -/
def Access.compile (acc : Access) (opcode : Word) : List MemOp :=
  let rA := rAField opcode
  [if rA = 0 ∧ ¬acc.update then .mov32T1Zero else .loadT1Gpr rA] ++
    (if acc.indexed then [.loadT2Gpr (rBField opcode)] else []) ++
    (if acc.load then
      [.loadT0 acc.size acc.sign (acc.offset opcode), .storeT0Gpr (rDField opcode)]
    else [.loadT0Gpr (rSField opcode), .storeT0 acc.size (acc.offset opcode)]) ++
    if acc.update then
      (if acc.indexed then [.add32T1T2] else memAdd32T1Im (dValue opcode)) ++ [.storeT1Gpr rA]
    else []

/-- `gen_lmw_T0` and `gen_stmw_T0`. -/
def genMultiple (ld : Bool) (r : BitVec 5) : MemOp :=
  if 26 ≤ r.toNat then .multiple ld r.toNat else .multipleIm ld r.toNat

def compileMultiple (ld : Bool) (opcode : Word) : List MemOp :=
  let rA := rAField opcode
  (if rA = 0 then memMov32T0Im (dValue opcode)
    else .loadT0Gpr rA :: memAdd32T0Im (dValue opcode)) ++
    [genMultiple ld (if ld then rDField opcode else rSField opcode)]

/-- The address of `lwarx` and `stwcx.`, in `T1`. -/
def compileReserveAddress (opcode : Word) : List MemOp :=
  if rAField opcode = 0 then [.loadT1Gpr (rBField opcode)]
  else [.loadT1Gpr (rAField opcode), .loadT2Gpr (rBField opcode), .add32T1T2]

/-- The byte-reversed accesses have no case of their own and call the interpreter. -/
def MemInsn.compile (insn : MemInsn) (opcode : Word) : List MemOp :=
  match insn.access, insn with
  | some acc, _ => acc.compile opcode
  | none, .lmw => compileMultiple true opcode
  | none, .stmw => compileMultiple false opcode
  | none, .lwarx => compileReserveAddress opcode ++ [.lwarxT0T1, .storeT0Gpr (rDField opcode)]
  | none, .stwcx => compileReserveAddress opcode ++ [.loadT0Gpr (rSField opcode), .stwcxT0T1]
  | none, _ => [.invoke insn.execute opcode]

-- ---------------------------------------------------------------------------
-- Agreement
-- ---------------------------------------------------------------------------

/-- The integer registers with CR and XER, the reservation and the memory. -/
structure SameData (s t : Cpu) : Prop where
  regs : s.regs = t.regs
  reserveValid : s.reserveValid = t.reserveValid
  reserveAddr : s.reserveAddr = t.reserveAddr
  mem : s.mem = t.mem

/-- The generated code runs to its end and leaves what the interpreter leaves. -/
def MemInsn.Agrees (wraps : Wraps) (insn : MemInsn) (opcode : Word) (s : JitState) : Prop :=
  ∃ t, runMemOps wraps (insn.compile opcode) s = some t ∧ SameData t.cpu (insn.execute opcode s.cpu)

/-- The address of `lmw` and `stmw`. -/
def multipleAddress (opcode : Word) (s : Cpu) : Word :=
  operandRAOr0 s.regs opcode + dValue opcode

/-- Registers `r` to 31 hold the words from `ea` on. -/
def HoldsWords (r : Nat) (ea : Word) (s : Cpu) : Prop :=
  ∀ i, r + i < 32 → s.regs.gpr (.ofNat 5 (r + i)) = s.mem.readInt32 (ea + .ofNat 32 (4 * i))

/-- Where the two agree: `lmw` and `stmw` at a word boundary, or with nothing to transfer; a
displacement where the sum of the address stays in 32 bits, or is taken back to them. -/
def MemInsn.HoldsWhen (wraps : Wraps) (insn : MemInsn) (opcode : Word) (s : Cpu) : Prop :=
  match insn.access, insn with
  | some acc, _ =>
    acc.indexed = true ∨ wraps = true ∨
      let a := if rAField opcode = 0 ∧ ¬acc.update then 0 else s.regs.gpr (rAField opcode)
      0 ≤ (a.toNat : Int) + (dValue opcode).toInt ∧ (a.toNat : Int) + (dValue opcode).toInt < 2 ^ 32
  | none, .lmw =>
    multipleAddress opcode s &&& 3#32 = 0 ∨
      HoldsWords (rDField opcode).toNat (multipleAddress opcode s) s
  | none, .stmw =>
    multipleAddress opcode s &&& 3#32 = 0 ∨
      HoldsWords (rSField opcode).toNat (multipleAddress opcode s) s
  | none, _ => True

end SheepShear.Kpx
