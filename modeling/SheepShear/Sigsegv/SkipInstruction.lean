import SheepShear.Lib.X86Operand

/-!
# Skipping a faulting x86 instruction

`ix86_skip_instruction` of the segmentation fault handler, as it is compiled
for x86-64: it decodes the transfer the instruction pointer stands at, clears
the register part a load would have filled and steps over the instruction.
-/

namespace SheepShear.Sigsegv

open X86

-- ---------------------------------------------------------------------------
-- Machine context
-- ---------------------------------------------------------------------------

/-- The indices `X86_REG_*` into the saved machine context. -/
inductive X86Reg
  | EAX | ECX | EDX | EBX | ESP | EBP | ESI | EDI
  | R8 | R9 | R10 | R11 | R12 | R13 | R14 | R15
  | EIP
deriving DecidableEq, Repr

abbrev Regs := X86Reg → BitVec 64

inductive TransferType
  | unknown | load | store
deriving DecidableEq, Repr

inductive TransferSize
  | unknown | byte | word | long | quad
deriving DecidableEq, Repr

inductive InstructionType
  | mov | add
deriving DecidableEq, Repr

/-- An `unsigned char *` into the code. -/
abbrev CodePtr := Nat → Byte

def CodePtr.add (p : CodePtr) (n : Nat) : CodePtr := fun i => p (n + i)

-- ---------------------------------------------------------------------------
-- Decoding
-- ---------------------------------------------------------------------------

/-- Bytes behind the ModR/M byte that belong to the operand. -/
def ix86StepOverModrm (p : CodePtr) : Nat :=
  let mod := (p 0 >>> 6) &&& 3
  let rm := p 0 &&& 7
  let sib (offset : Nat) :=
    if rm = 4 then
      if mod = 0 ∧ p 1 &&& 7 = 5 then 5 else offset + 1
    else offset
  if mod = 0 then
    if rm = 5 then 4 else sib 0
  else if mod = 1 then sib 1
  else if mod = 2 then sib 4
  else 0

/-- What the decoder's variables hold behind the switch over the opcode. -/
structure Decoded where
  instructionType : InstructionType
  transferType : TransferType
  targetSize : TransferSize
  reg : Int
  len : Nat

/-- No case of the switch was taken. -/
def Decoded.unknown (transferSize : TransferSize) : Decoded :=
  ⟨.mov, .unknown, transferSize, -1, 0⟩

/-- The code behind `do_transfer_load` and `do_transfer_store`; a register
operand leaves the transfer type unknown. -/
def doTransfer (instructionType : InstructionType) (transferType : TransferType)
    (transferSize targetSize : TransferSize) (opLen : Nat) (eip : CodePtr) : Decoded :=
  let isMemory :=
    eip opLen &&& 0xc0 = 0x80 ∨ eip opLen &&& 0xc0 = 0x40 ∨ eip opLen &&& 0xc0 = 0x00
  { instructionType
    transferType := if isMemory then transferType else .unknown
    targetSize := if targetSize = .unknown then transferSize else targetSize
    reg := if isMemory then ((eip opLen >>> 3) &&& 7).toNat else -1
    len := 1 + opLen + ix86StepOverModrm (eip.add opLen) }

def decodeInstruction (eip : CodePtr) (hasRex : Bool) (rex : Rex)
    (transferSize : TransferSize) : Decoded :=
  if eip 0 = 0x0f then
    if eip 1 = 0xbe ∨ eip 1 = 0xb6 then doTransfer .mov .load .byte transferSize 2 eip
    else if eip 1 = 0xbf ∨ eip 1 = 0xb7 then doTransfer .mov .load .word transferSize 2 eip
    else Decoded.unknown transferSize
  else if eip 0 = 0x63 then
    if hasRex ∧ rex.w then doTransfer .mov .load .long .quad 1 eip
    else if transferSize ≠ .word then doTransfer .mov .load .long .quad 1 eip
    else doTransfer .mov .load transferSize .unknown 1 eip
  else if eip 0 = 0x02 then doTransfer .add .load .byte .unknown 1 eip
  else if eip 0 = 0x03 then doTransfer .add .load transferSize .unknown 1 eip
  else if eip 0 = 0x8a then doTransfer .mov .load .byte .unknown 1 eip
  else if eip 0 = 0x8b then doTransfer .mov .load transferSize .unknown 1 eip
  else if eip 0 = 0x00 then doTransfer .add .store .byte .unknown 1 eip
  else if eip 0 = 0x01 then doTransfer .add .store transferSize .unknown 1 eip
  else if eip 0 = 0x88 then doTransfer .mov .store .byte .unknown 1 eip
  else if eip 0 = 0x89 then doTransfer .mov .store transferSize .unknown 1 eip
  else Decoded.unknown transferSize

/-- The operand size prefix: the bytes it takes and the transfer size. -/
def operandSizePrefix (eip : CodePtr) : Nat × TransferSize :=
  if eip 0 = 0x66 then (1, .word) else (0, .long)

/-- The REX prefix: whether there is one, and its four bits. -/
def rexPrefix (eip : CodePtr) : Bool × Rex :=
  if eip 0 &&& 0xf0 = 0x40 then
    (true, ⟨eip 0 &&& 8 ≠ 0, eip 0 &&& 4 ≠ 0, eip 0 &&& 2 ≠ 0, eip 0 &&& 1 ≠ 0⟩)
  else (false, Rex.absent)

-- ---------------------------------------------------------------------------
-- The skipper
-- ---------------------------------------------------------------------------

def x86RegMap : List X86Reg :=
  [.EAX, .ECX, .EDX, .EBX, .ESP, .EBP, .ESI, .EDI,
    .R8, .R9, .R10, .R11, .R12, .R13, .R14, .R15]

/-- Set 0 to the relevant register part. -/
def clearPart (regs : Regs) (hasRex : Bool) (targetSize : TransferSize) (reg : Nat) : Regs :=
  let rloc := x86RegMap.getD reg .EAX
  match targetSize with
  | .byte =>
    if hasRex ∨ reg < 4 then Function.update regs rloc (regs rloc &&& ~~~0x00ff#64)
    else
      let rloc := x86RegMap.getD (reg - 4) .EAX
      Function.update regs rloc (regs rloc &&& ~~~0xff00#64)
  | .word => Function.update regs rloc (regs rloc &&& ~~~0xffff#64)
  | .long => Function.update regs rloc 0
  | .quad => Function.update regs rloc 0
  | .unknown => regs

/-- `none` where the function returns false, with the context unchanged. -/
def ix86SkipInstruction (mem : BitVec 64 → Byte) (regs : Regs) : Option Regs :=
  let ip : CodePtr := fun i => mem (regs .EIP + BitVec.ofNat 64 i)
  if regs .EIP = 0 then none
  else
    let (prefixLen, wordSize) := operandSizePrefix ip
    let eip := ip.add prefixLen
    let (hasRex, rex) := rexPrefix eip
    let rexLen := if hasRex then 1 else 0
    let transferSize := if rex.w then .quad else wordSize
    let d := decodeInstruction (eip.add rexLen) hasRex rex transferSize
    let len := prefixLen + rexLen + d.len
    let reg := if rex.r then d.reg + 8 else d.reg
    if d.transferType = .unknown then none
    else if d.instructionType = .mov ∧ d.transferType = .load ∧ reg ≠ -1 then
      if reg < 0 ∨ reg ≥ x86RegMap.length - 1 then none
      else
        let regs := clearPart regs hasRex d.targetSize reg.toNat
        some (Function.update regs .EIP (regs .EIP + BitVec.ofNat 64 len))
    else some (Function.update regs .EIP (regs .EIP + BitVec.ofNat 64 len))

end SheepShear.Sigsegv
