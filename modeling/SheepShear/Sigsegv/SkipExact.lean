import SheepShear.Sigsegv.SkipInstruction

/-!
# Which instructions are skipped exactly

The instructions the decoder lists, written down from the instruction set: an
optional operand size prefix, an optional REX prefix, an opcode and a memory
operand. Every one of them is skipped exactly, but for the loads into R15.
-/

namespace SheepShear.Sigsegv

open X86

-- ---------------------------------------------------------------------------
-- Instructions
-- ---------------------------------------------------------------------------

inductive Opcode
  | movsx8 | movzx8 | movsx16 | movzx16 | movsxd
  | addLoad8 | addLoad | movLoad8 | movLoad
  | addStore8 | addStore | movStore8 | movStore
deriving DecidableEq, Repr

def Opcode.bytes : Opcode → List Byte
  | .movsx8 => [0x0f, 0xbe]
  | .movzx8 => [0x0f, 0xb6]
  | .movsx16 => [0x0f, 0xbf]
  | .movzx16 => [0x0f, 0xb7]
  | .movsxd => [0x63]
  | .addLoad8 => [0x02]
  | .addLoad => [0x03]
  | .movLoad8 => [0x8a]
  | .movLoad => [0x8b]
  | .addStore8 => [0x00]
  | .addStore => [0x01]
  | .movStore8 => [0x88]
  | .movStore => [0x89]

/-- The loads that only move, with or without extension. -/
def Opcode.IsMovLoad : Opcode → Prop
  | .movsx8 | .movzx8 | .movsx16 | .movzx16 | .movsxd | .movLoad8 | .movLoad => True
  | _ => False

instance : DecidablePred Opcode.IsMovLoad := fun o => by
  cases o <;> simp only [Opcode.IsMovLoad] <;> infer_instance

structure Insn where
  /-- Whether the operand size prefix is there. -/
  size16 : Bool
  rex : Option Rex
  opcode : Opcode
  reg : BitVec 3
  operand : MemOperand

namespace Insn

def prefixBytes (insn : Insn) : List Byte := if insn.size16 then [0x66] else []

def rexBytes (insn : Insn) : List Byte := (insn.rex.map Rex.byte).toList

def bytes (insn : Insn) : List Byte :=
  insn.prefixBytes ++ (insn.rexBytes ++ (insn.opcode.bytes ++ insn.operand.bytes insn.reg))

def rexBits (insn : Insn) : Rex := insn.rex.getD Rex.absent

/-- The number of the register in the register field. -/
def register (insn : Insn) : BitVec 4 := BitVec.ofBool insn.rexBits.r ++ insn.reg

/-- The part of a register that a load writes. -/
inductive Part
  | low8 | high8 | low16 | whole
deriving DecidableEq, Repr

def Part.Covers : Part → Nat → Prop
  | .low8, i => i < 8
  | .high8, i => 8 ≤ i ∧ i < 16
  | .low16, i => i < 16
  | .whole, _ => True

/-- The register and the part of it that the instruction writes when it loads:
a byte register is AH, CH, DH or BH for the numbers from 4 on without a REX
prefix; writing 32 bits clears the upper half. -/
def destination (insn : Insn) : BitVec 4 × Part :=
  if insn.opcode = .movLoad8 then
    if insn.rex = none ∧ 4 ≤ insn.reg then (insn.register - 4, .high8)
    else (insn.register, .low8)
  else if insn.size16 ∧ ¬ insn.rexBits.w then (insn.register, .low16)
  else (insn.register, .whole)

end Insn

/-- The number by which instructions name a general purpose register. -/
def X86Reg.number : X86Reg → Option (BitVec 4)
  | .EAX => some 0
  | .ECX => some 1
  | .EDX => some 2
  | .EBX => some 3
  | .ESP => some 4
  | .EBP => some 5
  | .ESI => some 6
  | .EDI => some 7
  | .R8 => some 8
  | .R9 => some 9
  | .R10 => some 10
  | .R11 => some 11
  | .R12 => some 12
  | .R13 => some 13
  | .R14 => some 14
  | .R15 => some 15
  | .EIP => none

/-- The bits of the context that the instruction would have loaded. -/
def Insn.Loads (insn : Insn) (r : X86Reg) (i : Nat) : Prop :=
  insn.opcode.IsMovLoad ∧ r.number = some insn.destination.1 ∧ insn.destination.2.Covers i

/-- The instruction is stepped over, the bits it would have loaded are zero
and all others are what they were. -/
structure Skipped (insn : Insn) (regs regs' : Regs) : Prop where
  eip : regs' .EIP = regs .EIP + BitVec.ofNat 64 insn.bytes.length
  cleared : ∀ r i, insn.Loads r i → (regs' r).getLsbD i = false
  kept : ∀ r i, r ≠ .EIP → ¬ insn.Loads r i → (regs' r).getLsbD i = (regs r).getLsbD i

/-- The code bytes `bs` stand at `p`. -/
def CodePtr.Starts (p : CodePtr) (bs : List Byte) : Prop :=
  ∀ (i : Nat) (h : i < bs.length), p i = bs[i]

/-- The instruction stands at the instruction pointer. -/
def Faulting (mem : BitVec 64 → Byte) (regs : Regs) (insn : Insn) : Prop :=
  CodePtr.Starts (fun i => mem (regs .EIP + BitVec.ofNat 64 i)) insn.bytes

theorem CodePtr.starts_append {p : CodePtr} {as bs : List Byte} (h : p.Starts (as ++ bs)) :
    p.Starts as ∧ (p.add as.length).Starts bs := by
  constructor
  · intro i hi
    rw [h i (by simp; omega), List.getElem_append_left hi]
  · intro i hi
    rw [CodePtr.add, h (as.length + i) (by simpa using hi)]
    simp

theorem CodePtr.starts_cons {p : CodePtr} {b : Byte} {bs : List Byte}
    (h : p.Starts (b :: bs)) : p 0 = b :=
  h 0 (by simp)

-- ---------------------------------------------------------------------------
-- The operand
-- ---------------------------------------------------------------------------

/-- The ModR/M byte as the decoder takes it apart. -/
theorem modrm_decode (mod : BitVec 2) (reg rm : BitVec 3) :
    ((modrm mod reg rm >>> 6) &&& 3 = mod.setWidth 8) ∧
      (modrm mod reg rm &&& 7 = rm.setWidth 8) ∧
      (((modrm mod reg rm >>> 3) &&& 7).toNat = reg.toNat) ∧
      (modrm mod reg rm &&& (0xc0 : Byte) = mod.setWidth 8 <<< 6) := by
  revert mod reg rm
  decide +kernel

theorem sib_decode (sib : Sib) : sib.byte &&& 7 = sib.base.setWidth 8 :=
  (modrm_decode sib.scale sib.index sib.base).2.1

theorem setWidth_eq_iff (rm : BitVec 3) :
    (rm.setWidth 8 = (4 : Byte) ↔ rm = 4) ∧ (rm.setWidth 8 = (5 : Byte) ↔ rm = 5) := by
  revert rm
  decide

theorem ix86StepOverModrm_eq {p : CodePtr} {op : MemOperand} {reg : BitVec 3}
    (h : p.Starts (op.bytes reg)) :
    1 + ix86StepOverModrm p = (op.bytes reg).length := by
  obtain ⟨mod, rm, sib, disp, hmod, hsib, hdisp⟩ := op
  obtain ⟨hmod8, hrm8, -, -⟩ := modrm_decode mod reg rm
  obtain ⟨hrm4, hrm5⟩ := setWidth_eq_iff rm
  have h₀ : p 0 = modrm mod reg rm := CodePtr.starts_cons h
  have hlen : (MemOperand.bytes ⟨mod, rm, sib, disp, hmod, hsib, hdisp⟩ reg).length =
      1 + sib.toList.length + dispLength mod rm sib := by
    cases sib <;> simp [MemOperand.bytes, hdisp] <;> omega
  have hmods : mod = 0#2 ∨ mod = 1#2 ∨ mod = 2#2 := by
    clear * - hmod
    revert mod
    decide
  simp only [ix86StepOverModrm, h₀, hmod8, hrm8, hrm4, hrm5, hlen]
  cases sib with
  | none =>
    have hne : rm ≠ 4#3 := fun h => by simpa using hsib.mpr h
    obtain rfl | rfl | rfl := hmods
    · by_cases h5 : rm = 5#3 <;> simp [dispLength, hne, h5]
    · simp [dispLength, hne]
    · simp [dispLength, hne]
  | some s =>
    have heq : rm = 4#3 := hsib.mp rfl
    have h₁ : p 1 = s.byte := h 1 (by simp [MemOperand.bytes])
    simp only [h₁, sib_decode, (setWidth_eq_iff s.base).2, heq]
    obtain rfl | rfl | rfl := hmods
    · by_cases h5 : s.base = 5#3 <;> simp [dispLength, h5]
    · simp [dispLength]
    · simp [dispLength]

-- ---------------------------------------------------------------------------
-- Prefixes and opcode
-- ---------------------------------------------------------------------------

def Opcode.instructionType : Opcode → InstructionType
  | .addLoad8 | .addLoad | .addStore8 | .addStore => .add
  | _ => .mov

def Opcode.transferType : Opcode → TransferType
  | .addStore8 | .addStore | .movStore8 | .movStore => .store
  | _ => .load

theorem Opcode.isMovLoad_iff (o : Opcode) :
    o.IsMovLoad ↔ o.instructionType = .mov ∧ o.transferType = .load := by
  cases o <;> simp [Opcode.IsMovLoad, Opcode.instructionType, Opcode.transferType]

/-- The transfer size and the target size that the switch passes on. -/
def Opcode.sizes (o : Opcode) (wide : Bool) (transferSize : TransferSize) :
    TransferSize × TransferSize :=
  match o with
  | .movsx8 | .movzx8 => (.byte, transferSize)
  | .movsx16 | .movzx16 => (.word, transferSize)
  | .movsxd => if wide ∨ transferSize ≠ .word then (.long, .quad) else (transferSize, .unknown)
  | .addLoad8 | .movLoad8 | .addStore8 | .movStore8 => (.byte, .unknown)
  | _ => (transferSize, .unknown)

def Opcode.targetSize (o : Opcode) (wide : Bool) (transferSize : TransferSize) : TransferSize :=
  let sizes := o.sizes wide transferSize
  if sizes.2 = .unknown then sizes.1 else sizes.2

/-- No opcode of the list is taken for a prefix. -/
theorem Opcode.not_prefix {p : CodePtr} {o : Opcode} {bs : List Byte}
    (h : p.Starts (o.bytes ++ bs)) : p 0 ≠ 0x66 ∧ p 0 &&& 0xf0 ≠ 0x40 := by
  cases o <;> rw [CodePtr.starts_cons h] <;> decide

theorem Rex.decode (rex : Rex) :
    rex.byte ≠ 0x66 ∧ rex.byte &&& 0xf0 = 0x40 ∧
      (⟨rex.byte &&& 8 ≠ 0, rex.byte &&& 4 ≠ 0, rex.byte &&& 2 ≠ 0, rex.byte &&& 1 ≠ 0⟩ : Rex) =
        rex := by
  obtain ⟨w, r, x, b⟩ := rex
  cases w <;> cases r <;> cases x <;> cases b <;> decide

theorem rexPrefix_eq {p : CodePtr} {rex : Option Rex} {o : Opcode} {bs : List Byte}
    (h : p.Starts ((rex.map Rex.byte).toList ++ (o.bytes ++ bs))) :
    p 0 ≠ 0x66 ∧ rexPrefix p = (rex.isSome, rex.getD Rex.absent) := by
  cases rex with
  | none =>
    obtain ⟨h66, h40⟩ := Opcode.not_prefix h
    exact ⟨h66, by rw [rexPrefix, if_neg h40]; rfl⟩
  | some rex =>
    obtain ⟨h66, h40, hbits⟩ := Rex.decode rex
    rw [← CodePtr.starts_cons h] at h66 h40 hbits
    exact ⟨h66, by rw [rexPrefix, if_pos h40, hbits]; rfl⟩

theorem operandSizePrefix_eq {p : CodePtr} {insn : Insn} (h : p.Starts insn.bytes) :
    operandSizePrefix p =
      (insn.prefixBytes.length, if insn.size16 then .word else .long) := by
  cases hsize : insn.size16 with
  | true =>
    rw [Insn.bytes, Insn.prefixBytes, hsize] at h
    rw [operandSizePrefix, if_pos (CodePtr.starts_cons h), Insn.prefixBytes, hsize]
    rfl
  | false =>
    rw [Insn.bytes, Insn.prefixBytes, hsize] at h
    rw [operandSizePrefix, if_neg (rexPrefix_eq h).1, Insn.prefixBytes, hsize]
    rfl

theorem doTransfer_eq {p : CodePtr} {op : MemOperand} {reg : BitVec 3} {opLen : Nat}
    (h : (p.add opLen).Starts (op.bytes reg)) (it : InstructionType) (tt : TransferType)
    (transferSize targetSize : TransferSize) :
    doTransfer it tt transferSize targetSize opLen p =
      ⟨it, tt, if targetSize = .unknown then transferSize else targetSize, reg.toNat,
        opLen + (op.bytes reg).length⟩ := by
  obtain ⟨-, -, hreg, hmod⟩ := modrm_decode op.mod reg op.rm
  have h₀ : p opLen = modrm op.mod reg op.rm := CodePtr.starts_cons h
  have hmem : p opLen &&& 0xc0 = 0x80 ∨ p opLen &&& 0xc0 = 0x40 ∨ p opLen &&& 0xc0 = 0x00 := by
    rw [h₀, hmod]
    have hne := op.mod_ne
    revert hne
    generalize op.mod = mod
    revert mod
    decide
  have hlen := ix86StepOverModrm_eq h
  simp only [doTransfer, if_pos hmem]
  congr 1
  · rw [h₀, hreg]
  · omega

theorem decodeInstruction_call {p : CodePtr} {o : Opcode} {bs : List Byte}
    (h : p.Starts (o.bytes ++ bs)) (hasRex : Bool) (rex : Rex) (transferSize : TransferSize) :
    decodeInstruction p hasRex rex transferSize =
      doTransfer o.instructionType o.transferType (o.sizes (hasRex && rex.w) transferSize).1
        (o.sizes (hasRex && rex.w) transferSize).2 o.bytes.length p := by
  cases o with
  | movsx8 | movzx8 | movsx16 | movzx16 =>
    have h₀ : p 0 = 0x0f := h 0 (by simp [Opcode.bytes])
    have h₁ := h 1 (by simp [Opcode.bytes])
    simp only [Opcode.bytes, List.cons_append, List.getElem_cons_succ,
      List.getElem_cons_zero] at h₁
    simp [decodeInstruction, h₀, h₁, Opcode.instructionType, Opcode.transferType, Opcode.sizes,
      Opcode.bytes]
  | movsxd =>
    have h₀ : p 0 = 0x63 := h 0 (by simp [Opcode.bytes])
    by_cases hwide : hasRex ∧ rex.w <;> by_cases hword : transferSize = .word <;>
      simp [decodeInstruction, h₀, hwide, hword, Opcode.instructionType, Opcode.transferType,
        Opcode.sizes, Opcode.bytes]
  | _ =>
    have h₀ := CodePtr.starts_cons h
    simp [decodeInstruction, h₀, Opcode.instructionType, Opcode.transferType, Opcode.sizes,
      Opcode.bytes]

theorem decodeInstruction_eq {p : CodePtr} {o : Opcode} {op : MemOperand} {reg : BitVec 3}
    (h : p.Starts (o.bytes ++ op.bytes reg)) (hasRex : Bool) (rex : Rex)
    (transferSize : TransferSize) :
    decodeInstruction p hasRex rex transferSize =
      ⟨o.instructionType, o.transferType, o.targetSize (hasRex && rex.w) transferSize, reg.toNat,
        (o.bytes ++ op.bytes reg).length⟩ := by
  rw [decodeInstruction_call h, doTransfer_eq (CodePtr.starts_append h).2, List.length_append]
  rfl

-- ---------------------------------------------------------------------------
-- The whole instruction
-- ---------------------------------------------------------------------------

namespace Insn

/-- The transfer size behind the prefixes. -/
def transferSize (insn : Insn) : TransferSize :=
  if insn.rexBits.w then .quad else if insn.size16 then .word else .long

def targetSize (insn : Insn) : TransferSize :=
  insn.opcode.targetSize (insn.rex.isSome && insn.rexBits.w) insn.transferSize

end Insn

theorem register_toNat (insn : Insn) :
    (if insn.rexBits.r then (insn.reg.toNat : Int) + 8 else insn.reg.toNat) =
      insn.register.toNat := by
  have h : ∀ (b : Bool) (reg : BitVec 3), (if b then (reg.toNat : Int) + 8 else reg.toNat) =
      (BitVec.ofBool b ++ reg).toNat := by decide
  exact h insn.rexBits.r insn.reg

-- ---------------------------------------------------------------------------
-- The cleared part
-- ---------------------------------------------------------------------------

theorem number_eq_iff (n : BitVec 4) (r : X86Reg) :
    r.number = some n ↔ r = x86RegMap.getD n.toNat .EAX := by
  revert n
  cases r <;> decide

theorem low_mask (n i : Nat) (hn : n ≤ 64) :
    (BitVec.ofNat 64 (2 ^ n - 1)).getLsbD i ↔ i < n := by
  rw [BitVec.getLsbD_ofNat, Nat.testBit_two_pow_sub_one]
  simp only [Bool.and_eq_true, decide_eq_true_eq]
  omega

theorem high8_mask (i : Nat) : (0xff00#64).getLsbD i ↔ 8 ≤ i ∧ i < 16 := by
  have h : 0xff00#64 = BitVec.ofNat 64 (2 ^ 8 - 1) <<< 8 := by decide
  rw [h, BitVec.getLsbD_shiftLeft, Bool.and_eq_true, low_mask 8 (i - 8) (by omega)]
  simp only [Bool.and_eq_true, decide_eq_true_eq, Bool.not_eq_true', decide_eq_false_iff_not]
  omega

/-- `v` is `old` with the bits that `P` picks cleared. -/
def Cleared (P : Nat → Prop) (old v : BitVec 64) : Prop :=
  ∀ i, (P i → v.getLsbD i = false) ∧ (¬ P i → v.getLsbD i = old.getLsbD i)

theorem cleared_and_not {mask : BitVec 64} {P : Nat → Prop}
    (hmask : ∀ i, mask.getLsbD i ↔ P i) (old : BitVec 64) : Cleared P old (old &&& ~~~mask) := by
  intro i
  rw [← hmask i, BitVec.getLsbD_and, BitVec.getLsbD_not]
  refine ⟨fun h => by simp [h], fun h => ?_⟩
  rw [Bool.eq_false_of_not_eq_true h]
  by_cases hi : i < 64
  · simp [hi]
  · simp [hi, BitVec.getLsbD_of_ge old i (by omega)]

theorem cleared_zero (old : BitVec 64) : Cleared Insn.Part.whole.Covers old 0 :=
  fun _ => ⟨fun _ => BitVec.getLsbD_zero, fun h => absurd trivial h⟩

namespace Insn

/-- Apart from bytes, the operand size of the prefixes says what is cleared. -/
theorem targetSize_eq {insn : Insn} (hmov : insn.opcode.IsMovLoad)
    (h8 : insn.opcode ≠ .movLoad8) :
    insn.targetSize = .word ∧ (insn.size16 ∧ ¬ insn.rexBits.w) ∨
      (insn.targetSize = .long ∨ insn.targetSize = .quad) ∧
        ¬ (insn.size16 ∧ ¬ insn.rexBits.w) := by
  have hrex : insn.rexBits.w → insn.rex.isSome := by
    cases h : insn.rex <;> simp [rexBits, h, Rex.absent]
  unfold targetSize transferSize
  revert hmov h8 hrex
  cases insn.opcode <;> cases insn.size16 <;> cases insn.rexBits.w <;> cases insn.rex.isSome <;>
    simp [Opcode.IsMovLoad, Opcode.targetSize, Opcode.sizes]

theorem register_high {insn : Insn} (hrex : insn.rex = none) (h4 : 4 ≤ insn.reg) :
    4 ≤ insn.register.toNat ∧ (insn.register - 4).toNat = insn.register.toNat - 4 := by
  have h : ∀ reg : BitVec 3, 4 ≤ reg → 4 ≤ (BitVec.ofBool false ++ reg).toNat ∧
      (BitVec.ofBool false ++ reg - 4).toNat = (BitVec.ofBool false ++ reg).toNat - 4 := by decide
  have hr : insn.rexBits.r = false := by rw [rexBits, hrex]; rfl
  rw [register, hr]
  exact h insn.reg h4

theorem register_low {insn : Insn} (h : ¬ (insn.rex = none ∧ 4 ≤ insn.reg)) :
    insn.rex.isSome ∨ insn.register.toNat < 4 := by
  cases hrex : insn.rex with
  | some rex => exact Or.inl rfl
  | none =>
    have hlow : ∀ reg : BitVec 3, ¬ 4 ≤ reg → (BitVec.ofBool false ++ reg).toNat < 4 := by decide
    have hr : insn.rexBits.r = false := by rw [rexBits, hrex]; rfl
    rw [register, hr]
    exact Or.inr (hlow insn.reg fun h4 => h ⟨hrex, h4⟩)

/-- Clearing a part updates the destination register, and clears in it what a
load would have written. -/
theorem clearPart_eq {insn : Insn} (hmov : insn.opcode.IsMovLoad) (regs : Regs) :
    ∃ rloc v, rloc.number = some insn.destination.1 ∧
      Cleared insn.destination.2.Covers (regs rloc) v ∧
      clearPart regs insn.rex.isSome insn.targetSize insn.register.toNat =
        Function.update regs rloc v := by
  by_cases h8 : insn.opcode = .movLoad8
  · have hsize : insn.targetSize = .byte := by rw [targetSize, h8]; rfl
    rw [hsize, destination, if_pos h8]
    by_cases hhigh : insn.rex = none ∧ 4 ≤ insn.reg
    · obtain ⟨hge, hsub⟩ := register_high hhigh.1 hhigh.2
      rw [if_pos hhigh, hhigh.1]
      refine ⟨_, _, (number_eq_iff _ _).mpr rfl,
        cleared_and_not high8_mask _, ?_⟩
      rw [clearPart, if_neg (by simp; omega), hsub]
    · rw [if_neg hhigh]
      refine ⟨_, _, (number_eq_iff _ _).mpr rfl,
        cleared_and_not (fun i => low_mask 8 i (by omega)) _, ?_⟩
      rw [clearPart, if_pos (register_low hhigh)]
      rfl
  · rw [destination, if_neg h8]
    rcases targetSize_eq hmov h8 with ⟨hsize, h16⟩ | ⟨hsize, h16⟩
    · rw [hsize, if_pos h16]
      exact ⟨_, _, (number_eq_iff _ _).mpr rfl,
        cleared_and_not (fun i => low_mask 16 i (by omega)) _, rfl⟩
    · rw [if_neg h16]
      refine ⟨_, _, (number_eq_iff _ _).mpr rfl, cleared_zero _, ?_⟩
      rcases hsize with hsize | hsize <;> rw [hsize] <;> rfl

theorem clearPart_eip {insn : Insn} (hmov : insn.opcode.IsMovLoad) (regs : Regs) :
    clearPart regs insn.rex.isSome insn.targetSize insn.register.toNat .EIP = regs .EIP := by
  obtain ⟨rloc, v, hnum, -, heq⟩ := clearPart_eq hmov regs
  rw [heq, Function.update_of_ne]
  rintro rfl
  cases hnum

end Insn

-- ---------------------------------------------------------------------------
-- The whole instruction
-- ---------------------------------------------------------------------------

/-- What the skipper makes of a listed instruction. -/
theorem ix86SkipInstruction_eq {mem : BitVec 64 → Byte} {regs : Regs} {insn : Insn}
    (hcode : Faulting mem regs insn) (hip : regs .EIP ≠ 0) :
    ix86SkipInstruction mem regs =
      if insn.opcode.IsMovLoad then
        if insn.register = 15 then none
        else
          some (Function.update
            (clearPart regs insn.rex.isSome insn.targetSize insn.register.toNat) .EIP
            (regs .EIP + BitVec.ofNat 64 insn.bytes.length))
      else some (Function.update regs .EIP (regs .EIP + BitVec.ofNat 64 insn.bytes.length)) := by
  have hsize := operandSizePrefix_eq hcode
  have hrest := (CodePtr.starts_append hcode).2
  have hrex : rexPrefix _ = (insn.rex.isSome, insn.rexBits) := (rexPrefix_eq hrest).2
  have hrexLen : (if insn.rex.isSome then 1 else 0) = insn.rexBytes.length := by
    cases h : insn.rex <;> simp [Insn.rexBytes, h]
  have hdecode := decodeInstruction_eq (CodePtr.starts_append hrest).2 insn.rex.isSome
    insn.rexBits insn.transferSize
  have hlen : insn.prefixBytes.length + insn.rexBytes.length +
      (insn.opcode.bytes ++ insn.operand.bytes insn.reg).length = insn.bytes.length := by
    simp only [Insn.bytes, List.length_append]
    omega
  have hload : insn.opcode.transferType ≠ .unknown := by
    cases insn.opcode <;> decide
  have htransfer : (if insn.rexBits.w then TransferSize.quad
      else if insn.size16 then TransferSize.word else .long) = insn.transferSize := rfl
  have hregister := insn.register.isLt
  rw [ix86SkipInstruction, if_neg hip]
  simp only [hsize, hrex, hrexLen, htransfer, hdecode, register_toNat, hlen, if_neg hload]
  by_cases hmov : insn.opcode.IsMovLoad
  · obtain ⟨hm, hl⟩ := insn.opcode.isMovLoad_iff.mp hmov
    rw [if_pos ⟨hm, hl, by omega⟩, if_pos hmov]
    by_cases h15 : insn.register = 15
    · rw [if_pos h15, if_pos (Or.inr (by rw [h15]; decide))]
    · have hne : insn.register.toNat ≠ 15 := fun h => h15 (BitVec.eq_of_toNat_eq h)
      have hmap : x86RegMap.length = 16 := rfl
      have heip := Insn.clearPart_eip hmov regs
      rw [Insn.targetSize] at heip
      rw [if_neg h15, if_neg (by omega), Int.toNat_natCast, heip]
      rfl
  · rw [if_neg hmov, if_neg fun h => hmov (insn.opcode.isMovLoad_iff.mpr ⟨h.1, h.2.1⟩)]

-- ---------------------------------------------------------------------------
-- Exactness
-- ---------------------------------------------------------------------------

theorem skipped_other {insn : Insn} {regs : Regs} (hmov : ¬ insn.opcode.IsMovLoad) :
    Skipped insn regs
      (Function.update regs .EIP (regs .EIP + BitVec.ofNat 64 insn.bytes.length)) where
  eip := Function.update_self ..
  cleared := fun _ _ h => absurd h.1 hmov
  kept := fun _ _ hr _ => by rw [Function.update_of_ne hr]

theorem skipped_load {insn : Insn} {regs : Regs} (hmov : insn.opcode.IsMovLoad) :
    Skipped insn regs
      (Function.update (clearPart regs insn.rex.isSome insn.targetSize insn.register.toNat) .EIP
        (regs .EIP + BitVec.ofNat 64 insn.bytes.length)) := by
  obtain ⟨rloc, v, hnum, hclear, heq⟩ := Insn.clearPart_eq hmov regs
  rw [heq]
  refine ⟨Function.update_self .., ?_, ?_⟩
  · rintro r i ⟨-, hr, hi⟩
    have hloc : r = rloc :=
      ((number_eq_iff _ _).mp hr).trans ((number_eq_iff _ _).mp hnum).symm
    have hne : r ≠ .EIP := by
      rintro rfl
      cases hr
    rw [Function.update_of_ne hne, hloc, Function.update_self]
    exact (hclear i).1 hi
  · intro r i hne hloads
    rw [Function.update_of_ne hne]
    by_cases hloc : r = rloc
    · subst hloc
      rw [Function.update_self]
      exact (hclear i).2 fun hi => hloads ⟨hmov, hnum, hi⟩
    · rw [Function.update_of_ne hloc]

/-- A listed instruction is skipped exactly if and only if it stands at an
address and does not move into R15, which the bound on the register map leaves
out. -/
theorem skip_exact_iff (mem : BitVec 64 → Byte) (regs : Regs) (insn : Insn)
    (hcode : Faulting mem regs insn) :
    (∃ regs', ix86SkipInstruction mem regs = some regs' ∧ Skipped insn regs regs') ↔
      regs .EIP ≠ 0 ∧ ¬ (insn.opcode.IsMovLoad ∧ insn.register = 15) := by
  by_cases hip : regs .EIP = 0
  · refine ⟨?_, fun h => absurd hip h.1⟩
    rintro ⟨regs', hskip, -⟩
    rw [ix86SkipInstruction, if_pos hip] at hskip
    cases hskip
  · rw [ix86SkipInstruction_eq hcode hip]
    by_cases hmov : insn.opcode.IsMovLoad
    · rw [if_pos hmov]
      by_cases h15 : insn.register = 15
      · simp [h15, hmov]
      · rw [if_neg h15]
        exact ⟨fun _ => ⟨hip, fun h => h15 h.2⟩, fun _ => ⟨_, rfl, skipped_load hmov⟩⟩
    · rw [if_neg hmov]
      exact ⟨fun _ => ⟨hip, fun h => hmov h.1⟩, fun _ => ⟨_, rfl, skipped_other hmov⟩⟩

/-- Code bytes at an address, and zeros elsewhere. -/
def codeAt (start : BitVec 64) (bytes : List Byte) : BitVec 64 → Byte :=
  fun a => bytes.getD (a - start).toNat 0

/-- The instruction pointer at `start`, all bits set in the other registers. -/
def contextAt (start : BitVec 64) : Regs := fun r => if r = .EIP then start else BitVec.allOnes 64

/-- `[rax]`, with neither SIB byte nor displacement. -/
theorem indirect_ne : (0 : BitVec 2) ≠ 3 := by decide

def atRax : MemOperand :=
  { mod := 0, rm := 0, sib := none, disp := [], mod_ne := indirect_ne, sib_iff := by decide,
    disp_length := rfl }

/-- `mov (%rax),%ah` -/
def movAh : Insn := ⟨false, none, .movLoad8, 4, atRax⟩

/-- `mov (%rax),%r15d` -/
def movR15 : Insn := ⟨false, some ⟨false, true, false, false⟩, .movLoad, 7, atRax⟩

theorem faulting_movAh : Faulting (codeAt 0x1000 [0x8a, 0x20]) (contextAt 0x1000) movAh := by
  unfold Faulting CodePtr.Starts
  decide

theorem movAh_skipped :
    ∃ regs', ix86SkipInstruction (codeAt 0x1000 [0x8a, 0x20]) (contextAt 0x1000) = some regs' ∧
      Skipped movAh (contextAt 0x1000) regs' :=
  (skip_exact_iff _ _ movAh faulting_movAh).mpr (by decide)

theorem movR15_not_skipped :
    Faulting (codeAt 0x1000 [0x44, 0x8b, 0x38]) (contextAt 0x1000) movR15 ∧
      ix86SkipInstruction (codeAt 0x1000 [0x44, 0x8b, 0x38]) (contextAt 0x1000) = none := by
  constructor
  · unfold Faulting CodePtr.Starts
    decide
  · rfl

end SheepShear.Sigsegv
