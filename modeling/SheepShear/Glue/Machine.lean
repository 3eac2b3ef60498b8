import SheepShear.Kpx.Registers
import SheepShear.Lib.Except
import SheepShear.Lib.Memory

/-!
# The machine of the glue code

`sheepshaver_glue.cpp` runs guest code from host code: what the two share is
the register file of the PowerPC core and the memory of the Mac. Beside them
stand the memory for thunks (`SheepMem`), the static variables of the interrupt
path, and a log of what happened.
-/

namespace SheepShear.Glue

-- ---------------------------------------------------------------------------
-- Registers
-- ---------------------------------------------------------------------------

/-- `powerpc_xer_register`: the byte count is only ever written from seven bits. -/
abbrev XerRegister := { x : Kpx.Xer // x.byteCount.toNat < 128 }

def XerRegister.get (x : XerRegister) : Word :=
  (if x.val.so then 0x80000000 else 0) ||| (if x.val.ov then 0x40000000 else 0) |||
    (if x.val.ca then 0x20000000 else 0) ||| x.val.byteCount.setWidth 32

def XerRegister.set (v : Word) : XerRegister :=
  ⟨⟨v.getMsbD 0, v.getMsbD 1, v.getMsbD 2, (v.extractLsb' 0 7).setWidth 8⟩, by
    rw [BitVec.toNat_setWidth]
    exact lt_of_le_of_lt (Nat.mod_le _ _) (v.extractLsb' 0 7).isLt⟩

/-- `powerpc_registers`, without what neither the glue nor the copy for interrupts touches. -/
structure Registers where
  gpr : Fin 32 → Word
  fpr : Fin 32 → BitVec 64
  vr : Fin 32 → BitVec 128
  cr : Word
  xer : XerRegister
  vrsave : Word
  fpscr : Word
  lr : Word
  ctr : Word
  pc : Word

/-- The record that 68k routines are called with. -/
structure M68kRegisters where
  d : Fin 8 → Word
  a : Fin 8 → Word

/-- The register that holds `d[i]` in the 68k emulator. -/
def dReg (i : Fin 8) : Fin 32 := ⟨8 + i.val, by omega⟩

/-- The register that holds `a[i]`; `a[7]` is the stack pointer. -/
def aReg (i : Fin 7) : Fin 32 := ⟨16 + i.val, by omega⟩

/-- The loops that write `d[0]`..`d[7]` and `a[0]`..`a[6]` to the register file. -/
def loadM68k (r : M68kRegisters) (gpr : Fin 32 → Word) : Fin 32 → Word := fun k =>
  if h : 8 ≤ k.val ∧ k.val < 16 then r.d ⟨k.val - 8, by omega⟩
  else if h : 16 ≤ k.val ∧ k.val < 23 then r.a ⟨k.val - 16, by omega⟩
  else gpr k

/-- The loops that read them back. -/
def saveM68k (r : M68kRegisters) (gpr : Fin 32 → Word) : M68kRegisters where
  d i := gpr (dReg i)
  a i := if h : i.val < 7 then gpr (aReg ⟨i.val, h⟩) else r.a i

-- ---------------------------------------------------------------------------
-- Low memory and kernel data
-- ---------------------------------------------------------------------------

def xlmRunMode : Word := 0x2810
def xlm68kR25 : Word := 0x2814
def xlmIrqNest : Word := 0x2818
def xlmExecReturnOpcode : Word := 0x284c

def mode68k : Word := 0
def modeNative : Word := 1
def modeEmulOp : Word := 2

def kernelDataAddr : Word := 0x68ffe000

/-- `POWERPC_EXEC_RETURN`. -/
def powerpcExecReturn : Word := 0x18000001

/-- `kernel_data->v[offset >> 2]`, in the byte order of the host. -/
def kernelData (mem : Mem) (offset : Word) : Word := mem.readInt32 (kernelDataAddr + offset)

-- ---------------------------------------------------------------------------
-- The machine
-- ---------------------------------------------------------------------------

/-- What guest code can change. -/
structure MacState where
  regs : Registers
  spcflags : Word
  mem : Mem

def spcflagExecReturn : Word := 1
def spcflagTriggerInterrupt : Word := 2
def spcflagHandleInterrupt : Word := 4
def spcflagEnterMon : Word := 8

def MacState.test (s : MacState) (flag : Word) : Prop := s.spcflags &&& flag ≠ 0

instance (s : MacState) (flag : Word) : Decidable (s.test flag) := inferInstanceAs (Decidable (_ ≠ _))

def MacState.clear (s : MacState) (flag : Word) : MacState :=
  { s with spcflags := s.spcflags &&& ~~~flag }

def MacState.set (s : MacState) (flag : Word) : MacState :=
  { s with spcflags := s.spcflags ||| flag }

/-- A call of guest code from an `EMUL_OP` routine, as it went: the state at the call, the states in
which the guest code was entered and left, and the state after the call. -/
inductive Call where
  | execute68k (before entered left after : MacState) (r : M68kRegisters)
  | executeMacosCode (before entered left after : MacState)

/-- What the log holds. `emulOp` stands for a whole `execute_emul_op`, with the registers its
routine has left and the calls it has made. -/
inductive Event where
  | enterInterrupt
  | leaveInterrupt
  | emulOp (before after : MacState) (r : M68kRegisters) (calls : List Call)

/-- `SheepMem`: data grows down to the procedures. -/
structure SheepMem where
  data : BitVec 64
  proc : BitVec 64

structure Machine where
  mac : MacState
  sheep : SheepMem
  /-- The static `proc` of `HandleInterrupt`; 0 until it is built. -/
  irqProc : Word
  processingInterrupt : Bool
  log : List Event

def Machine.record (m : Machine) (e : Event) : Machine := { m with log := m.log ++ [e] }

/-- What the host code is built and started with. -/
structure Config where
  romBase : Word
  newWorld : Bool
  signalStackBase : Word

/-- A run that an assertion ends keeps the machine of that moment. -/
abbrev Run (α : Type) := Except Machine α

def SheepMem.align (size : Word) : Word := (size + 3) &&& ~~~3

/-- `SheepMem::Reserve`. -/
def reserve (size : Word) (m : Machine) : Run (Word × Machine) :=
  let data := m.sheep.data - (SheepMem.align size).setWidth 64
  let m := { m with sheep := { m.sheep with data := data } }
  if m.sheep.proc ≤ data then .ok (data.setWidth 32, m) else .error m

/-- `SheepMem::Release`. -/
def release (size : Word) (m : Machine) : Machine :=
  { m with sheep := { m.sheep with data := m.sheep.data + (SheepMem.align size).setWidth 64 } }

/-- `SheepMem::ReserveProc`. -/
def reserveProc (size : Word) (m : Machine) : Run (Word × Machine) :=
  let mproc := m.sheep.proc
  let m := { m with sheep := { m.sheep with proc := mproc + (SheepMem.align size).setWidth 64 } }
  if m.sheep.proc < m.sheep.data then .ok (mproc.setWidth 32, m) else .error m

/-- `SheepVar32 trampoline = POWERPC_EXEC_RETURN`. -/
def trampoline (m : Machine) : Run (Word × Machine) := do
  let (addr, m) ← reserve 4 m
  return (addr, { m with mac := { m.mac with mem := m.mac.mem.writeInt32 addr powerpcExecReturn } })

end SheepShear.Glue
