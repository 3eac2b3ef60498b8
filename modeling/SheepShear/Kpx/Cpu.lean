import SheepShear.Kpx.Interp
import SheepShear.Kpx.Vr
import SheepShear.Lib.Memory

/-!
# The emulated processor

`powerpc_registers`, the memory, and the parts of the host that the semantic
actions change: the range of `icbi` and the rounding mode. A build for one
processor; the special flags are left to the loop around the actions.
-/

namespace SheepShear.Kpx

/-- The host's rounding modes, `FE_TONEAREST` and the others. -/
inductive FeRound where
  | toNearest
  | towardZero
  | upward
  | downward
deriving DecidableEq, Repr

structure Cpu where
  regs : Regs
  fpr : BitVec 5 → BitVec 64
  vr : BitVec 5 → Vr
  vscr : Word
  vrsave : Word
  fpscr : Word
  lr : Word
  ctr : Word
  pc : Word
  reserveValid : Bool
  reserveAddr : Word
  cacheStart : Word
  cacheEnd : Word
  feround : FeRound
  mem : Mem

namespace Cpu

/-- The registers after `init_registers`, over a memory. -/
def initRegisters (mem : Mem) : Cpu where
  regs := { gpr := fun _ => 0, cr := 0, xer := { so := false, ov := false, ca := false, byteCount := 0 } }
  fpr := fun _ => 0
  vr := fun _ _ => 0
  vscr := 0
  vrsave := 0
  fpscr := 0
  lr := 0
  ctr := 0
  pc := 0
  reserveValid := false
  reserveAddr := 0
  cacheStart := 0
  cacheEnd := 0
  feround := .toNearest
  mem := mem

def incrementPc (s : Cpu) (n : Word) : Cpu := { s with pc := s.pc + n }

def setGpr (s : Cpu) (n : BitVec 5) (v : Word) : Cpu := { s with regs := s.regs.setGpr n v }

def setFpr (s : Cpu) (n : BitVec 5) (v : BitVec 64) : Cpu :=
  { s with fpr := Function.update s.fpr n v }

/-- `powerpc_vscr::set_sat(1)`. -/
def setSat (s : Cpu) : Cpu := { s with vscr := s.vscr ||| 1 }

/-- `record_cr1`. -/
def recordCr1 (s : Cpu) : Cpu :=
  { s with regs :=
    { s.regs with cr := (s.regs.cr &&& ~~~0x0f000000#32) ||| ((s.fpscr >>> 4) &&& 0x0f000000#32) } }

@[simp] theorem recordCr1_pc (s : Cpu) : s.recordCr1.pc = s.pc := rfl
@[simp] theorem recordCr1_fpscr (s : Cpu) : s.recordCr1.fpscr = s.fpscr := rfl
@[simp] theorem incrementPc_pc (s : Cpu) (n : Word) : (s.incrementPc n).pc = s.pc + n := rfl
@[simp] theorem incrementPc_fpscr (s : Cpu) (n : Word) : (s.incrementPc n).fpscr = s.fpscr := rfl

end Cpu

/-- What the generated code works on: the processor and the temporaries. -/
structure JitState where
  cpu : Cpu
  t0 : Word
  t1 : Word
  t2 : Word

end SheepShear.Kpx
