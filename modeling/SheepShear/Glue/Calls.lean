import SheepShear.Glue.Machine

/-!
# Calls between host and guest code

`execute_68k`, `execute_macos_code`, `execute_emul_op` and `interrupt` of
`sheepshaver_glue.cpp`, `HandleInterrupt`, and `check_spcflags` of `ppc-cpu.cpp`.
Each takes what a nested `execute` does as a parameter. A guest routine is the
tree of what it does up to `EXEC_RETURN`: stretches of instructions, `EMUL_OP`
instructions, and the places where the loop of `execute` looks at the special
flags; a routine of the host is the tree of its calls. An `execute` made by a
native operation is part of the tree it is made in.
-/

namespace SheepShear.Glue

/-- `assert`. -/
def assert (p : Prop) [Decidable p] (m : Machine) : Run Unit := if p then .ok () else .error m

/-- What `execute` does, once its entry is in the program counter. -/
abbrev Execute := Machine → Run Machine

-- ---------------------------------------------------------------------------
-- Calls from `EMUL_OP` routines
-- ---------------------------------------------------------------------------

/-- The first half of `execute_68k`, up to `execute`. Outside of `EMUL_OP` mode it only prints a
message. -/
def enter68k (entry : Word) (r : M68kRegisters) (s : MacState) : MacState :=
  let sp := s.regs.gpr 1
  let gpr := Function.update s.regs.gpr 1 (sp - 56)
  let mem := s.mem.writeInt32 (gpr 1) sp
  let gpr := loadM68k r gpr
  let gpr := Function.update gpr 23 0
  let gpr := Function.update gpr 24 entry
  let gpr := Function.update gpr 25 (mem.readInt32 xlm68kR25)
  let gpr := Function.update gpr 26 0
  let gpr := Function.update gpr 28 0
  let gpr := Function.update gpr 29 (kernelData mem 0x1074)
  let gpr := Function.update gpr 30 (kernelData mem 0x1078)
  let gpr := Function.update gpr 31 (kernelDataAddr + 0x1000)
  let gpr := Function.update gpr 1 (gpr 1 - 4)
  let mem := mem.writeInt32 (gpr 1) xlmExecReturnOpcode
  let mem := mem.writeInt32 xlmRunMode mode68k
  let gpr := Function.update gpr 0 0
  let opcode := mem.readInt16 (gpr 24)
  let gpr := Function.update gpr 24 (gpr 24 + 2)
  let gpr := Function.update gpr 27 ((mem.readInt16 (gpr 24)).signExtend 32)
  let gpr := Function.update gpr 29 (gpr 29 + opcode.setWidth 32 * 8)
  -- The mask of `CR_SO_field<2>` is supervisor mode.
  { s with mem := mem, regs := { s.regs with gpr := gpr, cr := 0x00100000, pc := gpr 29 } }

/-- The second half: `saved` is the state in which `execute_68k` was called. -/
def leave68k (saved s : MacState) : MacState :=
  let mem := s.mem.writeInt32 xlm68kR25 (s.regs.gpr 25)
  let mem := mem.writeInt32 xlmRunMode modeEmulOp
  let gpr := fun k : Fin 32 => if 13 ≤ k then saved.regs.gpr k else s.regs.gpr k
  let fpr := fun k : Fin 32 => if 14 ≤ k then saved.regs.fpr k else s.regs.fpr k
  let gpr := Function.update gpr 1 (gpr 1 + 56)
  { s with
    mem := mem
    regs := { s.regs with
      gpr := gpr, fpr := fpr, pc := saved.regs.pc, lr := saved.regs.lr, ctr := saved.regs.ctr,
      cr := saved.regs.cr } }

def execute68k (run : Execute) (entry : Word) (r : M68kRegisters) (m : Machine) :
    Run (M68kRegisters × Call × Machine) := do
  let entered := enter68k entry r m.mac
  let m' ← run { m with mac := entered }
  let after := leave68k m.mac m'.mac
  let r := saveM68k r m'.mac.regs.gpr
  return (r, .execute68k m.mac entered m'.mac after r, { m' with mac := after })

/-- The arguments of `execute_macos_code`: its callers have at most seven. -/
abbrev Args := { args : List Word // args.length ≤ 7 }

/-- Register `i + 3` for each argument `i`. -/
def loadArgs (args : Args) (gpr : Fin 32 → Word) : Fin 32 → Word := fun k =>
  if h : 3 ≤ k.val ∧ k.val < 3 + args.val.length then args.val.get ⟨k.val - 3, by omega⟩ else gpr k

/-- `lr` is the address of the trampoline. -/
def enterMacosCode (lr tvect : Word) (args : Args) (s : MacState) : MacState :=
  let gpr := Function.update s.regs.gpr 1 (s.regs.gpr 1 - 64)
  let proc := s.mem.readInt32 tvect
  let toc := s.mem.readInt32 (tvect + 4)
  let gpr := Function.update gpr 2 toc
  let gpr := loadArgs args gpr
  { s with regs := { s.regs with gpr := gpr, lr := lr, pc := proc } }

def leaveMacosCode (args : Args) (saved s : MacState) : MacState :=
  let gpr := fun k : Fin 32 =>
    if 2 ≤ k.val ∧ k.val ≤ 2 + args.val.length then saved.regs.gpr k else s.regs.gpr k
  let gpr := Function.update gpr 1 (gpr 1 + 64)
  { s with regs := { s.regs with
      gpr := gpr, pc := saved.regs.pc, lr := saved.regs.lr, ctr := saved.regs.ctr } }

def executeMacosCode (run : Execute) (tvect : Word) (args : Args) (m : Machine) :
    Run (Word × Call × Machine) := do
  let (addr, m₁) ← trampoline m
  let entered := enterMacosCode addr tvect args m₁.mac
  let m' ← run { m₁ with mac := entered }
  let after := leaveMacosCode args m.mac m'.mac
  return (m'.mac.regs.gpr 3, .executeMacosCode m.mac entered m'.mac after,
    release 4 { m' with mac := after })

/-- What a routine of the host returns: the registers of the 68k emulator, and its calls. -/
structure Finished where
  r : M68kRegisters
  machine : Machine
  calls : List Call

def enterEmulOp (s : MacState) : MacState :=
  { s with mem := (s.mem.writeInt32 xlm68kR25 (s.regs.gpr 25)).writeInt32 xlmRunMode modeEmulOp }

/-- The record `EmulOp` is called with. -/
def emulOpRegisters (gpr : Fin 32 → Word) : M68kRegisters where
  d i := gpr (dReg i)
  a i := if h : i.val < 7 then gpr (aReg ⟨i.val, h⟩) else gpr 1

def leaveEmulOp (saved : MacState) (r : M68kRegisters) (s : MacState) : MacState :=
  { s with
    mem := s.mem.writeInt32 xlmRunMode mode68k
    regs := { s.regs with
      gpr := Function.update (loadM68k r s.regs.gpr) 1 (r.a 7)
      cr := saved.regs.cr &&& 0xff9fffff
      xer := .set saved.regs.xer.get } }

/-- `execute_emul_op`; `emulOp` is what `EmulOp` does for the operation, with the registers and the
68k program counter. -/
def executeEmulOp (emulOp : M68kRegisters → Word → Machine → Run Finished) (m : Machine) :
    Run Machine := do
  let m₁ := { m with mac := enterEmulOp m.mac }
  let f ← emulOp (emulOpRegisters m₁.mac.regs.gpr) (m₁.mac.regs.gpr 24) m₁
  let after := leaveEmulOp m.mac f.r f.machine.mac
  return { f.machine with mac := after }.record (.emulOp m.mac after f.r f.calls)

-- ---------------------------------------------------------------------------
-- Interrupts
-- ---------------------------------------------------------------------------

/-- `sheepshaver_cpu::interrupt` up to the assertion on register 6. -/
def enterInterrupt (cfg : Config) (s : MacState) : MacState :=
  let gpr := Function.update s.regs.gpr 1 (cfg.signalStackBase - 64)
  let mem := s.mem.writeInt32 (kernelDataAddr + 0x004) (gpr 1)
  let mem := mem.writeInt32 (kernelDataAddr + 0x018) (gpr 6)
  let gpr := Function.update gpr 6 (kernelData mem 0x65c)
  { s with mem := mem, regs := { s.regs with gpr := gpr } }

/-- The rest of it, up to `execute`. -/
def enterNanokernel (entry trampoline : Word) (s : MacState) : MacState :=
  let gpr := s.regs.gpr
  let mem := s.mem.writeInt32 (gpr 6 + 0x13c) (gpr 7)
  let mem := mem.writeInt32 (gpr 6 + 0x144) (gpr 8)
  let mem := mem.writeInt32 (gpr 6 + 0x14c) (gpr 9)
  let mem := mem.writeInt32 (gpr 6 + 0x154) (gpr 10)
  let mem := mem.writeInt32 (gpr 6 + 0x15c) (gpr 11)
  let mem := mem.writeInt32 (gpr 6 + 0x164) (gpr 12)
  let mem := mem.writeInt32 (gpr 6 + 0x16c) (gpr 13)
  let gpr := Function.update gpr 1 kernelDataAddr
  let gpr := Function.update gpr 7 (kernelData mem 0x660)
  let gpr := Function.update gpr 8 0
  let gpr := Function.update gpr 10 trampoline
  let gpr := Function.update gpr 12 trampoline
  let gpr := Function.update gpr 13 s.regs.cr
  let result := Kpx.opPpcRlwimi (gpr 7) 8 0x80000000 (gpr 7)
  let cr := Kpx.crSetSo (Kpx.crCompute s.regs.cr 0 result.toInt) 0 s.regs.xer.val.so
  let gpr := Function.update gpr 7 result
  let gpr := Function.update gpr 11 0xf072
  let cr := (gpr 11 &&& 0x0fff0000) ||| (cr &&& ~~~0x0fff0000)
  { s with mem := mem, regs := { s.regs with gpr := gpr, cr := cr, pc := entry } }

def leaveInterrupt (saved s : MacState) : MacState :=
  { s with regs := { s.regs with
      pc := saved.regs.pc, lr := saved.regs.lr, ctr := saved.regs.ctr,
      gpr := Function.update s.regs.gpr 1 (saved.regs.gpr 1) } }

def interrupt (cfg : Config) (run : Execute) (entry : Word) (m : Machine) : Run Machine := do
  let (addr, m₁) ← trampoline m
  let m₂ := { m₁ with mac := enterInterrupt cfg m₁.mac }
  assert (m₂.mac.regs.gpr 6 ≠ 0) m₂
  let m' ← run { m₂ with mac := enterNanokernel entry addr m₂.mac }
  return release 4 { m' with mac := leaveInterrupt m.mac m'.mac }

/-- `proc_template` of `HandleInterrupt`. -/
def procTemplate : List Byte :=
  [0x3f, 0x3c, 0x00, 0x00, 0x48, 0x7a, 0x00, 0x0a, 0x40, 0xe7, 0x20, 0x78, 0x00, 0x64, 0x4e, 0xd0,
    0x4e, 0x75]

/-- `Host2Mac_memcpy`. -/
def hostToMac (mem : Mem) (addr : Word) (bytes : List Byte) : Mem := fun x =>
  if h : (x - addr).toNat < bytes.length then bytes.get ⟨_, h⟩ else mem x

/-- `BUILD_SHEEPSHAVER_PROCEDURE(proc)`. -/
def buildProcedure (m : Machine) : Run Machine :=
  if m.irqProc = 0 then do
    let (addr, m) ← reserveProc (.ofNat 32 procTemplate.length) m
    return { m with
      irqProc := addr, mac := { m.mac with mem := hostToMac m.mac.mem addr procTemplate } }
  else .ok m

/-- `DisableInterrupt`. -/
def disableInterrupt (mem : Mem) : Mem :=
  mem.writeInt32 xlmIrqNest (mem.readInt32 xlmIrqNest + 1)

/-- The case of `HandleInterrupt` for native mode, outside of the nanokernel. -/
def handleNative (cfg : Config) (run : Execute) (m : Machine) : Run Machine :=
  let mem := m.mac.mem.writeInt16 (kernelData m.mac.mem 0x67c) 1
  let addr := kernelData mem 0x658 + 0xdc
  let mem := mem.writeInt32 addr (mem.readInt32 addr ||| kernelData mem 0x674)
  let m := { m with mac := { m.mac with mem := disableInterrupt mem } }
  interrupt cfg run (cfg.romBase + if cfg.newWorld then 0x312b1c else 0x312a3c) m

/-- The case for `EMUL_OP` mode at interrupt level 0; `r` is not initialised. -/
def handleEmulOp (run : Execute) (r : M68kRegisters) (m : Machine) : Run Machine := do
  let oldR25 := m.mac.mem.readInt32 xlm68kR25
  let m₁ ← buildProcedure
    { m with mac := { m.mac with mem := m.mac.mem.writeInt32 xlm68kR25 0x21 } }
  let (_, _, m') ← execute68k run m₁.irqProc r m₁
  return { m' with mac := { m'.mac with mem := m'.mac.mem.writeInt32 xlm68kR25 oldR25 } }

/-- The locals of the interrupt path before they are written: the copy of the registers, and the
record the 68k routine is called with. -/
structure Locals where
  r : Registers
  m68k : M68kRegisters

/-- `HandleInterrupt`, on the copy `r` of the registers. -/
def handleInterrupt (cfg : Config) (run : Execute) (locals : Locals) (r : Registers) (m : Machine) :
    Run (Registers × Machine) :=
  if 0 < (m.mac.mem.readInt32 xlmIrqNest).toInt then .ok (r, m)
  else if m.mac.mem.readInt32 xlmRunMode = mode68k then
    let mem := m.mac.mem.writeInt16 (kernelData m.mac.mem 0x67c) 1
    .ok ({ r with cr := r.cr ||| kernelData mem 0x674 }, { m with mac := { m.mac with mem := mem } })
  else if m.mac.mem.readInt32 xlmRunMode = modeNative then
    if r.gpr 1 ≠ kernelDataAddr then do
      let m' ← handleNative cfg run m
      return (r, m')
    else .ok (r, m)
  else if m.mac.mem.readInt32 xlmRunMode = modeEmulOp then
    if m.mac.mem.readInt32 xlm68kR25 &&& 7 = 0 then do
      let m' ← handleEmulOp run locals.m68k m
      return (r, m')
    else .ok (r, m)
  else .ok (r, m)

/-- The loop of `interrupt_copy` over the vector registers below `n`. -/
def copyVr (iregs : Fin 32 → BitVec 128) : Nat → Word → (Fin 32 → BitVec 128) → Fin 32 → BitVec 128
  | 0, _, vr => vr
  | n + 1, vrsave, vr =>
    let vr := if vrsave &&& 1 ≠ 0 then Function.update vr (.ofNat 32 n) (iregs (.ofNat 32 n)) else vr
    copyVr iregs n (vrsave >>> 1) vr

/-- `powerpc_registers::interrupt_copy`. -/
def interruptCopy (oregs iregs : Registers) : Registers where
  gpr := iregs.gpr
  fpr := iregs.fpr
  cr := iregs.cr
  fpscr := iregs.fpscr
  xer := iregs.xer
  lr := iregs.lr
  ctr := iregs.ctr
  pc := iregs.pc
  vrsave := iregs.vrsave
  vr := if iregs.vrsave ≠ 0 then copyVr iregs.vr 32 iregs.vrsave oregs.vr else oregs.vr

/-- The part of `check_spcflags` for `SPCFLAG_CPU_HANDLE_INTERRUPT`. -/
def processInterrupt (cfg : Config) (run : Execute) (locals : Locals) (m : Machine) : Run Machine :=
  let m := { m with mac := m.mac.clear spcflagHandleInterrupt }
  if m.processingInterrupt then .ok m
  else do
    let m := { m with processingInterrupt := true }
    let r := interruptCopy locals.r m.mac.regs
    let (r, m') ← handleInterrupt cfg run locals r (m.record .enterInterrupt)
    return { m'.record .leaveInterrupt with
      mac := { m'.mac with regs := interruptCopy m'.mac.regs r }, processingInterrupt := false }

def handlePending (cfg : Config) (run : Execute) (locals : Locals) (m : Machine) : Run Machine :=
  if m.mac.test spcflagHandleInterrupt then processInterrupt cfg run locals m else .ok m

/-- An interrupt that was triggered is handled at the next check. -/
def MacState.trigger (s : MacState) : MacState :=
  if s.test spcflagTriggerInterrupt then
    (s.clear spcflagTriggerInterrupt).set spcflagHandleInterrupt
  else s

/-- The monitor is not built in. -/
def MacState.enterMon (s : MacState) : MacState :=
  if s.test spcflagEnterMon then s.clear spcflagEnterMon else s

/-- `check_spcflags`. -/
def checkSpcflags (cfg : Config) (run : Execute) (locals : Locals) (m : Machine) :
    Run (Bool × Machine) :=
  if m.mac.test spcflagExecReturn then
    .ok (false, { m with mac := m.mac.clear spcflagExecReturn })
  else do
    let m' ← handlePending cfg run locals m
    return (true, { m' with mac := m'.mac.trigger.enterMon })

-- ---------------------------------------------------------------------------
-- Routines
-- ---------------------------------------------------------------------------

mutual

/-- What guest code does until it returns, step by step and depending on the state. -/
inductive Guest where
  | execReturn
  | step (f : MacState → MacState) (next : MacState → Guest)
  | emulOp (routine : M68kRegisters → Word → Host) (next : MacState → Guest)
  | checkSpcflags (locals : Locals) (routine : Guest) (next : MacState → Guest)

/-- What an `EMUL_OP` routine does; it changes the memory and the flags, and the registers only
through its calls. -/
inductive Host where
  | ret (r : M68kRegisters)
  | work (mem : MacState → Mem) (spcflags : MacState → Word) (next : MacState → Host)
  | execute68k (entry : Word) (r : M68kRegisters) (routine : Guest)
      (next : M68kRegisters → MacState → Host)
  | executeMacosCode (tvect : Word) (args : Args) (routine : Guest) (next : Word → MacState → Host)

end

/-- The end of an `execute`, at `EXEC_RETURN` or at a check that finds its flag. -/
def execReturn (m : Machine) : Machine :=
  { m with mac := (m.mac.set spcflagExecReturn).clear spcflagExecReturn }

/-- `EMUL_OP` in `execute_sheep`. -/
def nextInstruction (m : Machine) : Machine :=
  { m with mac := { m.mac with regs := { m.mac.regs with pc := m.mac.regs.pc + 4 } } }

mutual

def Guest.run (cfg : Config) : Guest → Machine → Run Machine
  | .execReturn, m => .ok (execReturn m)
  | .step f next, m => (next (f m.mac)).run cfg { m with mac := f m.mac }
  | .emulOp routine next, m => do
    let m' ← executeEmulOp (fun r pc m => (routine r pc).run cfg m) m
    (next (nextInstruction m').mac).run cfg (nextInstruction m')
  | .checkSpcflags locals routine next, m => do
    let (continues, m') ← checkSpcflags cfg (fun m => routine.run cfg m) locals m
    if continues then (next m'.mac).run cfg m' else .ok m'

def Host.run (cfg : Config) : Host → Machine → Run Finished
  | .ret r, m => .ok ⟨r, m, []⟩
  | .work mem spcflags next, m =>
    let mac := { m.mac with mem := mem m.mac, spcflags := spcflags m.mac }
    (next mac).run cfg { m with mac := mac }
  | .execute68k entry r routine next, m => do
    let (r', call, m') ← execute68k (fun m => routine.run cfg m) entry r m
    let f ← (next r' m'.mac).run cfg m'
    return { f with calls := call :: f.calls }
  | .executeMacosCode tvect args routine next, m => do
    let (value, call, m') ← executeMacosCode (fun m => routine.run cfg m) tvect args m
    let f ← (next value m'.mac).run cfg m'
    return { f with calls := call :: f.calls }

end

end SheepShear.Glue
