import SheepShear.Kpx.Branch
import SheepShear.Kpx.Decoder

/-!
# The translation loop

`compile_block` reads instructions from an entry point on, follows the branches
that are always taken to a constant address, and ends at the first instruction
that ends a block. The program counter is written only before a handler is called,
when earlier calls have not advanced it there. When the translation cache is full
it is flushed, and the block begins again.
-/

namespace SheepShear.Kpx

-- ---------------------------------------------------------------------------
-- Code
-- ---------------------------------------------------------------------------

inductive CompileStatus where
  /-- No translation available, call the interpreter. -/
  | failure
  /-- Generated code, control flow falls through. -/
  | codeOk
  /-- Generated code, including basic block epilogue. -/
  | epilogueOk
deriving DecidableEq, Repr

/-- What is generated for one instruction, piece by piece. -/
inductive GenOp where
  | branch (op : BranchOp)
  | native (dpc opcode : Word)
  /-- The code of `compile1`. -/
  | compile1 (dpc opcode : Word) (status : CompileStatus)
  /-- `gen_set_PC_im`. -/
  | setPc (pc : Word)
  /-- `gen_invoke_CPU_im` of the handler. -/
  | invoke (dpc opcode : Word)

/-- A build for one host: which of the other instructions its generators have code for, and how many
bytes a piece of code takes. -/
structure Translator where
  decoder : Decoder
  reentrantJit : Bool
  native : InstrInfo → Word → Bool
  size : GenOp → Nat

def Translator.codeSize (t : Translator) (code : List GenOp) : Nat := (code.map t.size).sum

-- ---------------------------------------------------------------------------
-- compile1
-- ---------------------------------------------------------------------------

def fnField : Predicate := fun opcode => bitField 19 19 opcode = 1#1
def nativeOpField (opcode : Word) : BitVec 6 := bitField 20 25 opcode

/-- The selectors that `compile1` translates in every build: `NATIVE_CHECK_LOAD_INVOC` to
`NATIVE_NAMED_CHECK_LOAD_INVOC`. -/
def nativeOpInline (selector : Nat) : Bool := 28 ≤ selector && selector ≤ 36

/-- Those that may call back into the emulator: `NATIVE_PATCH_NAME_REGISTRY` to `NATIVE_VIDEO_VBL`
and `NATIVE_GET_RESOURCE` to `NATIVE_R_GET_RESOURCE`. -/
def nativeOpCallsBack (selector : Nat) : Bool :=
  selector ≤ 2 || (22 ≤ selector && selector ≤ 26)

/-- `sheepshaver_cpu::compile1`: its status and `done_compile`. -/
def compile1 (reentrantJit : Bool) (ii : InstrInfo) (opcode : Word) (done : Bool) :
    CompileStatus × Bool :=
  if ii.name ≠ "sheep" then (.failure, done)
  else
    match (opcode &&& 0x3f#32).toNat with
    | 0 => (.codeOk, done)
    | 1 => (.epilogueOk, done)
    | 2 =>
      let selector := (nativeOpField opcode).toNat
      if nativeOpInline selector || (!reentrantJit && nativeOpCallsBack selector) then
        (.codeOk, fnField opcode)
      else if reentrantJit then (.epilogueOk, true)
      else if !fnField opcode then (.codeOk, false)
      else (.failure, done)
    | _ => if reentrantJit then (.epilogueOk, true) else (.codeOk, false)

-- ---------------------------------------------------------------------------
-- The loop
-- ---------------------------------------------------------------------------

def branchInsn (ii : InstrInfo) : Option BranchInsn :=
  match ii.name with
  | "b" => some .b
  | "bc" => some .bc
  | "bcctr" => some .bcctr
  | "bclr" => some .bclr
  | _ => none

/-- The instructions for which nothing is generated. -/
def noCode : List String :=
  ["dcba", "dcbf", "dcbi", "dcbst", "dcbt", "dcbtst", "eciwx", "ecowx", "eieio", "sync"]

/-- The locals of `compile_block`. Of the walk, `reads` has the addresses the instructions were read
from and `jumps` where `dpc` was moved; `inRow` counts the instructions since the last jump and
`longest` is the greatest such count. -/
structure Compile where
  dpc : Word
  minPc : Word
  maxPc : Word
  syncPc : Word
  syncPcOffset : Word
  done : Bool
  status : CompileStatus
  code : List GenOp
  reads : List Word
  jumps : List Word
  inRow : Nat
  longest : Nat

namespace Compile

def start (entryPoint : Word) : Compile where
  dpc := entryPoint - 4
  minPc := entryPoint
  maxPc := entryPoint
  syncPc := entryPoint - 4
  syncPcOffset := 0
  done := false
  status := .codeOk
  code := []
  reads := []
  jumps := []
  inRow := 0
  longest := 0

def emit (s : Compile) (ops : List GenOp) : Compile := { s with code := s.code ++ ops }

/-- The address in hand widens the extent of the block. -/
def noteExtent (s : Compile) : Compile :=
  if s.dpc < s.minPc then { s with minPc := s.dpc }
  else if s.maxPc < s.dpc then { s with maxPc := s.dpc }
  else s

/-- `do_const_jump`. -/
def constJump (s : Compile) (target : Word) : Compile :=
  { s with
    dpc := target - 4
    syncPc := target - 4
    syncPcOffset := 0
    done := false
    jumps := s.jumps ++ [target - 4]
    inRow := 0 }.noteExtent

/-- The call of the handler. -/
def callHandler (s : Compile) (opcode : Word) : Compile :=
  { s.emit [.invoke s.dpc opcode] with syncPcOffset := s.syncPcOffset + 4, status := .codeOk }

/-- `do_invoke`. -/
def doInvoke (t : Translator) (s : Compile) (ii : InstrInfo) (opcode : Word) : Compile :=
  let (status, done) := compile1 t.reentrantJit ii opcode s.done
  let s := { s with status, done }
  let s := if status = .failure then s else s.emit [.compile1 s.dpc opcode status]
  if status = .codeOk then s
  else if s.syncPcOffset < s.dpc - s.syncPc then
    let s := { s with syncPc := s.dpc, syncPcOffset := 0 }
    if status = .epilogueOk then s else (s.emit [.setPc s.dpc]).callHandler opcode
  else s.callHandler opcode

/-- The next instruction is read. -/
def fetch (s : Compile) (ii : InstrInfo) : Compile :=
  { s with
    dpc := s.dpc + 4
    done := s.done || ii.endsBlock
    status := .codeOk
    reads := s.reads ++ [s.dpc + 4]
    inRow := s.inRow + 1
    longest := max s.longest (s.inRow + 1) }

/-- The body of the loop, up to the test of the translation cache. -/
def turn (t : Translator) (mem : Word → Word) (s : Compile) : Compile :=
  let opcode := mem (s.dpc + 4)
  let ii := t.decoder.decode opcode
  let s := s.fetch ii
  match branchInsn ii with
  | some insn =>
    let (ops, target) := insn.compile s.dpc opcode
    let s := s.emit (ops.map .branch)
    match target with
    | some target => s.constJump target
    | none => s
  | none =>
    if ii.name ∈ noCode then s
    else if t.native ii opcode then s.emit [.native s.dpc opcode]
    else s.doInvoke t ii opcode

end Compile

-- ---------------------------------------------------------------------------
-- The translation cache
-- ---------------------------------------------------------------------------

/-- `gen_align(16)`. -/
def genAlign (p : Nat) : Nat := (p + 15) / 16 * 16

/-- Addresses of the host. -/
structure TranslationCache where
  codeStart : Nat
  codeP : Nat
  codeEnd : Nat
  begun : codeStart ≤ codeP

namespace Compile

/-- The loop of a block that begins at `base` in the translation cache. -/
def loop (t : Translator) (mem : Word → Word) (cache : TranslationCache) (entryPoint : Word) :
    (fuel : Nat) → (base : Nat) → Compile → Option Compile
  | 0, _, _ => none
  | fuel + 1, base, s =>
    if s.done then some s
    else
      let s := s.turn t mem
      if cache.codeEnd ≤ base + t.codeSize s.code then
        loop t mem cache entryPoint fuel (genAlign cache.codeStart) (start entryPoint)
      else loop t mem cache entryPoint fuel base s

end Compile

/-- `compile_block`: the state at the end of the loop, with the extent of the block. -/
def compileBlock (t : Translator) (mem : Word → Word) (cache : TranslationCache) (entryPoint : Word)
    (fuel : Nat) : Option Compile :=
  (Compile.loop t mem cache entryPoint fuel (genAlign cache.codeP) (.start entryPoint)).map
    Compile.noteExtent

end SheepShear.Kpx
