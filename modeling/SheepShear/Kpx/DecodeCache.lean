import SheepShear.Kpx.BlockCache
import SheepShear.Kpx.Decoder
import SheepShear.Lib.Bytes

/-!
# The decode cache

The predecode loop of `powerpc_cpu::execute`, in a build without the translator,
and the operations that flush what it built. A pointer into the decode cache is
the index of its entry. The loop keeps the indices of the entries it writes, so
that an index past the end of the allocation shows.
-/

namespace SheepShear.Kpx

/-- What the entry of a predecoded instruction calls. -/
inductive ExecuteFn where
  | dumpInstruction
  | recordStep
  | fakeDumpRegisters
  | instr (ii : InstrInfo)
deriving DecidableEq, Repr

structure DecodeInfo where
  execute : ExecuteFn
  opcode : Word
deriving DecidableEq, Repr

/-- `PPC_EXECUTE_DUMP_STATE` and the tables of the decoder. A build without `PPC_FLIGHT_RECORDER`
is one that never starts the log. -/
structure CpuBuild where
  dumpState : Bool
  decoder : Decoder

/-- The members of `powerpc_cpu` that predecoding uses. -/
structure DecodeCache where
  decodeCache : Nat → DecodeInfo
  decodeCacheP : Nat
  myBlockCache : BlockCache PowerpcBlockInfo
  logging : Bool

namespace DecodeCache

def decodeCacheMaxEntries : Nat := 32768

/-- The room for the recorder is left under `FLIGHT_RECORDER`, which no build defines. -/
def decodeCacheEndP (b : CpuBuild) : Nat :=
  decodeCacheMaxEntries - if b.dumpState then 2 else 0

/-- `init_decode_cache` and the constructors, on memory with any contents; `init_flight_recorder`
leaves `logging` as it is. -/
def init (decodeCache : Nat → DecodeInfo) (myBlockCache : BlockCache PowerpcBlockInfo)
    (logging : Bool) : DecodeCache where
  decodeCache
  decodeCacheP := 0
  myBlockCache
  logging

def invalidateCache (fuel : Nat) (c : DecodeCache) : Option DecodeCache := do
  let blocks ← c.myBlockCache.clear fuel
  return { c with myBlockCache := blocks.initializeTags, decodeCacheP := 0 }

def invalidateCacheRange (fuel : Nat) (c : DecodeCache) (start stop : Addr) :
    Option DecodeCache := do
  let blocks ← c.myBlockCache.clearRange fuel start stop
  return { c with myBlockCache := blocks }

def startLog (fuel : Nat) (c : DecodeCache) : Option DecodeCache :=
  { c with logging := true }.invalidateCache fuel

def stopLog (fuel : Nat) (c : DecodeCache) : Option DecodeCache :=
  { c with logging := false }.invalidateCache fuel

end DecodeCache

-- ---------------------------------------------------------------------------
-- The predecode loop
-- ---------------------------------------------------------------------------

/-- The locals of the loop and of the block in hand. `ended` is the condition that ends the loop, and
`written` has the indices of the entries written so far. -/
structure Predecode where
  cpu : DecodeCache
  bi : Ptr
  biDi : Nat
  di : Nat
  dpc : Word
  ended : Bool
  written : List Nat

namespace Predecode

open DecodeCache

def start (c : DecodeCache) (pc : Word) : Option Predecode := do
  let (bi, blocks) ← c.myBlockCache.newBlockinfo
  return {
    cpu := { c with myBlockCache := blocks }
    bi
    biDi := c.decodeCacheP
    di := c.decodeCacheP
    dpc := pc - 4
    ended := false
    written := [] }

/-- `di->execute = …; di->opcode = …; di++`. -/
def put (s : Predecode) (execute : ExecuteFn) (opcode : Word) : Predecode :=
  { s with
    cpu := { s.cpu with
      decodeCache := Function.update s.cpu.decodeCache s.di ⟨execute, opcode⟩ }
    di := s.di + 1
    written := s.written ++ [s.di] }

/-- The entries of one instruction. -/
def putInstr (b : CpuBuild) (s : Predecode) (opcode : Word) (ii : InstrInfo) : Predecode :=
  let s := if b.dumpState then s.put .dumpInstruction opcode else s
  let s := if s.cpu.logging then s.put .recordStep opcode else s
  let s := s.put (.instr ii) opcode
  if b.dumpState then s.put .fakeDumpRegisters 0 else s

/-- The entries from `source` on, `count` of them, copied to those from `target` on. -/
def memmove (s : Predecode) (target source count : Nat) : Predecode :=
  { s with
    cpu := { s.cpu with
      decodeCache := fun i =>
        if target ≤ i ∧ i < target + count then s.cpu.decodeCache (source + (i - target))
        else s.cpu.decodeCache i }
    written := s.written ++ List.range' target count }

/-- Invalidate the cache and move the current code to its start. -/
def moveToStart (fuel : Nat) (s : Predecode) : Option Predecode := do
  let cpu ← s.cpu.invalidateCache fuel
  let blocklen := s.di - s.biDi
  let s := { s with cpu }.memmove cpu.decodeCacheP s.biDi blocklen
  return { s with biDi := cpu.decodeCacheP, di := cpu.decodeCacheP + blocklen }

/-- The body of the loop. -/
def turn (b : CpuBuild) (mem : Word → Word) (fuel : Nat) (s : Predecode) : Option Predecode := do
  let dpc := s.dpc + 4
  let opcode := mem dpc
  let ii := b.decoder.decode opcode
  let s := { s with dpc, ended := ii.endsBlock }.putInstr b opcode ii
  if decodeCacheEndP b ≤ s.di then s.moveToStart fuel else some s

/-- At most so many turns of the loop. -/
def turns (b : CpuBuild) (mem : Word → Word) (fuel : Nat) : Nat → Predecode → Option Predecode
  | 0, s => some s
  | n + 1, s => if s.ended then some s else (s.turn b mem fuel).bind (turns b mem fuel n)

/-- The block enters the lists; `entry` is the argument of `execute`. -/
def finish (s : Predecode) (entry pc : Word) : DecodeCache :=
  let info : PowerpcBlockInfo := {
    pc := pc.setWidth 64
    size := s.di - s.biDi
    di := s.biDi
    minPc := s.dpc.setWidth 64
    maxPc := entry.setWidth 64 }
  let blocks := s.cpu.myBlockCache.setInfo s.bi info
  let blocks := blocks.addToClList s.bi
  let blocks := blocks.addToActiveList s.bi
  { s.cpu with myBlockCache := blocks, decodeCacheP := s.cpu.decodeCacheP + info.size }

end Predecode

-- ---------------------------------------------------------------------------
-- Runs
-- ---------------------------------------------------------------------------

namespace DecodeCache

/-- What `execute` and the rest of the emulator do with the decode cache. `execute` predecodes when
`find` has no block; here a predecode, of any code, can follow any other operation. -/
inductive Op where
  | predecode (mem : Word → Word) (entry pc : Word)
  | find (pc : Addr)
  | invalidateCache
  | invalidateCacheRange (start stop : Addr)
  | startLog
  | stopLog

def Op.run (b : CpuBuild) (fuel : Nat) (c : DecodeCache) : Op → Option DecodeCache
  | .predecode mem entry pc => do
    let s ← Predecode.start c pc
    let s ← s.turns b mem fuel fuel
    if s.ended then some (s.finish entry pc) else none
  | .find pc => do
    let (_, blocks) ← c.myBlockCache.find fuel pc
    return { c with myBlockCache := blocks }
  | .invalidateCache => c.invalidateCache fuel
  | .invalidateCacheRange start stop => c.invalidateCacheRange fuel start stop
  | .startLog => c.startLog fuel
  | .stopLog => c.stopLog fuel

/-- An operation writes an entry of the decode cache, be it before it ends or without ever ending. -/
def Op.Writes (b : CpuBuild) (c : DecodeCache) (op : Op) (i : Nat) : Prop :=
  match op with
  | .predecode mem _ pc =>
    ∃ fuel n s s', Predecode.start c pc = some s ∧ s.turns b mem fuel n = some s' ∧ i ∈ s'.written
  | _ => False

/-- The steps of a run: each operation with the state it starts in. -/
inductive Run (b : CpuBuild) : List (DecodeCache × Op) → DecodeCache → Prop
  | init (decodeCache info sameCl list next logging) :
    Run b [] (init decodeCache (BlockCache.construct info sameCl list next) logging)
  | step {steps c c'} (fuel : Nat) (op : Op) :
    Run b steps c → op.run b fuel c = some c' → Run b (steps ++ [(c, op)]) c'

end DecodeCache

end SheepShear.Kpx
