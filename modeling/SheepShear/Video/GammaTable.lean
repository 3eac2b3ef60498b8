import SheepShear.Video.Palette

/-!
# Gamma tables

`allocate_gamma_table` and `set_gamma` of `video.cpp`, and the runs of driver
calls they are part of. The table in force is in a block of the system heap,
which is released before a larger one is asked for.
-/

namespace SheepShear.Video.GammaTable

/-- The `n` bytes from `base` on. -/
def In (base : Word) (n : Nat) (x : Word) : Prop := (x - base).toNat < n

instance (base : Word) (n : Nat) (x : Word) : Decidable (In base n x) :=
  inferInstanceAs (Decidable (_ < _))

/-- What `Mac_sysalloc` returns, and the memory after `Mac_sysfree` and `Mac_sysalloc`. -/
structure Heap where
  block : Word
  mem : Mem

structure State where
  mem : Mem
  csSave : VidLocals

-- ---------------------------------------------------------------------------
-- The fields of a table
-- ---------------------------------------------------------------------------

section Fields

variable (m : Mem) (table : Word)

def formulaSize : Nat := (m.readInt16 (table + gFormulaSize)).toNat

def chanCnt : Nat := (m.readInt16 (table + gChanCnt)).toNat

def dataCnt : Nat := (m.readInt16 (table + gDataCnt)).toNat

def dataWidth : Nat := (m.readInt16 (table + gDataWidth)).toNat

/-- `SIZEOF_GammaTbl` and what follows the header. -/
def tableSize : Nat := 12 + formulaSize m table + chanCnt m table * dataCnt m table

/-- What `set_gamma` asks of a table. -/
def validHeader : Bool :=
  m.readInt16 (table + gVersion) == 0 && m.readInt16 (table + gType) == 0 &&
    (chanCnt m table == 1 || chanCnt m table == 3) && dataWidth m table ≤ 8 &&
    dataCnt m table == 2 ^ dataWidth m table

end Fields

-- ---------------------------------------------------------------------------
-- The functions of the driver
-- ---------------------------------------------------------------------------

/-- `allocate_gamma_table`, with the block that the heap has for it. -/
def allocateGammaTable (csSave : VidLocals) (size : Nat) (block : Word) : VidLocals × Bool :=
  if csSave.maxGammaTableSize.toNat < size then
    let csSave :=
      if csSave.gammaTable ≠ 0 then { csSave with gammaTable := 0, maxGammaTableSize := 0 }
      else csSave
    let csSave := { csSave with gammaTable := block }
    if block = 0 then (csSave, false)
    else ({ csSave with maxGammaTableSize := BitVec.ofNat 32 size }, true)
  else (csSave, true)

/-- The memory behind `allocate_gamma_table`. -/
def heapMem (s : State) (size : Nat) (heap : Heap) : Mem :=
  if s.csSave.maxGammaTableSize.toNat < size then heap.mem else s.mem

/-- The header and the ramp of a linear table. -/
def linearRamp (m : Mem) (table : Word) : Mem :=
  let m := m.writeInt16 (table + gVersion) 0
  let m := m.writeInt16 (table + gType) 0
  let m := m.writeInt16 (table + gFormulaSize) 0
  let m := m.writeInt16 (table + gChanCnt) 1
  let m := m.writeInt16 (table + gDataCnt) 256
  let m := m.writeInt16 (table + gDataWidth) 8
  m.storeBytes (table + gFormulaData) 256 fun i => BitVec.ofNat 8 i

/-- `Mac2Mac_memcpy`; what overlaps is copied as it was. -/
def copyTable (m : Mem) (dst src : Word) (size : Nat) : Mem :=
  m.storeBytes dst size fun i => m (src + BitVec.ofNat 32 i)

def setGamma (s : State) (gamma : Word) (heap : Heap) : State × Int :=
  if gamma = 0 then
    let (csSave, allocated) := allocateGammaTable s.csSave 268 heap.block
    let mem := heapMem s 268 heap
    if allocated = false then (⟨mem, csSave⟩, memFullErr)
    else (⟨linearRamp mem csSave.gammaTable, csSave⟩, noErr)
  else if validHeader s.mem gamma = false then (s, paramErr)
  else
    let size := tableSize s.mem gamma
    let (csSave, allocated) := allocateGammaTable s.csSave size heap.block
    let mem := heapMem s size heap
    if allocated = false then (⟨mem, csSave⟩, memFullErr)
    else (⟨copyTable mem csSave.gammaTable gamma size, csSave⟩, noErr)

/-- The part of `VideoOpen` that is about the table. -/
def videoOpen (s : State) (heap : Heap) : State :=
  let csSave := { s.csSave with luminanceMapping := false, gammaTable := 0, maxGammaTableSize := 0 }
  (setGamma { s with csSave } 0 heap).1

-- ---------------------------------------------------------------------------
-- Runs
-- ---------------------------------------------------------------------------

inductive Event where
  | videoOpen (heap : Heap)
  | setGamma (gamma : Word) (heap : Heap)
  /-- `cscSetEntries` reads the table and stores in `mac_pal`. -/
  | setEntries
  /-- What else happens to the guest's memory. -/
  | guest (mem : Mem)

def step (s : State) : Event → State × Int
  | .videoOpen heap => (videoOpen s heap, noErr)
  | .setGamma gamma heap => setGamma s gamma heap
  | .setEntries => (s, noErr)
  | .guest mem => ({ s with mem }, noErr)

/-- The size of the block that a call needs, if it gets that far. -/
def needed (m : Mem) (gamma : Word) : Option Nat :=
  if gamma = 0 then some 268 else if validHeader m gamma then some (tableSize m gamma) else none

def block (s : State) : Word → Prop := In s.csSave.gammaTable s.csSave.maxGammaTableSize.toNat

/-- A heap hands out blocks of the address space that are not in use, and leaves what is in use as
it was. -/
structure Heap.Serves (heap : Heap) (s : State) (size : Nat) (inUse : Word → Prop) : Prop where
  fits : heap.block ≠ 0 → heap.block.toNat + size ≤ 2 ^ 32
  fresh : heap.block ≠ 0 → ∀ x, In heap.block size x → ¬inUse x
  keeps : ∀ x, inUse x → heap.mem x = s.mem x

/-- The heap serves the calls, and the block of the table is the driver's. -/
def Admissible (s : State) : Event → Prop
  | .videoOpen heap => heap.Serves s 268 fun _ => False
  | .setGamma gamma heap => ∀ size ∈ needed s.mem gamma,
    heap.Serves s size fun x => gamma ≠ 0 ∧ In gamma size x ∧ ¬block s x
  | .setEntries => True
  | .guest mem => ∀ x, block s x → mem x = s.mem x

/-- A table that is in force is not lost, and not released while another one is copied from it: the
allocation of a larger block does not fail, and the new table is the one in force or is outside of
its block. -/
def Spares (s : State) : Event → Prop
  | .setGamma gamma heap => ∀ size ∈ needed s.mem gamma, s.csSave.gammaTable ≠ 0 →
    (s.csSave.maxGammaTableSize.toNat < size → heap.block ≠ 0) ∧
      (gamma ≠ 0 → gamma = s.csSave.gammaTable ∨ ∀ x, In gamma size x → ¬block s x)
  | _ => True

/-- The states that runs reach whose calls spare the table in force. -/
inductive Run : State → Prop
  | opened (s : State) {heap : Heap} : Admissible s (.videoOpen heap) → Run (videoOpen s heap)
  | step {s : State} {event : Event} : Run s → Admissible s event → Spares s event →
    Run (step s event).1

-- ---------------------------------------------------------------------------
-- What is expected
-- ---------------------------------------------------------------------------

/-- A complete table in a block of `n` bytes. -/
structure WellFormedTable (m : Mem) (table : Word) (n : Nat) : Prop where
  fits : table.toNat + n ≤ 2 ^ 32
  channels : chanCnt m table = 1 ∨ chanCnt m table = 3
  width : dataWidth m table ≤ 8
  count : dataCnt m table = 2 ^ dataWidth m table
  complete : tableSize m table ≤ n

/-- There is no table, or one that is complete. -/
def TableOk (s : State) : Prop :=
  s.csSave.gammaTable = 0 ∨
    WellFormedTable s.mem s.csSave.gammaTable s.csSave.maxGammaTableSize.toNat

/-- `v` is looked up in `table`, at its entry of a channel. -/
structure LooksUp (s : State) (table : Word) (channel : Nat) (v : Byte) : Prop where
  entry : (v >>> (8 - dataWidth s.mem s.csSave.gammaTable)).toNat <
    dataCnt s.mem s.csSave.gammaTable
  place : (table + (v >>> (8 - dataWidth s.mem s.csSave.gammaTable)).setWidth 32 -
    s.csSave.gammaTable).toNat = 12 + formulaSize s.mem s.csSave.gammaTable +
      channel * dataCnt s.mem s.csSave.gammaTable +
        (v >>> (8 - dataWidth s.mem s.csSave.gammaTable)).toNat
  inside : block s (table + (v >>> (8 - dataWidth s.mem s.csSave.gammaTable)).setWidth 32)

/-- The lookups of `cscSetEntries`: one channel is for all colours. -/
def LookupsOk (s : State) : Prop :=
  s.csSave.gammaTable ≠ 0 → ∀ v : Byte,
    LooksUp s (gammaOf s.mem s.csSave.gammaTable).red 0 v ∧
    LooksUp s (gammaOf s.mem s.csSave.gammaTable).green
      (if chanCnt s.mem s.csSave.gammaTable = 1 then 0 else 1) v ∧
    LooksUp s (gammaOf s.mem s.csSave.gammaTable).blue
      (if chanCnt s.mem s.csSave.gammaTable = 1 then 0 else 2) v

/-- A call that fails leaves the table in force as it was. -/
def ErrorKeeps (s : State) (event : Event) : Prop :=
  (step s event).2 ≠ noErr → (step s event).1.csSave = s.csSave ∧
    ∀ x, block s x → (step s event).1.mem x = s.mem x

end SheepShear.Video.GammaTable
