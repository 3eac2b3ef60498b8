import SheepShear.Lib.Memory
import SheepShear.Lib.Steps

/-!
# The SCSI Manager

The entry points of the old SCSI Manager and the interpreter for transfer
instruction blocks, which only collects the ranges of memory that
`SCSIComplete` hands to the host. The calls of the host back end are recorded
with the answers it gave.
-/

namespace SheepShear.Scsi

open Steps

/-- What an entry point returns: zero, `-108` or one of the error codes. -/
inductive Result where
  | noErr
  | sgFull
  | scCommErr
  | scBadParmsErr
  | scPhaseErr
  | scCompareErr
  | scMgrBusyErr
  | scSequenceErr
deriving DecidableEq, Repr

def Result.code : Result → Int
  | .noErr => 0
  | .sgFull => -108
  | .scCommErr => 2
  | .scBadParmsErr => 4
  | .scPhaseErr => 5
  | .scCompareErr => 6
  | .scMgrBusyErr => 7
  | .scSequenceErr => 8

/-- The opcodes of a transfer instruction block. -/
inductive Op where
  | scInc
  | scNoInc
  | scAdd
  | scMove
  | scLoop
  | scNop
  | scStop
  | scComp
deriving DecidableEq, Repr

def Op.decode (cmd : BitVec 16) : Option Op :=
  [Op.scInc, .scNoInc, .scAdd, .scMove, .scLoop, .scNop, .scStop, .scComp][cmd.toNat - 1]?.filter
    fun _ => cmd ≠ 0

inductive Phase where
  | free
  | arbitrated
  | selected
  | transfer
deriving DecidableEq, Repr

/-- A pointer of the host. -/
abbrev HostAddr := BitVec 64

/-- `vm_do_get_real_address`, with the offset of the guest's address space. -/
def mac2HostAddr (vmBaseDiff : Word) (addr : Word) : HostAddr := (vmBaseDiff + addr).setWidth 64

-- ---------------------------------------------------------------------------
-- The scatter/gather table
-- ---------------------------------------------------------------------------

/-- What an `scInc` or `scNoInc` asks for, in addresses of the guest. -/
structure Range where
  ptr : Word
  len : Word
deriving DecidableEq, Repr

structure SgEntry where
  ptr : HostAddr
  len : Word
deriving DecidableEq, Repr

/-- The entries below `sg_index`, and `sg_total_length`. -/
structure SgTable where
  entries : List SgEntry
  totalLength : Word
deriving DecidableEq, Repr

def SgTable.empty : SgTable := ⟨[], 0⟩

def sgTableSize : Nat := 1024

def SgEntry.next (e : SgEntry) : HostAddr := e.ptr + e.len.setWidth 64

/-- A new entry, unless the table is full. -/
def SgTable.push (t : SgTable) (e : SgEntry) : Option SgTable :=
  if t.entries.length = sgTableSize then none
  else some ⟨t.entries ++ [e], t.totalLength + e.len⟩

/-- A range that starts where the last entry ends is merged into it. -/
def SgTable.add (vmBaseDiff : Word) (t : SgTable) (r : Range) : Option SgTable :=
  let e : SgEntry := ⟨mac2HostAddr vmBaseDiff r.ptr, r.len⟩
  match t.entries.getLast? with
  | some last =>
    if e.ptr = last.next then
      some ⟨t.entries.dropLast ++ [{ last with len := last.len + r.len }], t.totalLength + r.len⟩
    else t.push e
  | none => t.push e

-- ---------------------------------------------------------------------------
-- The state of the manager
-- ---------------------------------------------------------------------------

/-- The calls of the host back end, with its answers. -/
inductive HostCall where
  | isTargetPresent (id : Int) (answer : Bool)
  | setCmd (cmd : List Byte)
  | setTarget (id : Int) (lun : Byte) (answer : Bool)
  | sendCmd (table : SgTable) (reading : Bool) (timeout : Word)
deriving DecidableEq, Repr

structure Manager where
  targetId : Int
  phase : Phase
  fakeStatus : BitVec 16
  reading : Bool
  table : SgTable
  mem : Mem
  host : List HostCall

/-- The statics of the file before any call. -/
def Manager.initial (mem : Mem) : Manager := ⟨0, .free, 0x0000#16, false, .empty, mem, []⟩

variable (vmBaseDiff : Word)

-- ---------------------------------------------------------------------------
-- Transfer instruction blocks
-- ---------------------------------------------------------------------------

/-- An instruction: its opcode and the two operands. -/
structure Instr where
  cmd : BitVec 16
  ptr : Word
  len : Word
deriving DecidableEq, Repr

def Instr.fetch (mem : Mem) (tib : Word) : Instr :=
  ⟨mem.readInt16 tib, mem.readInt32 (tib + 2), mem.readInt32 (tib + 6)⟩

/-- One round of the loop in `exec_tib` goes on or returns. -/
inductive Outcome where
  | next (s : Manager) (tib : Word)
  | ret (r : Result) (s : Manager)

/-- The part that `scInc` and `scNoInc` share. -/
def transfer (s : Manager) (r : Range) (tib : Word) : Outcome :=
  match s.table.add vmBaseDiff r with
  | some table => .next { s with table := table } tib
  | none => .ret .sgFull s

def tibStep (s : Manager) (tib : Word) : Outcome :=
  let i := Instr.fetch s.mem tib
  let next := tib + 10
  match Op.decode i.cmd with
  | some .scInc =>
    transfer vmBaseDiff { s with mem := s.mem.writeInt32 (next - 8) (i.ptr + i.len) } ⟨i.ptr, i.len⟩
      next
  | some .scNoInc => transfer vmBaseDiff s ⟨i.ptr, i.len⟩ next
  | some .scAdd =>
    .next { s with mem := s.mem.writeInt32 i.ptr (s.mem.readInt32 i.ptr + i.len) } next
  | some .scMove => .next { s with mem := s.mem.writeInt32 i.len (s.mem.readInt32 i.ptr) } next
  | some .scLoop =>
    .next { s with mem := s.mem.writeInt32 (next - 4) (i.len - 1) }
      (if 0 < (i.len - 1).toNat then next + (i.ptr - 10) else next)
  | some .scNop => .next s next
  | some .scStop => .ret .noErr s
  | some .scComp => .ret .scCompareErr s
  | none => .ret .scBadParmsErr s

/-- `exec_tib`, or none when the block runs for more instructions than these. -/
def execTib : Nat → Manager → Word → Option (Result × Manager)
  | 0, _, _ => none
  | fuel + 1, s, tib =>
    match tibStep vmBaseDiff s tib with
    | .next s' tib' => execTib fuel s' tib'
    | .ret r s' => some (r, s')

-- ---------------------------------------------------------------------------
-- Entry points
-- ---------------------------------------------------------------------------

def scsiReset (s : Manager) : Result × Manager :=
  (.noErr, { s with
    phase := .free
    fakeStatus := 0x0000#16
    table := { s.table with entries := [] }
    targetId := 8 })

def scsiGet (s : Manager) : Result × Manager :=
  if s.phase ≠ .free then (.scMgrBusyErr, s)
  else (.noErr, { s with
    phase := .arbitrated
    fakeStatus := 0x0040#16
    reading := false
    table := .empty })

def busFree (s : Manager) : Manager := { s with phase := .free, fakeStatus := 0x0000#16 }

/-- `present` is the answer of `scsi_is_target_present`. -/
def scsiSelect (s : Manager) (id : Int) (present : Bool) : Result × Manager :=
  if s.phase ≠ .arbitrated then (.scSequenceErr, s)
  else if 0 ≤ id ∧ id ≤ 7 then
    let s := { s with targetId := id, host := s.host ++ [.isTargetPresent id present] }
    if present then (.noErr, { s with phase := .selected, fakeStatus := 0x006a#16 })
    else (.scCommErr, busFree s)
  else (.scCommErr, busFree s)

/-- `targetSet` is the answer of `scsi_set_target`. -/
def scsiCmd (s : Manager) (cmdLength : Int) (cmd : Nat → Byte) (targetSet : Bool) :
    Result × Manager :=
  if s.phase ≠ .selected then (.scPhaseErr, s)
  else if cmdLength ≠ 6 ∧ cmdLength ≠ 10 ∧ cmdLength ≠ 12 then (.scBadParmsErr, s)
  else
    let lun := (cmd 1 >>> 5) &&& 7#8
    let s := { s with
      host := s.host ++ [.setCmd ((List.range cmdLength.toNat).map cmd),
        .setTarget s.targetId lun targetSet] }
    if targetSet then (.noErr, { s with phase := .transfer, fakeStatus := 0x006e#16 })
    else (.scCommErr, busFree s)

def scsiRead (fuel : Nat) (s : Manager) (tib : Word) : Option (Result × Manager) :=
  if s.phase ≠ .transfer then some (.scPhaseErr, s)
  else execTib vmBaseDiff fuel { s with reading := true } tib

def scsiWrite (fuel : Nat) (s : Manager) (tib : Word) : Option (Result × Manager) :=
  if s.phase ≠ .transfer then some (.scPhaseErr, s)
  else execTib vmBaseDiff fuel s tib

/-- What `scsi_send_cmd` answers, and the memory it leaves. -/
structure SendAnswer where
  success : Bool
  stat : BitVec 16
  mem : Mem

def scsiComplete (s : Manager) (timeout message stat : Word) (answer : SendAnswer) :
    Result × Manager :=
  let s := { s with mem := s.mem.writeInt16 message 0 }
  if s.phase ≠ .transfer then (.scPhaseErr, s)
  else
    let s := { s with
      host := s.host ++ [.sendCmd s.table s.reading timeout]
      mem := answer.mem.writeInt16 stat answer.stat }
    (if answer.success then .noErr else .scCommErr, busFree s)

end SheepShear.Scsi
