import SheepShear.Lib.Bytes
import SheepShear.Lib.Steps

/-!
# The UDP sockets of the IP router

`ipsocket.cpp` and `udp.cpp`: the table of sockets and the reads that are
outstanding on them. A socket object is known by a number and belongs to the
table and to its outstanding read; objects that were deleted, and calls of the
completion routine for such an object, are recorded. `write_udp` and the
completion routine run in one thread, and the rest in critical sections, so each
call is one step.
-/

namespace SheepShear.Router

abbrev Port := BitVec 16

inductive Proto where
  | udp
  | icmp
deriving DecidableEq, Repr

/-- `s` is whether there is a socket of the system. -/
structure SocketT where
  s : Bool
  permanent : Bool
  proto : Proto
  ipSrc : Word
  ipDest : Word
  srcPort : Port
  destPort : Port
  socketTtl : Word
deriving DecidableEq, Repr

/-- A datagram of the Mac, and one for it. -/
structure Datagram where
  ipSrc : Word
  ipDest : Word
  srcPort : Port
  destPort : Port
  data : List Byte
deriving DecidableEq, Repr

structure Sockets where
  heap : Nat → Option SocketT
  next : Nat
  /-- `all_sockets`, up to `open_sockets`. -/
  table : List Nat
  shuttingDown : Bool
  /-- The outstanding reads. -/
  pending : List Nat
  deleted : List Nat
  /-- The sockets that `closesocket` was called for, last first. -/
  closed : List Nat
  /-- Calls of the completion routine for deleted objects. -/
  stale : List Nat
  /-- What each socket was last used to send. -/
  used : Nat → Option Datagram
  /-- The datagrams for the Mac, last first. -/
  forwarded : List Datagram

def Sockets.start : Sockets where
  heap _ := none
  next := 0
  table := []
  shuttingDown := false
  pending := []
  deleted := []
  closed := []
  stale := []
  used _ := none
  forwarded := []

def maxOpenSockets : Nat := 1024

def lifetime : Word := 60000

-- ---------------------------------------------------------------------------
-- The table
-- ---------------------------------------------------------------------------

/-- The last entry takes the place of the one at `i`. -/
def swapRemove (xs : List Nat) (i : Nat) : List Nat :=
  match xs.getLast? with
  | none => xs
  | some last => (xs.set i last).dropLast

/-- `get_socket_index` for a source and a destination port. -/
def getSocketIndex (s : Sockets) (srcPort destPort : Port) (proto : Proto) : Option Nat :=
  s.table.findIdx? fun o =>
    (s.heap o).any fun x => x.srcPort = srcPort && x.destPort = destPort && x.proto = proto

/-- `get_socket_index` for a source port. -/
def getSocketIndexBySource (s : Sockets) (srcPort : Port) (proto : Proto) : Option Nat :=
  s.table.findIdx? fun o => (s.heap o).any fun x => x.srcPort = srcPort && x.proto = proto

/-- `delete`, which also closes the socket of the system. -/
def destroy (s : Sockets) (o : Nat) : Sockets :=
  { s with heap := Function.update s.heap o none, deleted := o :: s.deleted }

def deleteSocket (s : Sockets) (o : Nat) : Sockets :=
  match s.table.idxOf? o with
  | some i => { destroy s o with table := swapRemove s.table i }
  | none => s

/-- `find_socket` makes room for a new socket with the source port. -/
def findSocket (s : Sockets) (srcPort destPort : Port) (proto : Proto) : Option Nat × Sockets :=
  match getSocketIndex s srcPort destPort proto with
  | some i => (s.table[i]?, s)
  | none =>
    match getSocketIndexBySource s srcPort proto with
    | some i =>
      match s.table[i]? with
      | some o => (none, deleteSocket s o)
      | none => (none, s)
    | none => (none, s)

def addSocket (s : Sockets) (o : Nat) : Sockets :=
  if s.table.length < maxOpenSockets then { s with table := s.table ++ [o] }
  else
    match s.table.head? with
    | some first => { destroy s first with table := s.table.set 0 o }
    | none => s

/-- `closesocket`; the completion of the read deallocates the object. -/
def closeSocket (s : Sockets) (o : Nat) : Sockets := { s with closed := o :: s.closed }

/-- What both loops do with an entry that is to be closed. -/
def closeEntry (s : Sockets) (i o : Nat) (x : SocketT) : Sockets :=
  if x.s then closeSocket s o else { destroy s o with table := swapRemove s.table i }

/-- The loop of `close_old_sockets`, from entry `i - 1` down. -/
def closeOldFrom (now : Word) : (i : Nat) → Sockets → Sockets
  | 0, s => s
  | i + 1, s =>
    match s.table[i]? with
    | none => closeOldFrom now i s
    | some o =>
      match s.heap o with
      | none => closeOldFrom now i s
      | some x =>
        closeOldFrom now i (if !x.permanent && x.socketTtl ≤ now then closeEntry s i o x else s)

def closeOldSockets (now : Word) (s : Sockets) : Sockets := closeOldFrom now s.table.length s

/-- The loop of `close_all_sockets`, from entry `i` up; every round takes an entry, so there are at
most as many as entries. -/
def closeAllFrom : (rounds i : Nat) → Sockets → Sockets
  | 0, _, s => s
  | rounds + 1, i, s =>
    match s.table[i]? with
    | none => s
    | some o =>
      match s.heap o with
      | none => closeAllFrom rounds (i + 1) s
      | some x => closeAllFrom rounds (i + 1) (closeEntry s i o x)

def closeAllSockets (s : Sockets) : Sockets := closeAllFrom s.table.length 0 s

-- ---------------------------------------------------------------------------
-- Datagrams
-- ---------------------------------------------------------------------------

/-- What the system answers during a call. -/
structure Answers where
  socket : Bool
  sendto : Bool
  recvFrom : Bool
  tickCount : Word

def addRead (s : Sockets) (o : Nat) : Sockets := { s with pending := o :: s.pending }

/-- `b_recfrom`, with its result. -/
def bRecfrom (ans : Answers) (s : Sockets) (o : Nat) : Bool × Sockets :=
  if ans.recvFrom then (true, addRead s o) else (false, s)

/-- A store into an object. -/
def modifySocket (s : Sockets) (o : Nat) (f : SocketT → SocketT) : Sockets :=
  { s with heap := Function.update s.heap o ((s.heap o).map f) }

def setTtl (s : Sockets) (o : Nat) (now : Word) : Sockets :=
  modifySocket s o fun x => { x with socketTtl := now + lifetime }

/-- The constructor of `socket_t` and the call of `socket`. -/
def newSocket (ans : Answers) (s : Sockets) (d : Datagram) : Option Nat × Sockets :=
  let o := s.next
  if ans.socket then
    let x : SocketT := ⟨true, false, .udp, 0, 0, d.srcPort, d.destPort, ans.tickCount + lifetime⟩
    let s := { s with next := s.next + 1, heap := Function.update s.heap o (some x) }
    (some o, addSocket s o)
  else (none, { s with next := s.next + 1, deleted := o :: s.deleted })

/-- `write_udp` stores the addresses of the datagram. -/
def markUsed (s : Sockets) (o : Nat) (d : Datagram) : Sockets :=
  { modifySocket s o fun x =>
      { x with srcPort := d.srcPort, destPort := d.destPort, ipSrc := d.ipSrc, ipDest := d.ipDest } with
    used := Function.update s.used o (some d) }

/-- The second half of `write_udp`; an error of `sendto` is also reported to the Mac by ICMP. -/
def sendOn (ans : Answers) (s : Sockets) (o : Nat) (old : Bool) (d : Datagram) : Sockets :=
  let s := markUsed s o d
  if ans.sendto then
    let (ok, s) := if old then (true, s) else bRecfrom ans s o
    let s := setTtl s o ans.tickCount
    if ok then s else deleteSocket s o
  else deleteSocket s o

/-- `write_udp` for a datagram with a whole header. -/
def writeUdp (ans : Answers) (s : Sockets) (d : Datagram) : Sockets :=
  match findSocket s d.srcPort d.destPort .udp with
  | (some o, s) => sendOn ans s o true d
  | (none, s) =>
    match newSocket ans s d with
    | (none, s) => s
    | (some o, s) => sendOn ans s o false d

/-- The datagram for the Mac that a read gives. -/
def reply (x : SocketT) (data : List Byte) : Datagram :=
  ⟨x.ipDest, x.ipSrc, x.destPort, x.srcPort, data⟩

/-- `udp_read_completion`, with no data when there was an error. -/
def udpReadCompletion (ans : Answers) (s : Sockets) (o : Nat) (data : Option (List Byte)) : Sockets :=
  let s := { s with pending := s.pending.erase o }
  match s.heap o with
  | none => { s with stale := o :: s.stale }
  | some x =>
    let s :=
      match data with
      | some bytes =>
        if 0 < bytes.length ∧ bytes.length ≤ 1460 then
          { s with forwarded := reply x bytes :: s.forwarded }
        else s
      | none => s
    if !s.shuttingDown && x.s && ans.recvFrom then
      setTtl (addRead s o) o ans.tickCount
    else deleteSocket s o

inductive Op where
  | writeUdp (ans : Answers) (d : Datagram)
  | completion (ans : Answers) (o : Nat) (data : Option (List Byte))
  | closeOld (now : Word)
  | closeAll
  | shutDown

/-- A completion routine is called for an outstanding read. -/
def step (s : Sockets) : Op → Option Sockets
  | .writeUdp ans d => some (writeUdp ans s d)
  | .completion ans o data => if o ∈ s.pending then some (udpReadCompletion ans s o data) else none
  | .closeOld now => some (closeOldSockets now s)
  | .closeAll => some (closeAllSockets s)
  | .shutDown => some { s with shuttingDown := true }

end SheepShear.Router
