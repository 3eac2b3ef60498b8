import SheepShear.Router.Tcp.Conn

/-!
# The tables of the TCP router and what can happen

`sockets` and `l_sockets` with the functions that search them, and the entries
of `tcp.cpp`: segments of the Mac, completion routines, and the events and
timeouts of the two threads. Each of them holds `tcp_section` from its start to
its end, so each is one step.
-/

namespace SheepShear.Router.Tcp

/-- The fields of `tcp_listening_socket_t`; `parent` is none for -1. -/
structure Listener where
  s : Option Nat := none
  port : Port := 0
  ip : Word := 0
  iface : Word := 0
  once : Bool := false
  parent : Option Index := none
deriving DecidableEq, Repr

structure State where
  sockets : Index → Conn
  lSockets : Index → Listener
  /-- The static variable of `alloc_socket`, none for -1. -/
  lastAllocatedSocket : Option Index
  /-- The static variable of `alloc_listen_socket`. -/
  lastListenSocket : Option Index
  /-- Whether memory in front of `sockets` was written. -/
  wild : Bool

variable (s : State)

/-- What a slot goes through. -/
def State.act (t : Index) (f : Conn → Conn) : State :=
  { s with sockets := Function.update s.sockets t (f (s.sockets t)) }

def State.setListener (i : Index) (l : Listener) : State :=
  { s with lSockets := Function.update s.lSockets i l }

-- ---------------------------------------------------------------------------
-- Slots
-- ---------------------------------------------------------------------------

/-- If there was an attached listening socket (ftp), close it. -/
def closeChild (t : Index) : State :=
  match (s.sockets t).child with
  | some i => s.setListener i { s.lSockets i with s := none, port := 0, parent := none }
  | none => s

def freeSocket (t : Index) : State := (closeChild s t).act t Conn.free

/-- The indices from the one after the last on, around the table. -/
def probes (last : Option Index) : List Index :=
  (List.finRange 64).map fun j => (last.elim 0 (· + 1)) + j

/-- Where the loop over the table leaves `i`. -/
def probe (last : Option Index) (free : Index → Bool) : Index :=
  ((probes last).find? free).getD ((last.elim 0 (· + 1)) + 63)

/-- `alloc_socket`. The test for exhaustion is made on the index that the loop leaves. -/
def allocSocket : Option Index × State :=
  let i := probe s.lastAllocatedSocket fun i => !(s.sockets i).inUse
  let s' : State :=
    if (s.sockets i).inUse then s else { s.act i Conn.alloc with lastAllocatedSocket := some i }
  if i.val = 64 then (none, s') else (some i, s')

def allocNewSocket (srcPort destPort : Port) (ipDest : Word) (h : Host) : Option Index × State :=
  match allocSocket s with
  | (none, s) => (none, s)
  | (some t, s) =>
    match h.socket with
    | none => (none, freeSocket (s.act t fun c => { c with s := none }) t)
    | some sock =>
      let s := s.act t fun c => c.bindNew sock srcPort destPort ipDest
      if h.bind then (some t, s) else (none, freeSocket s t)

/-- `get_socket_index` for both ports. -/
def getSocketIndex (srcPort destPort : Port) : Option Index :=
  (List.finRange 64).find? fun i =>
    (s.sockets i).inUse && (s.sockets i).srcPort = srcPort && (s.sockets i).destPort = destPort

/-- `get_socket_index` for the source port. -/
def getSocketIndexBySource (srcPort : Port) : Option Index :=
  (List.finRange 64).find? fun i => (s.sockets i).inUse && (s.sockets i).srcPort = srcPort

def findSocket (srcPort destPort : Port) : Option Index × State :=
  match getSocketIndex s srcPort destPort with
  | some i => (some i, s)
  | none =>
    match getSocketIndexBySource s srcPort with
    | some i =>
      if (s.sockets i).s = none then (none, s.act i fun c => { c with inUse := false })
      else (none, freeSocket s i)
    | none => (none, s)

-- ---------------------------------------------------------------------------
-- Listeners
-- ---------------------------------------------------------------------------

def allocListenSocket (port : Port) (ip iface : Word) (once : Bool) : Option Index × State :=
  match (probes s.lastListenSocket).find? fun i => (s.lSockets i).port = 0 with
  | none => (none, s)
  | some i =>
    let l := { s.lSockets i with port := port, ip := ip, iface := iface, once := once,
                                 parent := none }
    (some i, { s.setListener i l with lastListenSocket := some i })

/-- `tcp_start_listen`; a failure of `bind` or `listen` leaves the socket there. -/
def tcpStartListen (i : Index) (sock : Option Nat) : State :=
  if (s.lSockets i).port = 0 then s else s.setListener i { s.lSockets i with s := sock }

/-- The listener is closed; its port is free for another one. -/
def closeListener (i : Index) : State :=
  s.setListener i { s.lSockets i with s := none, port := 0, ip := 0, parent := none }

/-- The listener for the port of an FTP command of connection `t` with this host. -/
def openFtpListener (t : Index) (port : Port) (ip : Word) (h : Host) : Option Index × State :=
  match allocListenSocket s port ip 0 true with
  | (none, s) => (none, s)
  | (some i, s) =>
    let s := tcpStartListen s i h.listenSocket
    (some i, s.setListener i { s.lSockets i with parent := some t })

-- ---------------------------------------------------------------------------
-- Segments of the Mac
-- ---------------------------------------------------------------------------

variable (ftpPorts : List Port)

/-- What happens to the listeners when the data of a segment is in the write buffer of `c`, and the
local variable `lst` after it. -/
def listenersForData (t : Index) (c : Conn) (h : Host) : Option Index × State :=
  let port := c.ftpDataPort ftpPorts
  let r := if port = 0 then (some 1, s) else openFtpListener s t port c.ipDest h
  -- On error, close the ftp data listening socket if one was created.
  match h.send, r.1 with
  | false, some i => (r.1, closeListener r.2 i)
  | _, _ => r

/-- What happens to the listeners while the slot handles the segment. -/
def segmentListeners (t : Index) (seg : Segment) (h : Host) : Option Index × State :=
  let w := (s.sockets t).arrive seg h.now
  let s := if w.freed then closeChild s t else s
  if w.handleData && w.conn.takes seg then
    listenersForData s ftpPorts t (w.conn.fillWrite seg) h
  else (some 1, s)

/-- `write_tcp` for the slot of the segment. -/
def writeSegment (t : Index) (seg : Segment) (h : Host) : State :=
  if seg.flags.rst then freeSocket s t
  else
    let r := segmentListeners s ftpPorts t seg h
    r.2.act t fun c => c.writeTcp ftpPorts seg r.1 h

def writeTcp (seg : Segment) (h : Host) : State :=
  match findSocket s seg.srcPort seg.destPort with
  | (some t, s) => writeSegment s ftpPorts t seg h
  | (none, s) =>
    match allocNewSocket s seg.srcPort seg.destPort seg.ipDest h with
    | (some t, s) => writeSegment s ftpPorts t seg h
    | (none, s) => s

-- ---------------------------------------------------------------------------
-- Completions and events
-- ---------------------------------------------------------------------------

def tcpReadCompletion (t : Index) (error : Bool) (data : List Byte) (h : Host) : State :=
  let s := s.act t fun c => c.filled data
  if (s.sockets t).inUse = false then s
  else if error then freeSocket (s.act t fun c => c.tcpReply { rst := true }) t
  else s.act t fun c => c.readDone data h

/-- What `WSAEnumNetworkEvents` reports for a connection. -/
inductive NetworkEvents where
  | connect (error : Bool)
  | close
  | other
  | notSock
  | failed
deriving DecidableEq, Repr

/-- `tcp_connect_close_thread`, for the event of a slot. -/
def networkEvent (t : Index) (what : NetworkEvents) : State :=
  if (s.sockets t).inUse = false then s
  else
    match what with
    | .connect error => if error then s else s.act t Conn.tcpConnectCallback
    | .close => s.act t fun c => { c with remoteClosed := true }
    | .other => s
    | .notSock => s
    | .failed => freeSocket s t

/-- `tcp_connect_close_thread`, the timeouts of one slot. -/
def timeout (now : Word) (i : Index) : State :=
  let c := s.sockets i
  if c.inUse = false then s
  else if c.timeWait ≠ 0 then if c.timeWait ≤ now then freeSocket s i else s
  else if c.streamToMacStalledUntil ≠ 0 then
    if c.state = .established then
      if c.streamToMacStalledUntil ≤ now then s.act i fun c => c.resend now else s
    else s.act i fun c => { c with streamToMacStalledUntil := 0 }
  else s

def timeouts (now : Word) : State := (List.finRange 64).foldl (fun s i => timeout s now i) s

/-- A connection that `accept` returns. -/
structure Incoming where
  sock : Nat
  port : Port
  addr : Word
deriving DecidableEq, Repr

/-- `tcp_accept_callback`; without a slot `free_socket` is called with the index -1. -/
def tcpAcceptCallback (lst : Index) (incoming : Option Incoming) (h : Host) : State :=
  match incoming with
  | none => s
  | some r =>
    let l := s.lSockets lst
    if l.ip ≠ 0 ∧ l.ip ≠ r.addr then s
    else
      match allocNewSocket s l.port r.port r.addr h with
      | (none, s) => { s with wild := true }
      | (some t, s) => s.act t fun c => c.accepted r.sock l.port r.port r.addr h

/-- What `WSAEnumNetworkEvents` reports for a listener. -/
inductive ListenEvents where
  | accept (incoming : Option Incoming)
  | acceptError
  | other
  | failed
deriving DecidableEq, Repr

def handleAccept (lst : Index) (what : ListenEvents) (h : Host) : State :=
  match what with
  | .accept incoming => tcpAcceptCallback s lst incoming h
  | _ => s

/-- Once mode: the listener is closed after its event. -/
def closeOnce (lst : Index) : State :=
  if (s.lSockets lst).once then
    match (s.lSockets lst).parent with
    | some t => closeListener (s.act t fun c => { c with child := none }) lst
    | none => closeListener s lst
  else s

/-- `tcp_listen_thread`, for the event of a listener; it closes on errors too. -/
def listenEvent (lst : Index) (what : ListenEvents) (h : Host) : State :=
  closeOnce (handleAccept s lst what h) lst

inductive Event where
  | write (seg : Segment) (h : Host)
  | readCompletion (t : Index) (error : Bool) (data : List Byte) (h : Host)
  | writeCompletion (t : Index) (bytesWritten : Word) (h : Host)
  | network (t : Index) (what : NetworkEvents)
  | timer (now : Word)
  | listener (lst : Index) (what : ListenEvents) (h : Host)

def handle : Event → State
  | .write seg h => writeTcp s ftpPorts seg h
  | .readCompletion t error data h => tcpReadCompletion s t error data h
  | .writeCompletion t bytesWritten h => s.act t fun c => c.tcpWriteCompletion bytesWritten h
  | .network t what => networkEvent s t what
  | .timer now => timeouts s now
  | .listener lst what h => listenEvent s lst what h

def step (ftpPorts : List Port) (s : State) (e : Event) : Option State :=
  some (handle s ftpPorts e)

/-- `init_tcp`, before the ports of the preferences. -/
def State.init : State where
  sockets _ := {}
  lSockets _ := {}
  lastAllocatedSocket := none
  lastListenSocket := none
  wild := false

/-- The ports of the preferences, with the interface of each. -/
def initTcpListenPorts (ports : List (Port × Word)) : State :=
  ports.foldl
    (fun s p => if p.1 = 0 then s else (allocListenSocket s p.1 0 p.2 false).2) s

/-- The start of `tcp_listen_thread`, with the sockets that `socket` returns. -/
def startListening (socks : Index → Option Nat) : State :=
  (List.finRange 64).foldl (fun s i => tcpStartListen s i (socks i)) s

/-- The router as `init_tcp` starts it. -/
def State.start (ports : List (Port × Word)) (socks : Index → Option Nat) : State :=
  startListening (initTcpListenPorts State.init ports) socks

end SheepShear.Router.Tcp
