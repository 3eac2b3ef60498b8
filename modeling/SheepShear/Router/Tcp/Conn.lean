import SheepShear.Router.Ftp
import SheepShear.Router.Sockets

/-!
# A TCP connection of the IP router

`tcp.cpp`: a slot of `sockets` and what the functions of the router do with it.
The Mac and the remote host each talk to the router, which speaks TCP with the
Mac and uses sockets of the system for the other side. Each slot keeps a log of
what was done on it; the answers of the system are arguments.
-/

namespace SheepShear.Router.Tcp

/-- An index of `sockets` or of `l_sockets`; both have `MAX_SOCKETS` entries. -/
abbrev Index := Fin 64

inductive TcpState where
  | closed
  | listen
  | synSent
  | synRcvd
  | established
  | closeWait
  | lastAck
  | finwait1
  | finwait2
  | closing
  | timeWait
deriving DecidableEq, Repr

structure Flags where
  ack : Bool := false
  psh : Bool := false
  rst : Bool := false
  syn : Bool := false
  fin : Bool := false
deriving DecidableEq, Repr

/-- A segment of the Mac, or one for it. `mss` is what `process_options` finds in the options, 0 for
none; the router itself sends no options. -/
structure Segment where
  ipSrc : Word
  ipDest : Word
  srcPort : Port
  destPort : Port
  seq : Word
  ack : Word
  flags : Flags
  window : BitVec 16
  mss : BitVec 16 := 0
  data : List Byte := []
deriving DecidableEq, Repr

/-- What happens on a slot. -/
inductive Action where
  | allocated
  | freed
  /-- An assignment to `state` outside `free_socket`. -/
  | moved (old new : TcpState)
  | fromMac (seg : Segment)
  /-- `tcp_reply`. -/
  | replied (seg : Segment)
  /-- `send_buffer`. -/
  | delivered (resending : Bool) (seg : Segment)
  /-- The bytes a call of `WSASend` gets, and whether it has started. -/
  | wsaSend (bytes : List Byte) (started : Bool)
  /-- The bytes that `WSASend` reports as sent. -/
  | wrote (bytes : List Byte)
  /-- The read buffer is handed to `WSARecv`. -/
  | wsaRecv (started : Bool)
  /-- `WSARecv` completes with these bytes. -/
  | received (bytes : List Byte)
deriving DecidableEq, Repr

/-- The fields of `tcp_socket_t`; `s` is none for `INVALID_SOCKET`, `child` for -1. The address of
the remote host for `WSAConnect` is in `fromPort` and `fromAddr`. -/
structure Slot where
  s : Option Nat := none
  state : TcpState := .closed
  ipSrc : Word := 0
  ipDest : Word := 0
  srcPort : Port := 0
  destPort : Port := 0
  fromPort : Port := 0
  fromAddr : Word := 0
  /-- What was read into the buffer of `buffers_read`. -/
  readBuf : List Byte := []
  /-- `buffers_read[0].len`. -/
  readLen : Word := 0
  bytesReceived : Word := 0
  /-- What was put into the buffer of `buffers_write`. -/
  writeBuf : List Byte := []
  /-- `buffers_write[0].len`. -/
  writeLen : Word := 0
  remoteClosed : Bool := false
  acceptMoreDataFromMac : Bool := false
  seqIn : Word := 0
  seqOut : Word := 0
  macAck : Word := 0
  bytesToSend : Word := 0
  bytesRemainingToSend : Word := 0
  macWindow : BitVec 16 := 0
  ourWindow : BitVec 16 := 0
  macMss : BitVec 16 := 0
  lastSeqOut : Word := 0
  resendTimeout : Word := 0
  streamToMacStalledUntil : Word := 0
  timeWait : Word := 0
  msl : Word := 0
  child : Option Index := none
  inUse : Bool := false
deriving DecidableEq, Repr

/-- A slot with its log. -/
structure Conn extends Slot where
  log : List Action := []
deriving DecidableEq, Repr

inductive RecvAnswer where
  | pending
  | done (bytes : Word)
  | failed
deriving DecidableEq, Repr

/-- What the calls of the system return while an event is handled. -/
structure Host where
  /-- `GetTickCount`. -/
  now : Word := 0
  /-- `socket`, for a connection. -/
  socket : Option Nat := none
  /-- Whether `bind` succeeds, for a connection. -/
  bind : Bool := true
  /-- `socket`, for a listener. -/
  listenSocket : Option Nat := none
  /-- Whether `WSASend` starts. -/
  send : Bool := true
  recv : RecvAnswer := .pending
  /-- The local address of a connection, from `getsockname`. -/
  name : Word := 0
  /-- `macos_ip_address`. -/
  macosIpAddress : Word := 0
  isRouterShuttingDown : Bool := false

def maxSegmentSize : Nat := 1460

def resendTimeout : Word := 750

def synFloodProtectionTimeout : Word := 5000

variable (c : Conn)

def Conn.emit (a : Action) : Conn := { c with log := c.log ++ [a] }

/-- An assignment to `state`. -/
def Conn.enter (state : TcpState) : Conn :=
  { c with state := state, log := c.log ++ [.moved c.state state] }

-- ---------------------------------------------------------------------------
-- Slots
-- ---------------------------------------------------------------------------

/-- `free_socket`, as far as the slot goes. -/
def Conn.free : Conn :=
  { c with s := none, state := .closed, streamToMacStalledUntil := 0, inUse := false,
           timeWait := 0, child := none, log := c.log ++ [.freed] }

/-- What `alloc_socket` does with the slot it picks. -/
def Conn.alloc : Conn :=
  { c with inUse := true, s := none, state := .closed, remoteClosed := false,
           acceptMoreDataFromMac := false, ipSrc := 0, ipDest := 0, bytesReceived := 0,
           readLen := BitVec.ofNat 32 maxSegmentSize, writeLen := BitVec.ofNat 32 maxSegmentSize,
           macWindow := BitVec.ofNat 16 maxSegmentSize, ourWindow := BitVec.ofNat 16 maxSegmentSize,
           macMss := 0, timeWait := 0, msl := 5000, seqIn := 0, seqOut := 1, macAck := 0,
           streamToMacStalledUntil := 0, resendTimeout := resendTimeout, child := none,
           log := c.log ++ [.allocated, .moved c.state .closed] }

/-- What `alloc_new_socket` stores for a new socket of the system. -/
def Conn.bindNew (s : Nat) (srcPort destPort : Port) (ipDest : Word) : Conn :=
  { c with s := some s, srcPort := srcPort, destPort := destPort, fromPort := destPort,
           fromAddr := ipDest }

-- ---------------------------------------------------------------------------
-- Segments for the Mac
-- ---------------------------------------------------------------------------

def Conn.segment (flags : Flags) (data : List Byte) : Segment where
  ipSrc := c.ipDest
  ipDest := c.ipSrc
  srcPort := c.destPort
  destPort := c.srcPort
  seq := c.seqOut
  ack := c.seqIn
  flags := flags
  window := c.ourWindow
  data := data

def Conn.tcpReply (flags : Flags) : Conn := c.emit (.replied (c.segment flags []))

def Conn.hasMacReadSpace : Bool := c.seqOut - c.macAck = 0

def Conn.bRecfrom (h : Host) : Conn :=
  if c.hasMacReadSpace then
    match h.recv with
    | .pending => c.emit (.wsaRecv true)
    | .done bytes => { c with bytesReceived := bytes }.emit (.wsaRecv true)
    | .failed => c.emit (.wsaRecv false)
  else { c with streamToMacStalledUntil := h.now + c.resendTimeout }

def Conn.bSend (h : Host) : Conn := c.emit (.wsaSend (c.writeBuf.take c.writeLen.toNat) h.send)

/-- The bytes of the read buffer for the Mac. -/
def Conn.readData : List Byte := c.readBuf.take c.bytesReceived.toNat

/-- The segment that `send_buffer` sends. -/
def Conn.dataSegment : Segment :=
  c.segment { ack := true, psh := c.bytesReceived ≠ BitVec.ofNat 32 maxSegmentSize } c.readData

def Conn.sendBuffer (resending : Bool) : Conn :=
  if resending then
    if c.lastSeqOut = 0 then c
    else
      let c : Conn := { c with seqOut := c.lastSeqOut }
      { c with seqOut := c.seqOut + c.bytesReceived,
               log := c.log ++ [.delivered true c.dataSegment] }
  else
    let c : Conn := { c with lastSeqOut := c.seqOut }
    { c with seqOut := c.seqOut + c.bytesReceived,
             log := c.log ++ [.delivered false c.dataSegment] }

-- ---------------------------------------------------------------------------
-- Completions
-- ---------------------------------------------------------------------------

/-- A reply, its sequence number and the state after it. -/
def Conn.replyAndEnter (flags : Flags) (state : TcpState) : Conn :=
  { c.tcpReply flags with seqOut := c.seqOut + 1 }.enter state

/-- The state switch of `tcp_read_completion`. -/
def Conn.readSwitch (data : List Byte) (now : Word) : Conn :=
  match c.state with
  | .synRcvd => if data = [] then c.replyAndEnter { ack := true, fin := true } .finwait1 else c
  | .established => if data = [] then c.replyAndEnter { ack := true, fin := true } .finwait1 else c
  | .listen =>
    { c.replyAndEnter { syn := true } .synSent with
      timeWait := now + synFloodProtectionTimeout }
  | .closeWait =>
    if data = [] then
      let c := c.replyAndEnter { ack := true, fin := true } .lastAck
      if c.remoteClosed then { c with s := none } else c
    else c
  | _ => c

/-- The system has put the bytes into the buffer. -/
def Conn.filled (data : List Byte) : Conn :=
  { c with bytesReceived := BitVec.ofNat 32 data.length,
           readBuf := data ++ c.readBuf.drop data.length }

/-- The data goes to the Mac; without data the remote host has closed the connection. -/
def Conn.passOn (data : List Byte) : Conn :=
  if data = [] then { c with s := none } else (c.emit (.received data)).sendBuffer false

/-- `tcp_read_completion` for a slot in use, without an error. -/
def Conn.readDone (data : List Byte) (h : Host) : Conn :=
  let c := (c.passOn data).readSwitch data h.now
  if h.isRouterShuttingDown = false ∧ c.s.isSome ∧ c.state ≠ .listen then c.bRecfrom h else c

/-- `tcp_write_completion`. -/
def Conn.tcpWriteCompletion (bytesWritten : Word) (h : Host) : Conn :=
  let c := { c with bytesRemainingToSend := c.bytesRemainingToSend - bytesWritten }.emit
    (.wrote (c.writeBuf.take bytesWritten.toNat))
  if c.inUse = false then c
  else if h.isRouterShuttingDown ∨ c.s = none then c
  else if c.bytesRemainingToSend = 0 then
    let c : Conn := { c with seqIn := c.seqIn + c.bytesToSend, bytesToSend := 0,
                             bytesRemainingToSend := 0 }
    { c.tcpReply { ack := true } with acceptMoreDataFromMac := true }
  else
    { c with writeLen := c.bytesRemainingToSend,
             writeBuf := c.writeBuf.drop bytesWritten.toNat }.bSend h

def Conn.tcpConnectCallback : Conn :=
  match c.state with
  | .listen => c.replyAndEnter { syn := true, ack := true } .synRcvd
  | _ => c

/-- What `tcp_accept_callback` does with a new slot. -/
def Conn.accepted (s : Nat) (srcPort destPort : Port) (ipDest : Word) (h : Host) : Conn :=
  let c := { c with s := some s }.enter .listen
  let c : Conn := { c with srcPort := srcPort, destPort := destPort, ipSrc := h.macosIpAddress,
                           ipDest := ipDest, seqOut := 1, seqIn := 0, macAck := 1 }
  { c.replyAndEnter { syn := true } .synSent with timeWait := h.now + synFloodProtectionTimeout }

/-- The resend timeout. -/
def Conn.resend (now : Word) : Conn :=
  { c with streamToMacStalledUntil := now + c.resendTimeout }.sendBuffer true

-- ---------------------------------------------------------------------------
-- Segments of the Mac
-- ---------------------------------------------------------------------------

/-- The fields that every segment updates. -/
def Conn.receive (seg : Segment) : Conn :=
  let c : Conn := { c with macWindow := seg.window }
  let c : Conn :=
    if seg.flags.syn ∧ seg.mss ≠ 0 then
      { c with macMss := seg.mss,
               readLen := if seg.mss.setWidth 32 < c.readLen then seg.mss.setWidth 32
                 else c.readLen }
    else c
  { c with macAck := seg.ack, log := c.log ++ [.fromMac seg] }

/-- Whether a stalled read can go on. -/
def Conn.resumes : Bool :=
  c.streamToMacStalledUntil ≠ 0 && c.macAck = c.seqOut &&
    (c.state = .established || c.state = .closeWait) && c.hasMacReadSpace

/-- A stalled read that can go on is not stalled any more. -/
def Conn.unstall : Conn := if c.resumes then { c with streamToMacStalledUntil := 0 } else c

/-- What the state switch of `write_tcp` comes to. -/
structure Switched where
  conn : Conn
  freed : Bool := false
  handleData : Bool := false
  initiateRead : Bool := false

/-- The FIN of the Mac is acknowledged. -/
def Conn.ackFin : Conn := { c with seqIn := c.seqIn + 1 }.tcpReply { ack := true }

/-- The socket is closed if the remote host has closed its side, else shut down. -/
def Conn.closeOrShutdown : Conn := if c.remoteClosed then { c with s := none } else c

def Conn.enterTimeWait (now : Word) : Conn :=
  { c.enter .timeWait with timeWait := now + 2 * c.msl }

/-- The state switch of `write_tcp`. -/
def Conn.stateSwitch (seg : Segment) (now : Word) : Switched :=
  let f := seg.flags
  match c.state with
  | .closed =>
    let c : Conn := { c with srcPort := seg.srcPort, destPort := seg.destPort, ipSrc := seg.ipSrc,
                             ipDest := seg.ipDest }
    if f.syn then
      ⟨{ c with seqOut := 1, seqIn := seg.seq + 1 }.enter .listen, false, false, false⟩
    else ⟨c, true, false, false⟩
  | .listen => ⟨c, false, false, false⟩
  | .synSent =>
    if f.syn ∧ f.ack then
      let c : Conn := { c with seqIn := seg.seq + 1 }
      ⟨{ (c.tcpReply { ack := true }).enter .established with
          acceptMoreDataFromMac := true, timeWait := 0 }, false, false, true⟩
    else if f.syn then
      let c : Conn := { c with seqIn := seg.seq + 1 }
      ⟨{ c.replyAndEnter { ack := true, syn := true } .synRcvd with timeWait := 0 },
        false, false, false⟩
    else if f.ack then
      -- What was the bright idea here.
      ⟨{ c.enter .finwait2 with timeWait := 0 }, false, false, false⟩
    else ⟨c, false, false, false⟩
  | .synRcvd =>
    if f.ack then
      ⟨{ c.enter .established with acceptMoreDataFromMac := true }, false, true, true⟩
    else ⟨c, false, false, false⟩
  | .established =>
    if f.fin then ⟨c.ackFin.enter .closeWait, false, true, false⟩ else ⟨c, false, true, false⟩
  | .closeWait => ⟨c, false, false, false⟩
  | .lastAck => ⟨c, f.ack, false, false⟩
  | .finwait1 =>
    if f.fin ∧ f.ack then ⟨c.ackFin.closeOrShutdown.enterTimeWait now, false, false, false⟩
    else if f.fin then ⟨c.ackFin.closeOrShutdown.enter .closing, false, false, false⟩
    else if f.ack then ⟨c.enter .finwait2, false, false, false⟩
    else ⟨c, false, false, false⟩
  | .finwait2 =>
    if f.fin then ⟨c.ackFin.closeOrShutdown.enterTimeWait now, false, false, false⟩
    else ⟨c, false, false, false⟩
  | .closing =>
    if f.ack then ⟨c.enterTimeWait now, false, false, false⟩ else ⟨c, false, false, false⟩
  | .timeWait => ⟨c, false, false, false⟩

/-- Whether the data of the segment is taken. -/
def Conn.takes (seg : Segment) : Bool :=
  seg.data ≠ [] && c.acceptMoreDataFromMac && c.seqIn = seg.seq

/-- The data is put into the write buffer. -/
def Conn.fillWrite (seg : Segment) : Conn :=
  let data := seg.data.take maxSegmentSize
  { c with acceptMoreDataFromMac := false, writeBuf := data,
           writeLen := BitVec.ofNat 32 data.length,
           bytesRemainingToSend := BitVec.ofNat 32 data.length,
           bytesToSend := BitVec.ofNat 32 data.length }

def ftpIsFtpPort (ftpPorts : List Port) (port : Port) : Bool := ftpPorts.contains port

/-- Whether the local host is the server. -/
def Conn.isPasv (ftpPorts : List Port) : Bool := ftpIsFtpPort ftpPorts c.srcPort

/-- The port of an FTP command in the write buffer, 0 for none. -/
def Conn.ftpDataPort (ftpPorts : List Port) : Port :=
  if ftpIsFtpPort ftpPorts c.srcPort then ftpParsePortCommand c.writeBuf true
  else if ftpIsFtpPort ftpPorts c.destPort then ftpParsePortCommand c.writeBuf false
  else 0

/-- The listener becomes the child of the connection, and the command is replaced. -/
def Conn.patchFtp (ftpPorts : List Port) (lst : Index) (h : Host) : Conn :=
  let text := ftpModifyPortCommand h.name (c.ftpDataPort ftpPorts) (c.isPasv ftpPorts)
  -- `bytes_to_send` stays, it is used for the acknowledgement.
  { c with child := some lst, writeBuf := text, writeLen := BitVec.ofNat 32 text.length,
           bytesRemainingToSend := BitVec.ofNat 32 text.length }

/-- The data is handed to `WSASend`; `lst` is the local variable of `write_tcp` after the FTP patch.
-/
def Conn.takeData (ftpPorts : List Port) (seg : Segment) (lst : Option Index) (h : Host) : Conn :=
  let c := c.fillWrite seg
  let c :=
    match lst with
    | some lst => if c.ftpDataPort ftpPorts ≠ 0 then c.patchFtp ftpPorts lst h else c
    | none => c
  let c := c.bSend h
  if h.send = false ∧ lst.isSome then { c with child := none } else c

/-- The segment up to the state switch. -/
def Conn.arrive (seg : Segment) (now : Word) : Switched :=
  let c := c.receive seg
  let w := c.unstall.stateSwitch seg now
  { w with conn := if w.freed then w.conn.free else w.conn
           initiateRead := c.resumes || w.initiateRead }

/-- The segment up to the read. -/
def Conn.handleSegment (ftpPorts : List Port) (seg : Segment) (lst : Option Index) (h : Host) : Conn :=
  let w := c.arrive seg h.now
  if w.handleData && w.conn.takes seg then w.conn.takeData ftpPorts seg lst h else w.conn

/-- `write_tcp` for the slot of the segment, unless the segment has RST. -/
def Conn.writeTcp (ftpPorts : List Port) (seg : Segment) (lst : Option Index) (h : Host) : Conn :=
  let c' := c.handleSegment ftpPorts seg lst h
  if (c.arrive seg h.now).initiateRead then c'.bRecfrom h else c'

end SheepShear.Router.Tcp
