import SheepShear.Lib.SeqNum
import SheepShear.Slirp.SocketRuns

/-!
# Receiving a TCP stream

`slirp/tcp_input.c` from the trimming to the window up to the FIN, `tcp_reass`, and
the part of `tcp_output` that opens the window. The connection is established, the
segments carry no SYN, RST or urgent data, and the session is not emulated. What
the sending side of the connection decides is given.
-/

namespace SheepShear.Slirp

open Pieces SeqNum

/-- `t_state` from `TCPS_ESTABLISHED` on. -/
inductive TcpState where
  | established
  | closeWait
  | finWait1
  | closing
  | lastAck
  | finWait2
  | timeWait
deriving DecidableEq, Repr

/-- `TCPS_HAVERCVDFIN`. -/
def TcpState.haveRcvdFin (s : TcpState) : Bool := s = .timeWait

/-- The states after the FIN of the guest. -/
def TcpState.finReceived : TcpState → Bool
  | .closeWait | .closing | .lastAck | .timeWait => true
  | .established | .finWait1 | .finWait2 => false

/-- The state after `tcp_sockclosed`. -/
def TcpState.sockclosed : TcpState → TcpState
  | .established => .finWait1
  | .closeWait => .lastAck
  | s => s

/-- The state after the guest acknowledges the FIN; the last acknowledgement closes the
connection. -/
def TcpState.finAcked : TcpState → TcpState
  | .finWait1 => .finWait2
  | .closing => .timeWait
  | s => s

/-- A segment with its FIN flag; the offset is `ti_seq`. -/
abbrev Seg := Piece Seq Byte Bool

/-- `rcvd` and `adv` are the positions in the guest's stream that `rcv_nxt`, but for the FIN, and
`rcv_adv` stand for. `dropped` is set when data is freed because the host takes no more. -/
structure Rcv where
  conn : Conn
  tState : TcpState
  rcvNxt : Seq
  rcvAdv : Seq
  segs : List Seg
  rcvd : Nat
  adv : Nat
  dropped : Bool
deriving DecidableEq, Repr

/-- The position of `rcv_nxt`, the FIN counted. -/
def Rcv.next (s : Rcv) : Nat := s.rcvd + if s.conn.finished then 1 else 0

/-- A connection in the state `TCPS_ESTABLISHED`, with the number of the guest's first byte. -/
def Rcv.start (base : Seq) (sndspace rcvspace : List Byte) : Rcv :=
  ⟨.start sndspace rcvspace, .established, base, base, [], 0, 0, false⟩

-- ---------------------------------------------------------------------------
-- Reassembly
-- ---------------------------------------------------------------------------

/-- `sbappend` with the host's answer to an ordinary `send`. -/
def appendData (s : Rcv) (data : List Byte) (answer : Answer) : Except Fault Rcv := do
  let conn ← perform s.conn (.append data answer .again)
  return { s with conn := conn }

def advance (s : Rcv) (len : Nat) : Rcv :=
  { s with rcvNxt := shift s.rcvNxt len, rcvd := s.rcvd + len }

/-- Data for a socket that takes no more is freed. -/
def takeData (s : Rcv) (data : List Byte) (answer : Answer) : Except Fault Rcv :=
  if s.conn.so.state.fcantsendmore then .ok { s with dropped := true }
  else appendData s data answer

/-- The loop of `present`, with the FIN flag of the last segment presented. -/
def present (s : Rcv) (fin : Bool) : List Seg → List Answer → Except Fault (Rcv × Bool)
  | [], _ => return ({ s with segs := [] }, fin)
  | ti :: rest, answers => do
    if ti.off = s.rcvNxt then
      let s ← takeData (advance s ti.data.length) ti.data (answers.headD .again)
      present s ti.tag rest answers.tail
    else return ({ s with segs := ti :: rest }, fin)

/-- The result is the FIN flag. -/
def tcpReass (s : Rcv) (ti : Seg) (answers : List Answer) : Except Fault (Rcv × Bool) :=
  match Pieces.insert ti s.segs with
  | none => present s false s.segs answers
  | some segs => present s false segs answers

/-- The macro, with the common case inline. -/
def tcpReassMacro (s : Rcv) (ti : Seg) (answers : List Answer) : Except Fault (Rcv × Bool) := do
  if ti.off = s.rcvNxt ∧ s.segs = [] ∧ s.tState = .established then
    let s ← appendData (advance s ti.data.length) ti.data (answers.headD .again)
    return (s, ti.tag)
  else tcpReass s ti answers

-- ---------------------------------------------------------------------------
-- Segments
-- ---------------------------------------------------------------------------

/-- Data in front of the window is dropped, all of it with a FIN that was received before. -/
def trimFront (s : Rcv) (ti : Seg) : Seg :=
  let todrop := diff s.rcvNxt ti.off
  if todrop > 0 then
    if todrop > ti.data.length ∨ (todrop = ti.data.length ∧ ti.tag = false) then
      { ti.cut ti.data.length with tag := false }
    else ti.cut todrop.toNat
  else ti

def rcvWnd (s : Rcv) : Int := max (sbspace s.conn.so.rcv) (diff s.rcvAdv s.rcvNxt)

/-- Data behind the window is dropped with the FIN; none when the segment is dropped. -/
def trimBack (s : Rcv) (ti : Seg) : Option Seg :=
  let wnd := rcvWnd s
  let todrop := diff ti.stop (s.rcvNxt + BitVec.ofInt 32 wnd)
  if todrop > 0 then
    if todrop ≥ ti.data.length ∧ ¬(wnd = 0 ∧ ti.off = s.rcvNxt) then none
    else some { ti with
      data := ti.data.take ((ti.data.length : Int) - todrop).toNat, tag := false }
  else some ti

/-- The state after a FIN. -/
def TcpState.afterFin : TcpState → TcpState
  | .established => .closeWait
  | .finWait1 => .closing
  | .finWait2 => .timeWait
  | s => s

def receiveFin (s : Rcv) : Except Fault Rcv := do
  let s ← if s.tState.haveRcvdFin then pure s
    else do
      let conn ← perform s.conn .finish
      pure { s with conn := conn, rcvNxt := shift s.rcvNxt 1 }
  return { s with tState := s.tState.afterFin }

/-- From `dodata` on. -/
def doData (s : Rcv) (ti : Seg) (answers : List Answer) : Except Fault Rcv := do
  let (s, fin) ← if (ti.data ≠ [] ∨ ti.tag = true) ∧ s.tState.haveRcvdFin = false then
      tcpReassMacro s ti answers
    else pure (s, false)
  if fin then receiveFin s else return s

/-- Whether the header prediction takes the segment as the next data; `predicted` is what the
sending side contributes. -/
def predicts (s : Rcv) (ti : Seg) (predicted : Bool) : Prop :=
  predicted = true ∧ s.tState = .established ∧ ti.tag = false ∧ ti.off = s.rcvNxt ∧
    ti.data ≠ [] ∧ s.segs = [] ∧ ti.data.length ≤ sbspace s.conn.so.rcv

instance instDecidablePredicts (s : Rcv) (ti : Seg) (predicted : Bool) :
    Decidable (predicts s ti predicted) :=
  inferInstanceAs (Decidable (_ ∧ _ ∧ _ ∧ _ ∧ _ ∧ _ ∧ _))

def tcpInput (s : Rcv) (ti : Seg) (predicted : Bool) (answers : List Answer) : Except Fault Rcv :=
  if predicts s ti predicted then
    appendData (advance s ti.data.length) ti.data (answers.headD .again)
  else
    match trimBack s (trimFront s ti) with
    | none => return s
    | some ti => doData s ti answers

-- ---------------------------------------------------------------------------
-- The window
-- ---------------------------------------------------------------------------

def tcpMaxWin : Int := 65535

/-- The difference of two numbers as a `long`: unsigned where a `long` is wider than a word. -/
def longDiff (wide : Bool) (a b : Seq) : Int := if wide then (a - b).toNat else diff a b

/-- The window of an outgoing segment. -/
def outputWin (s : Rcv) (wide : Bool) (maxseg : Nat) : Int :=
  let win : Int := sbspace s.conn.so.rcv
  let win := if win < (s.conn.so.rcv.datalen / 4 : Nat) ∧ win < maxseg then 0 else win
  let win := if win > tcpMaxWin then tcpMaxWin else win
  let adv := longDiff wide s.rcvAdv s.rcvNxt
  if win < adv then adv else win

/-- `rcv_adv` is moved on when the segment advertises a larger window. -/
def tcpOutputWindow (s : Rcv) (wide : Bool) (maxseg : Nat) : Rcv :=
  let win := outputWin s wide maxseg
  let edge := s.rcvNxt + BitVec.ofInt 32 win
  if win > 0 ∧ diff edge s.rcvAdv > 0 then
    { s with
      rcvAdv := edge
      adv := s.next + win.toNat }
  else s

end SheepShear.Slirp
