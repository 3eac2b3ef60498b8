import SheepShear.Slirp.Sbuf

/-!
# Sockets and their buffers

`slirp/socket.c` and `sbappend` of `sbuf.c`: what the guest sends goes through
`so_rcv` to the socket of the host, and what comes from the socket goes into
`so_snd`. The host answers each call of `send` and `recv`, and the directions that
were shut down are noted with the number of bytes sent by then. Calls of
`tcp_sockclosed` follow a result of -1.
-/

namespace SheepShear.Slirp

open Buffer WrapRing

/-- `so_state`. -/
structure SoState where
  nofdref : Bool
  isfconnecting : Bool
  isfconnected : Bool
  fcantrcvmore : Bool
  fcantsendmore : Bool
  fwdrain : Bool
deriving DecidableEq, Repr

inductive Direction where
  | receive
  | send
deriving DecidableEq, Repr

structure Socket where
  urgc : Nat
  state : SoState
  rcv : Sbuf
  snd : Sbuf
  /-- What the host took and gave. -/
  sent : List Byte
  received : List Byte
  shut : List (Direction × Nat)
deriving DecidableEq, Repr

/-- What `send` answers; `again` is -1 with `EAGAIN` or `EINTR`. -/
inductive Answer where
  | count (n : Nat)
  | again
  | failed
deriving DecidableEq, Repr

/-- What `recv` finds. -/
inductive Input where
  | bytes (xs : List Byte)
  | again
  | failed
deriving DecidableEq, Repr

def send (a : Answer) (bytes : List Byte) : Int × List Byte :=
  match a with
  | .count n => ((bytes.take n).length, bytes.take n)
  | .again | .failed => (-1, [])

def recv (a : Input) (len : Nat) : Int × List Byte :=
  match a with
  | .bytes xs => ((xs.take len).length, xs.take len)
  | .again | .failed => (-1, [])

-- ---------------------------------------------------------------------------
-- The states of a session
-- ---------------------------------------------------------------------------

/-- `SS_NOFDREF` and nothing else. -/
def SoState.gone : SoState := ⟨true, false, false, false, false, false⟩

def soisfconnecting (so : Socket) : Socket :=
  { so with state := { so.state with
      nofdref := false, isfconnected := false, fcantrcvmore := false, fcantsendmore := false,
      fwdrain := false, isfconnecting := true } }

def soisfconnected (so : Socket) : Socket :=
  { so with state := { so.state with
      isfconnecting := false, fwdrain := false, nofdref := false, isfconnected := true } }

def shutdown (so : Socket) (d : Direction) : Socket :=
  { so with shut := so.shut ++ [(d, so.sent.length)] }

def sofcantrcvmore (so : Socket) : Socket :=
  let so := if so.state.nofdref then so else shutdown so .receive
  { so with state :=
      if so.state.fcantsendmore then .gone
      else { so.state with isfconnecting := false, fcantrcvmore := true } }

def sofcantsendmore (so : Socket) : Socket :=
  let so := if so.state.nofdref then so else shutdown so .send
  { so with state :=
      if so.state.fcantrcvmore then .gone
      else { so.state with isfconnecting := false, fcantsendmore := true } }

def sofwdrain (so : Socket) : Socket :=
  if so.rcv.cc ≠ 0 then { so with state := { so.state with fwdrain := true } }
  else sofcantsendmore so

-- ---------------------------------------------------------------------------
-- To the host
-- ---------------------------------------------------------------------------

/-- The pointer and the count are moved by what a call returned, which may be -1. -/
def Sbuf.consumed (sb : Sbuf) (n : Int) : Except Fault Sbuf :=
  let rptr := (sb.rptr : Int) + n
  if rptr < 0 then .error .outside
  else .ok { sb with
    cc := (((sb.cc : Int) - n) % (uintSize : Int)).toNat
    rptr := wrap sb.datalen rptr.toNat }

/-- The size of the buffer that urgent data is put together in. -/
def oobSize : Nat := 2048

/-- The urgent bytes, and how many of them are left when they were put together first. -/
def urgentBytes (sb : Sbuf) (urgc : Nat) : Except Fault (List Byte × Option Nat) := do
  if sb.rptr < sb.wptr then
    let bytes ← read .outside sb.data sb.rptr urgc
    return (bytes, none)
  else
    let len := min (sb.datalen - sb.rptr) urgc
    let first ← read .outside sb.data sb.rptr len
    let urgc := urgc - len
    if urgc ≠ 0 then
      let n := min sb.wptr urgc
      let rest ← read .outside sb.data 0 n
      if len + n > oobSize then throw .outside
      return (first ++ rest, some (urgc - n))
    else
      return (first, some urgc)

def sosendoob (so : Socket) (a : Answer) : Except Fault (Socket × Int) := do
  let urgc := if so.urgc > oobSize then oobSize else so.urgc
  let (bytes, left) ← urgentBytes so.rcv urgc
  let (n, taken) := send a bytes
  let rcv ← so.rcv.consumed n
  return ({ so with
    urgc := left.getD ((urgc : Int) - n).toNat
    rcv := rcv
    sent := so.sent ++ taken }, n)

/-- `iov[0].iov_len`, and `iov[1].iov_len` when there are two parts to write. -/
def writeParts (sb : Sbuf) : Nat × Option Nat :=
  let len := sb.cc
  if sb.rptr < sb.wptr then (min (sb.wptr - sb.rptr) len, none)
  else
    let first := min (sb.datalen - sb.rptr) len
    let len := len - first
    if len ≠ 0 then (first, some (min sb.wptr len)) else (first, none)

/-- The second part is sent after all of the first. -/
def sendSecond (so : Socket) (iov0 : Nat) (iov1 : Option Nat) (nn : Int) (taken : List Byte)
    (second : Answer) : Except Fault (Int × List Byte) :=
  match iov1 with
  | none => return (nn, taken)
  | some len => do
    if nn = iov0 then
      let bytes ← read .outside so.rcv.data 0 len
      let (ret, more) := send second bytes
      return if ret > 0 then (nn + ret, taken ++ more) else (nn, taken)
    else return (nn, taken)

def wrote (so : Socket) (nn : Int) (taken : List Byte) : Except Fault (Socket × Int) := do
  let rcv ← so.rcv.consumed nn
  let so := { so with rcv := rcv, sent := so.sent ++ taken }
  return (if so.state.fwdrain = true ∧ rcv.cc = 0 then sofcantsendmore so else so, nn)

/-- `sowrite` after the urgent data. -/
def writeRcv (so : Socket) (first second : Answer) : Except Fault (Socket × Int) := do
  let (iov0, iov1) := writeParts so.rcv
  let bytes ← read .outside so.rcv.data so.rcv.rptr iov0
  let (nn, taken) := send first bytes
  if first = .again then return (so, 0)
  if nn ≤ 0 then return (sofcantsendmore so, -1)
  let (nn, taken) ← sendSecond so iov0 iov1 nn taken second
  wrote so nn taken

def sowrite (so : Socket) (oob first second : Answer) : Except Fault (Socket × Int) := do
  if so.urgc ≠ 0 then
    let (so, _) ← sosendoob so oob
    if so.rcv.cc = 0 then return (so, 0)
    writeRcv so first second
  else writeRcv so first second

/-- What `send` left of the data is added to the buffer. -/
def appendUnsent (so : Socket) (m : List Byte) (ret : Int) : Except Fault Socket := do
  if ret ≤ 0 then
    let rcv ← sbappendsb so.rcv m
    return { so with rcv := rcv }
  else if ret ≠ m.length then
    let rcv ← sbappendsb so.rcv (m.drop ret.toNat)
    return { so with rcv := rcv }
  else return so

/-- The data of a segment is sent at once if nothing is in the buffer. -/
def sbappend (so : Socket) (m : List Byte) (ordinary oob : Answer) : Except Fault Socket := do
  if m.length = 0 then return so
  if so.urgc ≠ 0 then
    let rcv ← sbappendsb so.rcv m
    let (so, _) ← sosendoob { so with rcv := rcv } oob
    return so
  if so.rcv.cc = 0 then
    let (ret, taken) := send ordinary m
    appendUnsent { so with sent := so.sent ++ taken } m ret
  else appendUnsent so m 0

-- ---------------------------------------------------------------------------
-- From the host
-- ---------------------------------------------------------------------------

def modulo (n mss : Nat) : Except Fault Nat :=
  if mss = 0 then .error .divideByZero else .ok (n % mss)

/-- A read of more than a segment is cut to whole segments. -/
def wholeSegments (n mss : Nat) : Except Fault Nat :=
  if n > mss then do
    let rest ← modulo n mss
    return n - rest
  else return n

/-- `iov[0].iov_len`, and `iov[1].iov_len` when there are two parts to read into. -/
def readParts (sb : Sbuf) (mss : Nat) : Except Fault (Nat × Option Nat) := do
  let len := sbspace sb
  if sb.wptr < sb.rptr then
    let first ← wholeSegments (min (sb.rptr - sb.wptr) len) mss
    return (first, none)
  else
    let first := min (sb.datalen - sb.wptr) len
    let len := len - first
    if len ≠ 0 then
      let second := min sb.rptr len
      let total := first + second
      if total > mss then
        let lss ← modulo total mss
        if second > lss then return (first, some (second - lss))
        else return (first - (lss - second), none)
      else return (first, some second)
    else
      let first ← wholeSegments first mss
      return (first, none)

/-- The second part is read after all of the first. -/
def recvSecond (data : List Byte) (iov0 : Nat) (iov1 : Option Nat) (nn : Int) (got : List Byte)
    (second : Input) : Except Fault (List Byte × Int × List Byte) :=
  match iov1 with
  | none => return (data, nn, got)
  | some len => do
    if nn = iov0 then
      let (ret, more) := recv second len
      let data ← write .outside data 0 more
      return if ret > 0 then (data, nn + ret, got ++ more) else (data, nn, got)
    else return (data, nn, got)

/-- Reads into the free room of `so_snd`. -/
def soread (so : Socket) (mss : Nat) (first second : Input) : Except Fault (Socket × Int) := do
  let (iov0, iov1) ← readParts so.snd mss
  let (nn, got) := recv first iov0
  if nn ≤ 0 then
    if first = .again then return (so, 0)
    else return (sofcantrcvmore so, -1)
  let data ← write .outside so.snd.data so.snd.wptr got
  let (data, nn, got) ← recvSecond data iov0 iov1 nn got second
  return ({ so with snd := so.snd.filled data nn.toNat, received := so.received ++ got }, nn)

end SheepShear.Slirp
