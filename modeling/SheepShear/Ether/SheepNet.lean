import SheepShear.Lib.Buffer
import SheepShear.Lib.Bytes
import SheepShear.Lib.Steps

/-!
# The sheep_net driver

`sheep_net_write`, `sheep_net_receiver` and what they call, from `sheep_net.c`.
The driver sends the frames of the guest with the address of the card in place of
the fake one that the guest sees, and queues the frames for the guest. Accesses
to a frame are checked.
-/

namespace SheepShear.Ether.SheepNet

-- ---------------------------------------------------------------------------
-- Frames
-- ---------------------------------------------------------------------------

/-- An access past the end of a frame. -/
inductive Overrun where
  | frame
  deriving DecidableEq, Repr

abbrev HwAddr := {a : List Byte // a.length = 6}

abbrev Frame := List Byte

/-- Maximum number of packets in queue. -/
def maxQueue : Nat := 32

/-- Our "magic" protocol type. -/
def protMagic : BitVec 16 := 1520

def ethPIp : BitVec 16 := 0x0800
def ethPArp : BitVec 16 := 0x0806

/-- `htons` of a little-endian host. -/
def htons (v : BitVec 16) : BitVec 16 := v.extractLsb' 0 8 ++ v.extractLsb' 8 8

/-- Driver private variables. -/
structure SheepVars where
  ether : Bool
  ethAddr : HwAddr
  fakeAddr : HwAddr
  ipfilter : Word
  queue : List Frame

def byteAt (p : Frame) (i : Nat) : Except Overrun Byte := Buffer.get .frame p i

/-- The type field of the Ethernet header, in host order. -/
def protoOf (p : Frame) : Except Overrun (BitVec 16) := do
  return (← byteAt p 12) ++ (← byteAt p 13)

/-- `p[0] & ETH_ADDR_MULTICAST` -/
def isMulticast (p : Frame) : Except Overrun Bool := do
  return (← byteAt p 0) &&& 1 ≠ 0

/-- `is_local_addr` and `is_fake_addr` -/
def isAddr (p : Frame) (off : Nat) (a : HwAddr) : Except Overrun Bool := do
  return (← Buffer.read .frame p off 6) = a.val

-- ---------------------------------------------------------------------------
-- demasquerade
-- ---------------------------------------------------------------------------

/-- The SNAP code of AARP packets. -/
def snapAarp : List Byte := [0x00, 0x00, 0x00, 0x80, 0xf3]

/-- A comparison of one byte after the other, which ends at the first that differs. -/
def matchesAt (p : Frame) : Nat → List Byte → Except Overrun Bool
  | _, [] => .ok true
  | i, b :: bs => do
    if (← byteAt p i) = b then matchesAt p (i + 1) bs else return false

/-- The replacement of a sender HW-addr. -/
def doDemasq (v : SheepVars) (p : Frame) (off : Nat) : Except Overrun Frame := do
  if ← isAddr p off v.fakeAddr then Buffer.write .frame p off v.ethAddr.val else return p

def demasquerade (v : SheepVars) (p : Frame) : Except Overrun Frame := do
  let proto ← protoOf p
  let p ← Buffer.write .frame p 6 v.ethAddr.val -- source address
  -- Need to fix ARP packets
  let p ← if proto = ethPArp then doDemasq v p (14 + 8) else pure p
  -- ...and AARPs
  if ← matchesAt p 17 snapAarp then doDemasq v p 30 else return p

-- ---------------------------------------------------------------------------
-- sheep_net_write
-- ---------------------------------------------------------------------------

/-- What the kernel has for a call: a buffer, the data of the caller and a
second buffer for a copy. -/
structure Supply where
  allocSkb : Bool
  copyFromUser : Bool
  skbCopy : Bool

/-- What a call has returned and set, and what it has passed to `netif_rx` and to
`dev_queue_xmit`. -/
structure Written where
  ret : Int
  ipfilter : Word
  looped : List Frame
  wire : Option Frame

/-- The IP address at the place of the sender's one in an ARP packet. -/
def senderIp (p : Frame) : Except Overrun Word := do
  let a ← Buffer.read .frame p (14 + 14) 4
  return .ofBytes (a.getD 0 0) (a.getD 1 0) (a.getD 2 0) (a.getD 3 0)

def transmit (v : SheepVars) (supply : Supply) (p : Frame) : Except Overrun Written := do
  -- Base the IP-filtering on the IP address in any outgoing ARP packets
  let ipfilter ← if (← protoOf p) = ethPArp then senderIp p else pure v.ipfilter
  let multicast ← isMulticast p
  -- Is this packet addressed solely to the local host?
  if (← isAddr p 0 v.ethAddr) && !multicast then
    return { ret := p.length, ipfilter := ipfilter, looped := [p], wire := none }
  else
    let looped := if multicast && supply.skbCopy then [p] else []
    let wire ← demasquerade v p
    return { ret := p.length, ipfilter := ipfilter, looped := looped, wire := some wire }

/-- Nothing is sent and nothing set. -/
def notSent (v : SheepVars) (ret : Int) : Written :=
  { ret := ret, ipfilter := v.ipfilter, looped := [], wire := none }

def sheepNetWrite (v : SheepVars) (supply : Supply) (buf : List Byte) : Except Overrun Written :=
  if buf.length < 14 then .ok (notSent v (-22)) -- EINVAL
  else if !v.ether then .ok (notSent v (min buf.length 1514 : Nat))
  else if !supply.allocSkb then .ok (notSent v (-105)) -- ENOBUFS
  else if !supply.copyFromUser then .ok (notSent v (-14)) -- EFAULT
  else transmit v supply (buf.take 1514)

-- ---------------------------------------------------------------------------
-- sheep_net_receiver
-- ---------------------------------------------------------------------------

/-- A frame that the kernel passes to the driver, with its `protocol` field. -/
structure Skb where
  bytes : Frame
  protocol : BitVec 16
  header : 14 ≤ bytes.length

/-- `h_dest` and `h_source` of the Ethernet header. -/
def Skb.hDest (skb : Skb) : List Byte := skb.bytes.take 6
def Skb.hSource (skb : Skb) : List Byte := (skb.bytes.drop 6).take 6

def Skb.multicast (skb : Skb) : Bool := skb.bytes.getD 0 0 &&& 1 ≠ 0

/-- `ntohl(ipip_hdr(skb)->daddr)` -/
def daddr (p : Frame) : Except Overrun Word := do
  let a ← Buffer.read .frame p (14 + 16) 4
  return .ofBytes (a.getD 0 0) (a.getD 1 0) (a.getD 2 0) (a.getD 3 0)

def masquerade (v : SheepVars) (skb : Skb) : Frame :=
  if !skb.multicast then v.fakeAddr.val ++ skb.bytes.drop 6 else skb.bytes

/-- The filter drops the packet. -/
def filtered (v : SheepVars) (skb : Skb) : Except Overrun Bool := do
  if skb.protocol ≠ htons ethPIp then return false
  else if v.ipfilter = 0 then return true
  else return (← daddr skb.bytes) ≠ v.ipfilter && !skb.multicast

/-- The frame that is added to the queue, if it is not dropped. -/
def sheepNetReceiver (v : SheepVars) (skbCopy : Bool) (skb : Skb) : Except Overrun (Option Frame) := do
  let fake := skb.hDest = v.fakeAddr.val
  -- Packet sent by us? Then discard
  if skb.hSource = v.fakeAddr.val ∨ skb.protocol = protMagic then return none
  -- If the packet is not meant for this host, discard it
  else if skb.hDest ≠ v.ethAddr.val ∧ !skb.multicast ∧ ¬fake then return none
  -- Discard packets if queue gets too full
  else if v.queue.length > maxQueue then return none
  -- Apply any filters here (if fake is true, then we *know* we want this packet)
  else if ← (if fake then pure false else filtered v skb) then return none
  else if !skbCopy then return none
  else return some (masquerade v skb)

-- ---------------------------------------------------------------------------
-- Runs
-- ---------------------------------------------------------------------------

/-- A call, with what came of it. -/
inductive Call where
  | written (vars : SheepVars) (buf : List Byte) (outcome : Except Overrun (Option Frame))
  | received (vars : SheepVars) (arpIp : Word) (skb : Skb) (own : Bool)
    (outcome : Except Overrun (Option Frame))
  | filterSet (arpIp ip : Word)

/-- The driver, with the frames that it has passed to the kernel and those that
the guest has sent, the last one first, and the calls so far. -/
structure State where
  vars : SheepVars
  passed : List (Frame × BitVec 16)
  sent : List Frame
  calls : List Call

inductive Event where
  | write (supply : Supply) (buf : List Byte)
  | receive (skb : Skb) (own skbCopy : Bool)
  | read
  | attach (card : HwAddr)
  | setAddr (a : HwAddr)
  | setIpfilter (ip : Word)

/-- The frame that a call of `sheep_net_write` gets as far as sending. -/
def transmitted (v : SheepVars) (supply : Supply) (buf : List Byte) : Option Frame :=
  if 14 ≤ buf.length ∧ v.ether ∧ supply.allocSkb ∧ supply.copyFromUser then some (buf.take 1514)
  else none

def stepWrite (ethTypeTrans : Frame → BitVec 16) (s : State) (supply : Supply) (buf : List Byte) :
    State :=
  match sheepNetWrite s.vars supply buf with
  | .error e =>
    { s with calls := .written s.vars buf (.error e) :: s.calls }
  | .ok w =>
    { vars := { s.vars with ipfilter := w.ipfilter }
      passed := w.looped.map (fun p => (p, ethTypeTrans p)) ++
        w.wire.toList.map (fun p => (p, protMagic)) ++ s.passed
      sent := (transmitted s.vars supply buf).toList ++ s.sent
      calls := .written s.vars buf (.ok w.wire) :: s.calls }

/-- The sender's IP address in the last ARP frame that was sent, 0 if there is none. -/
def lastArpIp (sent : List Frame) : Word :=
  match sent.find? fun p => protoOf p = .ok ethPArp with
  | some p => (senderIp p).toOption.getD 0
  | none => 0

def stepReceive (s : State) (skb : Skb) (own skbCopy : Bool) : State :=
  let outcome := sheepNetReceiver s.vars skbCopy skb
  let queued := (outcome.toOption.getD none).toList
  { s with
    vars := { s.vars with queue := s.vars.queue ++ queued }
    calls := .received s.vars (lastArpIp s.sent) skb own outcome :: s.calls }

/-- One call. A frame is the driver's own if it has passed it to the kernel, and
frames are received by an attached driver; it is attached once. -/
def step (ethTypeTrans : Frame → BitVec 16) (s : State) : Event → Option State
  | .write supply buf => some (stepWrite ethTypeTrans s supply buf)
  | .receive skb own skbCopy =>
    if s.vars.ether ∧ (own → (skb.bytes, skb.protocol) ∈ s.passed) then
      some (stepReceive s skb own skbCopy)
    else none
  | .read => some { s with vars := { s.vars with queue := s.vars.queue.tail } }
  | .attach card =>
    if s.vars.ether then some s -- EBUSY
    else some { s with vars := { s.vars with ether := true, ethAddr := card } }
  | .setAddr a => some { s with vars := { s.vars with fakeAddr := a } }
  | .setIpfilter ip =>
    some { s with
      vars := { s.vars with ipfilter := ip }
      calls := .filterSet (lastArpIp s.sent) ip :: s.calls }

/-- The driver after `sheep_net_open`. -/
def initial : State where
  vars := { ether := false
            ethAddr := ⟨[0, 0, 0, 0, 0, 0], rfl⟩
            fakeAddr := ⟨[0xfe, 0xfd, 0xde, 0xad, 0xbe, 0xef], rfl⟩
            ipfilter := 0
            queue := [] }
  passed := []
  sent := []
  calls := []

end SheepShear.Ether.SheepNet
