import SheepShear.Lib.Bytes
import SheepShear.Lib.SlotRing
import SheepShear.Lib.Steps

/-!
# The receive queue of the Windows Ethernet driver

`ether_windows.cpp`, the queue between the threads that receive packets, the
thread `ether_thread_feed_int` and the interrupt `EtherIRQ`, from the time the
driver is opened until it is closed. A critical section is one step. Packets that
were accepted and delivered are recorded.
-/

namespace SheepShear.Ether.Windows

open SlotRing

abbrev Packet := List Byte

def maxQueueItems : Nat := 1024

def maxPacket : Nat := 1514

/-- A slot is in use while its size is not 0. -/
structure Slot where
  buf : List Byte
  sz : Nat

/-- `memcpy` to the start of a buffer. -/
def memcpy (dst src : List Byte) (n : Nat) : List Byte := src.take n ++ dst.drop n

/-- Where `ether_thread_feed_int` is. -/
inductive Feed where
  | waitSig
  | trigger
  | waitAck
  | setWait
deriving DecidableEq, Repr

/-- Where `EtherIRQ` is. -/
inductive Irq where
  | idle
  | dequeue
  | dispatch (length : Nat)
  | ack
deriving DecidableEq, Repr

structure State where
  queue : Nat → Slot
  queueInx : Nat
  queueHead : Nat
  waitRequest : Bool
  /-- The two semaphores count to 1. -/
  intSig : Bool
  intAck : Bool
  /-- `INTFLAG_ETHER`. -/
  intFlag : Bool
  feed : Feed
  irq : Irq
  /-- The `EthernetPacket` of `ether_do_interrupt`. -/
  packet : List Byte
  accepted : List Packet
  delivered : List Packet

/-- The driver after `init_queue`. -/
def State.start (bufs : Nat → List Byte) (packet : List Byte) : State where
  queue k := ⟨bufs k, 0⟩
  queueInx := 0
  queueHead := 0
  waitRequest := true
  intSig := false
  intAck := false
  intFlag := false
  feed := .waitSig
  irq := .idle
  packet := packet
  accepted := []
  delivered := []

def State.setSlot (s : State) (k : Nat) (slot : Slot) : State :=
  { s with queue := Function.update s.queue k slot }

def enqueuePacket (s : State) (buf : Packet) : State :=
  let slot := s.queue s.queueInx
  if slot.sz > 0 then s
  else
    let sz := if buf.length > maxPacket then maxPacket else buf.length
    let s := s.setSlot s.queueInx ⟨memcpy slot.buf buf sz, sz⟩
    let s : State := { s with
      queueInx := advance maxQueueItems s.queueInx
      accepted := s.accepted ++ [buf.take sz] }
    if s.waitRequest then { s with waitRequest := false, intSig := true } else s

/-- `dequeue_packet`, with its result. -/
def dequeuePacket (s : State) : Nat × State :=
  let slot := s.queue s.queueHead
  if slot.sz > 0 then
    let s := s.setSlot s.queueHead { slot with sz := 0 }
    (slot.sz, { s with
      packet := memcpy s.packet slot.buf slot.sz
      queueHead := advance maxQueueItems s.queueHead })
  else (slot.sz, s)

def triggerQueue (s : State) : State :=
  if (s.queue s.queueHead).sz > 0 then { s with intFlag := true } else s

/-- `set_wait_request`, with its result. -/
def setWaitRequest (s : State) : Bool × State :=
  if (s.queue s.queueHead).sz ≠ 0 then (true, s) else (false, { s with waitRequest := true })

-- ---------------------------------------------------------------------------
-- Steps
-- ---------------------------------------------------------------------------

inductive Act where
  | enqueue (buf : Packet)
  | feed
  | irq
deriving DecidableEq, Repr

/-- The next step of the thread, if it does not have to wait. -/
def feedStep (s : State) : Option State :=
  match s.feed with
  | .waitSig => if s.intSig then some { s with intSig := false, feed := .trigger } else none
  | .trigger => some { triggerQueue s with feed := .waitAck }
  | .waitAck => if s.intAck then some { s with intAck := false, feed := .setWait } else none
  | .setWait =>
    let (looping, s) := setWaitRequest s
    some { s with feed := if looping then .trigger else .waitSig }

/-- The next step of the emulator: it starts `EtherIRQ` when it finds the flag, and goes on with it.
Frames without a whole header end the loop of `ether_do_interrupt`. -/
def irqStep (s : State) : Option State :=
  match s.irq with
  | .idle => if s.intFlag then some { s with intFlag := false, irq := .dequeue } else none
  | .dequeue =>
    let (length, s) := dequeuePacket s
    some { s with irq := if length < 14 then .ack else .dispatch length }
  | .dispatch length =>
    some { s with delivered := s.delivered ++ [s.packet.take length], irq := .dequeue }
  | .ack => some { s with intAck := true, irq := .idle }

/-- Packets have a positive size. -/
def step (s : State) : Act → Option State
  | .enqueue buf => if buf = [] then none else some (enqueuePacket s buf)
  | .feed => feedStep s
  | .irq => irqStep s

end SheepShear.Ether.Windows
