import SheepShear.Lib.SinglyLinked
import SheepShear.Ether.Dlpi

/-!
# Multicast addresses in memory

The multicast list of a stream as the driver keeps it: nodes allocated in the
system heap, a link and an address in each. A block is known by its address; the
address in a node is four bytes into it. The allocator is free to return any
block that does not overlap one that is in use.
-/

namespace SheepShear.Ether.Multicast

open IntrusiveList

abbrev Ptr := Word

inductive Event where
  | sysalloc (p : Ptr) (size : Nat)
  | sysfree (p : Ptr)
  /-- `AO_enable_multicast` and `AO_disable_multicast`. -/
  | enable (addr : EnetAddr)
  | disable (addr : EnetAddr)
deriving DecidableEq

/-- The blocks that were obtained and not freed, with their sizes. -/
def owned : List Event → List (Ptr × Nat) :=
  List.foldl (fun blocks e =>
    match e with
    | .sysalloc p size => (p, size) :: blocks
    | .sysfree p => blocks.filter (·.1 ≠ p)
    | _ => blocks) []

/-- What the allocator can return. -/
def Fresh (blocks : List (Ptr × Nat)) (p : Ptr) (size : Nat) : Prop :=
  p.toNat + size ≤ 2 ^ 32 ∧
    ∀ b ∈ blocks, p.toNat + size ≤ b.1.toNat ∨ b.1.toNat + b.2 ≤ p.toNat

instance (blocks : List (Ptr × Nat)) (p : Ptr) (size : Nat) : Decidable (Fresh blocks p size) :=
  inferInstanceAs (Decidable (_ ∧ _))

/-- `sizeof(multicast_node)`. -/
def nodeSize : Nat := 10

/-- Where the address in a node is. -/
def addrField (n : Ptr) : Ptr := n + 4

/-- The requests; `copy` and `node` are the blocks that the allocator returns. -/
inductive Act where
  | openStream (s : Nat)
  | enableMulti (s : Nat) (addr : EnetAddr) (copy node : Ptr)
  | disableMulti (s : Nat) (addr : EnetAddr)
  | closeStream (s : Nat)

structure World where
  next : Ptr → Option Ptr
  addr : Ptr → EnetAddr
  streams : Finset Nat
  /-- `multicast_list`. -/
  head : Nat → Option Ptr
  trace : List Event
  acts : List Act

namespace World

def fuel (w : World) : Nat := (owned w.trace).length

def log (w : World) (e : Event) : World := { w with trace := w.trace ++ [e] }

/-- The node whose address is returned. -/
def isMulticastRegistered (w : World) (s : Nat) (addr : EnetAddr) : Option (Option Ptr) :=
  searchNodes w.next (fun n => w.addr n = addr) w.fuel (w.head s)

def addMulticast (w : World) (s : Nat) (addr : EnetAddr) (node : Ptr) : World :=
  { w.log (.sysalloc node nodeSize) with
    addr := Function.update w.addr node addr
    next := Function.update w.next node (w.head s)
    head := Function.update w.head s (some node) }

def removeMulticast (w : World) (s : Nat) (addr : EnetAddr) : Option World := do
  match ← w.isMulticastRegistered s addr with
  | none => return w
  | some p =>
    let (first, next) ← unlinkNode w.next w.fuel (w.head s) p
    return { w.log (.sysfree p) with next := next, head := Function.update w.head s first }

def enableMulti (w : World) (s : Nat) (addr : EnetAddr) (copy node : Ptr) : Option World := do
  if getAddressType addr ≠ .multicast then return w
  match ← w.isMulticastRegistered s addr with
  | some _ => return w
  | none =>
    let w := w.log (.enable addr)
    if Fresh (owned w.trace) copy 6 then
      let w := w.log (.sysalloc copy 6)
      if Fresh (owned w.trace) node nodeSize then return w.addMulticast s addr node
      else none
    else none

def disableMulti (w : World) (s : Nat) (addr : EnetAddr) : Option World := do
  if getAddressType addr ≠ .multicast then return w
  match ← w.isMulticastRegistered s addr with
  | none => return w
  | some n =>
    let w ← w.removeMulticast s (w.addr n)
    let w := w.log (.sysfree (addrField n))
    return w.log (.disable addr)

/-- The loop of `ether_close`. -/
def disableAll (s : Nat) : (fuel : Nat) → World → Option World
  | fuel, w =>
    match w.head s with
    | none => some w
    | some n =>
      match fuel with
      | 0 => none
      | fuel + 1 => ((w.log (.disable (w.addr n))).removeMulticast s (w.addr n)).bind (disableAll s fuel)

def closeStream (w : World) (s : Nat) : Option World :=
  (disableAll s w.fuel w).map fun w =>
    { w with head := Function.update w.head s none, streams := w.streams.erase s }

end World

def start : World := ⟨fun _ => none, fun _ _ => 0, ∅, fun _ => none, [], []⟩

/-- Requests come from streams that are open. -/
def request (w : World) : Act → Option World
  | .openStream s =>
    if s ∈ w.streams then some w
    else some { w with streams := insert s w.streams, head := Function.update w.head s none }
  | .enableMulti s addr copy node => if s ∈ w.streams then w.enableMulti s addr copy node else none
  | .disableMulti s addr => if s ∈ w.streams then w.disableMulti s addr else none
  | .closeStream s => if s ∈ w.streams then w.closeStream s else some w

def step (w : World) (a : Act) : Option World :=
  (request w a).map fun w => { w with acts := w.acts ++ [a] }

-- ---------------------------------------------------------------------------
-- What is asked of the driver
-- ---------------------------------------------------------------------------

/-- The multicast addresses enabled on a stream and not disabled since it was opened. -/
def enabled (acts : List Act) (s : Nat) : Finset EnetAddr :=
  acts.foldl (fun addrs a =>
    match a with
    | .enableMulti s' addr _ _ =>
      if s' = s ∧ getAddressType addr = .multicast then insert addr addrs else addrs
    | .disableMulti s' addr => if s' = s then addrs.erase addr else addrs
    | .closeStream s' => if s' = s then ∅ else addrs
    | .openStream _ => addrs) ∅

/-- The addresses that the list of a stream leads to. -/
def World.addrs (w : World) (s : Nat) : Option (List EnetAddr) :=
  foldNodes w.next (fun l n => l ++ [w.addr n]) w.fuel (w.head s) []

def World.listing (w : World) (addr : EnetAddr) : Finset Nat :=
  w.streams.filter fun s => addr ∈ (w.addrs s).getD []

/-- Every block that is freed was obtained and not freed before. -/
def FreesOwn (trace : List Event) : Prop :=
  ∀ before p, before ++ [.sysfree p] <+: trace → ∃ size, (p, size) ∈ owned before

structure Balanced (w : World) : Prop where
  lists : ∀ s ∈ w.streams, ∃ l, w.addrs s = some l ∧ l.Nodup ∧ ∀ addr, addr ∈ l ↔ addr ∈ enabled w.acts s
  calls : ∀ addr, w.trace.count (.enable addr) =
    w.trace.count (.disable addr) + (w.listing addr).card
  frees : FreesOwn w.trace

/-- No request to disable a multicast address is accepted. -/
def NotDisabling (w : World) : Act → Prop
  | .disableMulti s addr => addr ∉ enabled w.acts s
  | _ => True

end SheepShear.Ether.Multicast
