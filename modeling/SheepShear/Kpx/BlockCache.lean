import SheepShear.Lib.IntrusiveList

/-!
# The block cache

`block-cache.hpp` and the pool allocator of `block-alloc.hpp`. The fields of the
cache entries are stored field by field: a pointer is a number, and the links of
the hash chains and of the active and dormant lists are two sets of intrusive
links over the same entries. Loops take fuel and give no result without it.
-/

namespace SheepShear.Kpx

open IntrusiveList

abbrev Addr := BitVec 64
abbrev Ptr := Nat

/-- An index of `cache_tags`, `HASH_BITS` wide. -/
abbrev Line := BitVec 15

def cacheline (addr : Addr) : Line := (addr >>> 2).setWidth 15

inductive ListId where
  | active
  | dormant
deriving DecidableEq, Repr

/-- What the cache asks of its template argument, and the size of its entries. -/
class BlockInfo (Info : Type) where
  pc : Info → Addr
  intersect : Info → Addr → Addr → Bool
  invalidate : Info → Info
  entrySize : Nat

/-- `powerpc_block_info` of a build without the translator; `di` is the index of its first entry
in the decode cache. The members that nothing reads there are left out. -/
structure PowerpcBlockInfo where
  pc : Addr
  size : Nat
  di : Nat
  minPc : Addr
  maxPc : Addr
deriving DecidableEq, Repr

instance : BlockInfo PowerpcBlockInfo where
  pc bi := bi.pc
  intersect bi start stop :=
    (bi.minPc ≥ start && bi.minPc < stop) || (bi.maxPc ≥ start && bi.maxPc < stop)
  invalidate bi := bi
  entrySize := 160

-- ---------------------------------------------------------------------------
-- lazy_allocator
-- ---------------------------------------------------------------------------

structure LazyAllocator where
  pools : Nat
  chunks : Option Ptr
  next : Ptr → Option Ptr

namespace LazyAllocator

def poolSize : Nat := 4096

def poolCount (dataSize : Nat) : Nat := 1 + poolSize / dataSize

def link (a : LazyAllocator) (c : Ptr) : LazyAllocator :=
  { a with next := Function.update a.next c a.chunks, chunks := some c }

/-- A new pool has addresses of its own: those after the pools there are. -/
def newPool (count : Nat) (a : LazyAllocator) : LazyAllocator :=
  let a' := (List.range' (a.pools * count) count).foldl link a
  { a' with pools := a.pools + 1 }

/-- No result would be the null pointer dereferenced. -/
def acquire (count : Nat) (a : LazyAllocator) : Option (Ptr × LazyAllocator) :=
  let a := if a.chunks.isNone then a.newPool count else a
  a.chunks.map fun c => (c, { a with chunks := a.next c })

def release (a : LazyAllocator) (d : Ptr) : LazyAllocator := a.link d

end LazyAllocator

-- ---------------------------------------------------------------------------
-- block_cache
-- ---------------------------------------------------------------------------

/-- `sameCl` holds `cache_tags`, `next_same_cl` and `prev_same_cl_p`, and `list` holds `active`,
`dormant`, `next` and `prev_p`. -/
structure BlockCache (Info : Type) where
  info : Ptr → Info
  sameCl : Links Line Ptr
  list : Links ListId Ptr
  allocator : LazyAllocator

namespace BlockCache

variable {Info : Type} [BlockInfo Info]

def entryCount (Info : Type) [BlockInfo Info] : Nat :=
  LazyAllocator.poolCount (BlockInfo.entrySize Info)

def pcAt (c : BlockCache Info) (p : Ptr) : Addr := BlockInfo.pc (c.info p)

/-- `initialize`. -/
def initializeTags (c : BlockCache Info) : BlockCache Info :=
  { c with sameCl := { c.sameCl with head := fun _ => none } }

def newBlockinfo (c : BlockCache Info) : Option (Ptr × BlockCache Info) :=
  (c.allocator.acquire (entryCount Info)).map fun (p, allocator) => (p, { c with allocator })

def deleteBlockinfo (c : BlockCache Info) (bi : Ptr) : BlockCache Info :=
  { c with allocator := c.allocator.release bi }

def removeFromClList (c : BlockCache Info) (bi : Ptr) : BlockCache Info :=
  { c with sameCl := c.sameCl.unlink bi }

def addToClList (c : BlockCache Info) (bi : Ptr) : BlockCache Info :=
  { c with sameCl := c.sameCl.push (cacheline (c.pcAt bi)) bi }

def raiseInClList (c : BlockCache Info) (bi : Ptr) : BlockCache Info :=
  (c.removeFromClList bi).addToClList bi

def removeFromList (c : BlockCache Info) (bi : Ptr) : BlockCache Info :=
  { c with list := c.list.unlink bi }

/-- `add_to_active_list` and `add_to_dormant_list`. -/
def addToList (l : ListId) (c : BlockCache Info) (bi : Ptr) : BlockCache Info :=
  { c with list := c.list.push l bi }

def addToActiveList (c : BlockCache Info) (bi : Ptr) : BlockCache Info := c.addToList .active bi

def addToDormantList (c : BlockCache Info) (bi : Ptr) : BlockCache Info := c.addToList .dormant bi

/-- The members of a block other than the links, as the client writes them. -/
def setInfo (c : BlockCache Info) (bi : Ptr) (info : Info) : BlockCache Info :=
  { c with info := Function.update c.info bi info }

/-- The two loops of `clear`. -/
def clearWalk (c : BlockCache Info) : (fuel : Nat) → Option Ptr → Option (BlockCache Info)
  | _, none => some c
  | 0, some _ => none
  | fuel + 1, some d =>
    let p := c.list.next d
    (c.deleteBlockinfo d).clearWalk fuel p

def setListHead (c : BlockCache Info) (l : ListId) (p : Option Ptr) : BlockCache Info :=
  { c with list := { c.list with head := Function.update c.list.head l p } }

def clear (fuel : Nat) (c : BlockCache Info) : Option (BlockCache Info) := do
  let c ← c.clearWalk fuel (c.list.head .active)
  let c := c.setListHead .active none
  let c ← c.clearWalk fuel (c.list.head .dormant)
  return c.setListHead .dormant none

/-- The body shared by the two loops of `clear_range`. -/
def clearBlock (start stop : Addr) (c : BlockCache Info) (q : Ptr) : BlockCache Info :=
  if BlockInfo.intersect (c.info q) start stop then
    let c := c.setInfo q (BlockInfo.invalidate (c.info q))
    let c := c.removeFromClList q
    let c := c.removeFromList q
    c.deleteBlockinfo q
  else c

/-- The loop over the entries that `next` threads. -/
def clearRangeWalk (start stop : Addr) (next : BlockCache Info → Ptr → Option Ptr)
    (c : BlockCache Info) : (fuel : Nat) → Option Ptr → Option (BlockCache Info)
  | _, none => some c
  | 0, some _ => none
  | fuel + 1, some q =>
    let p := next c q
    (c.clearBlock start stop q).clearRangeWalk start stop next fuel p

def nextSameCl (c : BlockCache Info) (p : Ptr) : Option Ptr := c.sameCl.next p

def nextInList (c : BlockCache Info) (p : Ptr) : Option Ptr := c.list.next p

/-- The `for` loop over the cache lines from `cl` on, `count` of them. -/
def clearLines (fuel : Nat) (start stop : Addr) (c : BlockCache Info) :
    (count cl : Nat) → Option (BlockCache Info)
  | 0, _ => some c
  | count + 1, cl => do
    let c ← c.clearRangeWalk start stop nextSameCl fuel (c.sameCl.head (BitVec.ofNat 15 cl))
    c.clearLines fuel start stop count (cl + 1)

def clearRange (fuel : Nat) (c : BlockCache Info) (start stop : Addr) : Option (BlockCache Info) :=
  if c.list.head .active = none then some c
  else if cacheline start < cacheline (stop - 1) then
    let first := (cacheline start).toNat
    let last := (cacheline (stop - 1)).toNat
    c.clearLines fuel start stop (last + 1 - first) first
  else c.clearRangeWalk start stop nextInList fuel (c.list.head .active)

/-- The search after the first entry of the chain. -/
def findWalk (c : BlockCache Info) (pc : Addr) :
    (fuel : Nat) → Option Ptr → Option (Option Ptr × BlockCache Info)
  | _, none => some (none, c)
  | 0, some _ => none
  | fuel + 1, some bce =>
    match c.sameCl.next bce with
    | none => some (none, c)
    | some bce =>
      if c.pcAt bce = pc then some (some bce, c.raiseInClList bce)
      else c.findWalk pc fuel (some bce)

def find (fuel : Nat) (c : BlockCache Info) (pc : Addr) :
    Option (Option Ptr × BlockCache Info) :=
  match c.sameCl.head (cacheline pc) with
  | none => some (none, c)
  | some bce => if c.pcAt bce = pc then some (some bce, c) else c.findWalk pc fuel (some bce)

-- ---------------------------------------------------------------------------
-- Runs
-- ---------------------------------------------------------------------------

/-- What the clients of the cache do with it, from one consistent state to the next. -/
inductive Op (Info : Type) where
  | add (info : Info) (l : ListId)
  | find (pc : Addr)
  | clearRange (start stop : Addr)
  | clear

/-- `new_blockinfo`, `init`, `add_to_cl_list`, and `add_to_active_list` or `add_to_dormant_list`. -/
def addBlock (c : BlockCache Info) (info : Info) (l : ListId) : Option (BlockCache Info) :=
  c.newBlockinfo.map fun (bi, c) =>
    let c := c.setInfo bi info
    let c := c.addToClList bi
    c.addToList l bi

def Op.run (fuel : Nat) (c : BlockCache Info) : Op Info → Option (BlockCache Info)
  | .add info l => c.addBlock info l
  | .find pc => (c.find fuel pc).map Prod.snd
  | .clearRange start stop => c.clearRange fuel start stop
  | .clear => (c.clear fuel).map initializeTags

/-- The constructor, on memory with any contents. -/
def construct (info : Ptr → Info) (sameCl : Links Line Ptr) (list : Links ListId Ptr)
    (next : Ptr → Option Ptr) : BlockCache Info :=
  initializeTags ⟨info, sameCl, { list with head := fun _ => none }, ⟨0, none, next⟩⟩

inductive Reachable : BlockCache Info → Prop where
  | construct (info sameCl list next) : Reachable (construct info sameCl list next)
  | step {c c' : BlockCache Info} (fuel : Nat) (op : Op Info) :
    Reachable c → op.run fuel c = some c' → Reachable c'

end BlockCache

end SheepShear.Kpx
