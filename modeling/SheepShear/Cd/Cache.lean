import SheepShear.Lib.Bytes
import SheepShear.Lib.Steps

/-!
# Cached reads from a CD-ROM on Windows

`Sys_read` of `sys_windows.cpp` for a CD-ROM and the cache of
`cdenable/cache.cpp`. A disc is the list of its bytes, and the driver reads up to
its end. Offsets and lengths are below 2^31, so that nothing overflows, and
memory can always be allocated.
-/

namespace SheepShear.Cd

def nblocks : Nat := 1000

/-- The size of a sector, `ss`. -/
def ss : Nat := 2048

def cdReadAheadSectors : Nat := 16

/-- `sector_size` is always that of a sector; `blocks` are the sectors in the slots. -/
structure CacheType where
  inited : Bool
  resCount : Nat
  block : Nat → Nat
  lru : Nat → Nat
  blocks : Nat → List Byte

/-- The cache of a drive that was just opened. -/
def CacheType.start : CacheType where
  inited := false
  resCount := 0
  block _ := 0
  lru _ := 0
  blocks _ := []

def cacheClear (c : CacheType) : CacheType :=
  if c.inited then { c with resCount := 0, lru := fun _ => 0 } else c

/-- `init`, in new memory. -/
def CacheType.init (c : CacheType) : CacheType :=
  { cacheClear c with
    inited := true, block := fun _ => 0, lru := fun _ => 0, blocks := fun _ => List.replicate ss 0 }

def inCache (c : CacheType) (block : Nat) : Option Nat :=
  (List.range c.resCount).reverse.find? fun i => c.block i = block

/-- The slot that was put last the longest ago, the first of them. -/
def getLRU (c : CacheType) : Nat :=
  (List.range' 1 (nblocks - 1)).foldl
    (fun result i => if c.lru i < c.lru result then i else result) 0

/-- `tick` is the time that `GetTickCount` returns. -/
def cachePut (tick : Nat) (c : CacheType) (block : Nat) (buf : List Byte) : CacheType :=
  let c := if c.inited then c else c.init
  match inCache c block with
  | some inx =>
    { c with lru := Function.update c.lru inx tick, blocks := Function.update c.blocks inx buf }
  | none =>
    let inx := if c.resCount = nblocks then getLRU c else c.resCount
    { c with
      resCount := if c.resCount = nblocks then c.resCount else c.resCount + 1
      block := Function.update c.block inx block
      lru := Function.update c.lru inx tick
      blocks := Function.update c.blocks inx buf }

def cacheGet (c : CacheType) (block : Nat) : Option (List Byte) :=
  if c.inited then (inCache c block).map c.blocks else none

-- ---------------------------------------------------------------------------
-- cd_read
-- ---------------------------------------------------------------------------

/-- `CdenableSysReadCdBytes`. -/
def readCdBytes (disc : List Byte) (start count : Nat) : List Byte := (disc.drop start).take count

/-- The variables of `cd_read`: `i` sectors are done, and `out` are the bytes stored, `ok_bytes` of
them. -/
structure Progress where
  i : Nat
  sInx : Nat
  cCount : Nat
  out : List Byte

/-- What both loops do with a sector. -/
def Progress.copy (p : Progress) (count : Nat) (sector : List Byte) : Progress :=
  let out := p.out ++ (sector.drop p.sInx).take p.cCount
  { i := p.i + 1, sInx := 0, cCount := min ss (count - out.length), out := out }

/-- The loop over the sectors in the cache, up to the first that is not. -/
def copyCached (c : CacheType) (firstBlock count : Nat) : (left : Nat) → Progress → Progress
  | 0, p => p
  | left + 1, p =>
    match cacheGet c (firstBlock + p.i) with
    | none => p
    | some sector => copyCached c firstBlock count left (p.copy count sector)

/-- The loop over the sectors that were read. -/
def copyRead (ticks : Nat → Nat) (firstBlock count : Nat) :
    (left : Nat) → List Byte → Progress → CacheType → Progress × CacheType
  | 0, _, p, c => (p, c)
  | left + 1, tmpbuf, p, c =>
    let block := firstBlock + p.i
    copyRead ticks firstBlock count left (tmpbuf.drop ss) (p.copy count (tmpbuf.take ss))
      (cachePut (ticks block) c block (tmpbuf.take ss))

/-- The sectors that a range has bytes of. -/
def blocksOf (lba count : Nat) : Nat :=
  let l1 := lba / ss * ss
  let l2 := (lba + count - 1 + ss) / ss * ss
  (l2 - l1) / ss

def Progress.start (lba count : Nat) : Progress :=
  let sInx := lba - lba / ss * ss
  { i := 0, sInx := sInx, cCount := min (ss - sInx) count, out := [] }

def cdRead (disc : List Byte) (ticks : Nat → Nat) (c : CacheType) (lba count : Nat) :
    List Byte × CacheType :=
  if count = 0 then ([], c)
  else
    let firstBlock := lba / ss
    let n := blocksOf lba count
    let p := copyCached c firstBlock count n (.start lba count)
    if p.i ≠ n ∧ count ≠ p.out.length then
      let blocksLeft := max (n - p.i) cdReadAheadSectors
      let alignedLeft := blocksLeft * ss
      let got := readCdBytes disc ((firstBlock + p.i) * ss) alignedLeft
      if got.length ≠ alignedLeft then
        let tmpbuf := got ++ List.replicate (alignedLeft - got.length) 0
        (p.out ++ (tmpbuf.drop p.sInx).take (min p.cCount got.length), c)
      else
        let (p, c) := copyRead ticks firstBlock count blocksLeft got p c
        (p.out, c)
    else (p.out, c)

-- ---------------------------------------------------------------------------
-- Sys_read
-- ---------------------------------------------------------------------------

/-- The host during the run: whether CD-ROMs are disabled, in which case a short read does not
clear the cache, and the time of each store into the cache, by the offset and the sector. -/
structure System where
  nocdrom : Bool
  ticks : Nat → Nat → Nat

def maxPiece : Nat := 32768

/-- The loop of `Sys_read`; every round reads something or is the last. -/
def sysReadLoop (disc : List Byte) (sys : System) :
    (fuel : Nat) → CacheType → (offset bytesLeft : Nat) → List Byte × CacheType
  | 0, c, _, _ => ([], c)
  | fuel + 1, c, offset, bytesLeft =>
    if bytesLeft = 0 then ([], c)
    else
      let tryBytes := min bytesLeft maxPiece
      let (got, c) := cdRead disc (sys.ticks offset) c offset tryBytes
      -- A short read looks whether there still is a disc.
      let c := if got.length ≠ tryBytes ∧ !sys.nocdrom then cacheClear c else c
      if got.length ≠ tryBytes then (got, c)
      else
        let (rest, c) := sysReadLoop disc sys fuel c (offset + tryBytes) (bytesLeft - tryBytes)
        (got ++ rest, c)

def sysRead (disc : List Byte) (sys : System) (c : CacheType) (offset length : Nat) :
    List Byte × CacheType :=
  sysReadLoop disc sys length c offset length

inductive Op where
  | read (sys : System) (offset length : Nat)
  | clear

def step (disc : List Byte) (c : CacheType) : Op → Option CacheType
  | .read sys offset length => some (sysRead disc sys c offset length).2
  | .clear => some (cacheClear c)

end SheepShear.Cd
