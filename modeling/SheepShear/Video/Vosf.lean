import SheepShear.Lib.Bytes
import SheepShear.Lib.Steps

/-!
# Video on SEGV signals

`video_vosf.h`: the frame buffer is write-protected, and a page becomes writable
and is marked dirty when the guest first writes to it or when an area is marked.
The update of a window copies the scanlines of the dirty pages and protects them
again. Addresses are offsets into the buffer.
-/

namespace SheepShear.Video

/-- The screen of a video mode in its buffer, which has two scanlines to spare. -/
structure Geometry where
  pageBits : Nat
  pageCount : Nat
  width : Nat
  height : Nat
  rowBytes : Nat
  width_pos : 0 < width
  height_pos : 0 < height
  rowBytes_pos : 0 < rowBytes
  room : (height + 2) * rowBytes ≤ pageCount * 2 ^ pageBits

def Geometry.pageSize (g : Geometry) : Nat := 2 ^ g.pageBits

/-- The length of the buffer; it is a whole number of pages. -/
def Geometry.memLength (g : Geometry) : Nat := g.pageCount * g.pageSize

structure ScreenPageInfo where
  top : Nat
  bottom : Nat
deriving DecidableEq, Inhabited

def Geometry.clampLine (g : Geometry) (y : Nat) : Nat := if y ≥ g.height then g.height - 1 else y

/-- The loop of `video_vosf_init` over the pages, from the offset `a` on. -/
def Geometry.pageInfoFrom (g : Geometry) : (left : Nat) → (a : Nat) → List ScreenPageInfo
  | 0, _ => []
  | left + 1, a =>
    let y1 := g.clampLine (a / g.rowBytes)
    let y2 := g.clampLine ((a + g.pageSize) / g.rowBytes)
    let a' := a + g.pageSize
    ⟨y1, y2⟩ :: g.pageInfoFrom left (if a' > g.memLength then g.memLength else a')

def Geometry.pageInfo (g : Geometry) : List ScreenPageInfo := g.pageInfoFrom g.pageCount 0

-- ---------------------------------------------------------------------------
-- State
-- ---------------------------------------------------------------------------

/-- Where an update is; it holds the lock from `scan` on. -/
inductive Phase where
  | idle
  | scan (page : Nat)
  | clear (firstPage page : Nat)
  | protect (firstPage page : Nat)
  | blit (firstPage page : Nat) (pos stop : Nat)

/-- The buffer with its page flags and protection. `shown` holds each byte as it was when it was
last blitted. -/
structure Screen where
  buffer : Nat → Byte
  shown : Nat → Byte
  dirtyPages : Nat → Bool
  writable : Nat → Bool
  dirty : Bool
  phase : Phase

/-- The end of `video_vosf_init`: the two pages after the last one are guards. -/
def Screen.init (g : Geometry) (buffer : Nat → Byte) : Screen where
  buffer := buffer
  shown := buffer
  dirtyPages page := page = g.pageCount + 1
  writable _ := false
  dirty := false
  phase := .idle

-- ---------------------------------------------------------------------------
-- Searching the flags
-- ---------------------------------------------------------------------------

def skipFour (p : Nat → Bool) : (left : Nat) → (page : Nat) → Nat
  | 0, page => page
  | left + 1, page =>
    if p page && p (page + 1) && p (page + 2) && p (page + 3) then skipFour p left (page + 4)
    else page

def skipOne (p : Nat → Bool) : (left : Nat) → (page : Nat) → Nat
  | 0, page => page
  | left + 1, page => if p page then skipOne p left (page + 1) else page

/-- Both loops of a search for the next page without `p`, at most `bound` turns each. -/
def findNext (p : Nat → Bool) (bound page : Nat) : Nat := skipOne p bound (skipFour p bound page)

/-- `find_next_page_set`. -/
def findNextPageSet (g : Geometry) (s : Screen) (page : Nat) : Nat :=
  findNext (fun i => !s.dirtyPages i) (g.pageCount + 2) page

/-- `find_next_page_clear`. -/
def findNextPageClear (g : Geometry) (s : Screen) (page : Nat) : Nat :=
  findNext s.dirtyPages (g.pageCount + 2) page

-- ---------------------------------------------------------------------------
-- Marking pages
-- ---------------------------------------------------------------------------

def Screen.touchPage (s : Screen) (page : Nat) : Screen :=
  if s.dirtyPages page then s
  else { s with
    dirtyPages := Function.update s.dirtyPages page true
    writable := Function.update s.writable page true }

def Screen.touchPages (s : Screen) (page : Int) : (count : Nat) → Screen
  | 0 => s
  | count + 1 => (s.touchPage page.toNat).touchPages (page + 1) count

/-- `vosf_do_set_dirty_area`. -/
def doSetDirtyArea (g : Geometry) (first last : Int) (s : Screen) : Screen :=
  let firstPage := first / g.pageSize
  let lastPage := last / g.pageSize
  s.touchPages firstPage (lastPage - firstPage + 1).toNat

/-- A loop over `count` scanlines from `j` on, with the columns of each. -/
def setDirtyLines (g : Geometry) (column lastColumn : Int) (j : Int) : (count : Nat) → Screen → Screen
  | 0, s => s
  | count + 1, s => setDirtyLines g column lastColumn (j + 1) count
      (doSetDirtyArea g (j * g.rowBytes + column) (j * g.rowBytes + lastColumn) s)

/-- The two ways of marking the lines from `y` on, depending on the size of a page. -/
def setDirtyRows (g : Geometry) (column lastColumn y h : Int) (s : Screen) : Screen :=
  if g.rowBytes ≤ g.pageSize then
    doSetDirtyArea g (y * g.rowBytes + column) ((y + h - 1) * g.rowBytes + lastColumn) s
  else setDirtyLines g column lastColumn y h.toNat s

/-- An interval that begins before 0 loses what is before it. -/
def clipStart (x w : Int) : Int × Int := if x < 0 then (0, w - -x) else (x, w)

/-- One that ends after `size` loses what is after it. -/
def clipEnd (size : Nat) (x w : Int) : Int := if x + w > size then w - (x + w - size) else w

/-- The pages of a clipped area. -/
def markArea (g : Geometry) (x y w h : Int) (s : Screen) : Screen :=
  if g.rowBytes ≥ g.width then
    let bytesPerPixel : Int := g.rowBytes / g.width
    setDirtyRows g (x * bytesPerPixel) ((x + w - 1) * bytesPerPixel) y h s
  else
    let pixelsPerByte : Int := g.width / g.rowBytes
    setDirtyRows g (x / pixelsPerByte) ((x + w - 1) / pixelsPerByte) y h s

/-- `vosf_set_dirty_area`, with the size of the mode. -/
def setDirtyArea (g : Geometry) (x y w h : Int) (s : Screen) : Screen :=
  let (x, w) := clipStart x w
  let (y, h) := clipStart y h
  if w ≤ 0 ∨ h ≤ 0 then s
  else { markArea g x y (clipEnd g.width x w) (clipEnd g.height y h) s with dirty := true }

/-- `Screen_fault_handler`, for a fault in the buffer. -/
def screenFaultHandler (g : Geometry) (addr : Nat) (s : Screen) : Screen :=
  { s.touchPage (addr / g.pageSize) with dirty := true }

-- ---------------------------------------------------------------------------
-- Steps
-- ---------------------------------------------------------------------------

/-- One step of `update_display_window_vosf`; the bytes of the scanlines are copied one by one. -/
def continueUpdate (g : Geometry) (s : Screen) : Option Screen :=
  match s.phase with
  | .idle => none
  | .scan page =>
    let firstPage := findNextPageSet g s page
    if firstPage ≥ g.pageCount then some { s with dirty := false, phase := .idle }
    else some { s with phase := .clear firstPage (findNextPageClear g s firstPage) }
  | .clear firstPage page =>
    some { s with
      dirtyPages := fun i => if firstPage ≤ i ∧ i < page then false else s.dirtyPages i
      phase := .protect firstPage page }
  | .protect firstPage page =>
    let y1 := (g.pageInfo.getD firstPage default).top
    let y2 := (g.pageInfo.getD (page - 1) default).bottom
    some { s with
      writable := fun i => if firstPage ≤ i ∧ i < page then false else s.writable i
      phase := .blit firstPage page (y1 * g.rowBytes) ((y2 + 1) * g.rowBytes) }
  | .blit firstPage page pos stop =>
    if pos < stop then
      some { s with
        shown := Function.update s.shown pos (s.buffer pos)
        phase := .blit firstPage page (pos + 1) stop }
    else some { s with phase := .scan page }

inductive Action where
  | write (addr : Nat) (v : Byte)
  | fault (addr : Nat)
  | setDirtyArea (x y w h : Int)
  | beginUpdate
  | continueUpdate

/-- A store goes through when its page is writable, at any time. The fault handler, the marking of
areas and updates exclude each other by the lock; the first two are one step each. -/
def step (g : Geometry) (s : Screen) : Action → Option Screen
  | .write addr v =>
    if addr < g.memLength ∧ s.writable (addr / g.pageSize) then
      some { s with buffer := Function.update s.buffer addr v }
    else none
  | .fault addr =>
    match s.phase with
    | .idle => if addr < g.memLength then some (screenFaultHandler g addr s) else none
    | _ => none
  | .setDirtyArea x y w h =>
    match s.phase with
    | .idle => some (setDirtyArea g x y w h s)
    | _ => none
  | .beginUpdate =>
    match s.phase with
    | .idle => some { s with phase := .scan 0 }
    | _ => none
  | .continueUpdate => continueUpdate g s

end SheepShear.Video
