import SheepShear.Lib.RowCopy

/-!
# QuickDraw acceleration

`gfxaccel.cpp`: filling, inverting and copying rectangles of pixels for a
parameter block of QuickDraw. The memory is that of the host; a Macintosh
address is an offset in it.
-/

namespace SheepShear.Video.Accel

open ByteRuns (HostMem rows)

/-- What the code is compiled for: the byte order, whether unaligned accesses are profitable, and
where the Macintosh memory starts. -/
structure HostConfig where
  bigEndian : Bool
  unalignedProfitable : Bool
  memBase : Int

def HostConfig.mac2HostAddr (host : HostConfig) (a : Word) : Int := host.memBase + a.toNat

/-- `htonl`. -/
def HostConfig.htonl (host : HostConfig) (v : Word) : Word :=
  if host.bigEndian then v
  else .ofBytes (v.extractLsb' 0 8) (v.extractLsb' 8 8) (v.extractLsb' 16 8) (v.extractLsb' 24 8)

structure Rect where
  top : BitVec 16
  left : BitVec 16
  bottom : BitVec 16
  right : BitVec 16

/-- The fields of `accl_params` that are read; those without a name by their offset. -/
structure AcclParams where
  transferMode : Word
  penMode : Word
  unknown018 : Word
  forePen : Word
  backPen : Word
  srcBaseAddr : Word
  srcRowBytes : Word
  srcBounds : Rect
  srcPixelSize : Word
  destBaseAddr : Word
  destRowBytes : Word
  destBounds : Rect
  destPixelSize : Word
  unknown128 : Word
  unknown130 : Word
  srcRect : Rect
  destRect : Rect
  unknown15c : Word

def AcclParams.srcX (p : AcclParams) : BitVec 16 := p.srcRect.left - p.srcBounds.left
def AcclParams.srcY (p : AcclParams) : BitVec 16 := p.srcRect.top - p.srcBounds.top
def AcclParams.destX (p : AcclParams) : BitVec 16 := p.destRect.left - p.destBounds.left
def AcclParams.destY (p : AcclParams) : BitVec 16 := p.destRect.top - p.destBounds.top
def AcclParams.width (p : AcclParams) : BitVec 16 := p.destRect.right - p.destRect.left
def AcclParams.height (p : AcclParams) : BitVec 16 := p.destRect.bottom - p.destRect.top

/-- `bytes_per_pixel`, which aborts for other depths. -/
def bytesPerPixel (depth : Word) : Option Nat :=
  match depth.toNat with
  | 8 => some 1
  | 15 => some 2
  | 16 => some 2
  | 24 => some 4
  | 32 => some 4
  | _ => none

/-- The address of a pixel, in 32-bit arithmetic. -/
def pixelAddr (base : Word) (x : BitVec 16) (row rowBytes : Int) (bpp : Nat) : Word :=
  base + BitVec.ofInt 32 (row * rowBytes) + BitVec.ofInt 32 (x.toInt * bpp)

-- ---------------------------------------------------------------------------
-- Inverting and filling
-- ---------------------------------------------------------------------------

section
variable (cell : Nat → Int → HostMem → HostMem)

/-- The alignment on 16-bit and 32-bit boundaries. -/
def align (unalignedProfitable : Bool) (bits : Nat) (dest : Int) (length : Word) (m : HostMem) :
    Int × Word × HostMem :=
  if unalignedProfitable then (dest, length, m)
  else
    let (dest, length, m) :=
      if bits < 16 ∧ dest % 2 ≠ 0 then (dest + 1, length - 1, cell 1 dest m) else (dest, length, m)
    if bits < 32 ∧ 2 ≤ dest % 4 then (dest + 2, length - 2, cell 2 dest m) else (dest, length, m)

/-- The cases of the `switch` from `case k` down: the words at the offsets `-k` to `-1`. -/
def words : (k : Nat) → Int → HostMem → HostMem
  | 0, _, m => m
  | k + 1, dest, m => words k dest (cell 8 (dest - 8 * (k + 1)) m)

/-- The loop around the `switch`. -/
def blocks : (n : Nat) → Int → HostMem → Int × HostMem
  | 0, dest, m => (dest, m)
  | n + 1, dest, m => blocks n (dest + 64) (words cell 8 (dest + 64) m)

/-- The 8-byte words. -/
def longWords (dest : Int) (length : Word) (m : HostMem) : Int × HostMem :=
  if 8 ≤ length.toNat then
    let r := length.toNat / 8 % 8
    let dest := dest + r * 8
    let n := (length.toNat / 8 + 7) / 8
    if r = 0 then blocks cell n dest m
    else blocks cell (n - 1) dest (words cell r dest m)
  else (dest, m)

/-- The 32-bit, 16-bit and 8-bit cells that are left. -/
def lastCells (bits : Nat) (dest : Int) (length : Word) (m : HostMem) : HostMem :=
  let (dest, m) :=
    if length &&& 4 ≠ 0 then (if bits ≤ 16 then dest + 4 else dest, cell 4 dest m) else (dest, m)
  let (dest, m) :=
    if bits ≤ 16 ∧ length &&& 2 ≠ 0 then (if bits ≤ 8 then dest + 2 else dest, cell 2 dest m)
    else (dest, m)
  if bits ≤ 8 ∧ length &&& 1 ≠ 0 then cell 1 dest m else m

/-- The bodies of `do_invrect` and `do_fillrect`, which differ in what they do to a cell. -/
def doRect (unalignedProfitable : Bool) (bits : Nat) (dest : Int) (length : Word) (m : HostMem) :
    HostMem :=
  let (dest, length, m) := align cell unalignedProfitable bits dest length m
  let (dest, m) := longWords cell dest length m
  lastCells cell bits dest length m

end

/-- `INVERT_1` to `INVERT_8`. -/
def invertCell (n : Nat) (a : Int) (m : HostMem) : HostMem := m.modify a n fun _ b => ~~~b

def doInvrect (host : HostConfig) (bits : Nat) (dest : Int) (length : Word) (m : HostMem) :
    HostMem :=
  doRect invertCell host.unalignedProfitable bits dest length m

/-- Byte `k` of a value of `n` bytes in memory; the value is cut off to its low bytes. -/
def HostConfig.byteAt (host : HostConfig) (n : Nat) (v : BitVec 64) (k : Nat) : Byte :=
  v.extractLsb' (8 * if host.bigEndian then n - 1 - k else k) 8

/-- `FILL_1` to `FILL_8`; the 8-byte word is the colour twice. -/
def fillCell (host : HostConfig) (color : Word) (n : Nat) (a : Int) (m : HostMem) : HostMem :=
  m.modify a n fun x _ => host.byteAt n (color ++ color) (x - a).toNat

def doFillrect (host : HostConfig) (bits : Nat) (dest : Int) (color : Word) (length : Word)
    (m : HostMem) : HostMem :=
  doRect (fillCell host color) host.unalignedProfitable bits dest length m

/-- `memset` with a signed length. -/
def memset (dest : Int) (color : Word) (length : BitVec 16) (m : HostMem) : HostMem :=
  m.modify dest (length.signExtend 64).toNat fun _ _ => color.extractLsb' 0 8

/-- The pixel in the upper left corner of the destination. -/
def AcclParams.destStart (p : AcclParams) (host : HostConfig) (bpp : Nat) : Int :=
  host.mac2HostAddr (pixelAddr p.destBaseAddr p.destX p.destY.toInt p.destRowBytes.toInt bpp)

/-- `NQD_invrect`. -/
def nqdInvrect (host : HostConfig) (p : AcclParams) (m : HostMem) : Option HostMem := do
  let bpp ← bytesPerPixel p.destPixelSize
  let width := p.width * BitVec.ofNat 16 bpp
  return rows (fun dest => doInvrect host (8 * bpp) dest (width.signExtend 32))
    p.destRowBytes.toInt p.height.toInt.toNat (p.destStart host bpp) m

def AcclParams.pen (p : AcclParams) : Word := if p.penMode = 8 then p.forePen else p.backPen

def AcclParams.color (p : AcclParams) (host : HostConfig) : Word := host.htonl p.pen

/-- `NQD_fillrect`. -/
def nqdFillrect (host : HostConfig) (p : AcclParams) (m : HostMem) : Option HostMem := do
  let bpp ← bytesPerPixel p.destPixelSize
  let color := p.color host
  let width := p.width * BitVec.ofNat 16 bpp
  let row := fun dest =>
    if bpp = 1 then memset dest color width
    else doFillrect host (8 * bpp) dest color (width.signExtend 32)
  return rows row p.destRowBytes.toInt p.height.toInt.toNat (p.destStart host bpp) m

-- ---------------------------------------------------------------------------
-- Copying
-- ---------------------------------------------------------------------------

/-- The pixel in the upper left corner of the source. -/
def AcclParams.srcStart (p : AcclParams) (host : HostConfig) (bpp : Nat) : Int :=
  host.mac2HostAddr (pixelAddr p.srcBaseAddr p.srcX p.srcY.toInt p.srcRowBytes.toInt bpp)

/-- The first pixel of the last row, when rows go from the last to the first. -/
def AcclParams.srcBottom (p : AcclParams) (host : HostConfig) (bpp : Nat) : Int :=
  host.mac2HostAddr
    (pixelAddr p.srcBaseAddr p.srcX (p.srcY.toInt + p.height.toInt - 1) (-p.srcRowBytes).toInt bpp)

def AcclParams.destBottom (p : AcclParams) (host : HostConfig) (bpp : Nat) : Int :=
  host.mac2HostAddr
    (pixelAddr p.destBaseAddr p.destX (p.destY.toInt + p.height.toInt - 1) (-p.destRowBytes).toInt bpp)

/-- The loops over the rows, with `memmove` for each. -/
def blitRows (width : Nat) (srcStep dstStep : Int) : (count : Nat) → Int → Int → HostMem → HostMem
  | 0, _, _, m => m
  | count + 1, src, dst, m =>
    blitRows width srcStep dstStep count (src + srcStep) (dst + dstStep) (m.copy dst src width)

/-- `NQD_bitblt`. -/
def nqdBitblt (host : HostConfig) (p : AcclParams) (m : HostMem) : Option HostMem := do
  let bpp ← bytesPerPixel p.srcPixelSize
  let width := ((p.width * BitVec.ofNat 16 bpp).signExtend 64).toNat
  let count := p.height.toInt.toNat
  if 0 < p.srcRowBytes.toInt then
    return blitRows width p.srcRowBytes.toInt p.destRowBytes.toInt count (p.srcStart host bpp)
      (p.destStart host bpp) m
  else
    return blitRows width (-(-p.srcRowBytes).toInt) (-(-p.destRowBytes).toInt) count
      (p.srcBottom host bpp) (p.destBottom host bpp) m

/-- What `NQD_bitblt_hook` accepts. -/
def nqdBitbltHook (p : AcclParams) : Bool :=
  p.unknown018 + p.unknown128 = 0 ∧ p.unknown130 = 0 ∧ 8 ≤ p.srcPixelSize.toNat ∧
    p.srcPixelSize = p.destPixelSize ∧ 0 ≤ (p.srcRowBytes ^^^ p.destRowBytes).toInt ∧
    p.transferMode = 0 ∧ 0 < p.unknown15c.toInt

end SheepShear.Video.Accel
