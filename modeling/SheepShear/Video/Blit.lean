import SheepShear.Lib.HostWords

/-!
# The screen blitters

`Screen_blitters` of `video_blit.cpp` on a little-endian host, with the functions
that `video_blit.h` makes of the expressions for 16, 32 and 64 bits. A row of the
Mac's screen is read from one memory and written to another, the host's.
-/

namespace SheepShear.Video.Blit

open HostWords

-- ---------------------------------------------------------------------------
-- Expressions
-- ---------------------------------------------------------------------------

/-- `FB_DEPTH` and the expressions `FB_BLIT_1`, `FB_BLIT_2` and `FB_BLIT_4`; the first is
there for depths of up to 16. -/
structure Macros where
  depth : Nat
  blit1 : Option (BitVec 16 → BitVec 16)
  blit2 : BitVec 32 → BitVec 32
  blit4 : BitVec 64 → BitVec 64

/-- A 16-bit word in an expression is an `int`. -/
def promoted (f : BitVec 32 → BitVec 32) (src : BitVec 16) : BitVec 16 :=
  (f (src.setWidth 32)).setWidth 16

def blitRGB555NBO : Macros where
  depth := 15
  blit1 := some <| promoted fun src => src >>> 8 &&& 0xff ||| (src &&& 0xff) <<< 8
  blit2 := fun src => src >>> 8 &&& 0x00ff00ff ||| (src &&& 0x00ff00ff) <<< 8
  blit4 := fun src => src >>> 8 &&& 0x00ff00ff00ff00ff ||| (src &&& 0x00ff00ff00ff00ff) <<< 8

def blitBGR555NBO : Macros where
  depth := 15
  blit1 := some <| promoted fun src =>
    src >>> 2 &&& 0x1f ||| src >>> 8 &&& 0xe0 ||| src <<< 8 &&& 0x0300 ||| src <<< 2 &&& 0x7c00
  blit2 := fun src =>
    src >>> 2 &&& 0x1f001f ||| src >>> 8 &&& 0xe000e0 ||| src <<< 8 &&& 0x03000300 |||
      src <<< 2 &&& 0x7c007c00
  blit4 := fun src =>
    src >>> 2 &&& 0x001f001f001f001f ||| src >>> 8 &&& 0x00e000e000e000e0 |||
      src <<< 8 &&& 0x0300030003000300 ||| src <<< 2 &&& 0x7c007c007c007c00

def blitBGR555OBO : Macros where
  depth := 15
  blit1 := some <| promoted fun src =>
    src <<< 6 &&& 0x1f00 ||| src &&& 0xe003 ||| src >>> 6 &&& 0x7c
  blit2 := fun src => src <<< 6 &&& 0x1f001f00 ||| src &&& 0xe003e003 ||| src >>> 6 &&& 0x7c007c
  blit4 := fun src =>
    src <<< 6 &&& 0x1f001f001f001f00 ||| src &&& 0xe003e003e003e003 ||| src >>> 6 &&& 0x007c007c007c007c

def blitRGB565NBO : Macros where
  depth := 16
  blit1 := some <| promoted fun src =>
    src >>> 8 &&& 0x001f ||| src <<< 9 &&& 0xfe00 ||| src >>> 7 &&& 0x01c0
  blit2 := fun src =>
    src >>> 8 &&& 0x001f001f ||| src <<< 9 &&& 0xfe00fe00 ||| src >>> 7 &&& 0x01c001c0
  blit4 := fun src =>
    src >>> 8 &&& 0x001f001f001f001f ||| src <<< 9 &&& 0xfe00fe00fe00fe00 |||
      src >>> 7 &&& 0x01c001c001c001c0

def blitRGB565OBO : Macros where
  depth := 16
  blit1 := some <| promoted fun src =>
    src &&& 0x1f00 ||| src <<< 1 &&& 0xe0fe ||| src >>> 15 &&& 1
  blit2 := fun src => src &&& 0x1f001f00 ||| src <<< 1 &&& 0xe0fee0fe ||| src >>> 15 &&& 0x10001
  blit4 := fun src =>
    src &&& 0x1f001f001f001f00 ||| src <<< 1 &&& 0xe0fee0fee0fee0fe ||| src >>> 15 &&& 0x0001000100010001

def blitRGB888NBO : Macros where
  depth := 24
  blit1 := none
  blit2 := fun src =>
    src >>> 24 &&& 0xff ||| src >>> 8 &&& 0xff00 ||| (src &&& 0xff00) <<< 8 ||| (src &&& 0xff) <<< 24
  blit4 := fun src =>
    src >>> 24 &&& 0x000000ff000000ff ||| src >>> 8 &&& 0x0000ff000000ff00 |||
      (src &&& 0x0000ff000000ff00) <<< 8 ||| (src &&& 0x000000ff000000ff) <<< 24

def blitBGR888OBO : Macros where
  depth := 24
  blit1 := none
  blit2 := fun src => src >>> 16 &&& 0xff ||| src &&& 0xff0000 ||| (src &&& 0xff) <<< 16
  blit4 := fun src =>
    src >>> 16 &&& 0x000000ff000000ff ||| src &&& 0x00ff000000ff0000 |||
      (src &&& 0x000000ff000000ff) <<< 16

def blitBGR888NBO : Macros where
  depth := 24
  blit1 := none
  blit2 := fun src => src &&& 0xff00ff ||| (src &&& 0xff00) <<< 16
  blit4 := fun src => src &&& 0x00ff00ff00ff00ff ||| (src &&& 0x0000ff000000ff00) <<< 16

-- ---------------------------------------------------------------------------
-- FB_FUNC_NAME
-- ---------------------------------------------------------------------------

/-- The host's memory and the two pointers. -/
@[ext]
structure Cursor where
  mem : HostMemory
  dest : Nat
  source : Nat

def Cursor.advance (c : Cursor) (n : Nat) : Cursor :=
  { c with dest := c.dest + n, source := c.source + n }

/-- An expression for the word of `n` bytes that is `back` bytes in front of the pointers. -/
def convert {n : Nat} (f : BitVec (8 * n) → BitVec (8 * n)) (src : HostMemory) (back : Nat)
    (c : Cursor) : Cursor :=
  { c with mem :=
      writeLE c.mem (c.dest - back) (f (BitVec.ofNat (8 * n) (readLE src (c.source - back) n))).toNat n }

/-- The cases from `k` down to 1. -/
def duffCases (blit4 : BitVec 64 → BitVec 64) (src : HostMemory) : Nat → Cursor → Cursor
  | 0, c => c
  | k + 1, c => duffCases blit4 src k (@convert 8 blit4 src (8 * (k + 1)) c)

/-- `n` rounds from `case 0` on. -/
def duffRounds (blit4 : BitVec 64 → BitVec 64) (src : HostMemory) : Nat → Cursor → Cursor
  | 0, c => c
  | n + 1, c => duffRounds blit4 src n (duffCases blit4 src 8 (c.advance 64))

/-- Blit 8-byte words. -/
def blitQuads (blit4 : BitVec 64 → BitVec 64) (src : HostMemory) (length : Nat) (c : Cursor) : Cursor :=
  let remainder := length / 8 % 8
  let n := (length / 8 + 7) / 8
  let c := c.advance (remainder * 8)
  if remainder = 0 then duffRounds blit4 src n c
  else duffRounds blit4 src (n - 1) (duffCases blit4 src remainder c)

/-- The blit from where the pointers are aligned. -/
def blitAligned (b : Macros) (src : HostMemory) (length : Word) (c : Cursor) : Cursor :=
  let c := if 8 ≤ length.toNat then blitQuads b.blit4 src length.toNat c else c
  -- There could be one long left to blit
  let c :=
    if length.toNat / 4 % 2 = 1 then
      let c := @convert 4 b.blit2 src 0 c
      if b.depth ≤ 16 then c.advance 4 else c
    else c
  -- There could be one word left to blit
  match b.blit1 with
  | some blit1 => if length.toNat / 2 % 2 = 1 then @convert 2 blit1 src 0 c else c
  | none => c

/-- The function of a set of expressions, compiled with or without `UNALIGNED_PROFITABLE`. -/
def fbFunc (b : Macros) (unalignedProfitable : Bool) (src : HostMemory) (source : Nat) (length : Word)
    (mem : HostMemory) (dest : Nat) : HostMemory :=
  let c : Cursor := { mem := mem, dest := dest, source := source }
  match b.blit1 with
  | some blit1 =>
    -- Align source and dest to 32-bit word boundaries
    if !unalignedProfitable && source / 2 % 2 = 1 then
      (blitAligned b src (length - 2) ((@convert 2 blit1 src 0 c).advance 2)).mem
    else (blitAligned b src length c).mem
  | none => (blitAligned b src length c).mem

-- ---------------------------------------------------------------------------
-- The table
-- ---------------------------------------------------------------------------

inductive Handler where
  | copyRaw
  | rgb555NBO
  | bgr555NBO
  | bgr555OBO
  | rgb565NBO
  | rgb565OBO
  | rgb888NBO
  | bgr888NBO
  | bgr888OBO
  deriving DecidableEq, Repr

/-- The expressions of a handler that converts. -/
def Handler.macros : Handler → Option Macros
  | .copyRaw => none
  | .rgb555NBO => some blitRGB555NBO
  | .bgr555NBO => some blitBGR555NBO
  | .bgr555OBO => some blitBGR555OBO
  | .rgb565NBO => some blitRGB565NBO
  | .rgb565OBO => some blitRGB565OBO
  | .rgb888NBO => some blitRGB888NBO
  | .bgr888NBO => some blitBGR888NBO
  | .bgr888OBO => some blitBGR888OBO

def Handler.blit (h : Handler) (unalignedProfitable : Bool) (src : HostMemory) (source : Nat)
    (length : Word) (mem : HostMemory) (dest : Nat) : HostMemory :=
  match h.macros with
  | none => copyIn mem dest (fun i => src (source + i)) length.toNat
  | some b => fbFunc b unalignedProfitable src source length mem dest

/-- A visual format and its update functions for native and for opposite byte order. -/
structure ScreenBlitFuncInfo where
  depth : Nat
  rmask : Word
  gmask : Word
  bmask : Word
  handlerNbo : Handler
  handlerObo : Handler
  deriving DecidableEq, Repr

def screenBlitters : List ScreenBlitFuncInfo := [
  ⟨1, 0x000000, 0x000000, 0x000000, .copyRaw, .copyRaw⟩,
  ⟨8, 0x000000, 0x000000, 0x000000, .copyRaw, .copyRaw⟩,
  ⟨15, 0x007c00, 0x0003e0, 0x00001f, .rgb555NBO, .copyRaw⟩,
  ⟨15, 0x00001f, 0x0003e0, 0x007c00, .bgr555NBO, .bgr555OBO⟩,
  ⟨16, 0x007c00, 0x0003e0, 0x00001f, .rgb555NBO, .copyRaw⟩,
  ⟨16, 0x00f800, 0x0007e0, 0x00001f, .rgb565NBO, .rgb565OBO⟩,
  ⟨24, 0xff0000, 0x00ff00, 0x0000ff, .rgb888NBO, .copyRaw⟩,
  ⟨24, 0x0000ff, 0x00ff00, 0xff0000, .bgr888NBO, .bgr888OBO⟩,
  ⟨32, 0xff0000, 0x00ff00, 0x0000ff, .rgb888NBO, .copyRaw⟩,
  ⟨32, 0x0000ff, 0x00ff00, 0xff0000, .bgr888NBO, .bgr888OBO⟩,
  ⟨32, 0xff00, 0xff0000, 0xff000000, .copyRaw, .copyRaw⟩]

def ScreenBlitFuncInfo.handler (e : ScreenBlitFuncInfo) (native : Bool) : Handler :=
  if native then e.handlerNbo else e.handlerObo

end SheepShear.Video.Blit
