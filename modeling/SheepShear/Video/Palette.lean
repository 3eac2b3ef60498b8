import SheepShear.Lib.Buffer
import SheepShear.Lib.Memory

/-!
# The palette calls of the video driver

`cscSetEntries` of `VideoControl` and `cscGetEntries` of `VideoStatus` in
`video.cpp`: rows of a colour table in guest memory are stored in `mac_pal` and
read back. The accesses to `mac_pal` are checked.
-/

namespace SheepShear.Video

-- ---------------------------------------------------------------------------
-- Data
-- ---------------------------------------------------------------------------

/-- `rgb_color` -/
structure Rgb where
  red : Byte
  green : Byte
  blue : Byte
  deriving DecidableEq, Repr

/-- What the two calls use of `VidLocals`. -/
structure VidLocals where
  gammaTable : Word
  maxGammaTableSize : Word
  luminanceMapping : Bool
  deriving DecidableEq, Repr

/-- An access to `mac_pal` that is not in it. -/
inductive OutOfPalette where
  | entry
  deriving DecidableEq, Repr

def apple8Bit : Word := 0x83
def apple16Bit : Word := 0x84
def apple32Bit : Word := 0x85

def noErr : Int := 0
def controlErr : Int := -17
def statusErr : Int := -18
def paramErr : Int := -50
def memFullErr : Int := -108

/-- Fields of the parameters and of the rows of a colour table. -/
def csTable : Word := 0
def csStart : Word := 4
def csCount : Word := 6
def csValue : Word := 0
def csRed : Word := 2
def csGreen : Word := 4
def csBlue : Word := 6

/-- Fields of a gamma table. -/
def gVersion : Word := 0
def gType : Word := 2
def gFormulaSize : Word := 4
def gChanCnt : Word := 6
def gDataCnt : Word := 8
def gDataWidth : Word := 10
def gFormulaData : Word := 12

-- ---------------------------------------------------------------------------
-- Colours
-- ---------------------------------------------------------------------------

/-- `red_gamma`, `green_gamma` and `blue_gamma` as guest addresses, and `gamma_data_width`. -/
structure Gamma where
  red : Word
  green : Word
  blue : Word
  width : Nat
  deriving DecidableEq, Repr

/-- The preparations for gamma correction. -/
def gammaOf (m : Mem) (gammaTable : Word) : Gamma :=
  let red := gammaTable + gFormulaData + (m.readInt16 (gammaTable + gFormulaSize)).setWidth 32
  let width := (m.readInt16 (gammaTable + gDataWidth)).toNat
  if m.readInt16 (gammaTable + gChanCnt) = 1 then ⟨red, red, red, width⟩
  else
    let ofs := (m.readInt16 (gammaTable + gDataCnt)).setWidth 32
    ⟨red, red + ofs, red + ofs + ofs, width⟩

/-- `red_gamma[red >> (8 - gamma_data_width)]` -/
def lookup (m : Mem) (table : Word) (width : Nat) (v : Byte) : Byte :=
  m (table + (v >>> (8 - width)).setWidth 32)

def Gamma.correct (m : Mem) (g : Gamma) (c : Rgb) : Rgb :=
  ⟨lookup m g.red g.width c.red, lookup m g.green g.width c.green, lookup m g.blue g.width c.blue⟩

/-- The high byte of a component. -/
def highByte (v : BitVec 16) : Byte := v.extractLsb' 8 8

/-- The colour of a row of the table. -/
def rowColour (m : Mem) (row : Word) : Rgb :=
  ⟨highByte (m.readInt16 (row + csRed)), highByte (m.readInt16 (row + csGreen)),
    highByte (m.readInt16 (row + csBlue))⟩

/-- `(red * 0x4ccc + green * 0x970a + blue * 0x1c29) >> 16` -/
def luminance (c : Rgb) : Byte :=
  BitVec.ofNat 8 ((c.red.toNat * 0x4ccc + c.green.toNat * 0x970a + c.blue.toNat * 0x1c29) / 65536)

/-- What is stored for a row. -/
def entryColour (m : Mem) (csSave : VidLocals) (row : Word) : Rgb :=
  let c := rowColour m row
  let c := if csSave.luminanceMapping then ⟨luminance c, luminance c, luminance c⟩ else c
  if csSave.gammaTable ≠ 0 then (gammaOf m csSave.gammaTable).correct m c else c

/-- The entry that an indexed row is for. -/
def rowIndex (m : Mem) (row : Word) : Nat := (m.readInt16 (row + csValue) &&& 0xff).toNat

-- ---------------------------------------------------------------------------
-- Parameters
-- ---------------------------------------------------------------------------

def tableOf (m : Mem) (param : Word) : Word := m.readInt32 (param + csTable)

def startOf (m : Mem) (param : Word) : BitVec 16 := m.readInt16 (param + csStart)

def countOf (m : Mem) (param : Word) : Nat := (m.readInt16 (param + csCount)).toNat

-- ---------------------------------------------------------------------------
-- SetEntries
-- ---------------------------------------------------------------------------

def setIndexed (m : Mem) (csSave : VidLocals) :
    (n : Nat) → (s_pal : Word) → List Rgb → Except OutOfPalette (List Rgb)
  | 0, _, pal => return pal
  | n + 1, s_pal, pal => do
    let pal ← Buffer.store .entry pal (rowIndex m s_pal) (entryColour m csSave s_pal)
    setIndexed m csSave n (s_pal + 8) pal

def setSequential (m : Mem) (csSave : VidLocals) :
    (n : Nat) → (s_pal : Word) → (d_pal : Nat) → List Rgb → Except OutOfPalette (List Rgb)
  | 0, _, _, pal => return pal
  | n + 1, s_pal, d_pal, pal => do
    let pal ← Buffer.store .entry pal d_pal (entryColour m csSave s_pal)
    setSequential m csSave n (s_pal + 8) (d_pal + 1) pal

/-- `cscSetEntries`: the palette and the result. -/
def setEntries (m : Mem) (viAppleMode : Word) (csSave : VidLocals) (param : Word)
    (pal : List Rgb) : Except OutOfPalette (List Rgb × Int) := do
  if apple8Bit < viAppleMode then return (pal, controlErr)
  let s_pal := tableOf m param
  let start := startOf m param
  let count := countOf m param
  if s_pal = 0 ∨ 256 < count then return (pal, controlErr)
  let pal ←
    if start = 0xffff then setIndexed m csSave (count + 1) s_pal pal
    else setSequential m csSave (count + 1) s_pal start.toNat pal
  return (pal, noErr)

-- ---------------------------------------------------------------------------
-- GetEntries
-- ---------------------------------------------------------------------------

/-- `red * 0x0101` -/
def replicate (v : Byte) : BitVec 16 := v.setWidth 16 * 0x0101

def writeRow (m : Mem) (row : Word) (c : Rgb) : Mem :=
  ((m.writeInt16 (row + csRed) (replicate c.red)).writeInt16 (row + csGreen)
    (replicate c.green)).writeInt16 (row + csBlue) (replicate c.blue)

def loadEntry (pal : List Rgb) (i : Nat) : Except OutOfPalette Rgb :=
  if h : i < pal.length then .ok pal[i] else .error .entry

def getIndexed (pal : List Rgb) : (n : Nat) → (d_pal : Word) → Mem → Except OutOfPalette Mem
  | 0, _, m => return m
  | n + 1, d_pal, m => do
    let c ← loadEntry pal (rowIndex m d_pal)
    getIndexed pal n (d_pal + 8) (writeRow m d_pal c)

def getSequential (pal : List Rgb) :
    (n : Nat) → (s_pal : Nat) → (d_pal : Word) → Mem → Except OutOfPalette Mem
  | 0, _, _, m => return m
  | n + 1, s_pal, d_pal, m => do
    let c ← loadEntry pal s_pal
    getSequential pal n (s_pal + 1) (d_pal + 8) (writeRow m d_pal c)

/-- `cscGetEntries`: the memory and the result. -/
def getEntries (m : Mem) (viAppleMode : Word) (param : Word) (pal : List Rgb) :
    Except OutOfPalette (Mem × Int) := do
  let d_pal := tableOf m param
  let start := startOf m param
  let count := countOf m param
  if viAppleMode = apple32Bit ∨ viAppleMode = apple16Bit then return (m, statusErr)
  if start = 0xffff then return (← getIndexed pal count d_pal m, noErr)
  if 255 < start.toNat + count then return (m, paramErr)
  return (← getSequential pal count start.toNat d_pal m, noErr)

end SheepShear.Video
