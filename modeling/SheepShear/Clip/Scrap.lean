import SheepShear.Clip.Selection
import SheepShear.Lib.Memory

/-!
# The scrap and the clipboard

`PutScrap` and `GetScrap` of `clip_unix.cpp`. Text for the Mac is copied to its
memory, where a procedure puts it on the scrap, and that comes back to `PutScrap`
of the host as anything that an application puts there.
-/

namespace SheepShear.Clip

-- ---------------------------------------------------------------------------
-- Character sets
-- ---------------------------------------------------------------------------

def mac2iso : List Byte :=
  [0xc4, 0xc5, 0xc7, 0xc9, 0xd1, 0xd6, 0xdc, 0xe1, 0xe0, 0xe2, 0xe4, 0xe3, 0xe5, 0xe7, 0xe9, 0xe8,
    0xea, 0xeb, 0xed, 0xec, 0xee, 0xef, 0xf1, 0xf3, 0xf2, 0xf4, 0xf6, 0xf5, 0xfa, 0xf9, 0xfb, 0xfc,
    0x2b, 0xb0, 0xa2, 0xa3, 0xa7, 0xb7, 0xb6, 0xdf, 0xae, 0xa9, 0x20, 0xb4, 0xa8, 0x23, 0xc6, 0xd8,
    0x20, 0xb1, 0x3c, 0x3e, 0xa5, 0xb5, 0xf0, 0x53, 0x50, 0x70, 0x2f, 0xaa, 0xba, 0x4f, 0xe6, 0xf8,
    0xbf, 0xa1, 0xac, 0x2f, 0x66, 0x7e, 0x44, 0xab, 0xbb, 0x2e, 0x20, 0xc0, 0xc3, 0xd5, 0x4f, 0x6f,
    0x2d, 0x2d, 0x22, 0x22, 0x60, 0x27, 0xf7, 0x20, 0xff, 0x59, 0x2f, 0xa4, 0x3c, 0x3e, 0x66, 0x66,
    0x23, 0xb7, 0x2c, 0x22, 0x25, 0xc2, 0xca, 0xc1, 0xcb, 0xc8, 0xcd, 0xce, 0xcf, 0xcc, 0xd3, 0xd4,
    0x20, 0xd2, 0xda, 0xdb, 0xd9, 0x69, 0x5e, 0x7e, 0xaf, 0x20, 0xb7, 0xb0, 0xb8, 0x22, 0xb8, 0x20]

def iso2mac : List Byte :=
  [0xad, 0xb0, 0xe2, 0xc4, 0xe3, 0xc9, 0xa0, 0xe0, 0xf6, 0xe4, 0xde, 0xdc, 0xce, 0xb2, 0xb3, 0xb6,
    0xb7, 0xd4, 0xd5, 0xd2, 0xd3, 0xa5, 0xd0, 0xd1, 0xf7, 0xaa, 0xdf, 0xdd, 0xcf, 0xba, 0xfd, 0xd9,
    0xca, 0xc1, 0xa2, 0xa3, 0xdb, 0xb4, 0xbd, 0xa4, 0xac, 0xa9, 0xbb, 0xc7, 0xc2, 0xf0, 0xa8, 0xf8,
    0xa1, 0xb1, 0xc3, 0xc5, 0xab, 0xb5, 0xa6, 0xe1, 0xfc, 0xc6, 0xbc, 0xc8, 0xf9, 0xda, 0xd7, 0xc0,
    0xcb, 0xe7, 0xe5, 0xcc, 0x80, 0x81, 0xae, 0x82, 0xe9, 0x83, 0xe6, 0xe8, 0xed, 0xea, 0xeb, 0xec,
    0xf5, 0x84, 0xf1, 0xee, 0xef, 0xcd, 0x85, 0xfb, 0xaf, 0xf4, 0xf2, 0xf3, 0x86, 0xfa, 0xb8, 0xa7,
    0x88, 0x87, 0x89, 0x8b, 0x8a, 0x8c, 0xbe, 0x8d, 0x8f, 0x8e, 0x90, 0x91, 0x93, 0x92, 0x94, 0x95,
    0xfe, 0x96, 0x98, 0x97, 0x99, 0x9b, 0x9a, 0xd6, 0xbf, 0x9d, 0x9c, 0x9e, 0x9f, 0xff, 0xb9, 0xd8]

/-- A character of a text, whose line ends with `from` where the other side has `to`. -/
def convert (table : List Byte) (noClipConversion : Bool) (lineEnd other c : Byte) : Byte :=
  if c < 0x80 then
    if c = lineEnd then other else c
  else if !noClipConversion then table.getD (c &&& 0x7f).toNat 0
  else c

/-- CR -> LF -/
def toHost (noClipConversion : Bool) : Byte → Byte := convert mac2iso noClipConversion 13 10

/-- LF -> CR -/
def toMac (noClipConversion : Bool) : Byte → Byte := convert iso2mac noClipConversion 10 13

-- ---------------------------------------------------------------------------
-- PutScrap
-- ---------------------------------------------------------------------------

/-- `FOURCC('T','E','X','T')` -/
def TEXT : Word := 0x54455854

/-- The state of the exchange, with the data that the Mac has got on its scrap. -/
structure Scrap where
  wePutThisData : Bool
  clipData : ClipboardData
  selectionOwner : WindowId
  scraps : List (Word × List Byte)

/-- The preferences and the windows, with the trap that hands out memory of the Mac. -/
structure Host where
  display : Display
  clipWin : WindowId
  noClipConversion : Bool
  newPtrSysClear : Mem → Word → Word × Mem

/-- The bytes of a scrap, of which there are none for a length below 0. -/
def scrapBytes (m : Mem) (scrap : Word) (length : Int) : List Byte :=
  (List.range length.toNat).map fun i => m (scrap + .ofNat 32 i)

/-- Styles are read and not kept. -/
def doPutScrap (h : Host) (s : Scrap) (m : Mem) (type scrap : Word) (length : Int) : Scrap :=
  if type = TEXT then
    { s with
      clipData := { time := 0
                    type := XA_STRING
                    data := (scrapBytes m scrap length).map (toHost h.noClipConversion) }
      selectionOwner := h.clipWin }
  else { s with clipData := { s.clipData with type := None } }

def putScrap (h : Host) (s : Scrap) (m : Mem) (type scrap : Word) (length : Int) : Scrap :=
  if s.wePutThisData then { s with wePutThisData := false }
  else if length ≤ 0 then s
  else doPutScrap h s m type scrap length

/-- The trap of the Mac, which calls the host and then does its own work. -/
def trapPutScrap (h : Host) (s : Scrap) (m : Mem) (type scrap : Word) (length : Word) : Scrap :=
  let s := putScrap h s m type scrap length.toInt
  { s with scraps := s.scraps ++ [(type, scrapBytes m scrap length.toInt)] }

-- ---------------------------------------------------------------------------
-- GetScrap
-- ---------------------------------------------------------------------------

/-- The procedure with the operands of its pushes cleared. -/
def proc : List Byte :=
  [0x59, 0x8f, -- subq.l #4,sp
    0xa9, 0xfc, -- ZeroScrap()
    0x2f, 0x3c, 0, 0, 0, 0, -- move.l #length,-(sp)
    0x2f, 0x3c, 0, 0, 0, 0, -- move.l #type,-(sp)
    0x2f, 0x3c, 0, 0, 0, 0, -- move.l #outbuf,-(sp)
    0xa9, 0xfe, -- PutScrap()
    0x58, 0x8f, -- addq.l #4,sp
    0x4e, 0x75]

/-- A run of the procedure at `procArea`, which pushes what it finds in its operands. -/
def execute68k (h : Host) (s : Scrap) (m : Mem) (procArea : Word) : Scrap :=
  trapPutScrap h s m (m.readInt32 (procArea + 12)) (m.readInt32 (procArea + 18))
    (m.readInt32 (procArea + 6))

/-- The data for the Mac in its memory. -/
def storeText (h : Host) (m : Mem) (type scrapArea : Word) (data : List Byte) : Mem :=
  if type = TEXT then
    m.storeBytes scrapArea data.length fun i => toMac h.noClipConversion (data.getD i 0)
  else m

def storeProc (m : Mem) (procArea type scrapArea : Word) (data : List Byte) : Mem :=
  let m := m.storeBytes procArea proc.length fun i => proc.getD i 0
  let m := m.writeInt32 (procArea + 6) (.ofNat 32 data.length)
  let m := m.writeInt32 (procArea + 12) type
  m.writeInt32 (procArea + 18) scrapArea

/-- `notify` is the event that the owner of the selection sends, if it does in time. -/
def doGetScrap (h : Host) (s : Scrap) (m : Mem) (windows : WindowId → Window)
    (notify : Option XSelectionEvent) (type : Word) : Except Stop Scrap :=
  -- If we own the selection, the data is already available on MacOS side
  if s.selectionOwner = h.clipWin then .ok s
  else
    let format := if type = TEXT then XA_STRING else None
    if format = None then .ok s
    else
      match notify with
      | none => .ok s
      | some event =>
        if event.property = None then .ok s
        else do
          match ← readProperty h.display (windows event.requestor) event.property false
              (format = XA_STRING) with
          | none => return s
          | some read =>
            let (scrapArea, m) := h.newPtrSysClear m (.ofNat 32 read.buffer.length)
            if scrapArea ≠ 0 then
              let m := storeText h m type scrapArea read.buffer
              let (procArea, m) := h.newPtrSysClear m (.ofNat 32 proc.length)
              let m := storeProc m procArea type scrapArea read.buffer
              return execute68k h { s with wePutThisData := true } m procArea
            else return s

end SheepShear.Clip
