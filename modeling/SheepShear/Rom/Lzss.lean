import SheepShear.Lib.Bytes
import SheepShear.Lib.Window

/-!
# LZSS data

`decode_lzss` of `rom_patches.cpp`, and what a stream of flags, literals and
copies stands for. The stream is what `src` points to, and may go on in memory
after its end.
-/

namespace SheepShear.Rom

-- ---------------------------------------------------------------------------
-- The decoder
-- ---------------------------------------------------------------------------

/-- The variables of the decoder; `src` counts the bytes read and `dest` holds those written. -/
structure LzssState where
  src : Nat
  dest : List Byte
  size : Int
  runMask : Nat
  dictIdx : Nat
  dict : Nat → Byte

namespace LzssState

/-- `if (--size < 0) break` and `*src++`; an error is the state in which the loop is left. -/
def fetch (mem : Nat → Byte) (s : LzssState) : Except LzssState (Byte × LzssState) :=
  let s := { s with size := s.size - 1 }
  if s.size < 0 then .error s else .ok (mem s.src, { s with src := s.src + 1 })

def put (s : LzssState) (c : Byte) : LzssState :=
  { s with
    dict := Function.update s.dict s.dictIdx c
    dest := s.dest ++ [c]
    dictIdx := (s.dictIdx + 1) &&& 0xfff }

/-- `while (cnt--)`. -/
def copy (idx : Nat) : Nat → LzssState → LzssState
  | 0, s => s
  | cnt + 1, s => copy ((idx + 1) &&& 0xfff) cnt (s.put (s.dict idx))

def startRun (mem : Nat → Byte) (s : LzssState) : Except LzssState LzssState :=
  if s.runMask < 0x100 then do
    let (c, s) ← s.fetch mem
    return { s with runMask := c.toNat ||| 0xff00 }
  else
    return s

def decodeItem (mem : Nat → Byte) (s : LzssState) : Except LzssState LzssState :=
  let bit := s.runMask &&& 1
  let s := { s with runMask := s.runMask >>> 1 }
  if bit ≠ 0 then do
    let (c, s) ← s.fetch mem
    return s.put c
  else do
    let (idx, s) ← s.fetch mem
    let (cnt, s) ← s.fetch mem
    let idx := idx.toNat ||| ((cnt.toNat <<< 4) &&& 0xf00)
    return s.copy idx ((cnt.toNat &&& 0x0f) + 3)

/-- `for (;;)`. -/
def loop (mem : Nat → Byte) : Nat → LzssState → Option LzssState
  | 0, _ => none
  | fuel + 1, s =>
    match s.startRun mem >>= decodeItem mem with
    | .ok s => loop mem fuel s
    | .error s => some s

end LzssState

/-- `dict` is what the array holds before anything is stored to it. -/
def decodeLzss (dict : Nat → Byte) (mem : Nat → Byte) (size : Int) : Option LzssState :=
  LzssState.loop mem (size.toNat + 1) ⟨0, [], size, 0, 0xfee, dict⟩

-- ---------------------------------------------------------------------------
-- The format
-- ---------------------------------------------------------------------------

inductive LzssToken where
  | literal (c : Byte)
  | copy (idx cnt : Nat)
deriving DecidableEq, Repr

/-- The flags of a run, the lowest bit first; a set bit announces a literal. -/
def runFlags (c : Byte) : List Bool := (List.range 8).map c.getLsbD

/-- The complete items of a stream, the first of them announced by `flags`. -/
def lzssTokens : List Bool → List Byte → List LzssToken
  | _, [] => []
  | [], c :: src => lzssTokens (runFlags c) src
  | true :: flags, c :: src => .literal c :: lzssTokens flags src
  | false :: _, [_] => []
  | false :: flags, lo :: hi :: src =>
    .copy (lo.toNat + hi.toNat / 16 * 256) (hi.toNat % 16 + 3) :: lzssTokens flags src

/-- A copy starts in the ring of the last 4096 bytes, the first of which went to 0xfee. -/
def LzssToken.decode (out : List Byte) : LzssToken → Option (List Byte)
  | .literal c => some (out ++ [c])
  | .copy idx cnt => Window.copyBack (Window.lagOf 0x1000 (0xfee + out.length) idx) cnt out

/-- Nothing when a copy takes a byte that has not been written. -/
def lzssDecode (src : List Byte) : Option (List Byte) :=
  (lzssTokens [] src).foldlM LzssToken.decode []

end SheepShear.Rom
